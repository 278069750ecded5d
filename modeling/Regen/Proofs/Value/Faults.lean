import Regen.Lockfile.Document
import Regen.Proofs.Outcome

/-! # Faults of conversions

    What can be wrong when a value of a document is converted.  Nearly every fault says that a
    value has the wrong shape or no meaning.  Only two numbers are too large to be converted: an
    infinite one where an integer is needed, and an integer beyond all reals where a real is. -/

namespace Regen

/-- Whenever a computation fails, it does so for a reason of a kind. -/
def FailsOnly {ε α : Type} (P : ε → Prop) (x : Except ε α) : Prop := ∀ e, x = .error e → P e

section failing
variable {ε ε' α β : Type} {P Q : ε → Prop} {x : Except ε α}

theorem FailsOnly.ok (a : α) : FailsOnly P (.ok a) := fun _ h => nomatch h

theorem FailsOnly.error {e : ε} (h : P e) : FailsOnly P (.error e : Except ε α) :=
  fun _ he => Except.error.inj he ▸ h

theorem FailsOnly.mono (h : FailsOnly P x) (hPQ : ∀ e, P e → Q e) : FailsOnly Q x :=
  fun e he => hPQ e (h e he)

theorem FailsOnly.ite {c : Prop} [Decidable c] {y : Except ε α} (hx : FailsOnly P x)
    (hy : FailsOnly P y) : FailsOnly P (if c then x else y) := by
  split
  · exact hx
  · exact hy

/-- Two steps fail as one of them does. -/
theorem FailsOnly.bind {f : α → Except ε β} (hx : FailsOnly P x)
    (hf : ∀ a, x = .ok a → FailsOnly P (f a)) : FailsOnly P (x >>= f) := by
  intro e h
  rcases bind_eq_error.mp h with h | ⟨a, ha, h⟩
  · exact hx e h
  · exact hf a ha e h

theorem FailsOnly.map {f : α → β} (hx : FailsOnly P x) : FailsOnly P (x.map f) := by
  intro e h
  match x with
  | .error _ => exact hx e (congrArg _ (Except.error.inj h))

theorem FailsOnly.mapError {f : ε → ε'} {P' : ε' → Prop} (hx : FailsOnly (fun e => P' (f e)) x) :
    FailsOnly P' (x.mapError f) := by
  intro e h
  match x with
  | .error e' => exact Except.error.inj h ▸ hx e' rfl

theorem FailsOnly.mapM {f : α → Except ε β} {xs : List α} (hf : ∀ a ∈ xs, FailsOnly P (f a)) :
    FailsOnly P (xs.mapM f) := by
  induction xs with
  | nil => exact .ok []
  | cons a rest ih =>
    rw [List.mapM_cons]
    exact (hf a List.mem_cons_self).bind fun _ _ =>
      (ih fun b hb => hf b (List.mem_cons_of_mem _ hb)).bind fun _ _ => .ok _

end failing

open Number

/-- A fault of a shape or a meaning: not of a missing key, of bytes or of a size. -/
def Fault.IsPlain (f : Fault) : Prop := f.kind = .type ∨ f.kind = .attribute ∨ f.kind = .value

/-! ## Numbers -/

theorem failsOnly_readInt (base : Nat) (s : String) : FailsOnly Fault.IsPlain (readInt base s) := by
  unfold readInt
  dsimp only
  split
  · split
    · exact .error (.inr (.inr rfl))
    · exact .ok _
  · exact .error (.inr (.inr rfl))

theorem failsOnly_readReal (s : String) : FailsOnly Fault.IsPlain (readReal s) := by
  unfold readReal
  split
  · exact .ok _
  · exact .error (.inr (.inr rfl))

/-- **What stands for no integer** has the wrong shape or no meaning, or it is infinite. -/
theorem failsOnly_toInt (v : Value) : FailsOnly
    (fun f => f.IsPlain ∨ f = .infinityToInt ∧ ∃ negative, v = .real (.infinite negative))
    v.toInt := by
  unfold Value.toInt
  split
  · exact .ok _
  · exact .ok _
  · next x =>
    match x with
    | .nan _ => exact .error (.inl (.inr (.inr rfl)))
    | .infinite negative => exact .error (.inr ⟨rfl, negative, rfl⟩)
    | .finite .. => exact .ok _
  · exact (failsOnly_readInt 10 _).mono fun _ h => .inl h
  · split
    · split
      · exact .ok _
      · exact .error (.inl (.inr (.inr rfl)))
    · exact .error (.inl (.inr (.inr rfl)))
  · exact .error (.inl (.inl rfl))

/-- **What stands for no real** has the wrong shape or no meaning, or it is an integer beyond all
    reals. -/
theorem failsOnly_toReal (v : Value) : FailsOnly
    (fun f => f.IsPlain ∨ f = .intTooLarge ∧ ∃ n, v = .int n ∧ Binary64.ofInt? n = .error f)
    v.toReal := by
  unfold Value.toReal
  split
  · exact .ok _
  · next n =>
    intro f h
    refine .inr ⟨?_, n, rfl, h⟩
    unfold Binary64.ofInt? at h
    split at h
    · exact (Except.error.inj h).symm
    · cases h
  · exact .ok _
  · exact (failsOnly_readReal _).mono fun _ h => .inl h
  · split
    · split
      · exact .ok _
      · exact .error (.inl (.inr (.inr rfl)))
    · exact .error (.inl (.inr (.inr rfl)))
  · exact .error (.inl (.inl rfl))

/-! ## Texts and moments -/

theorem failsOnly_toText (v : Value) : FailsOnly Fault.IsPlain v.toText :=
  .ite (.error (.inr (.inr rfl))) (.ok _)

theorem failsOnly_dateOfFields? (year month day : Nat) :
    FailsOnly Fault.IsPlain (Time.Date.ofFields? year month day) :=
  .ite (.error (.inr (.inr rfl))) (.ite (.error (.inr (.inr rfl)))
    (.ite (.error (.inr (.inr rfl))) (.ok _)))

theorem failsOnly_momentOfFields? (year month day hour minute second micro : Nat)
    (offset : Option Int) : FailsOnly Fault.IsPlain
      (Time.Moment.ofFields? year month day hour minute second micro offset) :=
  (failsOnly_dateOfFields? _ _ _).bind fun _ _ => .ite (.error (.inr (.inr rfl)))
    (.ite (.error (.inr (.inr rfl))) (.ite (.error (.inr (.inr rfl))) (.ok _)))

theorem failsOnly_checkOffset (micros : Int) :
    FailsOnly Fault.IsPlain (Time.checkOffset micros) :=
  .ite (.ok _) (.error (.inr (.inr rfl)))

theorem failsOnly_moment? (s : String) : FailsOnly Fault.IsPlain (Time.Iso.moment? s) := by
  unfold Time.Iso.moment?
  split
  · exact .error (.inr (.inr rfl))
  · next date time offset _ =>
    match date, offset with
    | .beforeFirstYear, none => exact .error (.inr (.inr rfl))
    | .beforeFirstYear, some o =>
      exact (failsOnly_checkOffset o).map.bind fun _ _ => .error (.inr (.inr rfl))
    | .fields .., none => exact failsOnly_momentOfFields? _ _ _ _ _ _ _ _
    | .fields .., some o =>
      exact (failsOnly_checkOffset o).map.bind fun _ _ => failsOnly_momentOfFields? _ _ _ _ _ _ _ _

/-- **What stands for no moment** has no meaning. -/
theorem failsOnly_toMoment (v : Value) : FailsOnly Fault.IsPlain v.toMoment := by
  unfold Value.toMoment
  split
  · exact .ok _
  · exact (failsOnly_toText _).bind fun _ _ => (failsOnly_moment? _).map

/-! ## Members -/

theorem failsOnly_member? (v : Value) (key : String) : FailsOnly Fault.IsPlain (v.member? key) := by
  unfold Value.member?
  split
  · exact .ok _
  · exact .error (.inr (.inl rfl))

theorem failsOnly_member (v : Value) (key : String) :
    FailsOnly (fun f => f.IsPlain ∨ f = .missingKey key) (v.member key) := by
  unfold Value.member
  split
  · split
    · exact .ok _
    · exact .error (.inr rfl)
  iterate 5 exact .error (.inl (.inl rfl))

theorem failsOnly_elements (v : Value) : FailsOnly Fault.IsPlain v.elements := by
  unfold Value.elements
  split
  · exact .ok _
  · exact .error (.inl rfl)

theorem failsOnly_items (v : Value) : FailsOnly Fault.IsPlain v.items := by
  unfold Value.items
  split
  · exact .ok _
  · exact .error (.inr (.inl rfl))

theorem failsOnly_pairOf (place : Nat) (v : Value) :
    FailsOnly Fault.IsPlain (Value.pairOf place v) := by
  unfold Value.pairOf
  split
  · split
    · exact .ok _
    · exact .error (.inl rfl)
  · exact .error (.inr (.inr rfl))
  · exact .error (.inl rfl)

theorem failsOnly_insertPairs (es : Entries) (place : Nat) (vs : List Value) :
    FailsOnly Fault.IsPlain (Value.insertPairs es place vs) := by
  induction vs generalizing es place with
  | nil => exact .ok _
  | cons v rest ih => exact (failsOnly_pairOf _ _).bind fun _ _ => ih _ _

theorem failsOnly_toEntries (v : Value) : FailsOnly Fault.IsPlain v.toEntries := by
  unfold Value.toEntries
  split
  · exact .ok _
  · exact (failsOnly_elements _).bind fun _ _ => failsOnly_insertPairs _ _ _

/-- A counter fails plainly unless it is infinite. -/
theorem failsOnly_counter (v : Value) (key : String) : FailsOnly
    (fun f => f.IsPlain ∨ f = .infinityToInt ∧
      ∃ negative, v.member? key = .ok (some (.real (.infinite negative))))
    (counter v key) := by
  refine .bind ((failsOnly_member? v key).mono fun _ h => .inl h) fun w hw => ?_
  refine (failsOnly_toInt _).mono fun f h => h.imp_right ?_
  rintro ⟨rfl, negative, hv⟩
  match w with
  | none => cases hv
  | some w => exact ⟨rfl, negative, hw.trans (congrArg _ (congrArg some hv))⟩

end Regen
