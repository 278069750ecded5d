import Regen.Proofs.Yaml.Faults
import Regen.Proofs.Yaml.Keys

/-! # Building values

    A document's nodes are met one after the other, and the values of the scalars among them are
    kept.  Two things are true of every step on the way: it fails on malformed documents and faults
    of scalars only, and what it keeps are values of scalars.  So a text is read as the value of a
    scalar or a collection of what is read, and one that is not is malformed or has a fault of a
    scalar. -/

namespace Regen.Yaml

/-- From a state a step fails on malformed documents and faults of scalars only, or it leads to a
    state that keeps only them. -/
def BuildsFrom {α : Type} (b : Builder) (m : Build α) : Prop :=
  Reads (m b) ∧ ∀ x b', m b = .ok (x, b') → b'.Kept

/-- A step that does so from every state that keeps values of scalars only. -/
def Builds {α : Type} (m : Build α) : Prop := ∀ b, b.Kept → BuildsFrom b m

section rules
variable {α β : Type} {m : Build α}

theorem Builds.pure (x : α) : Builds (pure x : Build α) := by
  intro b hb
  refine ⟨.ok _, fun y b' h => ?_⟩
  obtain ⟨-, rfl⟩ := Prod.mk.inj (Except.ok.inj h)
  exact hb

theorem Builds.malformed : Builds (Build.malformed : Build α) := by
  intro b hb
  refine ⟨reads_malformed, fun y b' h => ?_⟩
  cases h

/-- A result that the state has no part in. -/
theorem Builds.lift {x : Except ReadError α} (hx : Reads x) : Builds (liftM x : Build α) := by
  intro b hb
  refine ⟨hx.bind fun _ _ => .ok _, fun y b' h => ?_⟩
  obtain ⟨z, -, h⟩ := bind_eq_ok.mp h
  obtain ⟨-, rfl⟩ := Prod.mk.inj (Except.ok.inj h)
  exact hb

theorem BuildsFrom.bind {b : Builder} {k : α → Build β} (hm : BuildsFrom b m)
    (hk : ∀ x b', m b = .ok (x, b') → BuildsFrom b' (k x)) : BuildsFrom b (m >>= k) := by
  refine ⟨hm.1.bind fun p hp => (hk p.1 p.2 hp).1, fun y b' h => ?_⟩
  obtain ⟨p, hfirst, h⟩ := bind_eq_ok.mp h
  exact (hk p.1 p.2 hfirst).2 y b' h

theorem Builds.bind {k : α → Build β} (hm : Builds m) (hk : ∀ x, Builds (k x)) :
    Builds (m >>= k) := by
  intro b hb
  exact (hm b hb).bind fun x b' h => hk x b' ((hm b hb).2 x b' h)

theorem Builds.ite {c : Prop} [Decidable c] {n : Build α} (hm : Builds m) (hn : Builds n) :
    Builds (if c then m else n) := by
  split
  · exact hm
  · exact hn

/-- A step that looks at the state goes on from the state that it saw. -/
theorem Builds.look {k : Builder → Build β} (hk : ∀ b, b.Kept → BuildsFrom b (k b)) :
    Builds (get >>= k) :=
  hk

theorem Builds.get {k : Builder → Build β} (hk : ∀ b, Builds (k b)) : Builds (get >>= k) :=
  .look fun b hb => hk b b hb

theorem BuildsFrom.set {b c : Builder} {k : PUnit → Build β} (hc : c.Kept)
    (hk : ∀ x, Builds (k x)) : BuildsFrom b (set c >>= k) :=
  hk ⟨⟩ c hc

theorem Builds.modify {g : Builder → Builder} (hg : ∀ b, (g b).met = b.met) :
    Builds (modify g : Build PUnit) := by
  intro b hb
  refine ⟨.ok _, fun y b' h => ?_⟩
  obtain ⟨-, rfl⟩ := Prod.mk.inj (Except.ok.inj h)
  intro i v hv
  exact hb i v (hg b ▸ hv)

theorem Builds.forM {γ : Type} {g : γ → Build PUnit} (hg : ∀ x, Builds (g x)) (xs : List γ) :
    Builds (xs.forM g) := by
  induction xs with
  | nil => exact .pure _
  | cons x rest ih => exact (hg x).bind fun _ => ih

theorem Builds.foldlM {γ : Type} {g : β → γ → Build β} (hg : ∀ y x, Builds (g y x)) (y : β)
    (xs : List γ) : Builds (xs.foldlM g y) := by
  induction xs generalizing y with
  | nil => exact .pure _
  | cons x rest ih =>
    rw [List.foldlM_cons]
    exact (hg y x).bind fun _ => ih _

theorem Builds.mapM {γ : Type} {g : γ → Build β} (hg : ∀ x, Builds (g x)) (xs : List γ) :
    Builds (xs.mapM g) := by
  induction xs with
  | nil => exact .pure _
  | cons x rest ih =>
    rw [List.mapM_cons]
    exact (hg x).bind fun _ => ih.bind fun _ => .pure _

end rules

namespace Build

/-- **A scalar that is met gets its value**, and a collection gets none yet. -/
theorem builds_meet (n : Node) : Builds (meet n) := by
  apply Builds.look
  intro b hb
  split
  · exact Builds.pure _ b hb
  · split
    iterate 3 exact Builds.malformed b hb
    split
    · refine (Builds.lift (b.reads_scalar n) b hb).bind fun v b' hlift => ?_
      obtain ⟨w, hw, hlift⟩ := bind_eq_ok.mp hlift
      obtain ⟨rfl, rfl⟩ := Prod.mk.inj (Except.ok.inj hlift)
      refine BuildsFrom.set (Builder.kept_setMet hb n.id ?_ b.waiting) fun _ => .pure _
      rintro u ⟨⟩
      exact Builder.isLeaf_of_scalar hw
    · refine BuildsFrom.set (Builder.kept_setMet hb n.id ?_ _) fun _ => .pure _
      rintro u ⟨⟩

theorem builds_meetKey (n : Node) : Builds (meetKey n) := by
  refine (builds_meet n).bind fun m => ?_
  split
  · exact .pure _
  · exact .malformed

theorem builds_spread (fuel : Nat) (n : Node) : Builds (spread fuel n) := by
  induction fuel generalizing n with
  | zero => exact .malformed
  | succ fuel ih =>
    cases n with
    | scalar => exact .malformed
    | sequence => exact .malformed
    | mapping id tag es =>
      rw [spread]
      refine .get fun _ => .bind (.foldlM (fun x e => ?_) _ _) fun _ =>
        .ite (.bind (.modify fun _ => rfl) fun _ => .pure _) (.pure _)
      obtain ⟨taken, own⟩ := x
      obtain ⟨k, v⟩ := e
      refine .get fun _ => ?_
      split
      · cases v with
        | mapping => exact (ih _).bind fun _ => .pure _
        | sequence => exact .bind (.mapM ih _) fun _ => .pure _
        | scalar => exact .malformed
      · exact .bind (.modify fun _ => rfl) fun _ => .pure _
      · exact .pure _

theorem builds_meetPair (n : Node) : Builds (meetPair n) := by
  cases n with
  | scalar => exact .malformed
  | sequence => exact .malformed
  | mapping id tag es =>
    refine .get fun _ => ?_
    split
    · exact (builds_meet _).bind fun _ => (builds_meet _).bind fun _ => .pure _
    · exact .malformed

theorem builds_meetParts (n : Node) : Builds (meetParts n) := by
  refine .get fun b => ?_
  split
  · exact .forM (fun _ => (builds_meet _).bind fun _ => .pure _) _
  · exact (builds_spread _ _).bind fun _ => .forM (fun _ => (builds_meetKey _).bind fun _ =>
      (builds_meet _).bind fun _ => .pure _) _
  · exact (builds_spread _ _).bind fun _ => .forM (fun _ => (builds_meetKey _).bind fun _ =>
      (builds_meet _).bind fun _ => .pure _) _
  · exact .forM builds_meetPair _
  · exact .forM builds_meetPair _
  · exact .malformed

theorem builds_rounds (fuel : Nat) : Builds (rounds fuel) := by
  induction fuel with
  | zero => exact .pure _
  | succ fuel ih =>
    apply Builds.look
    intro b hb
    split
    · exact BuildsFrom.set (c := { b with waiting := [] }) hb fun _ =>
        (Builds.forM builds_meetParts _).bind fun _ => ih
    · exact Builds.pure _ b hb

/-- **All nodes of a document are met** from the root on. -/
theorem builds_all (d : Document) : Builds (do
    let _ ← meet d.root
    rounds (d.size + 1)) :=
  (builds_meet _).bind fun _ => builds_rounds _

end Build

/-! ## Reading -/

theorem reads_toValue (d : Document) : Reads d.toValue :=
  (Build.builds_all d _ (Builder.kept_start d.size)).1.bind fun _ _ => .ok _

/-- **Whatever a text says, it is malformed or has a fault of a scalar** if it cannot be read. -/
theorem reads_read (text : List Char) : Reads (read text) := by
  have htokens : Reads (tokens text) ∧
      ∀ r, tokens text = .ok r → ∀ f, r.fault = some f → ScalarFault f := by
    unfold tokens
    split
    · exact Lexer.run_fault _ _
    · refine ⟨reads_malformed, ?_⟩
      rintro r ⟨⟩
  refine htokens.1.bind fun run hrun => (reads_ofTokens (htokens.2 run hrun)).bind fun d _ => ?_
  split
  · exact .ok _
  · exact reads_toValue _

/-- What is no document is no text, malformed, or has a fault of a scalar. -/
theorem ofBytes_error {content : Bytes} {f : FileFault} (h : ofBytes content = .error f) :
    (∃ g, Text.decodeUtf8 content = .error g ∧ f = .value (.decoding g)) ∨ f = .malformed ∨
      ∃ g, ScalarFault g ∧ f = .value g := by
  unfold ofBytes at h
  split at h
  · next g hg => exact .inl ⟨g, hg, (Except.error.inj h).symm⟩
  · next cs _ =>
    have hreads := reads_read (Text.unifyNewlines cs)
    split at h
    · exact .inr (.inl (Except.error.inj h).symm)
    · next g hg => exact .inr (.inr ⟨g, hreads _ hg, (Except.error.inj h).symm⟩)
    · cases h

theorem isRead_of_toValue {d : Document} {v : Value} (h : d.toValue = .ok v) : v.IsRead := by
  obtain ⟨⟨_, b⟩, hrun, h⟩ := bind_eq_ok.mp h
  obtain rfl := Except.ok.inj h
  exact Builder.isRead_value ((Build.builds_all d _ (Builder.kept_start d.size)).2 _ b hrun) _ _

theorem isRead_of_read {text : List Char} {v : Value} (h : read text = .ok v) : v.IsRead := by
  obtain ⟨run, -, h⟩ := bind_eq_ok.mp h
  obtain ⟨d, -, h⟩ := bind_eq_ok.mp h
  split at h
  · obtain rfl := Except.ok.inj h
    exact .null
  · exact isRead_of_toValue h

/-- **What a file holds is read** from its text. -/
theorem isRead_of_load {d : Disk} {p : Path} {v : Value} (h : load d p = .ok v) : v.IsRead := by
  unfold load at h
  split at h
  · cases h
  · split at h
    · cases h
    · unfold ofBytes at h
      split at h
      · cases h
      · split at h
        · cases h
        · cases h
        · next hread =>
          obtain rfl := Except.ok.inj h
          exact isRead_of_read hread

end Regen.Yaml
