import Mathlib.Data.List.Forall2
import Regen.Failure

/-! # Outcomes

    A computation of several steps succeeds when each of its steps does, on what the steps before
    it gave, and it stops where one of them stops.  The steps may change a state on the way: what
    was done before a stop stays done. -/

namespace Regen

/-- Two steps succeed when the second succeeds on what the first gives. -/
theorem bind_eq_ok {ε α β : Type} {x : Except ε α} {f : α → Except ε β} {y : β} :
    x >>= f = .ok y ↔ ∃ a, x = .ok a ∧ f a = .ok y := by
  match x with
  | .ok a => exact ⟨fun h => ⟨a, rfl, h⟩, fun ⟨_, hx, h⟩ => Except.ok.inj hx ▸ h⟩
  | .error _ => exact ⟨fun h => (nomatch h), fun ⟨_, hx, _⟩ => (nomatch hx)⟩

/-- Two steps fail when the first does, or the second on what the first gives. -/
theorem bind_eq_error {ε α β : Type} {x : Except ε α} {f : α → Except ε β} {e : ε} :
    x >>= f = .error e ↔ x = .error e ∨ ∃ a, x = .ok a ∧ f a = .error e := by
  match x with
  | .ok a =>
    exact ⟨fun h => .inr ⟨a, rfl, h⟩,
      fun h => h.elim (fun h => nomatch h) fun ⟨_, hx, h⟩ => Except.ok.inj hx ▸ h⟩
  | .error _ =>
    exact ⟨fun h => .inl (Except.error.inj h ▸ rfl),
      fun h => h.elim (fun h => Except.error.inj h ▸ rfl) fun ⟨_, hx, _⟩ => nomatch hx⟩

/-- Another wording of failures leaves what is given. -/
theorem mapError_eq_ok {ε ε' α : Type} {x : Except ε α} {f : ε → ε'} {y : α} :
    x.mapError f = .ok y ↔ x = .ok y := by
  match x with
  | .ok _ =>
    exact ⟨fun h => congrArg Except.ok (Except.ok.inj h), fun h => congrArg Except.ok (Except.ok.inj h)⟩
  | .error _ => exact ⟨fun h => (nomatch h), fun h => (nomatch h)⟩

/-- Why a computation fails, if it does. -/
def cause? {ε α : Type} : Except ε α → Option ε
  | .ok _ => none
  | .error e => some e

theorem cause?_eq_some {ε α : Type} {x : Except ε α} {e : ε} :
    cause? x = some e ↔ x = .error e := by
  cases x with
  | ok => simp [cause?]
  | error => simp [cause?]

/-- What passes a check is there. -/
theorem exists_ok_of_any {ε α : Type} {x : Except ε α} {p : α → Bool} (h : x.toOption.any p) :
    ∃ a, x = .ok a ∧ p a := by
  match x with
  | .ok a => exact ⟨a, rfl, h⟩
  | .error _ => cases h

/-- A step for every element succeeds when each of them does. -/
theorem mapM_eq_ok {ε α β : Type} {xs : List α} {f : α → Except ε β} {ys : List β} :
    xs.mapM f = .ok ys ↔ List.Forall₂ (fun x y => f x = .ok y) xs ys := by
  induction xs generalizing ys with
  | nil =>
    rw [List.mapM_nil, List.forall₂_nil_left_iff]
    exact ⟨fun h => (Except.ok.inj h).symm, fun h => h ▸ rfl⟩
  | cons x rest ih =>
    rw [List.mapM_cons, bind_eq_ok, List.forall₂_cons_left_iff]
    constructor
    · rintro ⟨y, hy, h⟩
      obtain ⟨zs, hzs, h⟩ := bind_eq_ok.mp h
      exact ⟨y, zs, hy, ih.mp hzs, (Except.ok.inj h).symm⟩
    · rintro ⟨y, zs, hy, hzs, rfl⟩
      exact ⟨y, hy, bind_eq_ok.mpr ⟨zs, ih.mpr hzs, rfl⟩⟩

/-- A step for every element that succeeds does so for each of them, and keeps what it gives. -/
theorem exists_mem_of_mapM {ε α β : Type} {xs : List α} {f : α → Except ε β} {ys : List β} {x : α}
    (h : xs.mapM f = .ok ys) (hx : x ∈ xs) : ∃ y ∈ ys, f x = .ok y := by
  have hsteps := mapM_eq_ok.mp h
  clear h
  induction hsteps with
  | nil => cases hx
  | cons hhead _ ih =>
    rcases List.mem_cons.mp hx with rfl | hx
    · exact ⟨_, List.mem_cons_self, hhead⟩
    · obtain ⟨y, hy, hgives⟩ := ih hx
      exact ⟨y, List.mem_cons_of_mem _ hy, hgives⟩

theorem ok_of_mapM {ε α β : Type} {xs : List α} {f : α → Except ε β} {ys : List β} {x : α}
    (h : xs.mapM f = .ok ys) (hx : x ∈ xs) : ∃ y, f x = .ok y :=
  have ⟨y, _, hgives⟩ := exists_mem_of_mapM h hx
  ⟨y, hgives⟩

/-- A step for every element succeeds if it does for each of them. -/
theorem exists_mapM {ε α β : Type} {xs : List α} {f : α → Except ε β}
    (h : ∀ x ∈ xs, ∃ y, f x = .ok y) : ∃ ys, xs.mapM f = .ok ys := by
  induction xs with
  | nil => exact ⟨[], rfl⟩
  | cons x rest ih =>
    obtain ⟨y, hy⟩ := h x List.mem_cons_self
    obtain ⟨ys, hys⟩ := ih fun z hz => h z (List.mem_cons_of_mem _ hz)
    refine ⟨y :: ys, ?_⟩
    rw [List.mapM_cons, hy, hys]
    rfl

/-- What a step for every element gave came from one of them. -/
theorem exists_of_mem_mapM {ε α β : Type} {xs : List α} {f : α → Except ε β} {ys : List β} {y : β}
    (h : xs.mapM f = .ok ys) (hy : y ∈ ys) : ∃ x ∈ xs, f x = .ok y := by
  have hsteps := mapM_eq_ok.mp h
  clear h
  induction hsteps with
  | nil => cases hy
  | cons hx _ ih =>
    rcases List.mem_cons.mp hy with rfl | hy
    · exact ⟨_, List.mem_cons_self, hx⟩
    · obtain ⟨x, hmem, hx⟩ := ih hy
      exact ⟨x, List.mem_cons_of_mem _ hmem, hx⟩

/-- A check of every element succeeds when each of them can be checked, and keeps those that
    pass. -/
theorem filterM_eq_ok {ε α : Type} {xs : List α} {f : α → Except ε Bool} {ys : List α} :
    xs.filterM f = .ok ys ↔
      (∀ x ∈ xs, ∃ b, f x = .ok b) ∧ ys = xs.filter fun x => (f x).toOption.getD false := by
  have haux : ∀ zs zs', List.filterAuxM f xs zs = .ok zs' ↔ (∀ x ∈ xs, ∃ b, f x = .ok b) ∧
      zs' = (xs.filter fun x => (f x).toOption.getD false).reverse ++ zs := by
    induction xs with
    | nil =>
      intro zs zs'
      constructor
      · intro h
        exact ⟨fun _ hx => absurd hx List.not_mem_nil, (Except.ok.inj h).symm⟩
      · rintro ⟨-, rfl⟩
        rfl
    | cons x xs ih =>
      intro zs zs'
      rw [List.filterAuxM, bind_eq_ok, List.forall_mem_cons, List.filter_cons]
      constructor
      · rintro ⟨b, hb, h⟩
        obtain ⟨hall, rfl⟩ := (ih _ _).mp h
        refine ⟨⟨⟨b, hb⟩, hall⟩, ?_⟩
        rw [hb]
        cases b <;> simp [Except.toOption]
      · rintro ⟨⟨⟨b, hb⟩, hall⟩, rfl⟩
        refine ⟨b, hb, (ih _ _).mpr ⟨hall, ?_⟩⟩
        rw [hb]
        cases b <;> simp [Except.toOption]
  rw [List.filterM, bind_eq_ok]
  constructor
  · rintro ⟨zs, hzs, h⟩
    obtain ⟨hall, rfl⟩ := (haux _ _).mp hzs
    exact ⟨hall, by rw [← Except.ok.inj h, List.append_nil, List.reverse_reverse]⟩
  · rintro ⟨hall, rfl⟩
    exact ⟨_, (haux _ _).mpr ⟨hall, rfl⟩, by rw [List.append_nil, List.reverse_reverse]; rfl⟩

section steps
variable {ε σ α β : Type}

/-- In a state a computation gives a value and leaves another state. -/
def Gives (c : ExceptT ε (StateM σ) α) (s : σ) (x : α) (s' : σ) : Prop :=
  c.run.run s = (.ok x, s')

/-- In a state a computation stops early, for a reason, and leaves another state. -/
def Stops (c : ExceptT ε (StateM σ) α) (s : σ) (e : ε) (s' : σ) : Prop :=
  c.run.run s = (.error e, s')

variable {c : ExceptT ε (StateM σ) α} {f : α → ExceptT ε (StateM σ) β} {s s' s'' : σ}

/-- A computation either gives a value or stops. -/
theorem gives_or_stops (c : ExceptT ε (StateM σ) α) (s : σ) :
    (∃ x s', Gives c s x s') ∨ ∃ e s', Stops c s e s' := by
  match hrun : c.run.run s with
  | (.ok x, s') => exact .inl ⟨x, s', hrun⟩
  | (.error e, s') => exact .inr ⟨e, s', hrun⟩

theorem gives_of_fst {x : α} (h : (c.run.run s).1 = .ok x) : Gives c s x (c.run.run s).2 :=
  Prod.ext h rfl

theorem Gives.run_bind {x : α} (h : Gives c s x s') : (c >>= f).run.run s = (f x).run.run s' := by
  rw [Gives] at h
  rw [ExceptT.run_bind, StateT.run_bind, h]
  rfl

theorem Stops.run_bind {e : ε} (h : Stops c s e s') : (c >>= f).run.run s = (.error e, s') := by
  rw [Stops] at h
  rw [ExceptT.run_bind, StateT.run_bind, h]
  rfl

/-- Two steps give what the second gives on what the first gave. -/
theorem gives_bind {y : β} :
    Gives (c >>= f) s y s'' ↔ ∃ x s', Gives c s x s' ∧ Gives (f x) s' y s'' := by
  constructor
  · intro h
    rcases gives_or_stops c s with ⟨x, s', hc⟩ | ⟨e, s', hc⟩
    · exact ⟨x, s', hc, hc.run_bind.symm.trans h⟩
    · cases (Prod.mk.inj (hc.run_bind.symm.trans h)).1
  · rintro ⟨x, s', hc, hf⟩
    exact hc.run_bind.trans hf

theorem gives_pure {x y : α} :
    Gives (pure x : ExceptT ε (StateM σ) α) s y s' ↔ x = y ∧ s = s' := by
  constructor
  · intro h
    obtain ⟨hx, hs⟩ := Prod.mk.inj h
    exact ⟨Except.ok.inj hx, hs⟩
  · rintro ⟨rfl, rfl⟩
    rfl

theorem gives_get {x : σ} :
    Gives (get : ExceptT ε (StateM σ) σ) s x s' ↔ s = x ∧ s = s' := by
  constructor
  · intro h
    obtain ⟨hx, hs⟩ := Prod.mk.inj h
    exact ⟨Except.ok.inj hx, hs⟩
  · rintro ⟨rfl, rfl⟩
    rfl

theorem not_gives_throw {e : ε} {x : α} : ¬Gives (throw e : ExceptT ε (StateM σ) α) s x s' :=
  fun h => nomatch (Prod.mk.inj h).1

/-! ## Reasons to stop -/

/-- Whenever a computation stops, it does so for a reason of a kind. -/
def StopsOnly (P : ε → Prop) (c : ExceptT ε (StateM σ) α) : Prop :=
  ∀ s e s', Stops c s e s' → P e

variable {P : ε → Prop}

theorem StopsOnly.pure (x : α) : StopsOnly P (pure x : ExceptT ε (StateM σ) α) :=
  fun _ _ _ h => nomatch (Prod.mk.inj h).1

theorem StopsOnly.throw {e : ε} (h : P e) : StopsOnly P (throw e : ExceptT ε (StateM σ) α) :=
  fun _ _ _ hstops => Except.error.inj (Prod.mk.inj hstops).1 ▸ h

theorem StopsOnly.get : StopsOnly P (get : ExceptT ε (StateM σ) σ) :=
  fun _ _ _ h => nomatch (Prod.mk.inj h).1

theorem StopsOnly.modify (g : σ → σ) : StopsOnly P (modify g : ExceptT ε (StateM σ) PUnit) :=
  fun _ _ _ h => nomatch (Prod.mk.inj h).1

/-- Two steps stop where one of them does. -/
theorem StopsOnly.bind (hc : StopsOnly P c) (hf : ∀ x, StopsOnly P (f x)) :
    StopsOnly P (c >>= f) := by
  intro s e s'' h
  rcases gives_or_stops c s with ⟨x, s', hgives⟩ | ⟨e', s', hstops⟩
  · exact hf x s' e s'' (hgives.run_bind.symm.trans h)
  · obtain rfl := Except.error.inj (Prod.mk.inj (hstops.run_bind.symm.trans h)).1
    exact hc s e' s' hstops

theorem StopsOnly.mapM {γ : Type} {g : γ → ExceptT ε (StateM σ) α} {xs : List γ}
    (hg : ∀ x, StopsOnly P (g x)) : StopsOnly P (xs.mapM g) := by
  induction xs with
  | nil => exact .pure []
  | cons x rest ih =>
    rw [List.mapM_cons]
    exact (hg x).bind fun _ => ih.bind fun _ => .pure _

theorem StopsOnly.forIn {γ : Type} {g : γ → β → ExceptT ε (StateM σ) (ForInStep β)}
    {xs : List γ} {y : β} (hg : ∀ x y, StopsOnly P (g x y)) : StopsOnly P (forIn xs y g) := by
  induction xs generalizing y with
  | nil => exact .pure y
  | cons x rest ih =>
    rw [List.forIn_cons]
    refine (hg x y).bind fun z => ?_
    match z with
    | .done y => exact .pure y
    | .yield y => exact ih

/-! ## What stays as it was -/

/-- Whenever a computation gives a value, it leaves a part of the state as it was. -/
def Leaves {τ : Type} (part : σ → τ) (c : ExceptT ε (StateM σ) α) : Prop :=
  ∀ s x s', Gives c s x s' → part s' = part s

section leaves
variable {τ : Type} {part : σ → τ}

theorem Leaves.pure (x : α) : Leaves part (pure x : ExceptT ε (StateM σ) α) :=
  fun _ _ _ h => (gives_pure.mp h).2 ▸ rfl

theorem Leaves.throw {e : ε} : Leaves part (throw e : ExceptT ε (StateM σ) α) :=
  fun _ _ _ h => absurd h not_gives_throw

theorem Leaves.modify {g : σ → σ} (hg : ∀ s, part (g s) = part s) :
    Leaves part (modify g : ExceptT ε (StateM σ) PUnit) :=
  fun s _ _ h => (Prod.mk.inj h).2 ▸ hg s

/-- Two steps leave what both of them leave. -/
theorem Leaves.bind (hc : Leaves part c) (hf : ∀ x, Leaves part (f x)) :
    Leaves part (c >>= f) := by
  intro s y s'' h
  obtain ⟨x, s', hgives, h⟩ := gives_bind.mp h
  exact (hf x s' y s'' h).trans (hc s x s' hgives)

theorem Leaves.forIn {γ : Type} {g : γ → β → ExceptT ε (StateM σ) (ForInStep β)}
    {xs : List γ} {y : β} (hg : ∀ x y, Leaves part (g x y)) : Leaves part (forIn xs y g) := by
  induction xs generalizing y with
  | nil => exact .pure y
  | cons x rest ih =>
    rw [List.forIn_cons]
    refine (hg x y).bind fun z => ?_
    match z with
    | .done y => exact .pure y
    | .yield y => exact ih

end leaves

end steps

end Regen
