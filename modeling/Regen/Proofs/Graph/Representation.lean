import Regen.Proofs.Graph.Positions

/-! # What a graph represents

    A graph keeps names by position and edges by position in both directions.  Here is what its
    lists say about the dependencies that it was built from: the names are the known ones, in
    strictly ascending order, the needs of a name are the first occurrences of its entry, and the
    two directions are transposes of each other. -/

namespace Regen.Graph

variable {dependencies : Ledger (List String)} {more : List String}

/-- **A graph represents dependencies** and further names. -/
structure Represents (g : Graph) (dependencies : Ledger (List String)) (more : List String) :
    Prop where
  /-- The names ascend strictly. -/
  ascending : g.ids.Pairwise (Text.codes · < Text.codes ·)
  mem_ids : ∀ x, x ∈ g.ids ↔ Known dependencies more x
  /-- A name is found at its own position, and nothing else is found. -/
  position?_eq : ∀ x i, g.position? x = some i ↔ g.ids[i]? = some x
  needs_size : g.needs.size = g.ids.length
  users_size : g.users.size = g.ids.length
  needs_lt : ∀ js ∈ g.needs, ∀ j ∈ js, j < g.ids.length
  users_lt : ∀ is ∈ g.users, ∀ i ∈ is, i < g.ids.length
  /-- The needs are the first occurrences in the name's entry, in its order, and there are none
      without an entry. -/
  needsAt_eq : ∀ i x, g.ids[i]? = some x →
    (g.needsAt i).map g.nameAt = ((dependencies.find? x).getD []).eraseDups
  mem_iff : ∀ i j, j ∈ g.needsAt i ↔ i ∈ g.usersAt j
  users_ascending : ∀ is ∈ g.users, is.Pairwise (· < ·)
  /-- What a name needs is the same by name as by position; an unknown name needs nothing. -/
  dependenciesOf_eq : ∀ x, g.dependenciesOf x = ((dependencies.find? x).getD []).eraseDups
  /-- Those that need a name are given once and in order. -/
  dependentsOf_ascending : ∀ y, (g.dependentsOf y).Pairwise (Text.codes · < Text.codes ·)
  converse : ∀ x y, y ∈ g.dependenciesOf x ↔ x ∈ g.dependentsOf y

/-! ## Needs and users by name -/

section lawful
variable {g : Graph}

theorem mem_dependenciesOf (h : g.Lawful) {x y : String} :
    y ∈ g.dependenciesOf x ↔
      ∃ i j, i < g.size ∧ j < g.size ∧ g.nameAt i = x ∧ g.nameAt j = y ∧ g.Edge i j := by
  unfold dependenciesOf
  cases hx : g.position? x with
  | none =>
    constructor
    · intro hmem
      cases hmem
    · rintro ⟨i, _, hi, _, hname, _⟩
      rw [(position?_eq_some h).mpr ⟨hi, hname⟩] at hx
      cases hx
  | some i =>
    obtain ⟨hi, hname⟩ := (position?_eq_some h).mp hx
    rw [List.mem_map]
    constructor
    · rintro ⟨j, hj, hy⟩
      exact ⟨i, j, hi, h.edge_lt hj, hname, hy, hj⟩
    · rintro ⟨k, j, hk, _, hkname, hy, hedge⟩
      obtain rfl := nameAt_injective h hk hi (hkname.trans hname.symm)
      exact ⟨j, hedge, hy⟩

theorem mem_dependentsOf (h : g.Lawful) {x y : String} :
    x ∈ g.dependentsOf y ↔
      ∃ i j, i < g.size ∧ j < g.size ∧ g.nameAt i = x ∧ g.nameAt j = y ∧ g.Edge i j := by
  unfold dependentsOf
  cases hy : g.position? y with
  | none =>
    constructor
    · intro hmem
      cases hmem
    · rintro ⟨_, j, _, hj, _, hname, _⟩
      rw [(position?_eq_some h).mpr ⟨hj, hname⟩] at hy
      cases hy
  | some j =>
    obtain ⟨hj, hname⟩ := (position?_eq_some h).mp hy
    rw [List.mem_map]
    constructor
    · rintro ⟨i, hi, hx⟩
      have hedge := h.mem_usersAt.mp hi
      exact ⟨i, j, hedge.lt_left h, hj, hx, hname, hedge⟩
    · rintro ⟨i, k, _, hk, hx, hkname, hedge⟩
      obtain rfl := nameAt_injective h hk hj (hkname.trans hname.symm)
      exact ⟨i, h.mem_usersAt.mpr hedge, hx⟩

/-- Names ascend with their positions. -/
theorem codes_lt_of_lt (h : g.Lawful) {i j : Nat} (hij : i < j) (hj : j < g.size) :
    Text.codes (g.nameAt i) < Text.codes (g.nameAt j) := by
  have hi : i < g.size := Nat.lt_trans hij hj
  rw [nameAt_eq_getElem hi, nameAt_eq_getElem hj]
  exact List.pairwise_iff_getElem.mp h.ascending i j hi hj hij

/-- Those that need a name are given in order, as their positions are. -/
theorem pairwise_dependentsOf (h : g.Lawful) (husers : ∀ j, (g.usersAt j).Pairwise (· < ·))
    (y : String) : (g.dependentsOf y).Pairwise (Text.codes · < Text.codes ·) := by
  unfold dependentsOf
  cases g.position? y with
  | none => exact .nil
  | some j =>
    rw [List.pairwise_map]
    refine (husers j).imp_of_mem fun {i k} _ hk hlt => ?_
    exact codes_lt_of_lt h hlt ((h.mem_usersAt.mp hk).lt_left h)

end lawful

theorem exists_needsAt_of_mem {g : Graph} {js : List Nat} (hjs : js ∈ g.needs) :
    ∃ i, g.needsAt i = js := by
  obtain ⟨i, hi, rfl⟩ := Array.mem_iff_getElem.mp hjs
  exact ⟨i, by simp [needsAt, hi]⟩

theorem exists_usersAt_of_mem {g : Graph} {is : List Nat} (his : is ∈ g.users) :
    ∃ j, g.usersAt j = is := by
  obtain ⟨j, hj, rfl⟩ := Array.mem_iff_getElem.mp his
  exact ⟨j, by simp [usersAt, hj]⟩

/-! ## The main statement -/

/-- A name needs the first occurrences in its entry, and nothing without an entry. -/
theorem dependenciesOf_ofDependencies (dependencies : Ledger (List String)) (more : List String)
    (x : String) : (ofDependencies dependencies more).dependenciesOf x =
      ((dependencies.find? x).getD []).eraseDups := by
  have hlawful := lawful_ofDependencies dependencies more
  unfold dependenciesOf
  cases hx : (ofDependencies dependencies more).position? x with
  | some i => exact names_needsAt ((idxOf?_eq_some hlawful.nodup).mp hx)
  | none =>
    -- A name with an entry is known, and this one is not.
    cases hfind : dependencies.find? x with
    | none => rfl
    | some wanted =>
      obtain ⟨i, hi, hname⟩ := exists_position ((mem_ids_ofDependencies dependencies more).mpr
        (.inr ⟨_, Ledger.mem_of_find? hfind, .inl rfl⟩))
      rw [(position?_eq_some hlawful).mpr ⟨hi, hname⟩] at hx
      cases hx

/-- **A graph of dependencies represents them**, whatever the dependencies are: with repeats,
    with names that need themselves and with names that only others mention. -/
theorem represents_ofDependencies (dependencies : Ledger (List String)) (more : List String) :
    (ofDependencies dependencies more).Represents dependencies more := by
  have hlawful := lawful_ofDependencies dependencies more
  have hfilled := filled_ofDependencies dependencies more
  have husers := pairwise_usersAt dependencies more
  constructor
  · exact hlawful.ascending
  · intro x
    exact mem_ids_ofDependencies dependencies more
  · intro x i
    exact idxOf?_eq_some hlawful.nodup
  · exact hlawful.needs_size
  · rw [hfilled.users_size, hfilled.ids_eq]
  · intro js hjs j hj
    obtain ⟨i, rfl⟩ := exists_needsAt_of_mem hjs
    exact hlawful.edge_lt hj
  · intro is his i hi
    obtain ⟨j, rfl⟩ := exists_usersAt_of_mem his
    exact (hlawful.mem_usersAt.mp hi).lt_left hlawful
  · intro i x hx
    exact names_needsAt hx
  · intro i j
    exact hlawful.mem_usersAt.symm
  · intro is his
    obtain ⟨j, rfl⟩ := exists_usersAt_of_mem his
    exact husers j
  · exact dependenciesOf_ofDependencies dependencies more
  · exact pairwise_dependentsOf hlawful husers
  · intro x y
    rw [mem_dependenciesOf hlawful, mem_dependentsOf hlawful]

/-- A name that needs itself, and a need that is given twice. -/
example :
    (ofDependencies [("b", ["c", "a", "c", "b"]), ("a", ["c"])] ["z"]).needs =
        #[[2], [2, 0, 1], [], []] ∧
      (ofDependencies [("b", ["c", "a", "c", "b"]), ("a", ["c"])] ["z"]).users =
        #[[1], [1], [0, 1], []] := by decide

end Regen.Graph
