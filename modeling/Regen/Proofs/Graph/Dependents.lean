import Regen.Graph.Dependents
import Regen.Proofs.Graph.Positions

/-! # Transitive dependents are reachability

    One set of visited positions serves the walks from all changed sources.  The invariant
    `Spread` says what a walk knows with some positions still on its stack:

    * everything visited or on the stack reaches a start;
    * everything found reaches a start by at least one edge;
    * the users of a visited position are found, and visited or on the stack.

    The users of a position are pushed once, when it is visited, so that the positions on the
    stack and the users of the unvisited ones together bound the steps. -/

namespace Regen.Graph

open Relation

variable {g : Graph}

/-! ## Visiting a position -/

namespace Reach

/-- A walk over the positions of a graph. -/
structure Fits (g : Graph) (r : Reach) : Prop where
  visited_size : r.visited.size = g.size
  found_size : r.found.size = g.size

theorem fits_start : Fits g (start g.size) := by
  constructor <;> simp [start]

theorem isVisited_of_size_le {r : Reach} (h : r.Fits g) {i : Nat} (hi : g.size ≤ i) :
    r.isVisited i = true := by
  unfold isVisited
  rw [Array.getElem?_eq_none (by rw [h.visited_size]; exact hi)]
  rfl

theorem isVisited_visit {r : Reach} (h : r.Fits g) {i j : Nat} (hi : i < g.size) :
    (r.visit g i).isVisited j = true ↔ j = i ∨ r.isVisited j = true := by
  unfold isVisited visit
  rw [Array.getElem?_setIfInBounds]
  by_cases hj : i = j
  · subst hj
    simp [h.visited_size, hi]
  · have hj' : j ≠ i := Ne.symm hj
    simp [hj, hj']

/-- Marking positions keeps the marks that are there. -/
theorem getD_foldl_setIfInBounds (is : List Nat) (marks : Array Bool) (k : Nat)
    (his : ∀ i ∈ is, i < marks.size) :
    (((is.foldl (fun marks i => marks.setIfInBounds i true) marks)[k]?).getD false = true ↔
      k ∈ is ∨ (marks[k]?).getD false = true) ∧
    (is.foldl (fun marks i => marks.setIfInBounds i true) marks).size = marks.size := by
  induction is generalizing marks with
  | nil => simp
  | cons i is ih =>
    have hsize : (marks.setIfInBounds i true).size = marks.size := Array.size_setIfInBounds
    have hi : i < marks.size := his i (List.mem_cons_self ..)
    obtain ⟨hmark, hrest⟩ := ih (marks.setIfInBounds i true)
      (fun j hj => by rw [hsize]; exact his j (List.mem_cons_of_mem _ hj))
    refine ⟨?_, by rw [List.foldl_cons, hrest, hsize]⟩
    rw [List.foldl_cons, hmark, List.mem_cons, Array.getElem?_setIfInBounds]
    by_cases hk : i = k
    · subst hk
      simp [hi]
    · have hk' : k ≠ i := Ne.symm hk
      simp [hk, hk']

theorem user_lt (hg : g.Lawful) {r : Reach} (h : r.Fits g) {i : Nat} :
    ∀ k ∈ g.usersAt i, k < r.found.size := by
  intro k hk
  rw [h.found_size]
  exact (hg.mem_usersAt.mp hk).lt_left hg

theorem isFound_visit (hg : g.Lawful) {r : Reach} (h : r.Fits g) {i j : Nat} :
    (r.visit g i).isFound j = true ↔ g.Edge j i ∨ r.isFound j = true := by
  rw [← hg.mem_usersAt]
  exact (getD_foldl_setIfInBounds (g.usersAt i) r.found j (user_lt hg h)).1

theorem Fits.visit (hg : g.Lawful) {r : Reach} (h : r.Fits g) (i : Nat) : (r.visit g i).Fits g := by
  constructor
  · exact Array.size_setIfInBounds.trans h.visited_size
  · have hsize := (getD_foldl_setIfInBounds (g.usersAt i) r.found 0 (user_lt hg h)).2
    exact hsize.trans h.found_size

end Reach

/-! ## The stack empties -/

/-- How many positions may still be pushed: the users of the positions that are not visited. -/
def usersLeft (g : Graph) (r : Reach) : Nat :=
  ∑ j ∈ (Finset.range g.size).filter (fun j => r.isVisited j = false), (g.usersAt j).length

/-- A visit uses up the users of its position. -/
theorem usersLeft_visit {r : Reach} (h : r.Fits g) {i : Nat} (hi : i < g.size)
    (hnew : r.isVisited i = false) :
    usersLeft g (r.visit g i) + (g.usersAt i).length = usersLeft g r := by
  have hmem : i ∈ (Finset.range g.size).filter (fun j => r.isVisited j = false) :=
    Finset.mem_filter.mpr ⟨Finset.mem_range.mpr hi, hnew⟩
  have hrest : (Finset.range g.size).filter (fun j => (r.visit g i).isVisited j = false) =
      ((Finset.range g.size).filter (fun j => r.isVisited j = false)).erase i := by
    ext j
    simp only [Finset.mem_filter, Finset.mem_erase, ← Bool.not_eq_true, Reach.isVisited_visit h hi]
    tauto
  unfold usersLeft
  rw [hrest, Finset.sum_erase_add _ _ hmem]

theorem usersLeft_le (hg : g.Lawful) (r : Reach) : usersLeft g r ≤ g.edgeCount := by
  rw [edgeCount_eq_sum_users hg]
  exact Finset.sum_le_sum_of_subset (Finset.filter_subset _ _)

/-- What a visit pushes onto the stack. -/
def fresh (g : Graph) (r : Reach) (i : Nat) : List Nat :=
  ((g.usersAt i).filter fun j => !(r.visit g i).isVisited j).reverse

theorem mem_fresh {r : Reach} {i j : Nat} :
    j ∈ fresh g r i ↔ j ∈ g.usersAt i ∧ (r.visit g i).isVisited j = false := by
  simp [fresh]

theorem length_fresh_le (r : Reach) (i : Nat) : (fresh g r i).length ≤ (g.usersAt i).length := by
  rw [fresh, List.length_reverse]
  exact List.length_filter_le _ _

/-- One step of a walk that still has something on its stack. -/
theorem spread_cons (fuel i : Nat) (rest : List Nat) (r : Reach) :
    spread g (fuel + 1) (i :: rest) r =
      if r.isVisited i then spread g fuel rest r
      else spread g fuel (fresh g r i ++ rest) (r.visit g i) := rfl

@[simp] theorem spread_nil (fuel : Nat) (r : Reach) : spread g fuel [] r = r := by
  cases fuel <;> rfl

/-- A position that is not visited exists. -/
theorem lt_size_of_unvisited {r : Reach} (h : r.Fits g) {i : Nat} (hi : ¬r.isVisited i = true) :
    i < g.size := by
  by_contra hge
  exact hi (Reach.isVisited_of_size_le h (Nat.le_of_not_lt hge))

/-- **The walk ends by itself**: with enough steps for the stack and the users that may still be
    pushed, more steps change nothing. -/
theorem spread_add_fuel (hg : g.Lawful) {fuel : Nat} (extra : Nat) {stack : List Nat} {r : Reach}
    (h : r.Fits g) (hfuel : stack.length + usersLeft g r ≤ fuel) :
    spread g (fuel + extra) stack r = spread g fuel stack r := by
  induction fuel generalizing stack r with
  | zero =>
    have hnil : stack = [] := List.length_eq_zero_iff.mp (by omega)
    rw [hnil, spread_nil, spread_nil]
  | succ fuel ih =>
    cases stack with
    | nil => rw [spread_nil, spread_nil]
    | cons i rest =>
      rw [show fuel + 1 + extra = fuel + extra + 1 from by omega, spread_cons, spread_cons]
      rw [List.length_cons] at hfuel
      by_cases hi : r.isVisited i = true
      · rw [if_pos hi, if_pos hi]
        exact ih h (by omega)
      · rw [if_neg hi, if_neg hi]
        -- The visit pushes no more than it takes from the users that are left.
        have hleft := usersLeft_visit h (lt_size_of_unvisited h hi) (by simpa using hi)
        have hfresh := length_fresh_le (g := g) r i
        refine ih (h.visit hg i) ?_
        rw [List.length_append]
        omega

/-! ## The invariant of a walk -/

/-- **What a walk knows** with `stack` still to be visited. -/
structure Spread (g : Graph) (start : Nat → Prop) (stack : List Nat) (r : Reach) : Prop where
  fits : r.Fits g
  /-- Every start has its turn. -/
  begun : ∀ s, start s → s < g.size ∧ (r.isVisited s = true ∨ s ∈ stack)
  met : ∀ i, i < g.size → (r.isVisited i = true ∨ i ∈ stack) →
    ∃ s, start s ∧ ReflTransGen g.Edge i s
  found : ∀ i, r.isFound i = true → ∃ s, start s ∧ TransGen g.Edge i s
  closed : ∀ i j, g.Edge i j → r.isVisited j = true →
    r.isFound i = true ∧ (r.isVisited i = true ∨ i ∈ stack)

/-- A visited position is taken from the stack without further ado. -/
theorem Spread.skip {start : Nat → Prop} {i : Nat} {rest : List Nat} {r : Reach}
    (h : Spread g start (i :: rest) r) (hi : r.isVisited i = true) : Spread g start rest r := by
  have hstack : ∀ {j}, r.isVisited j = true ∨ j ∈ i :: rest → r.isVisited j = true ∨ j ∈ rest := by
    intro j hj
    rcases hj with hj | hj
    · exact Or.inl hj
    · rcases List.mem_cons.mp hj with rfl | hj
      · exact Or.inl hi
      · exact Or.inr hj
  refine ⟨h.fits, fun s hs => ⟨(h.begun s hs).1, hstack (h.begun s hs).2⟩, ?_, h.found, ?_⟩
  · intro j hj hmet
    exact h.met j hj (hmet.imp_right (List.mem_cons_of_mem _))
  · intro j k hjk hk
    exact ⟨(h.closed j k hjk hk).1, hstack (h.closed j k hjk hk).2⟩

/-- Visiting the top of the stack keeps the invariant. -/
theorem Spread.visit (hg : g.Lawful) {start : Nat → Prop} {i : Nat} {rest : List Nat} {r : Reach}
    (h : Spread g start (i :: rest) r) (hi : ¬r.isVisited i = true) :
    Spread g start (fresh g r i ++ rest) (r.visit g i) := by
  have hlt := lt_size_of_unvisited h.fits hi
  have hvisited : ∀ {j}, (r.visit g i).isVisited j = true ↔ j = i ∨ r.isVisited j = true :=
    Reach.isVisited_visit h.fits hlt
  -- Whatever had its turn before has it still: the top of the stack is visited now.
  have hkeep : ∀ {j}, r.isVisited j = true ∨ j ∈ i :: rest →
      (r.visit g i).isVisited j = true ∨ j ∈ fresh g r i ++ rest := by
    intro j hj
    rcases hj with hj | hj
    · exact Or.inl (hvisited.mpr (Or.inr hj))
    · rcases List.mem_cons.mp hj with rfl | hj
      · exact Or.inl (hvisited.mpr (Or.inl rfl))
      · exact Or.inr (List.mem_append_right _ hj)
  obtain ⟨s, hs, his⟩ := h.met i hlt (Or.inr (List.mem_cons_self ..))
  refine ⟨h.fits.visit hg i, fun s hs => ⟨(h.begun s hs).1, hkeep (h.begun s hs).2⟩, ?_, ?_, ?_⟩
  · intro j hj hmet
    rcases hmet with hmet | hmet
    · rcases hvisited.mp hmet with rfl | hmet
      · exact ⟨s, hs, his⟩
      · exact h.met j hj (Or.inl hmet)
    · rcases List.mem_append.mp hmet with hmet | hmet
      · have hedge := hg.mem_usersAt.mp (mem_fresh.mp hmet).1
        exact ⟨s, hs, .head hedge his⟩
      · exact h.met j hj (Or.inr (List.mem_cons_of_mem _ hmet))
  · intro j hj
    rcases (Reach.isFound_visit hg h.fits).mp hj with hedge | hj
    · exact ⟨s, hs, TransGen.head' hedge his⟩
    · exact h.found j hj
  · intro j k hjk hk
    rcases hvisited.mp hk with rfl | hk
    · -- A user of the position just visited is found, and pushed unless it was visited before.
      refine ⟨(Reach.isFound_visit hg h.fits).mpr (Or.inl hjk), ?_⟩
      by_cases hj : (r.visit g k).isVisited j = true
      · exact Or.inl hj
      · have hfresh : j ∈ fresh g r k :=
          mem_fresh.mpr ⟨hg.mem_usersAt.mpr hjk, by simpa using hj⟩
        exact Or.inr (List.mem_append_left _ hfresh)
    · obtain ⟨hfound, hmet⟩ := h.closed j k hjk hk
      exact ⟨(Reach.isFound_visit hg h.fits).mpr (Or.inr hfound), hkeep hmet⟩

/-- A walk with enough steps ends with an empty stack. -/
theorem Spread.run (hg : g.Lawful) {start : Nat → Prop} {fuel : Nat} {stack : List Nat}
    {r : Reach} (h : Spread g start stack r) (hfuel : stack.length + usersLeft g r ≤ fuel) :
    Spread g start [] (spread g fuel stack r) := by
  induction fuel generalizing stack r with
  | zero =>
    have hnil : stack = [] := List.length_eq_zero_iff.mp (by omega)
    subst hnil
    exact h
  | succ fuel ih =>
    cases stack with
    | nil => exact h
    | cons i rest =>
      rw [spread_cons]
      rw [List.length_cons] at hfuel
      by_cases hi : r.isVisited i = true
      · rw [if_pos hi]
        exact ih (h.skip hi) (by omega)
      · rw [if_neg hi]
        have hleft := usersLeft_visit h.fits (lt_size_of_unvisited h.fits hi) (by simpa using hi)
        have hfresh := length_fresh_le (g := g) r i
        refine ih (h.visit hg hi) ?_
        rw [List.length_append]
        omega

/-! ## From all changed sources -/

/-- The starts of the walks from some names. -/
def startsOf (g : Graph) (names : List String) (s : Nat) : Prop :=
  ∃ x ∈ names, g.position? x = some s

/-- Before the first walk nothing is visited. -/
theorem Spread.initial (hg : g.Lawful) : Spread g (startsOf g []) [] (.start g.size) := by
  have hunvisited : ∀ {i}, i < g.size → ¬(Reach.start g.size).isVisited i = true := by
    intro i hi
    simp [Reach.isVisited, Reach.start, hi]
  refine ⟨Reach.fits_start, ?_, ?_, ?_, ?_⟩
  · rintro s ⟨x, hx, _⟩
    cases hx
  · intro i hi hmet
    rcases hmet with hmet | hmet
    · exact absurd hmet (hunvisited hi)
    · cases hmet
  · intro i hi
    by_cases hlt : i < g.size <;> simp [Reach.isFound, Reach.start, hlt] at hi
  · intro i j hij hj
    exact absurd hj (hunvisited (hg.edge_lt hij))

/-- A walk may begin at one more position. -/
theorem Spread.begin {start : Nat → Prop} {r : Reach} (h : Spread g start [] r) {i : Nat}
    (hi : i < g.size) : Spread g (fun s => start s ∨ s = i) [i] r := by
  refine ⟨h.fits, ?_, ?_, ?_, ?_⟩
  · rintro s (hs | rfl)
    · exact ⟨(h.begun s hs).1, Or.inl ((h.begun s hs).2.resolve_right List.not_mem_nil)⟩
    · exact ⟨hi, Or.inr (List.mem_cons_self ..)⟩
  · rintro j hj (hmet | hmet)
    · obtain ⟨s, hs, hjs⟩ := h.met j hj (Or.inl hmet)
      exact ⟨s, Or.inl hs, hjs⟩
    · exact ⟨i, Or.inr rfl, by rw [List.mem_singleton.mp hmet]⟩
  · intro j hj
    obtain ⟨s, hs, hjs⟩ := h.found j hj
    exact ⟨s, Or.inl hs, hjs⟩
  · intro j k hjk hk
    obtain ⟨hfound, hmet⟩ := h.closed j k hjk hk
    exact ⟨hfound, Or.inl (hmet.resolve_right List.not_mem_nil)⟩

/-- The steps of a walk from one position suffice. -/
theorem steps_suffice (hg : g.Lawful) (i : Nat) (r : Reach) :
    [i].length + usersLeft g r ≤ g.edgeCount + 1 := by
  have hleft := usersLeft_le hg r
  rw [List.length_singleton]
  omega

/-- The walk from one more name. -/
theorem Spread.spreadFrom (hg : g.Lawful) {names : List String} {r : Reach}
    (h : Spread g (startsOf g names) [] r) (x : String) :
    Spread g (startsOf g (names ++ [x])) [] (g.spreadFrom r x) := by
  have hstarts : ∀ s, startsOf g (names ++ [x]) s ↔
      startsOf g names s ∨ g.position? x = some s := by
    intro s
    simp only [startsOf, List.mem_append, List.mem_singleton, or_and_right, exists_or,
      exists_eq_left]
  unfold Graph.spreadFrom
  cases hx : g.position? x with
  | none =>
    have heq : startsOf g (names ++ [x]) = startsOf g names := by
      funext s
      simp [hstarts, hx]
    rw [heq]
    exact h
  | some i =>
    have heq : startsOf g (names ++ [x]) = fun s => startsOf g names s ∨ s = i := by
      funext s
      simp [hstarts, hx, eq_comm]
    rw [heq]
    exact (h.begin ((position?_eq_some hg).mp hx).1).run hg (steps_suffice hg i r)

/-- The walks from names, one after the other. -/
theorem Spread.foldl (hg : g.Lawful) (names : List String) {done : List String} {r : Reach}
    (h : Spread g (startsOf g done) [] r) :
    Spread g (startsOf g (done ++ names)) [] (names.foldl g.spreadFrom r) := by
  induction names generalizing done r with
  | nil => rwa [List.append_nil]
  | cons x names ih =>
    have hnext := ih (h.spreadFrom hg x)
    rwa [List.append_assoc, List.singleton_append] at hnext

/-- When the walks have ended, exactly what reaches a start by an edge is found. -/
theorem Spread.isFound_iff {start : Nat → Prop} {r : Reach}
    (h : Spread g start [] r) {i : Nat} :
    r.isFound i = true ↔ ∃ s, start s ∧ TransGen g.Edge i s := by
  refine ⟨h.found i, ?_⟩
  rintro ⟨s, hs, his⟩
  have hvisited : r.isVisited s = true := (h.begun s hs).2.resolve_right List.not_mem_nil
  -- From the start backwards along the chain, everything is found and visited.
  have hboth : r.isFound i = true ∧ r.isVisited i = true := by
    induction his using TransGen.head_induction_on with
    | single hedge =>
      obtain ⟨hfound, hmet⟩ := h.closed _ s hedge hvisited
      exact ⟨hfound, hmet.resolve_right List.not_mem_nil⟩
    | head hedge _ ih =>
      obtain ⟨hfound, hmet⟩ := h.closed _ _ hedge ih.2
      exact ⟨hfound, hmet.resolve_right List.not_mem_nil⟩
  exact hboth.1

/-! ## The answer -/

/-- In a lawful graph the answer holds the names whose positions reach a start. -/
theorem mem_transitiveDependents_iff (hg : g.Lawful) {changed : List String} {x : String} :
    x ∈ g.transitiveDependents changed ↔
      ∃ i s, i < g.size ∧ g.nameAt i = x ∧ startsOf g changed s ∧ TransGen g.Edge i s := by
  have hspread := (Spread.initial hg).foldl hg changed
  rw [List.nil_append] at hspread
  simp only [transitiveDependents, List.mem_map, List.mem_filter, List.mem_range,
    hspread.isFound_iff]
  constructor
  · rintro ⟨i, ⟨hi, s, hs, his⟩, hx⟩
    exact ⟨i, s, hi, hx, hs, his⟩
  · rintro ⟨i, s, hi, hx, hs, his⟩
    exact ⟨i, ⟨hi, s, hs, his⟩, hx⟩

/-- The answer is in ascending order. -/
theorem pairwise_transitiveDependents (hg : g.Lawful) (changed : List String) :
    (g.transitiveDependents changed).Pairwise (Text.codes · < Text.codes ·) := by
  have hids : (List.range g.size).map g.nameAt = g.ids := by
    refine List.ext_getElem (by simp [size]) fun i hi _ => ?_
    rw [List.getElem_map, List.getElem_range]
    exact nameAt_eq_getElem (by simpa [size] using hi)
  have hsub : (g.transitiveDependents changed).Sublist g.ids := by
    rw [← hids]
    exact List.filter_sublist.map g.nameAt
  exact hg.ascending.sublist hsub

section answer
variable {dependencies : Ledger (List String)} {more changed : List String}

/-- In names: the answer holds what depends on a changed source by at least one dependency. -/
theorem mem_transitiveDependents {x : String} :
    x ∈ (ofDependencies dependencies more).transitiveDependents changed ↔
      ∃ c ∈ changed, TransGen (Needs dependencies) x c := by
  have hg := lawful_ofDependencies dependencies more
  rw [mem_transitiveDependents_iff hg]
  constructor
  · rintro ⟨i, s, _, rfl, ⟨c, hc, hpos⟩, his⟩
    refine ⟨c, hc, ?_⟩
    rw [← ((position?_eq_some hg).mp hpos).2]
    exact chain_names his
  · rintro ⟨c, hc, hchain⟩
    obtain ⟨y, hxy⟩ : ∃ y, Needs dependencies x y := by
      induction hchain using TransGen.head_induction_on with
      | single h => exact ⟨_, h⟩
      | head h _ _ => exact ⟨_, h⟩
    obtain ⟨i, hi, rfl⟩ := exists_position
      ((mem_ids_ofDependencies dependencies more).mpr (known_of_needs hxy).1)
    obtain ⟨s, hs, rfl, his⟩ := chain_positions hi hchain
    exact ⟨i, s, hi, rfl, ⟨_, hc, (position?_eq_some hg).mpr ⟨hs, rfl⟩⟩, his⟩

end answer

/-- **Transitive dependents are exactly what reaches a changed source.**  For every graph, circles
    or not, and whichever names changed, in whatever order and however often each is given:

    * the answer ascends, so it is a set;
    * a source is in it if and only if a chain of at least one dependency leads from it to a
      changed source, be it another one or itself;
    * names that the graph does not know contribute nothing;
    * every walk, whatever was visited before, has come to its end with the steps that it is
      given: more of them change nothing. -/
theorem transitiveDependents_exact (dependencies : Ledger (List String))
    (more changed : List String) :
    let g := ofDependencies dependencies more
    (g.transitiveDependents changed).Pairwise (Text.codes · < Text.codes ·) ∧
    (∀ x, x ∈ g.transitiveDependents changed ↔
      ∃ c ∈ changed, TransGen (Needs dependencies) x c) ∧
    g.transitiveDependents (changed.filter g.contains) = g.transitiveDependents changed ∧
    (∀ (before : List String) (i extra : Nat),
      let r := before.foldl g.spreadFrom (.start g.size)
      spread g (g.edgeCount + 1 + extra) [i] r = spread g (g.edgeCount + 1) [i] r) := by
  intro g
  have hg : g.Lawful := lawful_ofDependencies dependencies more
  refine ⟨pairwise_transitiveDependents hg changed, fun x => mem_transitiveDependents, ?_, ?_⟩
  · refine Text.eq_of_ascending (pairwise_transitiveDependents hg _)
      (pairwise_transitiveDependents hg _) fun x => ?_
    rw [mem_transitiveDependents, mem_transitiveDependents]
    constructor
    · rintro ⟨c, hc, hchain⟩
      exact ⟨c, (List.mem_filter.mp hc).1, hchain⟩
    · rintro ⟨c, hc, hchain⟩
      -- A chain ends at a known name only.
      obtain ⟨y, _, hyc⟩ := TransGen.tail'_iff.mp hchain
      have hknown := contains_iff.mpr
        ((mem_ids_ofDependencies dependencies more).mpr (known_of_needs hyc).2)
      exact ⟨c, List.mem_filter.mpr ⟨hc, hknown⟩, hchain⟩
  · intro before i extra r
    have hr : r.Fits g := ((Spread.initial hg).foldl hg before).fits
    exact spread_add_fuel hg extra hr (steps_suffice hg i r)

end Regen.Graph
