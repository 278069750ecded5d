import Mathlib.Data.List.Induction
import Mathlib.Data.List.Nodup
import Regen.Graph.Basic
import Regen.Proofs.Text.Order

/-! # Building a graph

    Edges are noted one after the other: the names of the dependencies in ascending order, and for
    each of them what it needs, in the given order.  A need that is noted already is left out, and
    only the needs are searched for it.  Each of the two loops has an invariant:

    * `Noted`: while the needs of one position are read, these are its own, and it stands behind
      the users that its needs had before;
    * `Filled`: between two names, the needs of a position are the first occurrences of what its
      name needs, if that name has been read, and its users are the names read that need it.

    The users of a position are complete only because the needs of a position are all noted in
    one go: the search of the needs then finds every repeat among the users, too. -/

namespace Regen

/-- A list without its repeats is distinct. -/
theorem nodup_eraseDups {α : Type} [BEq α] [LawfulBEq α] (xs : List α) : xs.eraseDups.Nodup := by
  induction hn : xs.length using Nat.strongRecOn generalizing xs with
  | _ n ih =>
    cases xs with
    | nil => exact .nil
    | cons x xs =>
      rw [List.eraseDups_cons, List.nodup_cons]
      refine ⟨fun hx => by simpa using List.mem_eraseDups.mp hx, ?_⟩
      apply ih (xs.filter fun y => !y == x).length _ _ rfl
      rw [← hn, List.length_cons]
      exact Nat.lt_succ_of_le (List.length_filter_le _ _)

/-- One more element counts unless it was there before. -/
theorem eraseDups_concat {α : Type} [BEq α] [LawfulBEq α] (xs : List α) (x : α) :
    (xs ++ [x]).eraseDups = if x ∈ xs then xs.eraseDups else xs.eraseDups ++ [x] := by
  rw [List.eraseDups_append]
  by_cases hx : x ∈ xs
  · simp [hx, List.removeAll]
  · simp [hx, List.removeAll, List.eraseDups_cons]

namespace Graph

variable {g g' : Graph} {ids : List String} {dependencies : Ledger (List String)} {i j : Nat}
  {js : List Nat}

/-! ## One edge -/

theorem addEdge_ids (g : Graph) (i j : Nat) : (g.addEdge i j).ids = g.ids := by
  unfold addEdge
  split <;> rfl

theorem addEdge_of_mem (hj : j ∈ g.needsAt i) : g.addEdge i j = g := by
  rw [addEdge, if_pos (List.contains_iff_mem.mpr hj)]

theorem needsAt_addEdge (hi : i < g.needs.size) (hj : j ∉ g.needsAt i) (k : Nat) :
    (g.addEdge i j).needsAt k = if k = i then g.needsAt k ++ [j] else g.needsAt k := by
  rw [addEdge, if_neg (by simpa using hj)]
  simp only [needsAt, Array.getElem?_modify]
  by_cases hk : k = i
  · subst hk
    simp [hi]
  · simp [hk, Ne.symm hk]

theorem usersAt_addEdge (hj : j ∉ g.needsAt i) {k : Nat} (hk : k < g.users.size) :
    (g.addEdge i j).usersAt k = if k = j then g.usersAt k ++ [i] else g.usersAt k := by
  rw [addEdge, if_neg (by simpa using hj)]
  simp only [usersAt, Array.getElem?_modify]
  by_cases hkj : k = j
  · subst hkj
    simp [hk]
  · simp [hkj, Ne.symm hkj]

/-! ## The needs of one position -/

/-- **What the inner loop keeps**: the needs `js` of the position `i` have been noted in a graph
    in which it had none. -/
structure Noted (g : Graph) (i : Nat) (js : List Nat) (g' : Graph) : Prop where
  ids_eq : g'.ids = g.ids
  needs_size : g'.needs.size = g.needs.size
  users_size : g'.users.size = g.users.size
  needsAt_self : g'.needsAt i = js.eraseDups
  needsAt_other : ∀ k, k ≠ i → g'.needsAt k = g.needsAt k
  usersAt_eq : ∀ k < g.users.size,
    g'.usersAt k = if k ∈ js then g.usersAt k ++ [i] else g.usersAt k

theorem noted_nil (hnone : g.needsAt i = []) : Noted g i [] g :=
  ⟨rfl, rfl, rfl, hnone, fun _ _ => rfl, fun _ _ => rfl⟩

theorem Noted.addEdge (h : Noted g i js g') (hi : i < g.needs.size) :
    Noted g i (js ++ [j]) (g'.addEdge i j) := by
  by_cases hj : j ∈ js
  -- A repeat: the needs show it, and nothing changes.
  · have hmem : j ∈ g'.needsAt i := by
      rw [h.needsAt_self]
      exact List.mem_eraseDups.mpr hj
    rw [addEdge_of_mem hmem]
    refine { h with needsAt_self := ?_, usersAt_eq := ?_ }
    · rw [h.needsAt_self, eraseDups_concat, if_pos hj]
    · intro k hk
      have hsame : k ∈ js ++ [j] ↔ k ∈ js := by
        rw [List.mem_append, List.mem_singleton]
        exact ⟨fun hk => hk.elim id fun heq => heq ▸ hj, .inl⟩
      simp only [h.usersAt_eq k hk, hsame]
  · have hnew : j ∉ g'.needsAt i := by
      rw [h.needsAt_self]
      exact fun hmem => hj (List.mem_eraseDups.mp hmem)
    have hi' : i < g'.needs.size := h.needs_size ▸ hi
    constructor
    · rw [addEdge_ids, h.ids_eq]
    · simp [Graph.addEdge, hnew, h.needs_size]
    · simp [Graph.addEdge, hnew, h.users_size]
    · rw [needsAt_addEdge hi' hnew, if_pos rfl, h.needsAt_self, eraseDups_concat, if_neg hj]
    · intro k hk
      rw [needsAt_addEdge hi' hnew, if_neg hk, h.needsAt_other k hk]
    · intro k hk
      rw [usersAt_addEdge hnew (h.users_size ▸ hk), h.usersAt_eq k hk]
      by_cases hkj : k = j
      · subst hkj
        simp [hj]
      · simp [hkj]

theorem noted_foldl (hi : i < g.needs.size) (hnone : g.needsAt i = []) (js : List Nat) :
    Noted g i js (js.foldl (fun g j => g.addEdge i j) g) := by
  induction js using List.reverseRecOn with
  | nil => exact noted_nil hnone
  | append_singleton js j ih =>
    rw [List.foldl_concat]
    exact ih.addEdge hi

/-! ## The needs of all names -/

/-- The positions that a name needs, each at its first occurrence. -/
def targets (ids : List String) (dependencies : Ledger (List String)) (name : String) : List Nat :=
  (((dependencies.find? name).getD []).filterMap fun w => ids.idxOf? w).eraseDups

/-- **What the outer loop keeps**: the needs of the names `seen` have been read. -/
structure Filled (ids : List String) (dependencies : Ledger (List String)) (seen : List String)
    (g : Graph) : Prop where
  ids_eq : g.ids = ids
  needs_size : g.needs.size = ids.length
  users_size : g.users.size = ids.length
  needsAt_eq : ∀ i x, ids[i]? = some x →
    g.needsAt i = if x ∈ seen then targets ids dependencies x else []
  usersAt_eq : ∀ j < ids.length, g.usersAt j =
    (seen.filter fun x => (targets ids dependencies x).contains j).filterMap fun x => ids.idxOf? x

theorem filled_nil (ids : List String) (dependencies : Ledger (List String)) :
    Filled ids dependencies [] (bare ids) := by
  refine ⟨rfl, Array.size_replicate, Array.size_replicate, ?_, ?_⟩
  · intro i x hx
    obtain ⟨hi, _⟩ := List.getElem?_eq_some_iff.mp hx
    simp [needsAt, bare, hi]
  · intro j hj
    simp [usersAt, bare, hj]

theorem idxOf?_eq_some (hids : ids.Nodup) {x : String} :
    ids.idxOf? x = some i ↔ ids[i]? = some x := by
  rw [List.idxOf?_eq_some_iff, List.getElem?_eq_some_iff]
  constructor
  · rintro ⟨hi, hx, _⟩
    exact ⟨hi, hx⟩
  · rintro ⟨hi, hx⟩
    refine ⟨hi, hx, fun k hk heq => ?_⟩
    -- Two positions of one name are equal, as the names are distinct.
    have hki : k = i := hids.getElem_inj_iff.mp (heq.trans hx.symm)
    omega

theorem Filled.addNeeds {seen : List String} {name : String} (h : Filled ids dependencies seen g)
    (hids : ids.Nodup) (hname : name ∉ seen) :
    Filled ids dependencies (seen ++ [name])
      (g.addNeeds name ((dependencies.find? name).getD [])) := by
  unfold Graph.addNeeds position?
  rw [h.ids_eq]
  cases hposition : ids.idxOf? name with
  -- A name without a position is never asked for.
  | none =>
    have hno : ∀ i : Nat, ids[i]? ≠ some name := by
      intro i hi
      rw [(idxOf?_eq_some hids).mpr hi] at hposition
      cases hposition
    refine { h with needsAt_eq := ?_, usersAt_eq := ?_ }
    · intro i x hx
      have hne : x ≠ name := fun heq => hno i (heq ▸ hx)
      simp [h.needsAt_eq i x hx, hne]
    · intro j hj
      rw [h.usersAt_eq j hj, List.filter_append, List.filterMap_append]
      by_cases hmem : j ∈ targets ids dependencies name <;> simp [hmem, hposition]
  | some i =>
    have hat : ids[i]? = some name := (idxOf?_eq_some hids).mp hposition
    obtain ⟨hi, _⟩ := List.getElem?_eq_some_iff.mp hat
    have hnone : g.needsAt i = [] := by rw [h.needsAt_eq i name hat, if_neg hname]
    have hnoted := noted_foldl (h.needs_size ▸ hi) hnone
      (((dependencies.find? name).getD []).filterMap fun w => ids.idxOf? w)
    dsimp only
    constructor
    · rw [hnoted.ids_eq, h.ids_eq]
    · rw [hnoted.needs_size, h.needs_size]
    · rw [hnoted.users_size, h.users_size]
    · intro k x hx
      by_cases hk : k = i
      · subst hk
        obtain rfl := Option.some.inj (hx.symm.trans hat)
        rw [hnoted.needsAt_self, if_pos (by simp)]
        rfl
      · have hne : x ≠ name := by
          intro heq
          subst heq
          exact hk (Option.some.inj (((idxOf?_eq_some hids).mpr hx).symm.trans hposition))
        simp [hnoted.needsAt_other k hk, h.needsAt_eq k x hx, hne]
    · intro j hj
      rw [hnoted.usersAt_eq j (h.users_size ▸ hj), h.usersAt_eq j hj, List.filter_append,
        List.filterMap_append]
      by_cases hmem : j ∈ ((dependencies.find? name).getD []).filterMap fun w => ids.idxOf? w
      · have htarget : j ∈ targets ids dependencies name := List.mem_eraseDups.mpr hmem
        simp [hmem, htarget, hposition]
      · have htarget : j ∉ targets ids dependencies name :=
          fun htarget => hmem (List.mem_eraseDups.mp htarget)
        simp only [hmem, if_false]
        simp [htarget]

theorem filled_foldl (dependencies : Ledger (List String)) (hids : ids.Nodup) {names : List String}
    (hnames : names.Nodup) :
    Filled ids dependencies names (names.foldl
      (fun g name => g.addNeeds name ((dependencies.find? name).getD [])) (bare ids)) := by
  induction names using List.reverseRecOn with
  | nil => exact filled_nil ids dependencies
  | append_singleton names name ih =>
    rw [List.foldl_concat]
    have hapart := List.nodup_append.mp hnames
    refine (ih hapart.1).addNeeds hids fun hmem => ?_
    exact hapart.2.2 name hmem name List.mem_cons_self rfl

/-- **A graph of dependencies is filled** with the needs of all names that have some. -/
theorem filled_ofDependencies (dependencies : Ledger (List String)) (more : List String) :
    Filled (Text.sortedDistinct (more ++ mentioned dependencies)) dependencies
      (Text.sortedDistinct dependencies.names) (ofDependencies dependencies more) :=
  filled_foldl dependencies (Text.nodup_sortedDistinct _) (Text.nodup_sortedDistinct _)

end Graph

end Regen
