import Regen.Proofs.Graph.Order

/-! # The recursive search

    The generation order is that of a plain recursive search: a source is visited by visiting what
    it needs, one name after the other, and is listed after that; a source that is on the way to
    the visit closes a circle.

    The walk keeps on its frames what the recursion keeps on its calls.  `resume` says what the
    recursive search would make of the open frames: it goes on with the pending needs of the latest
    one, lists its source and returns to the frame below.  No step of the walk changes that
    (`resumed_leave`, `resumed_skip`, `resumed_openNeed`), so a walk ends as the search does. -/

namespace Regen.Graph

variable {g : Graph}

/-! ## The search -/

/-- What a source needs, each name at its first place. -/
def neededBy (dependencies : Ledger (List String)) (x : String) : List String :=
  ((dependencies.find? x).getD []).eraseDups

/-- The sources with needs that are not on the way. -/
def stillAhead (dependencies : Ledger (List String)) (way : List String) : Finset String :=
  (dependencies.map Prod.fst).toFinset \ way.toFinset

theorem stillAhead_cons (dependencies : Ledger (List String)) (way : List String) (x : String) :
    stillAhead dependencies (x :: way) = (stillAhead dependencies way).erase x := by
  rw [stillAhead, List.toFinset_cons, Finset.sdiff_insert]
  rfl

theorem neededBy_of_not_mem {dependencies : Ledger (List String)} {way : List String} {x : String}
    (hway : x ∉ way) (hx : x ∉ stillAhead dependencies way) : neededBy dependencies x = [] := by
  have hnone : dependencies.find? x = none := by
    cases hfind : dependencies.find? x with
    | none => rfl
    | some wanted =>
      have hmem := List.mem_map_of_mem (f := Prod.fst) (Ledger.mem_of_find? hfind)
      exact absurd (Finset.mem_sdiff.mpr ⟨List.mem_toFinset.mpr hmem, by simpa using hway⟩) hx
  rw [neededBy, hnone]
  rfl

/-- A visit leaves fewer sources ahead, or it has no needs to visit. -/
theorem visit_decreases {dependencies : Ledger (List String)} {way : List String} {x : String}
    (hway : x ∉ way) : Prod.Lex (· < ·) (· < ·)
      ((stillAhead dependencies (x :: way)).card, 2 * (neededBy dependencies x).length)
      ((stillAhead dependencies way).card, 1) := by
  rw [stillAhead_cons]
  by_cases hx : x ∈ stillAhead dependencies way
  · exact .left _ _ (Finset.card_erase_lt_of_mem hx)
  · rw [Finset.erase_eq_of_notMem hx, neededBy_of_not_mem hway hx]
    exact .right _ Nat.zero_lt_one

mutual

/-- Visit a source: one that is on the way is the error, one that is listed needs no visit, and
    any other is listed behind what it needs. -/
def visitName (dependencies : Ledger (List String)) (way listed : List String) (x : String) :
    Except String (List String) :=
  if x ∈ way then .error x
  else if x ∈ listed then .ok listed
  else do
    let listed ← visitNames dependencies (x :: way) listed (neededBy dependencies x)
    .ok (listed ++ [x])
termination_by ((stillAhead dependencies way).card, 1)
decreasing_by
  exact visit_decreases (by assumption)

/-- Visit names one after the other. -/
def visitNames (dependencies : Ledger (List String)) (way listed : List String) :
    List String → Except String (List String)
  | [] => .ok listed
  | x :: rest => do
    let listed ← visitName dependencies way listed x
    visitNames dependencies way listed rest
termination_by names => ((stillAhead dependencies way).card, 2 * names.length)

end

section equations
variable {dependencies : Ledger (List String)} {way listed : List String} {x : String}

theorem visitNames_nil : visitNames dependencies way listed [] = .ok listed := by
  rw [visitNames]

theorem visitNames_cons (rest : List String) :
    visitNames dependencies way listed (x :: rest) = (do
      let listed ← visitName dependencies way listed x
      visitNames dependencies way listed rest) := by
  rw [visitNames]

theorem visitName_of_mem_way (hx : x ∈ way) : visitName dependencies way listed x = .error x := by
  rw [visitName, if_pos hx]

theorem visitName_of_mem_listed (hway : x ∉ way) (hx : x ∈ listed) :
    visitName dependencies way listed x = .ok listed := by
  rw [visitName, if_neg hway, if_pos hx]

theorem visitName_of_not_mem (hway : x ∉ way) (hx : x ∉ listed) :
    visitName dependencies way listed x = (do
      let listed ← visitNames dependencies (x :: way) listed (neededBy dependencies x)
      .ok (listed ++ [x])) := by
  rw [visitName, if_neg hway, if_neg hx]

end equations

/-! ## Needs in names -/

/-- **A graph of dependencies**: the needs of its positions are what their names need, in the given
    order. -/
structure Spells (g : Graph) (dependencies : Ledger (List String)) : Prop extends g.Lawful where
  needs : ∀ i, i < g.size → (g.needsAt i).map g.nameAt = neededBy dependencies (g.nameAt i)

theorem spells_ofDependencies (dependencies : Ledger (List String)) (more : List String) :
    (ofDependencies dependencies more).Spells dependencies := by
  have hg := lawful_ofDependencies dependencies more
  refine ⟨hg, fun i hi => ?_⟩
  have hname : (ofDependencies dependencies more).ids[i]? =
      some ((ofDependencies dependencies more).nameAt i) := by
    rw [nameAt_eq_getElem hi]
    exact List.getElem?_eq_getElem hi
  exact names_needsAt hname

/-! ## The walk as a search -/

namespace Walk

/-- The names that are listed, the latest last. -/
def listedNames (g : Graph) (w : Walk) : List String := w.order.reverse.map g.nameAt

/-- What the search makes of open frames: it goes on with the pending needs of the latest one, lists
    its source, and returns to the frame below. -/
def resume (dependencies : Ledger (List String)) (g : Graph) :
    List (Nat × List Nat) → List String → Except String (List String)
  | [], listed => .ok listed
  | (i, pending) :: rest, listed => do
    let listed ← visitNames dependencies (((i, pending) :: rest).map fun f => g.nameAt f.1) listed
      (pending.map g.nameAt)
    resume dependencies g rest (listed ++ [g.nameAt i])

/-- What the search makes of a walk under way. -/
def resumed (dependencies : Ledger (List String)) (g : Graph) (w : Walk) :
    Except String (List String) :=
  resume dependencies g w.frames (w.listedNames g)

section steps
variable {w : Walk} {i j : Nat} {pending : List Nat} {rest : List (Nat × List Nat)}
  {dependencies : Ledger (List String)}

/-- The open positions are those whose names are on the way. -/
theorem Good.opened_iff_name (hg : g.Lawful) (h : w.Good g) (hj : j < g.size) :
    w.colour j = .opened ↔ g.nameAt j ∈ w.frames.map fun f => g.nameAt f.1 := by
  have hnames : (w.frames.map fun f => g.nameAt f.1) = (w.frames.map Prod.fst).map g.nameAt := by
    rw [List.map_map]
    rfl
  rw [hnames, h.opened]
  refine ⟨List.mem_map_of_mem, fun hmem => ?_⟩
  obtain ⟨k, hk, heq⟩ := List.mem_map.mp hmem
  have hlt : k < g.size := h.lt_size (by rw [(h.opened k).mpr hk]; decide)
  exact nameAt_injective hg hlt hj heq ▸ hk

/-- The listed positions are those whose names are listed. -/
theorem Good.listed_iff_name (hg : g.Lawful) (h : w.Good g) (hj : j < g.size) :
    w.colour j = .listed ↔ g.nameAt j ∈ w.listedNames g := by
  rw [listedNames, h.listed j hj, ← List.mem_reverse]
  refine ⟨List.mem_map_of_mem, fun hmem => ?_⟩
  obtain ⟨k, hk, heq⟩ := List.mem_map.mp hmem
  exact nameAt_injective hg (h.order_lt k (List.mem_reverse.mp hk)) hj heq ▸ hk

/-- A position that is next among the pending needs exists. -/
theorem Good.need_lt (hg : g.Lawful) (h : w.Good g) (hframes : w.frames = (i, j :: pending) :: rest) :
    j < g.size := by
  have htrail := h.trail
  rw [hframes] at htrail
  exact hg.edge_lt (htrail.1 j List.mem_cons_self)

/-- A frame without pending needs returns. -/
theorem resumed_leave (hframes : w.frames = (i, []) :: rest) :
    (w.leave i rest).resumed dependencies g = w.resumed dependencies g := by
  have hlisted : (w.leave i rest).listedNames g = w.listedNames g ++ [g.nameAt i] := by
    simp [listedNames, leave]
  rw [resumed, resumed, hframes, hlisted, resume, List.map_nil, visitNames_nil]
  rfl

/-- A frame with pending needs visits the first of them and goes on with the others. -/
theorem resume_need (listed : List String) :
    resume dependencies g ((i, j :: pending) :: rest) listed = (do
      let listed ← visitName dependencies (g.nameAt i :: rest.map fun f => g.nameAt f.1) listed
        (g.nameAt j)
      resume dependencies g ((i, pending) :: rest) listed) := by
  show (visitNames dependencies _ listed (g.nameAt j :: pending.map g.nameAt) >>= _) = _
  rw [visitNames_cons, bind_assoc]
  rfl

/-- A need that is listed is passed over. -/
theorem resumed_skip (hg : g.Lawful) (h : w.Good g) (hframes : w.frames = (i, j :: pending) :: rest)
    (hj : w.colour j = .listed) :
    (w.advance i pending rest).resumed dependencies g = w.resumed dependencies g := by
  have hlt := h.need_lt hg hframes
  have hway : g.nameAt j ∉ w.frames.map fun f => g.nameAt f.1 := by
    rw [← h.opened_iff_name hg hlt, hj]
    decide
  rw [hframes, List.map_cons] at hway
  rw [resumed, resumed, hframes, resume_need,
    visitName_of_mem_listed hway ((h.listed_iff_name hg hlt).mp hj)]
  rfl

/-- A need that is open is on the way, which is the error of the search. -/
theorem resumed_error (hg : g.Lawful) (h : w.Good g) (hframes : w.frames = (i, j :: pending) :: rest)
    (hj : w.colour j = .opened) : w.resumed dependencies g = .error (g.nameAt j) := by
  have hway := (h.opened_iff_name hg (h.need_lt hg hframes)).mp hj
  rw [hframes, List.map_cons] at hway
  rw [resumed, hframes, resume_need, visitName_of_mem_way hway]
  rfl

/-- Opening an unseen position is visiting its name. -/
theorem resume_visit (hg : g.Spells dependencies) (h : w.Good g) (hj : w.colour j = .unseen)
    (frames : List (Nat × List Nat)) (hsame : frames.map Prod.fst = w.frames.map Prod.fst) :
    (visit g { w with frames } j).resumed dependencies g = (do
      let listed ← visitName dependencies (frames.map fun f => g.nameAt f.1) (w.listedNames g)
        (g.nameAt j)
      resume dependencies g frames listed) := by
  have hlt : j < g.size := h.lt_size (by rw [hj]; decide)
  have hway : g.nameAt j ∉ frames.map fun f => g.nameAt f.1 := by
    have hnames := congrArg (List.map g.nameAt) hsame
    rw [List.map_map, List.map_map] at hnames
    exact hnames ▸ mt (h.opened_iff_name hg.toLawful hlt).mpr (by rw [hj]; decide)
  have hlisted : g.nameAt j ∉ w.listedNames g := by
    rw [← h.listed_iff_name hg.toLawful hlt, hj]
    decide
  rw [visitName_of_not_mem hway hlisted, ← hg.needs j hlt, bind_assoc]
  rfl

/-- Opening a need is visiting its name. -/
theorem resumed_openNeed (hg : g.Spells dependencies) (h : w.Good g)
    (hframes : w.frames = (i, j :: pending) :: rest) (hj : w.colour j = .unseen) :
    ((w.advance i pending rest).visit g j).resumed dependencies g = w.resumed dependencies g := by
  refine (resume_visit hg h hj ((i, pending) :: rest) (by rw [hframes]; rfl)).trans ?_
  rw [resumed, hframes, resume_need]
  rfl

/-- Opening a root is visiting its name, while nothing is open. -/
theorem resumed_openRoot (hg : g.Spells dependencies) (h : w.Good g) (hframes : w.frames = [])
    (hi : w.colour i = .unseen) : (w.visit g i).resumed dependencies g =
      visitName dependencies [] (w.listedNames g) (g.nameAt i) := by
  refine (resume_visit hg h hi w.frames rfl).trans ?_
  rw [hframes]
  exact bind_pure _

/-- **No walk changes what the search makes of it**, and a walk that ends at a circle ends where the
    search does. -/
theorem resumed_walk (hg : g.Spells dependencies) (fuel : Nat) (h : w.Good g) :
    match walk g fuel w with
    | .ok v => v.resumed dependencies g = w.resumed dependencies g
    | .error j => w.resumed dependencies g = .error (g.nameAt j) := by
  -- By induction on the steps: each of them keeps both the invariant and what the search makes of
  -- the walk.
  induction fuel generalizing w with
  | zero => rfl
  | succ fuel ih =>
    match hframes : w.frames with
    | [] => rw [walk_nil _ hframes]
    | (i, []) :: rest =>
      rw [walk_leave _ hframes, ← resumed_leave hframes]
      exact ih (h.leave hframes)
    | (i, j :: pending) :: rest =>
      rw [walk_need _ hframes]
      match hj : w.colour j with
      | .opened => exact resumed_error hg.toLawful h hframes hj
      | .listed =>
        rw [← resumed_skip hg.toLawful h hframes hj]
        exact ih (h.skip hg.toLawful hframes hj)
      | .unseen =>
        rw [← resumed_openNeed hg h hframes hj]
        exact ih (h.openNeed hframes hj)

/-- **The walks from roots are the search from their names.** -/
theorem visitNames_roots (hg : g.Spells dependencies) {roots : List Nat}
    (hroots : ∀ i ∈ roots, i < g.size) (h : w.Good g) (hframes : w.frames = []) :
    visitNames dependencies [] (w.listedNames g) (roots.map g.nameAt) =
      match walkAll g roots w with
      | .ok v => .ok (v.listedNames g)
      | .error j => .error (g.nameAt j) := by
  induction roots generalizing w with
  | nil => exact visitNames_nil
  | cons i roots ih =>
    have hi : i < g.size := hroots i List.mem_cons_self
    have hrest := fun {u : Walk} => ih (w := u) fun k hk => hroots k (List.mem_cons_of_mem _ hk)
    rw [List.map_cons, visitNames_cons, walkAll]
    cases hcolour : w.colour i with
    | opened =>
      -- Nothing is open between the walks.
      rw [h.opened, hframes] at hcolour
      cases hcolour
    | listed =>
      rw [visitName_of_mem_listed List.not_mem_nil
        ((h.listed_iff_name hg.toLawful hi).mp hcolour)]
      exact hrest h hframes
    | unseen =>
      have hends := walk_root_ends hg.toLawful h hframes hcolour
      have hwalk := resumed_walk hg (g.size + g.edgeCount + 1) (h.openRoot hframes hcolour)
      rw [resumed_openRoot hg h hframes hcolour] at hwalk
      dsimp only
      cases hv : walk g (g.size + g.edgeCount + 1) (w.visit g i) with
      | ok v =>
        rw [hv] at hends hwalk
        have hresumed : v.resumed dependencies g =
            visitName dependencies [] (w.listedNames g) (g.nameAt i) := hwalk
        rw [← hresumed, resumed, hends.2.1]
        exact hrest hends.1 hends.2.1
      | error j =>
        rw [hv] at hwalk
        have hcircle : visitName dependencies [] (w.listedNames g) (g.nameAt i) =
            .error (g.nameAt j) := hwalk
        rw [hcircle]
        rfl

end steps

end Walk

/-! ## The order is that of the search -/

theorem map_nameAt_range (g : Graph) : (List.range g.size).map g.nameAt = g.ids := by
  apply List.ext_getElem (by simp [size])
  intro i hi _
  rw [List.getElem_map, List.getElem_range]
  exact nameAt_eq_getElem (by simpa [size] using hi)

/-- **The generation order is the recursive search** from the known names in ascending order: it is
    what the search lists, or the failure names the source at which the search first meets its own
    way. -/
theorem generationOrder_eq_search (dependencies : Ledger (List String)) (more : List String)
    {roots : List String} (hascending : roots.Pairwise (Text.codes · < Text.codes ·))
    (hknown : ∀ x, x ∈ roots ↔ Known dependencies more x) :
    (ofDependencies dependencies more).generationOrder =
      (visitNames dependencies [] [] roots).mapError .cycle := by
  have hg := spells_ofDependencies dependencies more
  have hids : (ofDependencies dependencies more).ids = roots :=
    Text.eq_of_ascending hg.ascending hascending
      fun x => (mem_ids_ofDependencies dependencies more).trans (hknown x).symm
  have hsearch := Walk.visitNames_roots hg (fun i hi => List.mem_range.mp hi) Walk.good_start rfl
  rw [map_nameAt_range, hids] at hsearch
  refine Eq.trans ?_ (congrArg (Except.mapError Failure.cycle) hsearch.symm)
  unfold generationOrder
  cases walkAll (ofDependencies dependencies more)
    (List.range (ofDependencies dependencies more).size) _ with
  | ok w => rfl
  | error j => rfl

/-- Two circles, one of them behind a source of the other. -/
def twoCircles : Ledger (List String) :=
  [("b", ["a"]), ("a", ["c", "b", "c"]), ("c", ["d"]), ("d", ["d"])]

theorem generationOrder_eq_search_of_circles :
    (["a", "b", "c", "d", "z"].Pairwise (Text.codes · < Text.codes ·) ∧
      ∀ x, x ∈ ["a", "b", "c", "d", "z"] ↔ Known twoCircles ["z"] x) ∧
    (ofDependencies twoCircles ["z"]).generationOrder =
      (visitNames twoCircles [] [] ["a", "b", "c", "d", "z"]).mapError .cycle := by
  have hascending : ["a", "b", "c", "d", "z"].Pairwise (Text.codes · < Text.codes ·) := by decide
  have hknown : ∀ x, x ∈ ["a", "b", "c", "d", "z"] ↔ Known twoCircles ["z"] x := by
    intro x
    simp [Known, twoCircles]
    tauto
  exact ⟨⟨hascending, hknown⟩, generationOrder_eq_search _ _ hascending hknown⟩

/-- The circle that the search meets first is named, not the one that closes at the root. -/
example : (ofDependencies twoCircles ["z"]).generationOrder = .error (.cycle "d") := by
  decide

end Regen.Graph
