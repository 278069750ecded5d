import Regen.Graph.Order
import Regen.Proofs.Graph.Positions

/-! # The generation order

    The walk opens a source, opens what it needs, and lists it when all of that is listed.  Its
    invariant `Walk.Good` ties the colours to the open frames and to the listed sources:

    * the open positions are those of the frames, the listed ones those of the order;
    * whatever a listed position needs was listed before it;
    * the needs of a frame that are no longer pending are listed, but for the one whose frame is
      next above: the frames are a chain of edges.

    A position met while it is open therefore closes a circle.  Every step uses up a pending need
    or a frame, which bounds the walk. -/

namespace Regen.Graph

open Relation

variable {g : Graph}

/-! ## Colours -/

namespace Walk

theorem colour_setIfInBounds (colours : Array Colour) (frames : List (Nat × List Nat))
    (order : List Nat) {i : Nat} (hi : i < colours.size) (c : Colour) (j : Nat) :
    colour ⟨colours.setIfInBounds i c, frames, order⟩ j =
      if j = i then c else colour ⟨colours, frames, order⟩ j := by
  unfold colour
  rw [Array.getElem?_setIfInBounds]
  by_cases hj : i = j
  · subst hj
    simp [hi]
  · have hj' : j ≠ i := Ne.symm hj
    simp [hj, hj']

theorem colour_visit {w : Walk} {i : Nat} (hi : i < w.colours.size) (j : Nat) :
    (w.visit g i).colour j = if j = i then .opened else w.colour j := by
  rw [visit, colour_setIfInBounds _ _ _ hi]
  rfl

theorem colour_leave {w : Walk} {i : Nat} {rest : List (Nat × List Nat)}
    (hi : i < w.colours.size) (j : Nat) :
    (w.leave i rest).colour j = if j = i then .listed else w.colour j := by
  rw [leave, colour_setIfInBounds _ _ _ hi]
  rfl

end Walk

/-! ## Frames -/

/-- **The frames are a chain of edges** that leads down to `above`, the frame above them.  The
    needs of each frame are pending, listed, or opened in the frame above it. -/
def Trail (g : Graph) (listed : List Nat) : Option Nat → List (Nat × List Nat) → Prop
  | _, [] => True
  | above, (i, pending) :: rest =>
    (∀ j ∈ pending, g.Edge i j) ∧ (∀ j ∈ above, g.Edge i j) ∧
    (∀ j, g.Edge i j → j ∈ pending ∨ j ∈ listed ∨ j ∈ above) ∧
    Trail g listed (some i) rest

/-- What is listed once more does not disturb the frames. -/
theorem Trail.mono {listed more : List Nat} (hsub : ∀ i ∈ listed, i ∈ more) {above : Option Nat}
    {frames : List (Nat × List Nat)} (h : Trail g listed above frames) :
    Trail g more above frames := by
  induction frames generalizing above with
  | nil => trivial
  | cons f rest ih =>
    obtain ⟨i, pending⟩ := f
    obtain ⟨hpending, habove, hneeds, hrest⟩ := h
    refine ⟨hpending, habove, fun j hj => ?_, ih hrest⟩
    rcases hneeds j hj with hj | hj | hj
    · exact Or.inl hj
    · exact Or.inr (Or.inl (hsub j hj))
    · exact Or.inr (Or.inr hj)

/-- When the frame above is listed, the frames below it go on. -/
theorem Trail.close {listed : List Nat} {i : Nat} {frames : List (Nat × List Nat)}
    (h : Trail g listed (some i) frames) : Trail g (i :: listed) none frames := by
  cases frames with
  | nil => trivial
  | cons f rest =>
    obtain ⟨k, pending⟩ := f
    obtain ⟨hpending, _, hneeds, hrest⟩ := h
    refine ⟨hpending, fun j hj => by simp at hj, fun j hj => ?_, ?_⟩
    · rcases hneeds j hj with hj | hj | hj
      · exact Or.inl hj
      · exact Or.inr (Or.inl (List.mem_cons_of_mem _ hj))
      · have heq : i = j := by simpa using hj
        exact Or.inr (Or.inl (by rw [heq]; exact List.mem_cons_self ..))
    · exact hrest.mono fun j hj => List.mem_cons_of_mem _ hj

/-- Every open position leads to the frame above. -/
theorem Trail.chain {listed : List Nat} {i : Nat} {frames : List (Nat × List Nat)}
    (h : Trail g listed (some i) frames) {k : Nat} (hk : k ∈ frames.map Prod.fst) :
    TransGen g.Edge k i := by
  induction frames generalizing i with
  | nil => cases hk
  | cons f rest ih =>
    obtain ⟨l, pending⟩ := f
    obtain ⟨_, habove, _, hrest⟩ := h
    have hli : g.Edge l i := habove i rfl
    rcases List.mem_cons.mp hk with rfl | hk
    · exact .single hli
    · exact (ih hrest hk).tail hli

/-! ## The invariant of the walk -/

/-- **What the walk knows** between two steps. -/
structure Walk.Good (g : Graph) (w : Walk) : Prop where
  size : w.colours.size = g.size
  opened : ∀ i, w.colour i = .opened ↔ i ∈ w.frames.map Prod.fst
  frames_nodup : (w.frames.map Prod.fst).Nodup
  listed : ∀ i, i < g.size → (w.colour i = .listed ↔ i ∈ w.order)
  order_lt : ∀ i ∈ w.order, i < g.size
  order_nodup : w.order.Nodup
  /-- What a listed position needs was listed before it. -/
  closed : ∀ newer i older, w.order = newer ++ i :: older → ∀ j, g.Edge i j → j ∈ older
  trail : Trail g w.order none w.frames

namespace Walk

variable {w : Walk} {i j : Nat} {pending : List Nat} {rest : List (Nat × List Nat)}

/-- Positions that do not exist count as listed. -/
theorem Good.lt_size (h : w.Good g) (hi : w.colour i ≠ .listed) : i < g.size := by
  by_contra hge
  apply hi
  unfold colour
  rw [Array.getElem?_eq_none (by rw [h.size]; exact Nat.le_of_not_lt hge)]
  rfl

/-- The position of the latest frame is open. -/
theorem Good.opened_top (h : w.Good g) (hframes : w.frames = (i, pending) :: rest) :
    w.colour i = .opened := by
  apply (h.opened i).mpr
  rw [hframes]
  exact List.mem_cons_self ..

/-- Leaving the latest frame lists its position and touches no other one. -/
theorem Good.colour_leave (h : w.Good g) (hframes : w.frames = (i, pending) :: rest) (k : Nat) :
    (w.leave i rest).colour k = if k = i then .listed else w.colour k := by
  have hlt : i < g.size := h.lt_size (by rw [h.opened_top hframes]; decide)
  apply Walk.colour_leave
  rw [h.size]
  exact hlt

theorem good_start : (start g.size).Good g := by
  have hcolour : ∀ i, i < g.size → (start g.size).colour i = .unseen := by
    intro i hi
    simp [colour, start, hi]
  refine ⟨by simp [start], fun i => ?_, .nil, fun i hi => ?_, ?_, .nil, ?_, trivial⟩
  · have hne : (start g.size).colour i ≠ .opened := by
      by_cases hi : i < g.size
      · rw [hcolour i hi]
        decide
      · simp [colour, start, hi]
    simpa [start] using hne
  · rw [hcolour i hi]
    simp [start]
  · intro i hi
    cases hi
  · intro newer i older heq
    simp [start] at heq

/-- Opening an unseen position on top of frames that it belongs to; the frames below may have
    fewer pending needs than before, but are those of the same positions. -/
theorem Good.open (h : w.Good g) (hi : w.colour i = .unseen) {frames : List (Nat × List Nat)}
    (hsame : frames.map Prod.fst = w.frames.map Prod.fst)
    (htrail : Trail g w.order (some i) frames) :
    (visit g { w with frames } i).Good g := by
  have hlt : i < g.size := h.lt_size (by rw [hi]; decide)
  have hcolour : ∀ k, (visit g { w with frames } i).colour k =
      if k = i then .opened else w.colour k :=
    colour_visit (show i < w.colours.size by rw [h.size]; exact hlt)
  -- An unseen position is neither on a frame nor in the order yet.
  have hnotOpen : i ∉ w.frames.map Prod.fst := by
    rw [← h.opened, hi]
    decide
  have hnotListed : i ∉ w.order := by
    rw [← h.listed i hlt, hi]
    decide
  refine ⟨?_, fun k => ?_, ?_, fun k hk => ?_, h.order_lt, h.order_nodup, h.closed, ?_⟩
  · exact Array.size_setIfInBounds.trans h.size
  · rw [hcolour, visit, List.map_cons, List.mem_cons, hsame, ← h.opened]
    by_cases hki : k = i <;> simp [hki]
  · rw [visit, List.map_cons, hsame]
    exact List.nodup_cons.mpr ⟨hnotOpen, h.frames_nodup⟩
  · rw [hcolour]
    by_cases hki : k = i
    · subst hki
      simpa [visit] using hnotListed
    · rw [if_neg hki]
      exact h.listed k hk
  · exact ⟨fun j hj => hj, fun j hj => by simp at hj, fun j hj => Or.inl hj, htrail⟩

/-- Opening a root, while nothing is open. -/
theorem Good.openRoot (h : w.Good g) (hframes : w.frames = []) (hi : w.colour i = .unseen) :
    (w.visit g i).Good g := by
  refine h.open hi rfl ?_
  rw [hframes]
  trivial

/-- The walk after looking at one more need of the latest frame. -/
def advance (w : Walk) (i : Nat) (pending : List Nat) (rest : List (Nat × List Nat)) : Walk :=
  { w with frames := (i, pending) :: rest }

@[simp] theorem colour_advance (k : Nat) : (w.advance i pending rest).colour k = w.colour k := rfl

/-- Opening an unseen need of the latest frame. -/
theorem Good.openNeed (h : w.Good g) (hframes : w.frames = (i, j :: pending) :: rest)
    (hj : w.colour j = .unseen) : ((w.advance i pending rest).visit g j).Good g := by
  have htrail := h.trail
  rw [hframes] at htrail
  obtain ⟨hpending, _, hneeds, hrest⟩ := htrail
  refine h.open hj (by rw [hframes]; rfl) ⟨fun k hk => ?_, fun k hk => ?_, fun k hk => ?_, hrest⟩
  · exact hpending k (List.mem_cons_of_mem _ hk)
  · have heq : j = k := by simpa using hk
    exact heq ▸ hpending j (List.mem_cons_self ..)
  · rcases hneeds k hk with hk | hk | hk
    · rcases List.mem_cons.mp hk with rfl | hk
      · exact Or.inr (Or.inr rfl)
      · exact Or.inl hk
    · exact Or.inr (Or.inl hk)
    · simp at hk

/-- Passing over a listed need of the latest frame. -/
theorem Good.skip (hg : g.Lawful) (h : w.Good g) (hframes : w.frames = (i, j :: pending) :: rest)
    (hj : w.colour j = .listed) : (w.advance i pending rest).Good g := by
  have htrail := h.trail
  rw [hframes] at htrail
  obtain ⟨hpending, habove, hneeds, hrest⟩ := htrail
  have hlisted : j ∈ w.order :=
    (h.listed j (hg.edge_lt (hpending j (List.mem_cons_self ..)))).mp hj
  have hsame : ((i, pending) :: rest).map Prod.fst = w.frames.map Prod.fst := by rw [hframes]; rfl
  refine ⟨h.size, fun k => ?_, ?_, h.listed, h.order_lt, h.order_nodup, h.closed, ?_⟩
  · rw [colour_advance, advance, hsame]
    exact h.opened k
  · rw [advance, hsame]
    exact h.frames_nodup
  · refine ⟨fun k hk => hpending k (List.mem_cons_of_mem _ hk), habove, fun k hk => ?_, hrest⟩
    rcases hneeds k hk with hk | hk | hk
    · rcases List.mem_cons.mp hk with rfl | hk
      · exact Or.inr (Or.inl hlisted)
      · exact Or.inl hk
    · exact Or.inr (Or.inl hk)
    · exact Or.inr (Or.inr hk)

/-- Listing the latest open position, when it has no pending needs. -/
theorem Good.leave (h : w.Good g) (hframes : w.frames = (i, []) :: rest) :
    (w.leave i rest).Good g := by
  have htrail := h.trail
  rw [hframes] at htrail
  obtain ⟨_, _, hneeds, hrest⟩ := htrail
  have hopen : w.colour i = .opened := h.opened_top hframes
  have hlt : i < g.size := h.lt_size (by rw [hopen]; decide)
  have hcolour := h.colour_leave hframes
  have hnodup := h.frames_nodup
  rw [hframes, List.map_cons, List.nodup_cons] at hnodup
  have hnotListed : i ∉ w.order := by
    rw [← h.listed i hlt, hopen]
    decide
  refine ⟨?_, fun k => ?_, hnodup.2, fun k hk => ?_, ?_, ?_, ?_, hrest.close⟩
  · exact Array.size_setIfInBounds.trans h.size
  · have hk := h.opened k
    rw [hframes, List.map_cons, List.mem_cons] at hk
    rw [hcolour]
    by_cases hki : k = i
    · subst hki
      simpa [Walk.leave] using hnodup.1
    · rw [if_neg hki, hk]
      simp [Walk.leave, hki]
  · rw [hcolour, Walk.leave, List.mem_cons]
    by_cases hki : k = i
    · simp [hki]
    · rw [if_neg hki, h.listed k hk]
      simp [hki]
  · intro k hk
    rcases List.mem_cons.mp hk with rfl | hk
    · exact hlt
    · exact h.order_lt k hk
  · exact List.nodup_cons.mpr ⟨hnotListed, h.order_nodup⟩
  · -- Either the position is the one just listed, or the old order splits around it.
    intro newer k older heq j hkj
    cases newer with
    | nil =>
      obtain ⟨rfl, rfl⟩ := List.cons_eq_cons.mp heq
      rcases hneeds j hkj with hj | hj | hj
      · cases hj
      · exact hj
      · simp at hj
    | cons n newer =>
      exact h.closed newer k older (List.cons_eq_cons.mp heq).2 j hkj

/-- A need that is still open closes a circle of edges. -/
theorem Good.circle (h : w.Good g) (hframes : w.frames = (i, j :: pending) :: rest)
    (hj : w.colour j = .opened) : TransGen g.Edge j j := by
  have htrail := h.trail
  rw [hframes] at htrail
  obtain ⟨hpending, _, _, hrest⟩ := htrail
  have hedge : g.Edge i j := hpending j (List.mem_cons_self ..)
  have hopen : j ∈ w.frames.map Prod.fst := (h.opened j).mp hj
  rw [hframes] at hopen
  rcases List.mem_cons.mp hopen with rfl | hopen
  · exact .single hedge
  -- Its frame is further down, and the frames between lead up to the latest one.
  · exact (hrest.chain hopen).tail hedge

/-! ## The walk ends -/

/-- The steps that opening the unseen positions will take. -/
def unseenWork (g : Graph) (w : Walk) : Nat :=
  ∑ i ∈ (Finset.range g.size).filter (fun i => w.colour i = .unseen), ((g.needsAt i).length + 1)

/-- The steps that frames will take: one for each pending need, and one to leave. -/
def frameWork (frames : List (Nat × List Nat)) : Nat :=
  (frames.map fun f => f.2.length + 1).sum

/-- How many steps a walk has before it. -/
def work (g : Graph) (w : Walk) : Nat := unseenWork g w + frameWork w.frames

theorem unseenWork_congr {v : Walk} (h : ∀ i, w.colour i = .unseen ↔ v.colour i = .unseen) :
    unseenWork g w = unseenWork g v := by
  unfold unseenWork
  simp only [h]

/-- Opening a position moves its steps from the unseen ones to the frames. -/
theorem work_visit (h : w.colours.size = g.size) (hlt : i < g.size) (hi : w.colour i = .unseen) :
    work g (w.visit g i) = work g w := by
  have hmem : i ∈ (Finset.range g.size).filter (fun k => w.colour k = .unseen) :=
    Finset.mem_filter.mpr ⟨Finset.mem_range.mpr hlt, hi⟩
  have hrest : (Finset.range g.size).filter (fun k => (w.visit g i).colour k = .unseen) =
      ((Finset.range g.size).filter (fun k => w.colour k = .unseen)).erase i := by
    ext k
    rw [Finset.mem_erase, Finset.mem_filter, Finset.mem_filter, colour_visit (by rw [h]; exact hlt)]
    by_cases hki : k = i <;> simp [hki]
  have hsum := Finset.sum_erase_add _ (fun k => (g.needsAt k).length + 1) hmem
  rw [← hrest] at hsum
  have hframes : frameWork (w.visit g i).frames = (g.needsAt i).length + 1 + frameWork w.frames := by
    simp [visit, frameWork]
  unfold work unseenWork
  rw [hframes, ← hsum]
  omega

/-- No walk takes more steps than the graph has positions and edges. -/
theorem unseenWork_le (hg : g.Lawful) (w : Walk) : unseenWork g w ≤ g.size + g.edgeCount := by
  have hall : ∑ i ∈ Finset.range g.size, ((g.needsAt i).length + 1) = g.size + g.edgeCount := by
    rw [Finset.sum_add_distrib, ← edgeCount_eq_sum_needs hg]
    simp [Nat.add_comm]
  rw [← hall]
  exact Finset.sum_le_sum_of_subset (Finset.filter_subset _ _)

end Walk

section run
variable {w : Walk} {i j : Nat} {pending : List Nat} {rest : List (Nat × List Nat)}

theorem walk_nil (fuel : Nat) (h : w.frames = []) : walk g fuel w = .ok w := by
  obtain ⟨colours, frames, order⟩ := w
  obtain rfl : frames = _ := h
  cases fuel <;> rfl

theorem walk_leave (fuel : Nat) (h : w.frames = (i, []) :: rest) :
    walk g (fuel + 1) w = walk g fuel (w.leave i rest) := by
  obtain ⟨colours, frames, order⟩ := w
  obtain rfl : frames = _ := h
  rfl

theorem walk_need (fuel : Nat) (h : w.frames = (i, j :: pending) :: rest) :
    walk g (fuel + 1) w =
      match w.colour j with
      | .opened => .error j
      | .listed => walk g fuel (w.advance i pending rest)
      | .unseen => walk g fuel ((w.advance i pending rest).visit g j) := by
  obtain ⟨colours, frames, order⟩ := w
  obtain rfl : frames = _ := h
  rfl

/-- **How a walk ends** that has seen what `w` has seen: with nothing open, or at a position on a
    circle. -/
def Ends (g : Graph) (w : Walk) : Except Nat Walk → Prop
  | .ok v => v.Good g ∧ v.frames = [] ∧ ∀ i, w.colour i ≠ .unseen → v.colour i ≠ .unseen
  | .error j => j < g.size ∧ TransGen g.Edge j j

/-- What a later walk has seen, an earlier one need not have. -/
theorem Ends.of_later {v : Walk} (hsees : ∀ i, w.colour i ≠ .unseen → v.colour i ≠ .unseen)
    {r : Except Nat Walk} (h : Ends g v r) : Ends g w r := by
  cases r with
  | error j => exact h
  | ok u => exact ⟨h.1, h.2.1, fun i hi => h.2.2 i (hsees i hi)⟩

/-- **A walk with enough steps ends.** -/
theorem walk_ends (hg : g.Lawful) {fuel : Nat} (h : w.Good g) (hfuel : w.work g ≤ fuel) :
    Ends g w (walk g fuel w) := by
  induction fuel generalizing w with
  | zero =>
    have hframes : w.frames = [] := by
      cases hw : w.frames with
      | nil => rfl
      | cons f rest => simp [Walk.work, Walk.frameWork, hw] at hfuel
    rw [walk_nil 0 hframes]
    exact ⟨h, hframes, fun _ hi => hi⟩
  | succ fuel ih =>
    match hframes : w.frames with
    | [] =>
      rw [walk_nil _ hframes]
      exact ⟨h, hframes, fun _ hi => hi⟩
    | (i, []) :: rest =>
      rw [walk_leave _ hframes]
      -- The position was open, so no unseen one is lost, and the frame's last step is done.
      have hunseen : ∀ k, (w.leave i rest).colour k = .unseen ↔ w.colour k = .unseen := by
        intro k
        rw [h.colour_leave hframes]
        by_cases hki : k = i <;> simp [hki, h.opened_top hframes]
      have hwork : (w.leave i rest).work g + 1 = w.work g := by
        unfold Walk.work
        rw [Walk.unseenWork_congr hunseen, hframes]
        simp only [Walk.leave, Walk.frameWork, List.map_cons, List.sum_cons, List.length_nil]
        omega
      exact (ih (h.leave hframes) (by omega)).of_later fun k hk => mt (hunseen k).mp hk
    | (i, j :: pending) :: rest =>
      rw [walk_need _ hframes]
      -- Whatever the need turns out to be, it is no longer pending.
      have hadvance : (w.advance i pending rest).work g + 1 = w.work g := by
        have hsame : Walk.unseenWork g (w.advance i pending rest) = Walk.unseenWork g w :=
          Walk.unseenWork_congr fun k => Iff.rfl
        unfold Walk.work
        rw [hsame, hframes]
        simp only [Walk.advance, Walk.frameWork, List.map_cons, List.sum_cons, List.length_cons]
        omega
      match hj : w.colour j with
      | .opened => exact ⟨h.lt_size (by rw [hj]; decide), h.circle hframes hj⟩
      | .listed => exact (ih (h.skip hg hframes hj) (by omega)).of_later fun k hk => hk
      | .unseen =>
        have hlt : j < g.size := h.lt_size (by rw [hj]; decide)
        have hsize : (w.advance i pending rest).colours.size = g.size := h.size
        have hvisit := Walk.work_visit hsize hlt (i := j) hj
        refine (ih (h.openNeed hframes hj) (by omega)).of_later fun k hk => ?_
        rw [Walk.colour_visit (by rw [hsize]; exact hlt)]
        by_cases hkj : k = j <;> simp [hkj, hk]

/-- The walk from an unseen root ends, while nothing is open. -/
theorem walk_root_ends (hg : g.Lawful) (h : w.Good g) (hframes : w.frames = [])
    (hi : w.colour i = .unseen) :
    Ends g (w.visit g i) (walk g (g.size + g.edgeCount + 1) (w.visit g i)) := by
  have hlt : i < g.size := h.lt_size (by rw [hi]; decide)
  have hwork : (w.visit g i).work g ≤ g.size + g.edgeCount + 1 := by
    have hunseen := Walk.unseenWork_le hg w
    rw [Walk.work_visit h.size hlt hi, Walk.work, hframes]
    simp only [Walk.frameWork, List.map_nil, List.sum_nil]
    omega
  exact walk_ends hg (h.openRoot hframes hi) hwork

/-- The walks from all roots end, and then every root has been seen. -/
theorem walkAll_ends (hg : g.Lawful) (roots : List Nat) (h : w.Good g) (hframes : w.frames = []) :
    Ends g w (walkAll g roots w) ∧
      ∀ v, walkAll g roots w = .ok v → ∀ i ∈ roots, v.colour i ≠ .unseen := by
  induction roots generalizing w with
  | nil =>
    refine ⟨⟨h, hframes, fun _ hi => hi⟩, fun v _ i hi => ?_⟩
    cases hi
  | cons i roots ih =>
    -- A root that has been seen stays seen during the walks from the other roots.
    have hrest : ∀ {u : Walk}, u.Good g → u.frames = [] → u.colour i ≠ .unseen →
        ∀ v, walkAll g roots u = .ok v → ∀ k ∈ i :: roots, v.colour k ≠ .unseen := by
      intro u hu hopen hi v hv k hk
      obtain ⟨hends, hseen⟩ := ih hu hopen
      rw [hv] at hends
      rcases List.mem_cons.mp hk with rfl | hk
      · exact hends.2.2 k hi
      · exact hseen v hv k hk
    rw [walkAll]
    match hi : w.colour i with
    | .opened => exact ⟨(ih h hframes).1, hrest h hframes (by rw [hi]; decide)⟩
    | .listed => exact ⟨(ih h hframes).1, hrest h hframes (by rw [hi]; decide)⟩
    | .unseen =>
      have hlt : i < g.size := h.lt_size (by rw [hi]; decide)
      have hcolour : ∀ k, (w.visit g i).colour k = if k = i then .opened else w.colour k :=
        Walk.colour_visit (by rw [h.size]; exact hlt)
      have hsees : ∀ k, w.colour k ≠ .unseen → (w.visit g i).colour k ≠ .unseen := by
        intro k hk
        rw [hcolour]
        by_cases hki : k = i <;> simp [hki, hk]
      have hends := walk_root_ends hg h hframes hi
      match hwalk : walk g (g.size + g.edgeCount + 1) (w.visit g i) with
      | .error j =>
        rw [hwalk] at hends
        exact ⟨hends, fun v hv => by simp at hv⟩
      | .ok u =>
        rw [hwalk] at hends
        obtain ⟨hgood, hopen, hlater⟩ := hends
        have hseen : u.colour i ≠ .unseen := hlater i (by rw [hcolour]; simp)
        exact ⟨(ih hgood hopen).1.of_later fun k hk => hlater k (hsees k hk),
          hrest hgood hopen hseen⟩

end run

/-! ## The order -/

/-- Whatever a listed position needs, directly or through others, was listed before it. -/
theorem Walk.Good.closed_chain {w : Walk} (h : w.Good g) {i j : Nat}
    (hij : TransGen g.Edge i j) :
    ∀ newer older, w.order = newer ++ i :: older → j ∈ older := by
  induction hij using TransGen.head_induction_on with
  | single hedge => exact fun newer older heq => h.closed newer _ older heq j hedge
  | @head i k hedge _ ih =>
    intro newer older heq
    obtain ⟨front, back, rfl⟩ := List.append_of_mem (h.closed newer i older heq k hedge)
    have hj := ih (newer ++ i :: front) back (by rw [heq]; simp)
    exact List.mem_append_right _ (List.mem_cons_of_mem _ hj)

/-- **A generation order** lists every position once, behind all that it needs. -/
structure Ordered (g : Graph) (order : List Nat) : Prop where
  nodup : order.Nodup
  mem_iff : ∀ i, i ∈ order ↔ i < g.size
  behind : ∀ i j, TransGen g.Edge i j → [j, i].Sublist order

/-- When nothing is open and everything has been seen, the listed positions are in order. -/
theorem Walk.Good.ordered (hg : g.Lawful) {w : Walk} (h : w.Good g) (hframes : w.frames = [])
    (hseen : ∀ i, i < g.size → w.colour i ≠ .unseen) : Ordered g w.order.reverse := by
  have hlisted : ∀ i, i < g.size → i ∈ w.order := by
    intro i hi
    rw [← h.listed i hi]
    have hnotOpen : w.colour i ≠ .opened := by
      rw [Ne, h.opened, hframes]
      exact List.not_mem_nil
    match hc : w.colour i with
    | .unseen => exact absurd hc (hseen i hi)
    | .opened => exact absurd hc hnotOpen
    | .listed => rfl
  refine ⟨List.nodup_reverse.mpr h.order_nodup, fun i => ?_, fun i j hij => ?_⟩
  · rw [List.mem_reverse]
    exact ⟨h.order_lt i, hlisted i⟩
  · have hi : i < g.size := by
      obtain ⟨k, hik, _⟩ := TransGen.head'_iff.mp hij
      exact hik.lt_left hg
    obtain ⟨newer, older, heq⟩ := List.append_of_mem (hlisted i hi)
    have hj := h.closed_chain hij newer older heq
    rw [heq, List.reverse_append, List.reverse_cons, List.append_assoc]
    have hfirst : [j].Sublist older.reverse :=
      List.singleton_sublist.mpr (List.mem_reverse.mpr hj)
    have hsecond : [i].Sublist ([i] ++ newer.reverse) := List.sublist_append_left _ _
    exact hfirst.append hsecond

/-- How the generation order comes out: an order of the positions, or a position on a circle. -/
theorem generationOrder_cases (hg : g.Lawful) :
    (∃ order, Ordered g order ∧ g.generationOrder = .ok (order.map g.nameAt)) ∨
    (∃ j, j < g.size ∧ TransGen g.Edge j j ∧
      g.generationOrder = .error (.cycle (g.nameAt j))) := by
  obtain ⟨hends, hseen⟩ :=
    walkAll_ends hg (List.range g.size) (Walk.good_start (g := g)) rfl
  unfold generationOrder
  match hwalk : walkAll g (List.range g.size) (.start g.size) with
  | .ok w =>
    rw [hwalk] at hends
    have hall : ∀ i, i < g.size → w.colour i ≠ .unseen :=
      fun i hi => hseen w hwalk i (List.mem_range.mpr hi)
    exact Or.inl ⟨_, hends.1.ordered hg hends.2.1 hall, rfl⟩
  | .error j =>
    rw [hwalk] at hends
    exact Or.inr ⟨j, hends.1, hends.2, rfl⟩

/-! ## In names -/

section names
variable {dependencies : Ledger (List String)} {more : List String}

/-- In names: every known name once, behind all that it depends on. -/
theorem Ordered.names {order : List Nat}
    (h : Ordered (ofDependencies dependencies more) order) :
    let names := order.map (ofDependencies dependencies more).nameAt
    names.Nodup ∧ (∀ x, x ∈ names ↔ Known dependencies more x) ∧
      ∀ x y, TransGen (Needs dependencies) x y → [y, x].Sublist names := by
  intro names
  have hg := lawful_ofDependencies dependencies more
  refine ⟨?_, fun x => ?_, fun x y hxy => ?_⟩
  · refine List.Nodup.map_on (fun i hi j hj heq => ?_) h.nodup
    exact nameAt_injective hg ((h.mem_iff i).mp hi) ((h.mem_iff j).mp hj) heq
  · rw [← mem_ids_ofDependencies, List.mem_map]
    constructor
    · rintro ⟨i, hi, rfl⟩
      exact nameAt_mem ((h.mem_iff i).mp hi)
    · intro hx
      obtain ⟨i, hi, rfl⟩ := exists_position hx
      exact ⟨i, (h.mem_iff i).mpr hi, rfl⟩
  · obtain ⟨z, hxz, _⟩ := TransGen.head'_iff.mp hxy
    obtain ⟨i, hi, rfl⟩ := exists_position
      ((mem_ids_ofDependencies dependencies more).mpr (known_of_needs hxz).1)
    obtain ⟨j, _, rfl, hij⟩ := chain_positions hi hxy
    exact (h.behind i j hij).map _

end names

/-- **Without circles there is a generation order.**  It holds every known name exactly once,
    and each behind all that it depends on, directly or through others. -/
theorem generationOrder_of_acyclic (dependencies : Ledger (List String)) (more : List String)
    (hacyclic : ∀ x, ¬TransGen (Needs dependencies) x x) :
    ∃ order, (ofDependencies dependencies more).generationOrder = .ok order ∧ order.Nodup ∧
      (∀ x, x ∈ order ↔ Known dependencies more x) ∧
      ∀ x y, TransGen (Needs dependencies) x y → [y, x].Sublist order := by
  rcases generationOrder_cases (lawful_ofDependencies dependencies more) with
    ⟨order, hordered, hok⟩ | ⟨j, _, hcircle, _⟩
  · exact ⟨_, hok, hordered.names⟩
  · exact absurd (chain_names hcircle) (hacyclic _)

/-- A generation order shows that there is no circle. -/
theorem acyclic_of_generationOrder {dependencies : Ledger (List String)} {more order : List String}
    (h : (ofDependencies dependencies more).generationOrder = .ok order) (x : String) :
    ¬TransGen (Needs dependencies) x x := by
  rcases generationOrder_cases (lawful_ofDependencies dependencies more) with
    ⟨order, hordered, _⟩ | ⟨_, _, _, herror⟩
  · intro hcircle
    obtain ⟨hnodup, -, hbehind⟩ := hordered.names
    simpa using hnodup.sublist (hbehind x x hcircle)
  · rw [h] at herror
    cases herror

/-- A rank that falls along every entry of the dependencies rules circles out. -/
theorem acyclic_of_rank {dependencies : Ledger (List String)} (rank : String → Nat)
    (hfalls : ∀ e ∈ dependencies, ∀ y ∈ e.2, rank y < rank e.1) (x : String) :
    ¬TransGen (Needs dependencies) x x := by
  have hfall : ∀ {x y}, Needs dependencies x y → rank y < rank x := by
    rintro x y ⟨wanted, hfind, hy⟩
    exact hfalls _ (Ledger.mem_of_find? hfind) y hy
  have hchain : ∀ {y}, TransGen (Needs dependencies) x y → rank y < rank x := by
    intro y hxy
    induction hxy with
    | single hneeds => exact hfall hneeds
    | tail _ hneeds ih => exact (hfall hneeds).trans ih
  intro hcircle
  exact absurd (hchain hcircle) (lt_irrefl _)

/-- Shared needs, a repeated one and a name without any. -/
theorem generationOrder_of_acyclic_shared :
    ∃ order, (ofDependencies [("a", ["b", "c", "b"]), ("b", ["c"])] ["z"]).generationOrder =
        .ok order ∧ order.Nodup ∧
      (∀ x, x ∈ order ↔ Known [("a", ["b", "c", "b"]), ("b", ["c"])] ["z"] x) ∧
      ∀ x y, TransGen (Needs [("a", ["b", "c", "b"]), ("b", ["c"])]) x y →
        [y, x].Sublist order :=
  generationOrder_of_acyclic _ _ <|
    acyclic_of_rank (fun x => if x = "a" then 2 else if x = "b" then 1 else 0) (by decide)

/-- **With a circle there is no generation order**, and the name that the failure gives lies on a
    circle itself. -/
theorem generationOrder_of_circle (dependencies : Ledger (List String)) (more : List String)
    (hcircle : ∃ x, TransGen (Needs dependencies) x x) :
    ∃ x, (ofDependencies dependencies more).generationOrder = .error (.cycle x) ∧
      TransGen (Needs dependencies) x x := by
  obtain ⟨x, hx⟩ := hcircle
  rcases generationOrder_cases (lawful_ofDependencies dependencies more) with
    ⟨order, _, hok⟩ | ⟨j, _, hj, herror⟩
  · exact absurd hx (acyclic_of_generationOrder hok x)
  · exact ⟨_, herror, chain_names hj⟩

/-- A source that only leads to a circle comes first, and one on the circle is named. -/
theorem generationOrder_of_circle_behind :
    (∃ x, TransGen (Needs [("a", ["b"]), ("b", ["c"]), ("c", ["b"])]) x x) ∧
      ∃ x, (ofDependencies [("a", ["b"]), ("b", ["c"]), ("c", ["b"])] []).generationOrder =
          .error (.cycle x) ∧
        TransGen (Needs [("a", ["b"]), ("b", ["c"]), ("c", ["b"])]) x x := by
  have hbc : Needs [("a", ["b"]), ("b", ["c"]), ("c", ["b"])] "b" "c" := ⟨["c"], by decide⟩
  have hcb : Needs [("a", ["b"]), ("b", ["c"]), ("c", ["b"])] "c" "b" := ⟨["b"], by decide⟩
  have hcircle := TransGen.head hbc (.single hcb)
  exact ⟨⟨"b", hcircle⟩, generationOrder_of_circle _ _ ⟨"b", hcircle⟩⟩

end Regen.Graph
