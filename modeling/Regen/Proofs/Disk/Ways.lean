import Regen.Disk.Disk

/-! # Ways

    A path is followed with bounds on its links and steps.  A way is what following finds, without
    the bound on steps: the folders and links that the names lead through, up to the place of the
    last name.  Following agrees with ways, so what a path leads to changes only when a folder or
    link on its way does:

    * whatever following finds, a way leads to (`way_of_follow`);
    * there are steps enough to follow any way (`follow_of_way`);
    * a disk that keeps folders and links keeps ways (`Way.mono`). -/

namespace Regen.Disk

/-- What following says about a place that it reaches. -/
def spotAt (d : Disk) (q : Place) : Spot :=
  match d.at? q with
  | some e => .found q e
  | none => .vacant q

theorem spotAt_of_some {d : Disk} {q : Place} {e : Entry} (h : d.at? q = some e) :
    d.spotAt q = .found q e := by
  rw [spotAt, h]

theorem spotAt_of_none {d : Disk} {q : Place} (h : d.at? q = none) : d.spotAt q = .vacant q := by
  rw [spotAt, h]

/-- **A way** from a folder: the names lead to the place `q`, and its folder is reached.  What is
    at `q` does not matter; at most `links` links are followed. -/
inductive Way (d : Disk) : Nat → Place → List String → Place → Prop
  | last {links : Nat} {p : Place} {name : String} (hname : name ≠ "..")
      (hsize : name.utf8ByteSize ≤ maxName) : Way d links p [name] (p ++ [name])
  | up {links : Nat} {p : Place} {rest : List String} {q : Place}
      (hway : Way d links p.dropLast rest q) : Way d links p (".." :: rest) q
  | folder {links : Nat} {p : Place} {name : String} {rest : List String} {q : Place}
      (hname : name ≠ "..") (hsize : name.utf8ByteSize ≤ maxName)
      (hat : d.at? (p ++ [name]) = some .folder) (hway : Way d links (p ++ [name]) rest q) :
      Way d links p (name :: rest) q
  | link {links : Nat} {p : Place} {name target : String} {rest : List String} {q : Place}
      (hname : name ≠ "..") (hsize : name.utf8ByteSize ≤ maxName)
      (hat : d.at? (p ++ [name]) = some (.link target)) (hrest : rest ≠ [])
      (hway : Way d links (if (Path.ofText target).isAbsolute then [] else p)
        ((Path.ofText target).parts ++ rest) q) :
      Way d (links + 1) p (name :: rest) q

/-- A way ends below the root. -/
theorem Way.place_ne_nil {d : Disk} {links : Nat} {p q : Place} {names : List String}
    (h : Way d links p names q) : q ≠ [] := by
  induction h with
  | last => exact List.concat_ne_nil _ _
  | up _ ih | folder _ _ _ _ ih | link _ _ _ _ _ ih => exact ih

/-! ## Steps of following -/

attribute [local simp] follow

section steps
variable {d : Disk} {last : Bool} {fuel links : Nat} {p : Place} {name : String}
  {rest : List String}

/-- Without names following stays where it is. -/
theorem follow_nil : d.follow last (fuel + 1) links p [] =
    match d.at? p with
    | some e => .ok (.found p e)
    | none => .error .notFound := rfl

theorem follow_up : d.follow last (fuel + 1) links p (".." :: rest) =
    d.follow last fuel links p.dropLast rest := by
  simp

theorem follow_folder (hname : name ≠ "..") (hsize : name.utf8ByteSize ≤ maxName)
    (hat : d.at? (p ++ [name]) = some .folder) :
    d.follow last (fuel + 1) links p (name :: rest) =
      d.follow last fuel links (p ++ [name]) rest := by
  rw [follow, if_neg (Nat.not_lt.mpr hsize), hat]
  exact hname

/-- A link is followed unless it is the end and nobody asks for it. -/
theorem follow_link {target : String} (hname : name ≠ "..") (hsize : name.utf8ByteSize ≤ maxName)
    (hat : d.at? (p ++ [name]) = some (.link target)) (hgo : rest ≠ [] ∨ last = true) :
    d.follow last (fuel + 1) (links + 1) p (name :: rest) =
      d.follow last fuel links (if (Path.ofText target).isAbsolute then [] else p)
        ((Path.ofText target).parts ++ rest) := by
  have hgoes : ¬(rest.isEmpty && !last) = true := by
    rcases hgo with hne | rfl <;> simp_all
  rw [follow, if_neg (Nat.not_lt.mpr hsize), hat]
  · simp only [if_neg hgoes]
  · exact hname

/-- At the last name following stops, whatever is there: a folder takes one step more, and a link
    is found only if it is not asked to be followed. -/
theorem follow_last (hname : name ≠ "..") (hsize : name.utf8ByteSize ≤ maxName)
    (hlink : ∀ target, d.at? (p ++ [name]) = some (.link target) → last = false) :
    d.follow last (fuel + 2) links p [name] = .ok (d.spotAt (p ++ [name])) := by
  rw [follow, if_neg (Nat.not_lt.mpr hsize)]
  · match hat : d.at? (p ++ [name]) with
    | none => simp [spotAt, hat]
    | some .folder => simp [spotAt, hat]
    | some (.file c t) => simp [spotAt, hat]
    | some (.link target) => simp [spotAt, hat, hlink target hat]
  · exact hname

end steps

/-! ## From following to ways -/

section following
variable {d : Disk} {last : Bool} {fuel links : Nat} {p q : Place} {names : List String}
  {spot : Spot}

/-- Without names something is found. -/
theorem found_of_follow_nil (h : d.follow last fuel links p [] = .ok spot) :
    ∃ e, d.at? p = some e ∧ spot = .found p e := by
  match fuel with
  | 0 => cases h
  | fuel + 1 =>
    rw [follow_nil] at h
    match hat : d.at? p with
    | some e =>
      rw [hat] at h
      exact ⟨e, rfl, (Except.ok.inj h).symm⟩
    | none =>
      rw [hat] at h
      cases h

/-- What following ends at is what the last of the names names: nothing is there, or the name is
    no step up. -/
def EndsAtName (names : List String) (spot : Spot) : Prop :=
  (∃ q, spot = .vacant q) ∨ ∃ name, names.getLast? = some name ∧ name ≠ ".."

theorem EndsAtName.of_getLast? {others : List String} (h : EndsAtName names spot)
    (hlast : names.getLast? = others.getLast?) : EndsAtName others spot := by
  rw [EndsAtName, ← hlast]
  exact h

/-- Where following ends at what the last name names, a way leads there. -/
theorem way_of_follow (h : d.follow false fuel links p names = .ok spot)
    (hends : EndsAtName names spot) : ∃ q, Way d links p names q ∧ spot = d.spotAt q := by
  fun_induction follow d false fuel links p names with
  | case1 | case3 | case5 | case7 | case10 | case12 => cases h
  | case2 _ _ _ e _ _ =>
    obtain rfl := Except.ok.inj h
    rcases hends with ⟨q, hq⟩ | ⟨name, hname, _⟩
    · cases hq
    · cases hname
  | case4 fuel links p rest ih =>
    match rest with
    | [] =>
      obtain ⟨e, _, rfl⟩ := found_of_follow_nil h
      rcases hends with ⟨q, hq⟩ | ⟨name, hname, hup⟩
      · cases hq
      · exact absurd (Option.some.inj hname).symm hup
    | next :: rest =>
      obtain ⟨q, hway, hspot⟩ := ih h (hends.of_getLast? List.getLast?_cons_cons)
      exact ⟨q, .up hway, hspot⟩
  | case6 fuel links p name rest hname next hsize hat hrest =>
    obtain rfl := List.isEmpty_iff.mp hrest
    obtain rfl := Except.ok.inj h
    exact ⟨next, .last hname (Nat.le_of_not_lt hsize), (spotAt_of_none hat).symm⟩
  | case8 fuel links p name rest hname next hsize hat ih =>
    match rest with
    | [] =>
      obtain ⟨e, he, rfl⟩ := found_of_follow_nil h
      exact ⟨next, .last hname (Nat.le_of_not_lt hsize), (spotAt_of_some he).symm⟩
    | other :: rest =>
      obtain ⟨q, hway, hspot⟩ := ih h (hends.of_getLast? List.getLast?_cons_cons)
      exact ⟨q, .folder hname (Nat.le_of_not_lt hsize) hat hway, hspot⟩
  | case9 fuel links p name rest hname next hsize c t hat hrest =>
    obtain rfl := List.isEmpty_iff.mp hrest
    obtain rfl := Except.ok.inj h
    exact ⟨next, .last hname (Nat.le_of_not_lt hsize), (spotAt_of_some hat).symm⟩
  | case11 fuel links p name rest hname next hsize target hat hrest =>
    obtain rfl : rest = [] := by simpa using hrest
    obtain rfl := Except.ok.inj h
    exact ⟨next, .last hname (Nat.le_of_not_lt hsize), (spotAt_of_some hat).symm⟩
  | case13 fuel p name rest hname next hsize target hat hrest links t ih =>
    -- The target of a link comes before the names behind it, so the last name stays the last.
    have hne : rest ≠ [] := by simpa using hrest
    obtain ⟨other, more, rfl⟩ := List.exists_cons_of_ne_nil hne
    have hlast : (name :: other :: more).getLast? = (t.parts ++ other :: more).getLast? := by
      rw [List.getLast?_append, List.getLast?_cons_cons, List.getLast?_cons, Option.some_or]
    obtain ⟨q, hway, hspot⟩ := ih h (hends.of_getLast? hlast)
    exact ⟨q, .link hname (Nat.le_of_not_lt hsize) hat hne hway, hspot⟩

/-- What is found with a link at the end is found without it: the link itself, if nothing else. -/
theorem follow_found_of_last {e : Entry}
    (h : d.follow true fuel links p names = .ok (.found q e)) :
    ∃ q' e', d.follow false fuel links p names = .ok (.found q' e') := by
  fun_induction follow d true fuel links p names with
  | case1 | case3 | case5 | case6 | case7 | case10 | case12 => cases h
  | case2 fuel links p e hat hfuel =>
    obtain ⟨fuel, rfl⟩ := Nat.exists_eq_succ_of_ne_zero hfuel
    exact ⟨p, e, by rw [follow_nil, hat]⟩
  | case4 fuel links p rest ih =>
    obtain ⟨q', e', h'⟩ := ih h
    exact ⟨q', e', by rw [follow_up, h']⟩
  | case8 fuel links p name rest hname next hsize hat ih =>
    obtain ⟨q', e', h'⟩ := ih h
    exact ⟨q', e', by rw [follow_folder hname (Nat.le_of_not_lt hsize) hat, h']⟩
  | case9 fuel links p name rest hname next hsize c t hat hrest =>
    refine ⟨next, .file c t, ?_⟩
    rw [follow, if_neg hsize, hat]
    · simp [hrest, next]
    · exact hname
  | case11 fuel links p name rest hname next hsize target hat hrest =>
    simp at hrest
  | case13 fuel p name rest hname next hsize target hat hrest links t ih =>
    by_cases hne : rest = []
    · -- The link is the end: without following it, it is what is found.
      refine ⟨next, .link target, ?_⟩
      rw [follow, if_neg hsize, hat]
      · simp [hne, next]
      · exact hname
    · obtain ⟨q', e', h'⟩ := ih h
      exact ⟨q', e', by rw [follow_link hname (Nat.le_of_not_lt hsize) hat (.inl hne), h']⟩

end following

/-! ## From ways to following -/

/-- No link on the disk has a longer target. -/
theorem length_le_longestTarget {d : Disk} {q : Place} {target : String}
    (h : d.at? q = some (.link target)) : target.length ≤ d.longestTarget := by
  have hmem : ∃ x ∈ d.entries, x.2 = .link target := by
    rw [at?] at h
    split at h
    · cases h
    · obtain ⟨x, hx, htarget⟩ := Option.map_eq_some_iff.mp h
      exact ⟨x, List.mem_of_find?_eq_some hx, htarget⟩
  obtain ⟨x, hx, htarget⟩ := hmem
  unfold longestTarget
  generalize d.entries = entries at hx
  induction entries with
  | nil => cases hx
  | cons y rest ih =>
    rw [List.foldr_cons]
    rcases List.mem_cons.mp hx with rfl | hrest
    · rw [htarget]
      exact Nat.le_max_left _ _
    · have hle := ih hrest
      split
      · exact Nat.le_trans hle (Nat.le_max_right _ _)
      · exact hle

theorem length_parts_le (s : String) : (Path.ofText s).parts.length ≤ s.length + 1 := by
  have hcut : ∀ cs : List Char, (Text.splitAt (· == '/') cs).length ≤ cs.length + 1 := by
    intro cs
    induction cs with
    | nil => simp [Text.splitAt]
    | cons c rest ih =>
      rw [Text.splitAt]
      split
      · simpa using ih
      · split
        · simp
        · next hrest => simp_all; omega
  calc (Path.ofText s).parts.length
      ≤ ((Text.splitAt (· == '/') s.toList).map String.ofList).length := List.length_filter_le _ _
    _ ≤ s.length + 1 := by
      rw [List.length_map, ← String.length_toList]
      exact hcut _

/-- **There are steps enough for every way**: each name is a step, and each link brings at most
    as many names as its target is long. -/
theorem follow_of_way {d : Disk} {last : Bool} {fuel links : Nat} {p q : Place}
    {names : List String} (h : Way d links p names q)
    (hfuel : names.length + 1 + links * (d.longestTarget + 1) ≤ fuel)
    (hlink : ∀ target, d.at? q = some (.link target) → last = false) :
    d.follow last fuel links p names = .ok (d.spotAt q) := by
  induction h generalizing fuel with
  | last hname hsize =>
    simp only [List.length_singleton] at hfuel
    obtain ⟨fuel, rfl⟩ : ∃ k, fuel = k + 2 := ⟨fuel - 2, by omega⟩
    exact follow_last hname hsize hlink
  | up hway ih =>
    simp only [List.length_cons] at hfuel
    obtain ⟨fuel, rfl⟩ : ∃ k, fuel = k + 1 := ⟨fuel - 1, by omega⟩
    rw [follow_up]
    exact ih (by omega) hlink
  | folder hname hsize hat hway ih =>
    simp only [List.length_cons] at hfuel
    obtain ⟨fuel, rfl⟩ : ∃ k, fuel = k + 1 := ⟨fuel - 1, by omega⟩
    rw [follow_folder hname hsize hat]
    exact ih (by omega) hlink
  | @link links p name target rest q hname hsize hat hrest hway ih =>
    -- One link is used up, which pays for the names of its target.
    have hparts := length_parts_le target
    have htarget := length_le_longestTarget hat
    simp only [List.length_cons, Nat.succ_mul] at hfuel
    obtain ⟨fuel, rfl⟩ : ∃ k, fuel = k + 1 := ⟨fuel - 1, by omega⟩
    rw [follow_link hname hsize hat (.inl hrest)]
    refine ih ?_ hlink
    rw [List.length_append]
    omega

/-! ## Paths -/

/-- **A path leads to a place** if it can be named and a way from its start leads there. -/
def Leads (d : Disk) (p : Path) (q : Place) : Prop :=
  p.text.utf8ByteSize ≤ maxPath ∧ Way d maxLinks (d.base p) p.parts q

section paths
variable {d : Disk} {p : Path} {q : Place}

theorem Leads.place_ne_nil (h : d.Leads p q) : q ≠ [] := h.2.place_ne_nil

/-- What a path leads to is what is located. -/
theorem Leads.locate (h : d.Leads p q) {last : Bool}
    (hlink : ∀ target, d.at? q = some (.link target) → last = false) :
    d.locate p last = .ok (d.spotAt q) := by
  rw [Disk.locate, if_neg (Nat.not_lt.mpr h.1)]
  refine follow_of_way h.2 ?_ hlink
  simp only [steps, Nat.add_mul]
  omega

/-- What is at the end and is no link is located, whether links at the end are followed or not. -/
theorem Leads.locate_found (h : d.Leads p q) {e : Entry} (hat : d.at? q = some e)
    (hlink : ∀ target, e ≠ .link target) (last : Bool) : d.locate p last = .ok (.found q e) := by
  have hnone : ∀ target, d.at? q = some (.link target) → last = false := by
    intro target htarget
    rw [hat] at htarget
    exact absurd (Option.some.inj htarget) (hlink target)
  rw [h.locate hnone, spotAt_of_some hat]

theorem Leads.locate_vacant (h : d.Leads p q) (hat : d.at? q = none) (last : Bool) :
    d.locate p last = .ok (.vacant q) := by
  have hnone : ∀ target, d.at? q = some (.link target) → last = false := by
    intro target htarget
    rw [hat] at htarget
    cases htarget
  rw [h.locate hnone, spotAt_of_none hat]

/-- A path leads to one place. -/
theorem Leads.unique {q' : Place} (h : d.Leads p q) (h' : d.Leads p q') : q = q' := by
  have hlocate := h.locate fun _ _ => (rfl : false = false)
  rw [h'.locate fun _ _ => rfl, spotAt, spotAt] at hlocate
  have hspot := Except.ok.inj hlocate
  split at hspot <;> split at hspot <;> cases hspot <;> rfl

theorem leads_of_locate {spot : Spot} (h : d.locate p false = .ok spot)
    (hends : EndsAtName p.parts spot) : ∃ q, d.Leads p q ∧ spot = d.spotAt q := by
  rw [Disk.locate] at h
  split at h
  · cases h
  · next hsize =>
    obtain ⟨q, hway, hspot⟩ := way_of_follow h hends
    exact ⟨q, ⟨Nat.le_of_not_lt hsize, hway⟩, hspot⟩

/-- A place where nothing is located is one that the path leads to. -/
theorem leads_of_locate_vacant (h : d.locate p false = .ok (.vacant q)) :
    d.Leads p q ∧ d.at? q = none := by
  obtain ⟨q', hleads, hspot⟩ := leads_of_locate h (.inl ⟨q, rfl⟩)
  match hat : d.at? q' with
  | none =>
    rw [spotAt_of_none hat] at hspot
    obtain rfl := Spot.vacant.inj hspot
    exact ⟨hleads, hat⟩
  | some e =>
    rw [spotAt_of_some hat] at hspot
    cases hspot

/-- What is located with a link at the end is located without it. -/
theorem locate_found_of_last {e : Entry} (h : d.locate p true = .ok (.found q e)) :
    ∃ q' e', d.locate p false = .ok (.found q' e') := by
  unfold Disk.locate at h ⊢
  split at h
  · cases h
  · next hsize =>
    rw [if_neg hsize]
    exact follow_found_of_last h

end paths

/-! ## Keeping ways -/

/-- A disk keeps the ways of another one if every folder and link is still where it was. -/
structure KeepsWays (d d' : Disk) : Prop where
  workFolder : d'.workFolder = d.workFolder
  folder : ∀ q, d.at? q = some .folder → d'.at? q = some .folder
  link : ∀ q target, d.at? q = some (.link target) → d'.at? q = some (.link target)

theorem Way.mono {d d' : Disk} (hkeeps : d.KeepsWays d') {links : Nat} {p q : Place}
    {names : List String} (h : Way d links p names q) : Way d' links p names q := by
  induction h with
  | last hname hsize => exact .last hname hsize
  | up _ ih => exact .up ih
  | folder hname hsize hat _ ih => exact .folder hname hsize (hkeeps.folder _ hat) ih
  | link hname hsize hat hrest _ ih => exact .link hname hsize (hkeeps.link _ _ hat) hrest ih

theorem Leads.mono {d d' : Disk} (hkeeps : d.KeepsWays d') {p : Path} {q : Place}
    (h : d.Leads p q) : d'.Leads p q := by
  refine ⟨h.1, ?_⟩
  have hbase : d'.base p = d.base p := by rw [base, base, hkeeps.workFolder]
  rw [hbase]
  exact h.2.mono hkeeps

section keeping
variable {d d' : Disk}

theorem KeepsWays.refl (d : Disk) : d.KeepsWays d := ⟨rfl, fun _ h => h, fun _ _ h => h⟩

/-- Nothing or a file is at a place, so that no way leads through it. -/
def NoWayThrough (d : Disk) (q : Place) : Prop :=
  ∀ e, d.at? q = some e → ∃ content changed, e = .file content changed

theorem NoWayThrough.of_file {q : Place} {content : Bytes} {changed : Int}
    (hat : d.at? q = some (.file content changed)) : d.NoWayThrough q := by
  intro e he
  rw [hat] at he
  exact ⟨content, changed, (Option.some.inj he).symm⟩

theorem NoWayThrough.of_vacant {q : Place} (hat : d.at? q = none) : d.NoWayThrough q := by
  intro e he
  rw [hat] at he
  cases he

theorem NoWayThrough.ne {q r : Place} {e : Entry} (h : d.NoWayThrough q) (hat : d.at? r = some e)
    (hfile : ∀ content changed, e ≠ .file content changed) : r ≠ q := by
  rintro rfl
  obtain ⟨content, changed, he⟩ := h e hat
  exact hfile content changed he

/-- A disk that differs only where no way leads through keeps ways. -/
theorem KeepsWays.of_other {q : Place} (hplain : d.NoWayThrough q)
    (hfolder : d'.workFolder = d.workFolder) (hother : ∀ r, r ≠ q → d'.at? r = d.at? r) :
    d.KeepsWays d' := by
  refine ⟨hfolder, fun r hat => ?_, fun r target hat => ?_⟩
  · rw [hother r (hplain.ne hat fun _ _ h => nomatch h)]
    exact hat
  · rw [hother r (hplain.ne hat fun _ _ h => nomatch h)]
    exact hat

theorem KeepsWays.put {q : Place} (hplain : d.NoWayThrough q) (e : Entry) :
    d.KeepsWays (d.put q e) :=
  .of_other hplain rfl fun _ hr => at?_put_ne d hr e

theorem KeepsWays.remove {q : Place} (hplain : d.NoWayThrough q) : d.KeepsWays (d.remove q) :=
  .of_other hplain rfl fun _ hr => at?_remove_ne d hr

/-- A disk keeps the ways of another one beside a place if folders and links are still where they
    were, except perhaps there. -/
structure KeepsWaysBeside (d d' : Disk) (q : Place) : Prop where
  workFolder : d'.workFolder = d.workFolder
  folder : ∀ r, r ≠ q → d.at? r = some .folder → d'.at? r = some .folder
  link : ∀ r target, r ≠ q → d.at? r = some (.link target) → d'.at? r = some (.link target)

theorem KeepsWaysBeside.refl (d : Disk) (q : Place) : d.KeepsWaysBeside d q :=
  ⟨rfl, fun _ _ hat => hat, fun _ _ _ hat => hat⟩

theorem KeepsWaysBeside.put (d : Disk) (q : Place) (e : Entry) :
    d.KeepsWaysBeside (d.put q e) q :=
  ⟨rfl, fun _ hr hat => (at?_put_ne d hr e).trans hat,
    fun _ _ hr hat => (at?_put_ne d hr e).trans hat⟩

/-- **A path leads freely to a place** if it does so whatever is there: no link that is followed
    on the way is at its own end. -/
def LeadsFreely (d : Disk) (p : Path) (q : Place) : Prop :=
  ∀ d', d.KeepsWaysBeside d' q → d'.Leads p q

theorem LeadsFreely.leads {p : Path} {q : Place} (h : d.LeadsFreely p q) : d.Leads p q :=
  h d (.refl d q)

/-- Where no way leads through, every path leads freely. -/
theorem Leads.freely {p : Path} {q : Place} (h : d.Leads p q) (hplain : d.NoWayThrough q) :
    d.LeadsFreely p q := by
  intro d' hbeside
  refine h.mono ⟨hbeside.workFolder, fun r hat => ?_, fun r target hat => ?_⟩
  · exact hbeside.folder r (hplain.ne hat fun _ _ h => nomatch h) hat
  · exact hbeside.link r target (hplain.ne hat fun _ _ h => nomatch h) hat

end keeping

end Regen.Disk
