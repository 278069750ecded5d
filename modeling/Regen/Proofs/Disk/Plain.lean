import Mathlib.Data.List.Induction
import Regen.Proofs.Disk.Below
import Regen.Proofs.Disk.Folders
import Regen.Proofs.Disk.Apart
import Regen.Proofs.Disk.PathText
import Regen.Source.Fingerprint

/-! # Disks without links

    Where nothing is a link, two dots undo the name before them.  So what a path leads to is at
    the place that its names say (`Disk.place`), and something below a folder is looked at under
    the folder's path and its own names, if that path is not too long. -/

namespace Regen.Disk

/-- **A name** that something in a folder can have. -/
structure IsName (s : String) : Prop extends Path.IsPart s where
  ne_up : s ≠ ".."
  noNull : '\x00' ∉ s.toList
  size : s.utf8ByteSize ≤ maxName

instance (s : String) : Decidable (IsName s) :=
  decidable_of_iff ((s ≠ "" ∧ s ≠ "." ∧ '/' ∉ s.toList) ∧ s ≠ ".." ∧ '\x00' ∉ s.toList ∧
      s.utf8ByteSize ≤ maxName)
    ⟨fun h => ⟨⟨h.1.1, h.1.2.1, h.1.2.2⟩, h.2.1, h.2.2.1, h.2.2.2⟩,
      fun h => ⟨⟨h.ne_empty, h.ne_dot, h.noSlash⟩, h.ne_up, h.noNull, h.size⟩⟩

/-- **A plain disk**: everything is in a folder and has a name, and nothing is a link. -/
structure Plain (d : Disk) : Prop where
  rooted : d.Rooted
  noLinks : ∀ x ∈ d.entries, ∀ target, x.2 ≠ .link target
  named : ∀ x ∈ d.entries, ∀ name ∈ x.1, IsName name

/-- The place that the names of a path say, two dots taken as written. -/
def place (d : Disk) (p : Path) : Place := climb (d.base p) p.parts

section plain
variable {d : Disk} {fuel links : Nat} {p q r : Place} {name : String} {names rest : List String}
  {spot : Spot} {e : Entry} {a : Path}

/-! ## Places and names -/

theorem Plain.ne_link (hd : d.Plain) (target : String) : d.at? q ≠ some (.link target) := by
  intro hat
  by_cases hq : q = []
  · subst hq
    cases hat
  · exact hd.noLinks _ (exists_entry_of_at? hq hat) target rfl

theorem Plain.isName (hd : d.Plain) (hat : d.at? q = some e) (hname : name ∈ q) : IsName name :=
  hd.named _ (exists_entry_of_at? (List.ne_nil_of_mem hname) hat) name hname

theorem climb_append (p : Place) (names rest : List String) :
    climb p (names ++ rest) = climb (climb p names) rest :=
  List.foldl_append

/-- Names without two dots are added. -/
theorem climb_of_names (p : Place) (hnames : ".." ∉ names) : climb p names = p ++ names := by
  induction names generalizing p with
  | nil => simp [climb]
  | cons name names ih =>
    obtain ⟨hname, hnames⟩ := not_or.mp (mt List.mem_cons.mpr hnames)
    have hstep : climb p (name :: names) = climb (p ++ [name]) names := by
      simp [climb, Ne.symm hname]
    rw [hstep, ih _ hnames, List.append_assoc, List.singleton_append]

theorem Plain.climb_nil (hd : d.Plain) (hat : d.at? q = some e) : climb [] q = q := by
  have hup : ".." ∉ q := fun hmem => (hd.isName hat hmem).ne_up rfl
  rw [climb_of_names [] hup, List.nil_append]

/-- What is at a place is below every folder that the place is in. -/
theorem Rooted.folder_of_prefix (hd : d.Rooted) (hat : d.at? (q ++ rest) = some e)
    (hrest : rest ≠ []) : d.at? q = some .folder := by
  induction rest using List.reverseRecOn generalizing e with
  | nil => exact absurd rfl hrest
  | append_singleton rest name ih =>
    have hfolder := hd.folder_around hat
    rw [← List.append_assoc, List.dropLast_concat] at hfolder
    by_cases hnil : rest = []
    · rwa [hnil, List.append_nil] at hfolder
    · exact ih hfolder hnil

theorem Rooted.below (hd : d.Rooted) (hat : d.at? (q ++ rest) = some e) (hrest : rest ≠ []) :
    d.Below q rest := by
  induction rest generalizing q with
  | nil => exact absurd rfl hrest
  | cons name rest ih =>
    rw [← List.singleton_append, ← List.append_assoc] at hat
    by_cases hnil : rest = []
    · subst hnil
      rw [List.append_nil] at hat
      exact .here hat
    · exact .inside (hd.folder_of_prefix hat hnil) (ih hat hnil)

theorem Below.exists_at? (h : d.Below p names) : ∃ e, d.at? (p ++ names) = some e := by
  induction h with
  | here hat => exact ⟨_, hat⟩
  | @inside p name names _ _ ih =>
    obtain ⟨e, he⟩ := ih
    exact ⟨e, by rwa [List.append_assoc, List.singleton_append] at he⟩

/-! ## Following -/

/-- **On a plain disk following ends where the names say.** -/
theorem Plain.place_of_follow (hd : d.Plain)
    (h : d.follow true fuel links p names = .ok spot) : spot.place = climb p names := by
  fun_induction follow d true fuel links p names with
  | case1 | case3 | case5 | case7 | case10 | case12 => cases h
  | case2 => rw [← Except.ok.inj h]; rfl
  | case4 _ _ _ _ ih => exact ih h
  | case6 _ _ p name rest hname _ _ _ hrest | case9 _ _ p name rest hname _ _ _ _ _ hrest =>
    obtain rfl := List.isEmpty_iff.mp hrest
    rw [← Except.ok.inj h, climb_of_names p (by simpa using Ne.symm hname)]
    rfl
  | case8 _ _ p name rest hname _ _ _ ih =>
    rw [ih h, ← List.singleton_append, climb_append,
      climb_of_names p (by simpa using Ne.symm hname)]
  | case11 _ _ _ _ _ _ _ _ target hat | case13 _ _ _ _ _ _ _ target hat =>
    exact absurd hat (hd.ne_link target)

/-- There are steps for every name. -/
theorem Plain.follow_ne (hd : d.Plain) (hfuel : names.length < fuel) :
    d.follow true fuel links p names ≠ .error .tooManyLinks := by
  fun_induction follow d true fuel links p names with
  | case1 => cases hfuel
  | case4 _ _ _ _ ih | case8 _ _ _ _ _ _ _ _ _ ih => exact ih (Nat.lt_of_succ_lt_succ hfuel)
  | case11 _ _ _ _ _ _ _ _ target hat | case12 _ _ _ _ _ _ _ target hat
  | case13 _ _ _ _ _ _ _ target hat => exact absurd hat (hd.ne_link target)
  | case2 | case3 | case5 | case6 | case7 | case9 | case10 =>
    intro heq
    cases heq

/-- Behind names that lead to a folder, following goes on from there. -/
theorem Plain.follow_append (hd : d.Plain)
    (h : d.follow true fuel links p names = .ok (.found q .folder)) (more : Nat) :
    d.follow true (names.length + more) links p (names ++ rest) =
      d.follow true more links q rest := by
  fun_induction follow d true fuel links p names with
  | case1 | case3 | case5 | case7 | case10 | case12 => cases h
  | case2 _ _ p _ _ _ =>
    obtain ⟨rfl, -⟩ := Spot.found.inj (Except.ok.inj h)
    rw [List.length_nil, Nat.zero_add, List.nil_append]
  | case4 _ _ _ rest ih =>
    rw [List.length_cons, Nat.succ_add, List.cons_append, follow_up]
    exact ih h
  | case6 => cases Except.ok.inj h
  | case9 => cases (Spot.found.inj (Except.ok.inj h)).2
  | case8 _ _ _ _ _ hname _ hsize hat ih =>
    rw [List.length_cons, Nat.succ_add, List.cons_append,
      follow_folder hname (Nat.le_of_not_lt hsize) hat]
    exact ih h
  | case11 _ _ _ _ _ _ _ _ target hat | case13 _ _ _ _ _ _ _ target hat =>
    exact absurd hat (hd.ne_link target)

/-- Names lead down to what is below. -/
theorem Plain.follow_below (hd : d.Plain) (h : d.Below p names)
    (hat : d.at? (p ++ names) = some e) (hfuel : names.length < fuel) :
    d.follow true fuel links p names = .ok (.found (p ++ names) e) := by
  have hname : ∀ name ∈ names, IsName name := fun name hmem =>
    hd.isName hat (List.mem_append_right p hmem)
  induction h generalizing fuel with
  | @here p name =>
    have hn := hname name List.mem_cons_self
    obtain ⟨more, rfl⟩ : ∃ more, fuel = more + 2 :=
      ⟨fuel - 2, by rw [List.length_singleton] at hfuel; omega⟩
    rw [follow_last hn.ne_up hn.size fun target htarget => absurd htarget (hd.ne_link target),
      spotAt_of_some hat]
  | @inside p name names hfolder _ ih =>
    have hn := hname name List.mem_cons_self
    have hsame : p ++ name :: names = p ++ [name] ++ names := by simp
    obtain ⟨more, rfl⟩ : ∃ more, fuel = more + 1 := ⟨fuel - 1, by omega⟩
    rw [follow_folder hn.ne_up hn.size hfolder, hsame]
    rw [hsame] at hat
    exact ih hat (Nat.lt_of_succ_lt_succ hfuel) fun name hmem =>
      hname name (List.mem_cons_of_mem _ hmem)

/-! ## Paths -/

/-- What a path leads to is at the place that its names say. -/
theorem Plain.locate_found (hd : d.Plain) (h : d.locate a true = .ok (.found q e)) :
    q = d.place a ∧ d.at? q = some e := by
  refine ⟨?_, at?_of_spotAt_found (spotAt_of_locate h)⟩
  unfold locate at h
  split at h
  · cases h
  · exact hd.place_of_follow h

/-- **What is below a folder is looked at by the folder's path and its own names**, unless that
    path is too long. -/
theorem Plain.locate_below (hd : d.Plain) (h : d.locate a true = .ok (.found p .folder))
    (hbelow : d.Below p names) (hat : d.at? (p ++ names) = some e) :
    d.locate (a / ⟨0, names⟩) true =
      if maxPath < (a / ⟨0, names⟩ : Path).text.utf8ByteSize then .error .nameTooLong
      else .ok (.found (p ++ names) e) := by
  have hparts : (a / ⟨0, names⟩ : Path).parts = a.parts ++ names := rfl
  have hbase : d.base (a / ⟨0, names⟩) = d.base a := rfl
  unfold locate at h
  split at h
  · cases h
  · obtain ⟨more, hmore, hlong⟩ : ∃ more,
        d.steps (a.parts ++ names).length = a.parts.length + more ∧ names.length < more := by
      refine ⟨names.length + 1 + (maxLinks + 1) * (d.longestTarget + 1), ?_, by omega⟩
      rw [steps, List.length_append]
      omega
    rw [locate, hparts, hbase, hmore, hd.follow_append h, hd.follow_below hbelow hat hlong]

theorem Plain.holdsNull_below (hd : d.Plain) (hat : d.at? (p ++ names) = some e) :
    holdsNull (a / ⟨0, names⟩) = holdsNull a := by
  have hnames : (names.any fun s => s.toList.contains '\x00') = false := by
    rw [List.any_eq_false]
    intro s hs
    simpa using (hd.isName hat (List.mem_append_right p hs)).noNull
  have hparts : (a / ⟨0, names⟩ : Path).parts = a.parts ++ names := rfl
  rw [holdsNull, hparts, List.any_append, hnames, Bool.or_false]
  rfl

/-- Something below a folder can be told to be a file or not, unless its path is too long. -/
theorem Plain.isFile?_below (hd : d.Plain) (hnull : holdsNull a = false)
    (h : d.locate a true = .ok (.found p .folder)) (hbelow : d.Below p names)
    (hat : d.at? (p ++ names) = some e) :
    d.isFile? (a / ⟨0, names⟩) =
      if maxPath < (a / ⟨0, names⟩ : Path).text.utf8ByteSize then .error .nameTooLong
      else .ok (e matches .file ..) := by
  rw [isFile?, lookUp, hd.holdsNull_below hat, hnull, hd.locate_below h hbelow hat]
  by_cases hlong : maxPath < (a / ⟨0, names⟩ : Path).text.utf8ByteSize
  · rw [if_pos hlong, if_pos hlong]
    rfl
  · rw [if_neg hlong, if_neg hlong]
    cases e <;> rfl

/-! ## Real paths -/

theorem Plain.settle_fst (hd : d.Plain) (opened : List Place) :
    (d.settle opened fuel p names).1 = climb p names := by
  fun_induction settle d opened fuel p names with
  | case1 => rfl
  | case2 => rfl
  | case3 _ _ _ _ ih => exact ih
  | case4 _ _ _ _ _ _ _ target hat | case5 _ _ _ _ _ _ _ target hat
  | case6 _ _ _ _ _ _ _ target hat => exact absurd hat (hd.ne_link target)
  | case7 _ _ p name rest hname _ _ ih =>
    rw [ih, ← List.singleton_append, climb_append,
      climb_of_names p (by simpa using Ne.symm hname)]

theorem Plain.realPath_eq (hd : d.Plain) (a : Path) : d.realPath a = ⟨1, d.place a⟩ := by
  rw [realPath, hd.settle_fst, place]

/-- **On a plain disk the real path is the place that the names say.** -/
theorem Plain.resolvePath_eq (hd : d.Plain) (hnull : holdsNull a = false) :
    resolvePath d a = .ok ⟨1, d.place a⟩ := by
  rw [resolvePath, if_neg (Bool.eq_false_iff.mp hnull)]
  dsimp only
  rw [hd.realPath_eq]
  split
  · next hcircle =>
    unfold locate at hcircle
    split at hcircle
    · cases hcircle
    · refine absurd hcircle (hd.follow_ne ?_)
      rw [steps]
      omega
  · rfl

end plain

end Regen.Disk
