import Mathlib.Data.List.Nodup
import Mathlib.Data.List.Perm.Subperm
import Regen.Disk.Disk
import Regen.Proofs.Outcome

/-! # What is below a folder

    The names of everything below a folder are listed to a depth that fuel bounds.  There is fuel
    for all of them: each folder on the way down is another entry of the disk.  So the files below
    a folder are exactly those that names lead to through folders, links not entered. -/

namespace Regen.Disk

/-- **Something is below a folder**: the names lead to it, each but the last one through a folder
    that is itself there, no link to one. -/
inductive Below (d : Disk) : Place → List String → Prop
  | here {p : Place} {name : String} {e : Entry} (hat : d.at? (p ++ [name]) = some e) :
      Below d p [name]
  | inside {p : Place} {name : String} {names : List String}
      (hat : d.at? (p ++ [name]) = some .folder) (hbelow : Below d (p ++ [name]) names) :
      Below d p (name :: names)

section below
variable {d : Disk} {p : Place} {name : String} {names : List String}

/-- The names in a folder are those with something at their place. -/
theorem mem_namesIn : name ∈ d.namesIn p ↔ ∃ e, d.at? (p ++ [name]) = some e := by
  have hplace : ∀ q : Place, (q.dropLast = p ∧ q.getLast? = some name) ↔ q = p ++ [name] := by
    intro q
    constructor
    · rintro ⟨hp, hname⟩
      rw [← hp, List.dropLast_append_getLast? _ hname]
    · rintro rfl
      simp
  have hone : ∀ x : Place × Entry,
      (if x.1.dropLast == p then x.1.getLast? else none) = some name ↔ x.1 = p ++ [name] := by
    intro x
    rw [← hplace]
    split
    · next hp => simp [eq_of_beq hp]
    · next hp => simpa using fun heq => absurd (beq_iff_eq.mpr heq) hp
  rw [namesIn, List.mem_filterMap]
  simp only [hone]
  rw [at?, if_neg (by simp)]
  simp only [← Option.isSome_iff_exists, Option.isSome_map, List.find?_isSome, beq_iff_eq]

/-- What is listed is below the folder, and the fuel bounds how deep. -/
theorem mem_below {fuel : Nat} :
    names ∈ d.below fuel p ↔ d.Below p names ∧ names.length ≤ fuel := by
  induction fuel generalizing p names with
  | zero =>
    constructor
    · intro h
      cases h
    · rintro ⟨hbelow, hlength⟩
      cases hbelow <;> simp at hlength
  | succ fuel ih =>
    rw [below, List.mem_flatMap]
    constructor
    · rintro ⟨name, hname, hmem⟩
      obtain ⟨e, hat⟩ := mem_namesIn.mp hname
      dsimp only at hmem
      split at hmem
      · next hfolder =>
        rcases List.mem_cons.mp hmem with rfl | hmem
        · exact ⟨.here hat, by simp⟩
        · obtain ⟨rest, hrest, rfl⟩ := List.mem_map.mp hmem
          obtain ⟨hbelow, hlength⟩ := ih.mp hrest
          exact ⟨.inside hfolder hbelow, Nat.succ_le_succ hlength⟩
      · obtain rfl := List.mem_singleton.mp hmem
        exact ⟨.here hat, by simp⟩
    · rintro ⟨hbelow, hlength⟩
      cases hbelow with
      | @here _ name e hat =>
        refine ⟨name, mem_namesIn.mpr ⟨e, hat⟩, ?_⟩
        dsimp only
        split
        · exact List.mem_cons_self
        · exact List.mem_singleton_self _
      | @inside _ name rest hat hbelow =>
        refine ⟨name, mem_namesIn.mpr ⟨_, hat⟩, ?_⟩
        dsimp only
        rw [hat]
        exact List.mem_cons_of_mem _ (List.mem_map.mpr
          ⟨rest, ih.mpr ⟨hbelow, Nat.le_of_succ_le_succ hlength⟩, rfl⟩)

/-- On the way down each name is at a place of its own. -/
theorem Below.exists_places (h : d.Below p names) :
    ∃ places : List Place, places.length = names.length ∧ places.Nodup ∧
      ∀ q ∈ places, p.length < q.length ∧ q ∈ d.entries.map (·.1) := by
  have hentry : ∀ {p : Place} {name : String} {e : Entry}, d.at? (p ++ [name]) = some e →
      p ++ [name] ∈ d.entries.map (·.1) := by
    intro p name e hat
    rw [at?, if_neg (by simp)] at hat
    obtain ⟨x, hx, -⟩ := Option.map_eq_some_iff.mp hat
    have hplace : x.1 = p ++ [name] := by simpa using List.find?_some hx
    exact hplace ▸ List.mem_map_of_mem (List.mem_of_find?_eq_some hx)
  induction h with
  | @here p name e hat =>
    refine ⟨[p ++ [name]], rfl, List.nodup_singleton _, fun q hq => ?_⟩
    obtain rfl := List.mem_singleton.mp hq
    exact ⟨by simp, hentry hat⟩
  | @inside p name names hat _ ih =>
    obtain ⟨places, hlength, hdistinct, hplaces⟩ := ih
    -- The places further down are longer.
    refine ⟨(p ++ [name]) :: places, by simp [hlength], ?_, fun q hq => ?_⟩
    · refine List.nodup_cons.mpr ⟨fun hmem => ?_, hdistinct⟩
      exact Nat.lt_irrefl _ (hplaces _ hmem).1
    · rcases List.mem_cons.mp hq with rfl | hq
      · exact ⟨by simp, hentry hat⟩
      · obtain ⟨hlong, hmem⟩ := hplaces q hq
        refine ⟨Nat.lt_trans ?_ hlong, hmem⟩
        simp

/-- **There is fuel for everything below a folder.** -/
theorem Below.length_le (h : d.Below p names) : names.length ≤ d.entries.length := by
  obtain ⟨places, hlength, hdistinct, hplaces⟩ := h.exists_places
  calc names.length = places.length := hlength.symm
    _ ≤ (d.entries.map (·.1)).length :=
      (List.subperm_of_subset hdistinct fun q hq => (hplaces q hq).2).length_le
    _ = d.entries.length := List.length_map ..

end below

/-! ## Files -/

/-- **A file lies below a folder**: names lead down to it, and what is there is a file or a link
    that leads to one. -/
def LiesBelow (d : Disk) (folder p : Path) : Prop :=
  ∃ place names, d.locate folder true = .ok (.found place .folder) ∧ d.Below place names ∧
    p = folder / ⟨0, names⟩ ∧ d.isFile? p = .ok true

/-- **What is below a folder can be listed** if each of it can be looked at, and then the files
    are listed in their order. -/
theorem filesBelow_eq_ok {d : Disk} {folder : Path} {paths : List Path} :
    d.filesBelow folder = .ok paths ↔
      ∃ place, d.locate folder true = .ok (.found place .folder) ∧
        (∀ names, d.Below place names → ∃ b, d.isFile? (folder / ⟨0, names⟩) = .ok b) ∧
        paths = sortBy (fun a b => namesBefore a.parts b.parts)
          (((d.below (d.entries.length + 1) place).map fun names => folder / ⟨0, names⟩).filter
            fun p => (d.isFile? p).toOption.getD false) := by
  -- The listing goes one level deeper than there can be anything.
  have hlisted : ∀ place names, names ∈ d.below (d.entries.length + 1) place ↔
      d.Below place names := by
    intro place names
    rw [mem_below]
    exact ⟨fun h => h.1, fun h => ⟨h, Nat.le_succ_of_le h.length_le⟩⟩
  unfold filesBelow
  split
  · next place hlocate =>
    rw [bind_eq_ok]
    constructor
    · rintro ⟨files, hfiles, h⟩
      obtain ⟨hall, rfl⟩ := filterM_eq_ok.mp hfiles
      refine ⟨place, hlocate, ?_, (Except.ok.inj h).symm⟩
      intro names hnames
      exact hall _ (List.mem_map_of_mem ((hlisted place names).mpr hnames))
    · rintro ⟨place', hlocate', hall, rfl⟩
      obtain ⟨rfl, -⟩ := Spot.found.inj (Except.ok.inj (hlocate.symm.trans hlocate'))
      refine ⟨_, filterM_eq_ok.mpr ⟨?_, rfl⟩, rfl⟩
      intro p hp
      obtain ⟨names, hnames, rfl⟩ := List.mem_map.mp hp
      exact hall names ((hlisted place names).mp hnames)
  · next spot hother hspot =>
    constructor
    · intro h
      cases h
    · rintro ⟨place, hlocate, -⟩
      exact absurd (Except.ok.inj (hspot.symm.trans hlocate)) (hother place)
  · next f hfault =>
    constructor
    · intro h
      cases h
    · rintro ⟨place, hlocate, -⟩
      rw [hfault] at hlocate
      cases hlocate

/-- **The files below a folder are the listed ones.** -/
theorem mem_filesBelow {d : Disk} {folder : Path} {paths : List Path}
    (h : d.filesBelow folder = .ok paths) {p : Path} : p ∈ paths ↔ d.LiesBelow folder p := by
  obtain ⟨place, hlocate, -, rfl⟩ := filesBelow_eq_ok.mp h
  have hfile : (d.isFile? p).toOption.getD false = true ↔ d.isFile? p = .ok true := by
    match d.isFile? p with
    | .ok b => simp [Except.toOption]
    | .error _ => simp [Except.toOption]
  rw [mem_sortBy, List.mem_filter, hfile, List.mem_map]
  constructor
  · rintro ⟨⟨names, hnames, rfl⟩, hp⟩
    exact ⟨place, names, hlocate, (mem_below.mp hnames).1, rfl, hp⟩
  · rintro ⟨place', names, hlocate', hbelow, rfl, hp⟩
    obtain ⟨rfl, -⟩ := Spot.found.inj (Except.ok.inj (hlocate.symm.trans hlocate'))
    exact ⟨⟨names, mem_below.mpr ⟨hbelow, Nat.le_succ_of_le hbelow.length_le⟩, rfl⟩, hp⟩

end Regen.Disk
