import Regen.Proofs.Disk.Changes

/-! # Making folders

    Making a folder and the folders around it goes step by step: a step adds one folder, where an
    initial part of the path leads and nothing was.  So whatever every step keeps, the whole keeps
    (`FoldersMade`), however far it comes.

    A disk is rooted if everything on it is in a folder.  Nothing is below a new folder then, so
    what a path led to is not changed by the folders that are made for it, unless the path steps
    back out of a folder that was missing. -/

namespace Regen.Disk

/-! ## Rooted disks -/

/-- Everything is in a folder, and relative paths start from one. -/
structure Rooted (d : Disk) : Prop where
  parent : ∀ x ∈ d.entries, d.at? x.1.dropLast = some .folder
  workFolder : d.at? d.workFolder = some .folder

instance (d : Disk) : Decidable d.Rooted :=
  decidable_of_iff ((∀ x ∈ d.entries, d.at? x.1.dropLast = some .folder) ∧
      d.at? d.workFolder = some .folder)
    ⟨fun h => ⟨h.1, h.2⟩, fun h => ⟨h.parent, h.workFolder⟩⟩

section rooted
variable {d d' : Disk} {p q : Place} {links : Nat} {names : List String}

theorem exists_entry_of_at? {e : Entry} (hq : q ≠ []) (h : d.at? q = some e) :
    (q, e) ∈ d.entries := by
  rw [at?, if_neg (by simpa using hq)] at h
  obtain ⟨x, hx, rfl⟩ := Option.map_eq_some_iff.mp h
  have hplace : x.1 = q := by simpa using List.find?_some hx
  exact hplace ▸ List.mem_of_find?_eq_some hx

/-- What holds something is a folder. -/
theorem Rooted.folder_around (hd : d.Rooted) {e : Entry} (h : d.at? q = some e) :
    d.at? q.dropLast = some .folder := by
  by_cases hq : q = []
  · rw [hq]
    rfl
  · exact hd.parent _ (exists_entry_of_at? hq h)

/-- Nothing is below a place where nothing is. -/
theorem Rooted.below_vacant (hd : d.Rooted) (h : d.at? q = none) (name : String) :
    d.at? (q ++ [name]) = none := by
  match hat : d.at? (q ++ [name]) with
  | none => rfl
  | some e =>
    have hfolder := hd.folder_around hat
    rw [List.dropLast_concat, h] at hfolder
    cases hfolder

theorem Rooted.base_folder (hd : d.Rooted) (p : Path) : d.at? (d.base p) = some .folder := by
  rw [base]
  split
  · rfl
  · exact hd.workFolder

/-- A way that starts in a folder ends in one. -/
theorem Way.folder_around (hd : d.Rooted) (h : Way d links p names q)
    (hp : d.at? p = some .folder) : d.at? q.dropLast = some .folder := by
  induction h with
  | last => rwa [List.dropLast_concat]
  | up _ ih => exact ih (hd.folder_around hp)
  | folder _ _ hat _ ih => exact ih hat
  | link _ _ _ _ _ ih =>
    refine ih ?_
    split
    · rfl
    · exact hp

theorem Leads.folder_around (hd : d.Rooted) {p : Path} (h : d.Leads p q) :
    d.at? q.dropLast = some .folder := h.2.folder_around hd (hd.base_folder p)

theorem Rooted.put {e : Entry} (hd : d.Rooted) (hvacant : d.at? q = none)
    (hfolder : d.at? q.dropLast = some .folder) : (d.put q e).Rooted := by
  have hgrown := Grown.put hvacant e
  refine ⟨fun x hx => ?_, hgrown.still _ _ hd.workFolder⟩
  rcases List.mem_cons.mp hx with rfl | hx
  · exact hgrown.still _ _ hfolder
  · exact hgrown.still _ _ (hd.parent x (List.mem_filter.mp hx).1)

end rooted

/-! ## Ways over a new folder -/

/-- A way ends with a name. -/
theorem Way.getLast?_ne {d : Disk} {links : Nat} {p q : Place} {names : List String}
    (h : Way d links p names q) : ∃ name, names.getLast? = some name ∧ name ≠ ".." := by
  induction h with
  | @last _ _ name hname _ => exact ⟨name, rfl, hname⟩
  | @up _ _ rest _ _ ih | @folder _ _ _ rest _ _ _ _ _ ih =>
    obtain ⟨last, hlast, hne⟩ := ih
    have hrest : rest ≠ [] := by
      rintro rfl
      cases hlast
    exact ⟨last, by rw [List.getLast?_cons, hlast]; rfl, hne⟩
  | @link _ _ _ _ rest _ _ _ _ hrest _ ih =>
    obtain ⟨last, hlast, hne⟩ := ih
    obtain ⟨other, more, rfl⟩ := List.exists_cons_of_ne_nil hrest
    rw [List.getLast?_append, List.getLast?_cons, Option.some_or] at hlast
    exact ⟨last, by rw [List.getLast?_cons_cons, List.getLast?_cons, hlast], hne⟩

/-- Names that do not step up find nothing from a place below which nothing is. -/
theorem not_found_below {d : Disk} {q r : Place} {e : Entry} {fuel links : Nat}
    {rest : List String} (hbelow : ∀ name, d.at? (q ++ [name]) = none) (hrest : rest ≠ [])
    (hup : ".." ∉ rest) : d.follow true fuel links q rest ≠ .ok (.found r e) := by
  intro h
  obtain ⟨name, rest, rfl⟩ := List.exists_cons_of_ne_nil hrest
  obtain ⟨hname, -⟩ := not_or.mp (mt List.mem_cons.mpr hup)
  cases fuel with
  | zero => cases h
  | succ fuel =>
    rw [follow] at h
    · split at h
      · cases h
      · rw [hbelow name] at h
        dsimp only at h
        split at h <;> cases h
    · exact Ne.symm hname

/-- Behind a way to a place where nothing is, or to an empty folder, nothing is found, unless the
    names step up again. -/
theorem Way.not_found {d d' : Disk} {links : Nat} {p q r : Place} {a rest : List String}
    {e : Entry} (hway : Way d links p a q) (hkeeps : d.KeepsWays d')
    (hq : d'.at? q = none ∨ d'.at? q = some .folder) (hbelow : ∀ name, d'.at? (q ++ [name]) = none)
    (hrest : rest ≠ []) (hup : ".." ∉ rest) (fuel : Nat) :
    d'.follow true fuel links p (a ++ rest) ≠ .ok (.found r e) := by
  induction hway generalizing fuel with
  | @last links p name hname hsize =>
    cases fuel with
    | zero =>
      intro h
      cases h
    | succ fuel =>
      rcases hq with hq | hq
      · rw [List.singleton_append, follow, if_neg (Nat.not_lt.mpr hsize), hq]
        · simp [hrest]
        · exact hname
      · rw [List.singleton_append, follow_folder hname hsize hq]
        exact not_found_below hbelow hrest hup
  | up _ ih =>
    cases fuel with
    | zero =>
      intro h
      cases h
    | succ fuel =>
      rw [List.cons_append, follow_up]
      exact ih hq hbelow fuel
  | folder hname hsize hat _ ih =>
    cases fuel with
    | zero =>
      intro h
      cases h
    | succ fuel =>
      rw [List.cons_append, follow_folder hname hsize (hkeeps.folder _ hat)]
      exact ih hq hbelow fuel
  | link hname hsize hat _ _ ih =>
    cases fuel with
    | zero =>
      intro h
      cases h
    | succ fuel =>
      rw [List.cons_append, follow_link hname hsize (hkeeps.link _ _ hat) (.inr rfl),
        ← List.append_assoc]
      exact ih hq hbelow fuel

/-! ## Folders made for a path -/

section folders
variable {d d' : Disk} {p : Path}

theorem FoldersMade.rooted (h : FoldersMade p d d') (hd : d.Rooted) : d'.Rooted := by
  induction h with
  | none => exact hd
  | step _ _ hleads hvacant ih => exact ih.put hvacant (hleads.folder_around ih)

/-- For a path without parts no folder is made. -/
theorem FoldersMade.eq_of_nil (h : FoldersMade p d d') (hp : p.parts = []) : d' = d := by
  cases h with
  | none => rfl
  | step _ ha hleads _ =>
    have ha := ha.parts
    rw [hp, List.prefix_nil] at ha
    obtain ⟨_, hway⟩ := hleads
    rw [ha] at hway
    cases hway

/-- What is new is a folder, and an initial part of the path leads to it. -/
theorem FoldersMade.at? (h : FoldersMade p d d') (q : Place) :
    d'.at? q = d.at? q ∨ d.at? q = Option.none ∧ d'.at? q = some .folder ∧
      ∃ a : Path, a.IsInitial p ∧ d'.Leads a q := by
  induction h with
  | none => exact .inl rfl
  | @step d₁ a r hmade ha hleads hvacant ih =>
    have hkeeps := (Grown.put hvacant .folder).keepsWays
    by_cases hq : q = r
    · subst hq
      refine .inr ⟨?_, at?_put_self _ hleads.place_ne_nil _, a, ha, hleads.mono hkeeps⟩
      match hat : d.at? q with
      | Option.none => rfl
      | some e =>
        rw [hmade.grown.still q e hat] at hvacant
        cases hvacant
    · rw [at?_put_ne _ hq]
      rcases ih with ih | ⟨hnone, hfolder, b, hb, hb'⟩
      · exact .inl ih
      · exact .inr ⟨hnone, hfolder, b, hb, hb'.mono hkeeps⟩

/-- What a path led to it still leads to, so no folder is made there. -/
theorem FoldersMade.not_vacant_of_found {a : Path} {q r : Place} {e : Entry}
    (h : FoldersMade p d d') (hfound : d.locate a false = .ok (.found r e)) (hleads : d'.Leads a q)
    (hvacant : d'.at? q = Option.none) : False := by
  obtain ⟨r', hr', hspot⟩ := leads_of_locate hfound (.inr hleads.2.getLast?_ne)
  have hlocate := hleads.locate_vacant hvacant false
  rw [(hr'.mono h.grown.keepsWays).locate fun _ _ => rfl] at hlocate
  match hat : d.at? r' with
  | Option.none =>
    rw [spotAt_of_none hat] at hspot
    cases hspot
  | some e' =>
    rw [spotAt_of_some (h.grown.still _ _ hat)] at hlocate
    cases hlocate

/-- **A path steps out of a missing folder** if two dots come behind an initial part of it that
    leads to nothing. -/
def StepsOutOfMissing (d : Disk) (p : Path) : Prop :=
  ∃ a rest, p.parts = a ++ rest ∧ ".." ∈ rest ∧
    ¬∃ q e, d.locate ⟨p.slashes, a⟩ false = .ok (.found q e)

theorem fileAt_of_not_found (h : ∀ q e, d.locate p true ≠ .ok (.found q e)) :
    (d.fileAt p).toOption = Option.none := by
  unfold fileAt
  split
  · next q c t hlocate => exact absurd hlocate (h q _)
  · rfl
  · rfl
  · rfl

/-- A path that leads to nothing by an initial part reads nothing, also when a folder is made
    there. -/
theorem fileAt_of_initial (hd : d.Rooted) {a : Path} {q : Place} (ha : a.IsInitial p)
    (hproper : a.parts ≠ p.parts) (hleads : d.Leads a q) (hvacant : d.at? q = Option.none)
    (hup : ∀ rest, p.parts = a.parts ++ rest → ".." ∉ rest) :
    (d.fileAt p).toOption = Option.none ∧ ((d.put q .folder).fileAt p).toOption = Option.none := by
  obtain ⟨rest, hrest⟩ := ha.parts
  have hne : rest ≠ [] := by
    rintro rfl
    exact hproper (by simpa using hrest)
  have hbase : d.base p = d.base a := by
    rw [base, base, Path.isAbsolute, Path.isAbsolute, ha.slashes]
  have hgrown := Grown.put hvacant .folder
  have hnew := at?_put_self d hleads.place_ne_nil .folder
  have hbelow : ∀ name, (d.put q .folder).at? (q ++ [name]) = Option.none := fun name => by
    rw [at?_put_ne d (by simp)]
    exact hd.below_vacant hvacant name
  constructor
  · refine fileAt_of_not_found fun r e => ?_
    rw [locate]
    split
    · intro h
      cases h
    · rw [← hrest, hbase]
      exact hleads.2.not_found (.refl d) (.inl hvacant) (hd.below_vacant hvacant) hne
        (hup rest hrest.symm) _
  · refine fileAt_of_not_found fun r e => ?_
    rw [locate]
    split
    · intro h
      cases h
    · rw [← hrest]
      have hbase : (d.put q .folder).base p = d.base a := hbase
      rw [hbase]
      exact hleads.2.not_found hgrown.keepsWays (.inr hnew) hbelow hne (hup rest hrest.symm) _

/-- **Folders made for a path change nothing that is read there**, unless the path steps out of
    one that was missing. -/
theorem FoldersMade.fileAt {a : Path} (h : FoldersMade a d d') (hd : d.Rooted) (ha : a.IsInitial p)
    (hproper : a.parts ≠ p.parts) (hup : ¬d.StepsOutOfMissing p) :
    (d'.fileAt p).toOption = (d.fileAt p).toOption := by
  induction h with
  | none => rfl
  | @step d₁ b q hmade hb hleads hvacant ih =>
    have hproper' : b.parts ≠ p.parts := by
      intro heq
      have := hb.parts.length_le
      have := ha.parts.length_le
      exact hproper (ha.parts.eq_of_length (by rw [heq] at *; omega))
    have hup' : ∀ rest, p.parts = b.parts ++ rest → ".." ∉ rest := by
      intro rest hrest hmem
      refine hup ⟨b.parts, rest, hrest, hmem, ?_⟩
      rintro ⟨r, e, hfound⟩
      have hb' : (⟨p.slashes, b.parts⟩ : Path) = b := by rw [← (hb.trans ha).slashes]
      rw [hb'] at hfound
      exact hmade.not_vacant_of_found hfound hleads hvacant
    obtain ⟨hbefore, hafter⟩ := fileAt_of_initial (hmade.rooted hd) (hb.trans ha) hproper' hleads
      hvacant hup'
    rw [hafter, ← ih, hbefore]

end folders

/-! ## A new file -/

section newFile
variable {d : Disk} {t : Place} {content : Bytes} {changed : Int}

theorem longestTarget_put_file (ht : t ≠ []) (hvacant : d.at? t = none) :
    (d.put t (.file content changed)).longestTarget = d.longestTarget := by
  rw [longestTarget, longestTarget, put]
  dsimp only
  rw [List.foldr_cons, filter_of_vacant ht hvacant]

/-- **A file where nothing was** is found by the names that led to its place, and by no others. -/
theorem follow_put_file (hd : d.Rooted) (hvacant : d.at? t = none) {fuel links : Nat} {p : Place}
    {names : List String} (hp : d.at? p = some .folder) :
    d.follow true fuel links p names = .ok (.vacant t) ∨
      (d.put t (.file content changed)).follow true fuel links p names =
        d.follow true fuel links p names ∨
      (∃ f, d.follow true fuel links p names = .error f) ∧
        ∃ f, (d.put t (.file content changed)).follow true fuel links p names = .error f := by
  have hgrown := Grown.put hvacant (.file content changed)
  fun_induction follow d true fuel links p names with
  | case1 => exact .inr (.inl rfl)
  | case2 fuel links p e hat hfuel =>
    obtain ⟨fuel, rfl⟩ := Nat.exists_eq_succ_of_ne_zero hfuel
    exact .inr (.inl (by rw [follow_nil, hgrown.still p e hat]))
  | case3 _ _ p hat =>
    rw [hp] at hat
    cases hat
  | case4 fuel links p rest ih =>
    rw [follow_up]
    exact ih (hd.folder_around hp)
  | case5 fuel links p name rest hname hsize =>
    refine .inr (.inl ?_)
    rw [follow, if_pos hsize]
    exact hname
  | case6 fuel links p name rest hname next hsize hat hrest =>
    by_cases ht : next = t
    · exact .inl (by rw [ht])
    · refine .inr (.inl ?_)
      rw [follow, if_neg hsize, at?_put_ne d ht, hat]
      · simp only [if_pos hrest, next]
      · exact hname
  | case7 fuel links p name rest hname next hsize hat hrest =>
    refine .inr (.inr ⟨⟨_, rfl⟩, ?_⟩)
    by_cases ht : next = t
    · have hne : t ≠ [] := by
        rw [← ht]
        exact List.concat_ne_nil _ _
      have hnew : (d.put t (.file content changed)).at? next = some (.file content changed) := by
        rw [ht]
        exact at?_put_self d hne _
      rw [follow, if_neg hsize, hnew]
      · exact ⟨_, if_neg hrest⟩
      · exact hname
    · rw [follow, if_neg hsize, at?_put_ne d ht, hat]
      · exact ⟨_, if_neg hrest⟩
      · exact hname
  | case8 fuel links p name rest hname next hsize hat ih =>
    rw [follow_folder hname (Nat.le_of_not_lt hsize) (hgrown.still next _ hat)]
    exact ih hat
  | case9 fuel links p name rest hname next hsize c changed' hat hrest =>
    refine .inr (.inl ?_)
    rw [follow, if_neg hsize, hgrown.still next _ hat]
    · simp only [if_pos hrest, next]
    · exact hname
  | case10 fuel links p name rest hname next hsize c changed' hat hrest =>
    refine .inr (.inl ?_)
    rw [follow, if_neg hsize, hgrown.still next _ hat]
    · simp only [if_neg hrest]
    · exact hname
  | case11 fuel links p name rest hname next hsize target hat hrest => simp at hrest
  | case12 fuel p name rest hname next hsize target hat hrest =>
    refine .inr (.inl ?_)
    rw [follow, if_neg hsize, hgrown.still next _ hat]
    · simp only [if_neg hrest]
    · exact hname
  | case13 fuel p name rest hname next hsize target hat hrest links _ ih =>
    rw [follow_link hname (Nat.le_of_not_lt hsize) (hgrown.still next _ hat) (.inr rfl)]
    refine ih ?_
    split
    · rfl
    · exact hp

theorem fileAt_put_file (hd : d.Rooted) (ht : t ≠ []) (hvacant : d.at? t = none) {p : Path}
    (hother : d.locate p true ≠ .ok (.vacant t)) :
    ((d.put t (.file content changed)).fileAt p).toOption = (d.fileAt p).toOption := by
  have hsteps : (d.put t (.file content changed)).steps p.parts.length =
      d.steps p.parts.length := by
    rw [steps, steps, longestTarget_put_file ht hvacant]
  have hbase : (d.put t (.file content changed)).base p = d.base p := rfl
  rw [locate] at hother
  by_cases hlong : maxPath < p.text.utf8ByteSize
  · simp only [fileAt, locate, if_pos hlong]
  · rw [if_neg hlong] at hother
    simp only [fileAt, locate, if_neg hlong, hsteps, hbase]
    rcases follow_put_file hd hvacant
      (hd.base_folder p) with hthere | hsame | ⟨⟨f, hf⟩, f', hf'⟩
    · exact absurd hthere hother
    · rw [hsame]
    · rw [hf, hf']
      rfl

end newFile
end Regen.Disk
