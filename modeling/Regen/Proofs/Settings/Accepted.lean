import Mathlib.Data.List.Nodup
import Regen.Proofs.Outcome
import Regen.Settings.Load

/-! # Accepted settings

    What settings that were accepted say of their sources: every one has a plain name of its own,
    and it depends on other configured sources only. -/

namespace Regen

/-! ## Names of the sources -/

/-- Sources that pass the check have distinct names, none of them seen before. -/
theorem nodup_of_checkEach {seen : List String} {sources : List Source}
    (h : checkEach seen sources = .ok ()) :
    (sources.map (·.name)).Nodup ∧ ∀ x ∈ sources, x.name ∉ seen := by
  induction sources generalizing seen with
  | nil => exact ⟨List.nodup_nil, fun _ hx => nomatch hx⟩
  | cons s rest ih =>
    rw [checkEach] at h
    split at h
    · next hcheck =>
      obtain ⟨hdistinct, hunseen⟩ := ih h
      -- A name seen before is refused before anything else but its spelling is looked at.
      have hs : s.name ∉ seen := by
        intro hseen
        have hcontains : seen.contains s.name = true := List.contains_iff_mem.mpr hseen
        unfold Source.check at hcheck
        rw [hcontains] at hcheck
        split at hcheck <;> cases hcheck
      constructor
      · rw [List.map_cons, List.nodup_cons]
        refine ⟨fun hmem => ?_, hdistinct⟩
        obtain ⟨x, hx, hname⟩ := List.mem_map.mp hmem
        exact hunseen x hx (hname ▸ List.mem_cons_self)
      · intro x hx
        rcases List.mem_cons.mp hx with rfl | hx
        · exact hs
        · exact fun hseen => hunseen x hx (List.mem_cons_of_mem _ hseen)
    · cases h

theorem nodup_of_checkSources {sources : List Source} (h : checkSources sources = .ok ()) :
    (sources.map (·.name)).Nodup := by
  unfold checkSources at h
  split at h
  · next heach => exact (nodup_of_checkEach heach).1
  · cases h

theorem Reading.gives_ofExcept {α : Type} {r : Except Failure α} {x : α} {w w' : List String} :
    Gives (Reading.ofExcept r) w x w' ↔ r = .ok x ∧ w = w' := by
  match r with
  | .ok y =>
    rw [Except.ok.injEq]
    exact gives_pure
  | .error f => exact ⟨fun h => (nomatch (Prod.mk.inj h).1), fun h => (nomatch h.1)⟩

namespace Settings

/-- Variables change where the lockfile is and how long its records are kept, and nothing else. -/
theorem override_keeps {α : Type} (part : Settings → α)
    (hpath : ∀ s path, part { s with lockfilePath := path } = part s)
    (hage : ∀ s hours, part { s with maxAgeHours := hours } = part s)
    {s s' : Settings} {vars : Variables} (h : s.override vars = .ok s') : part s' = part s := by
  unfold override at h
  dsimp only at h
  split at h
  · obtain rfl := Except.ok.inj h
    split
    · rfl
    · exact hpath _ _
  · split at h
    · obtain rfl := Except.ok.inj h
      rw [hage]
      split
      · rfl
      · exact hpath _ _
    · cases h

/-- Variables do not change the sources. -/
theorem sources_override {s s' : Settings} {vars : Variables} (h : s.override vars = .ok s') :
    s'.sources = s.sources :=
  override_keeps (·.sources) (fun _ _ => rfl) (fun _ _ => rfl) h

/-- **Accepted settings name every source once.** -/
theorem nodup_sourceNames_of_load {d : Disk} {vars : Variables} {folder : Path}
    {named : Option Path} {shared : Path} {w w' : List String} {s : Settings}
    (h : Gives (load d vars folder named shared) w s w') : s.sourceNames.Nodup := by
  unfold load at h
  obtain ⟨base, _, _, h⟩ := gives_bind.mp h
  obtain ⟨es, _, _, h⟩ := gives_bind.mp h
  obtain ⟨read, _, _, h⟩ := gives_bind.mp h
  obtain ⟨_, _, hchecked, h⟩ := gives_bind.mp h
  have hcheck := (Reading.gives_ofExcept.mp hchecked).1
  have hoverride := (Reading.gives_ofExcept.mp h).1
  rw [sourceNames, sources_override hoverride]
  exact nodup_of_checkSources hcheck

end Settings

/-! ## Accepted sources -/

/-- **The sources of accepted settings.** -/
structure Settings.Accepted (s : Settings) : Prop where
  distinct : s.sourceNames.Nodup
  plain : ∀ x ∈ s.sources, isPlainName x.name
  configured : ∀ x ∈ s.sources, ∀ wanted ∈ x.dependsOn, wanted ∈ s.sourceNames

theorem ne_empty_of_isPlainName {name : String} (h : isPlainName name) : name ≠ "" := by
  rintro rfl
  cases h

theorem isPlainName_of_checkEach {seen : List String} {sources : List Source}
    (h : checkEach seen sources = .ok ()) : ∀ x ∈ sources, isPlainName x.name := by
  induction sources generalizing seen with
  | nil => exact fun _ hx => nomatch hx
  | cons s rest ih =>
    rw [checkEach] at h
    split at h
    · next hcheck =>
      intro x hx
      rcases List.mem_cons.mp hx with rfl | hx
      · by_contra hplain
        rw [Source.check, if_pos (by simpa using hplain)] at hcheck
        cases hcheck
      · exact ih h x hx
    · cases h

theorem mem_of_checkNeeds {s : Source} {names wanted : List String}
    (h : s.checkNeeds names wanted = .ok ()) : ∀ d ∈ wanted, d ∈ names := by
  induction wanted with
  | nil => exact fun _ hd => nomatch hd
  | cons d rest ih =>
    rw [Source.checkNeeds] at h
    split at h
    · cases h
    · split at h
      · cases h
      · next hknown =>
        intro d' hd'
        rcases List.mem_cons.mp hd' with rfl | hd'
        · exact List.contains_iff_mem.mp (by simpa using hknown)
        · exact ih h d' hd'

theorem mem_of_checkAllNeeds {names : List String} {sources : List Source}
    (h : checkAllNeeds names sources = .ok ()) :
    ∀ x ∈ sources, ∀ wanted ∈ x.dependsOn, wanted ∈ names := by
  induction sources with
  | nil => exact fun _ hx => nomatch hx
  | cons s rest ih =>
    rw [checkAllNeeds] at h
    split at h
    · next hneeds =>
      intro x hx
      rcases List.mem_cons.mp hx with rfl | hx
      · exact mem_of_checkNeeds hneeds
      · exact ih h x hx
    · cases h

/-- **Settings that are loaded are accepted.** -/
theorem Settings.accepted_of_load {d : Disk} {vars : Variables} {folder : Path}
    {named : Option Path} {shared : Path} {w w' : List String} {s : Settings}
    (h : Gives (load d vars folder named shared) w s w') : s.Accepted := by
  have hdistinct := nodup_sourceNames_of_load h
  unfold load at h
  obtain ⟨base, _, _, h⟩ := gives_bind.mp h
  obtain ⟨es, _, _, h⟩ := gives_bind.mp h
  obtain ⟨read, _, _, h⟩ := gives_bind.mp h
  obtain ⟨_, _, hchecked, h⟩ := gives_bind.mp h
  have hcheck := (Reading.gives_ofExcept.mp hchecked).1
  have hsources := sources_override (Reading.gives_ofExcept.mp h).1
  unfold checkSources at hcheck
  split at hcheck
  · next heach =>
    refine ⟨hdistinct, ?_, ?_⟩
    · rw [hsources]
      exact isPlainName_of_checkEach heach
    · rw [sourceNames, hsources]
      exact mem_of_checkAllNeeds hcheck
  · cases hcheck

end Regen
