import Regen.Proofs.Settings.Explained
import Regen.Proofs.Text.Newline

/-! # Sources that are accepted

    A list of sources is checked in two passes: each source by itself against the names before
    it, then what each one needs against the names of all.  Together the passes accept exactly
    the lists that keep five rules.  The rule for names is the only one that is checked loosely: a
    line feed at the end of a name is overlooked. -/

namespace Regen

/-! ## Names -/

/-- **A name by the rules**: ASCII letters, digits, dots, underscores and hyphens, with a letter or
    a digit in front. -/
structure IsName (name : String) : Prop where
  nonempty : name ≠ ""
  allowed : ∀ c ∈ name.toList, c.isAlphanum ∨ c = '.' ∨ c = '_' ∨ c = '-'
  start : ∀ c ∈ name.toList.head?, c.isAlphanum

theorem isNameChar_iff {c : Char} :
    isNameChar c ↔ c.isAlphanum ∨ c = '.' ∨ c = '_' ∨ c = '-' := by
  simp [isNameChar, or_assoc]

/-- The check of a name's characters, once a line feed behind them is gone. -/
theorem isName_ofList {cs : List Char} :
    IsName (String.ofList cs) ↔ ∃ c rest, cs = c :: rest ∧ isNameStart c ∧ rest.all isNameChar := by
  constructor
  · intro h
    cases cs with
    | nil => exact absurd rfl h.nonempty
    | cons c rest =>
      have hstart : c.isAlphanum := h.start c (by simp)
      refine ⟨c, rest, rfl, hstart, List.all_eq_true.mpr ?_⟩
      intro x hx
      exact isNameChar_iff.mpr (h.allowed x (by simp [hx]))
  · intro h
    obtain ⟨c, rest, hcs, hstart, hrest⟩ := h
    subst hcs
    constructor
    · intro hempty
      simpa using congrArg String.toList hempty
    · intro x hx
      have hx : x = c ∨ x ∈ rest := by simpa using hx
      cases hx with
      | inl heq => exact heq ▸ .inl hstart
      | inr hmem => exact isNameChar_iff.mp (List.all_eq_true.mp hrest x hmem)
    · intro x hx
      have hx : c = x := by simpa using hx
      exact hx ▸ hstart

/-- No line feed is in a name by the rules. -/
theorem IsName.not_newline {name : String} (h : IsName name) : '\n' ∉ name.toList := by
  intro hmem
  have hallowed := h.allowed _ hmem
  revert hallowed
  decide

/-- **The check of a name** overlooks one line feed at its end, and nothing else. -/
theorem isPlainName_iff (name : String) : isPlainName name ↔ OverlooksNewline IsName name := by
  have hcheck : ∀ cs : List Char, (cs.head?.any isNameStart && cs.tail.all isNameChar) ↔
      IsName (String.ofList cs) := by
    intro cs
    rw [isName_ofList]
    cases cs <;> simp
  rw [← check_drop_newline_iff hcheck (fun _ => IsName.not_newline)]
  unfold isPlainName
  dsimp only
  cases if name.toList.getLast? == some '\n' then name.toList.dropLast else name.toList with
  | nil => rfl
  | cons c rest => rfl

/-! ## The two passes -/

section passes
variable {s : Source} {seen names wanted : List String} {sources : List Source}

theorem check_eq_ok : s.check seen = .ok () ↔
    OverlooksNewline IsName s.name ∧ s.name ∉ seen ∧ s.kind ∈ sourceKinds ∧
      Url.check s.name s.git.url = .ok () := by
  rw [← isPlainName_iff]
  unfold Source.check
  by_cases hname : isPlainName s.name
  · by_cases hseen : s.name ∈ seen
    · simp [hname, hseen]
    · by_cases hkind : s.kind ∈ sourceKinds
      · simp [hname, hseen, hkind]
      · simp [hname, hseen, hkind]
  · simp [hname]

/-- The first pass: what a source must be by itself, and that no name was seen before. -/
theorem checkEach_eq_ok : checkEach seen sources = .ok () ↔
    (∀ s ∈ sources, OverlooksNewline IsName s.name ∧ s.kind ∈ sourceKinds ∧
      Url.check s.name s.git.url = .ok ()) ∧
    (sources.map (·.name)).Nodup ∧ ∀ s ∈ sources, s.name ∉ seen := by
  induction sources generalizing seen with
  | nil => simp [checkEach]
  | cons s rest ih =>
    have hstep : checkEach seen (s :: rest) = .ok () ↔
        s.check seen = .ok () ∧ checkEach (s.name :: seen) rest = .ok () := by
      rw [checkEach]
      cases hcheck : s.check seen with
      | ok u => simp
      | error f => simp
    rw [hstep, check_eq_ok, ih]
    -- A later source must avoid the names seen before and the name of this one.
    have hunseen : (∀ x ∈ rest, x.name ∉ s.name :: seen) ↔
        s.name ∉ rest.map (·.name) ∧ ∀ x ∈ rest, x.name ∉ seen := by
      simp only [List.mem_cons, not_or, List.mem_map, not_exists, not_and]
      exact forall₂_and
    rw [hunseen, List.map_cons, List.nodup_cons, List.forall_mem_cons, List.forall_mem_cons]
    tauto

theorem checkNeeds_eq_ok :
    s.checkNeeds names wanted = .ok () ↔ ∀ d ∈ wanted, d ≠ s.name ∧ d ∈ names := by
  induction wanted with
  | nil => simp [Source.checkNeeds]
  | cons d rest ih =>
    rw [Source.checkNeeds, List.forall_mem_cons, ← ih]
    by_cases hself : d = s.name
    · simp [hself]
    · by_cases hknown : d ∈ names
      · simp [hself, hknown]
      · simp [hself, hknown]

/-- The second pass: what a source needs are names of other sources. -/
theorem checkAllNeeds_eq_ok : checkAllNeeds names sources = .ok () ↔
    ∀ s ∈ sources, ∀ d ∈ s.dependsOn, d ≠ s.name ∧ d ∈ names := by
  induction sources with
  | nil => simp [checkAllNeeds]
  | cons s rest ih =>
    rw [checkAllNeeds, List.forall_mem_cons, ← ih, ← checkNeeds_eq_ok]
    cases hneeds : s.checkNeeds names s.dependsOn with
    | ok u => simp
    | error f => simp

end passes

/-! ## The rules of a list -/

/-- **A list of sources by the rules**, where `isName` is the rule for names. -/
structure KeepsRules (isName : String → Prop) (sources : List Source) : Prop where
  names : ∀ s ∈ sources, isName s.name
  distinct : (sources.map (·.name)).Nodup
  kinds : ∀ s ∈ sources, s.kind = "crd" ∨ s.kind = "go_ast" ∨ s.kind = "openapi"
  urls : ∀ s ∈ sources, Url.check s.name s.git.url = .ok ()
  needs : ∀ s ∈ sources, ∀ d ∈ s.dependsOn, d ≠ s.name ∧ ∃ x ∈ sources, x.name = d

theorem keepsRules_of_checks {sources : List Source} :
    KeepsRules (OverlooksNewline IsName) sources ↔
      checkEach [] sources = .ok () ∧ checkAllNeeds (sources.map (·.name)) sources = .ok () := by
  rw [checkEach_eq_ok, checkAllNeeds_eq_ok]
  constructor
  · intro h
    refine ⟨⟨fun s hs => ⟨h.names s hs, ?_, h.urls s hs⟩, h.distinct, fun _ _ => nofun⟩, ?_⟩
    · simpa [sourceKinds] using h.kinds s hs
    · simpa using h.needs
  · intro h
    obtain ⟨⟨heach, hdistinct, -⟩, hneeds⟩ := h
    exact {
      names := fun s hs => (heach s hs).1
      distinct := hdistinct
      kinds := fun s hs => by simpa [sourceKinds] using (heach s hs).2.1
      urls := fun s hs => (heach s hs).2.2
      needs := by simpa using hneeds }

/-- Where no name ends with a line feed, the loose rule for names is the strict one. -/
theorem keepsRules_of_no_newline {sources : List Source}
    (h : ∀ s ∈ sources, s.name.toList.getLast? ≠ some '\n') :
    KeepsRules (OverlooksNewline IsName) sources ↔ KeepsRules IsName sources := by
  have hnames : ∀ s ∈ sources, (OverlooksNewline IsName s.name ↔ IsName s.name) :=
    fun s hs => overlooksNewline_iff (h s hs)
  constructor
  · intro hrules
    exact { hrules with names := fun s hs => (hnames s hs).mp (hrules.names s hs) }
  · intro hrules
    exact { hrules with names := fun s hs => (hnames s hs).mpr (hrules.names s hs) }

/-- **Exactly the lists that keep the rules are accepted**, but that a line feed at the end of a
    name is overlooked; every other list is refused with an explanation or with the fault of a
    URL. -/
theorem checkSources_exact (sources : List Source) :
    (checkSources sources = .ok () ↔ KeepsRules (OverlooksNewline IsName) sources) ∧
    ((∀ s ∈ sources, s.name.toList.getLast? ≠ some '\n') →
      (checkSources sources = .ok () ↔ KeepsRules IsName sources)) ∧
    (¬KeepsRules (OverlooksNewline IsName) sources →
      ∃ f, checkSources sources = .error f ∧ Settings.ExplainedOrUrl sources f) := by
  have hexact : checkSources sources = .ok () ↔ KeepsRules (OverlooksNewline IsName) sources := by
    rw [keepsRules_of_checks]
    unfold checkSources
    cases heach : checkEach [] sources with
    | ok u => simp
    | error f => simp
  refine ⟨hexact, ?_, ?_⟩
  · intro hends
    exact hexact.trans (keepsRules_of_no_newline hends)
  · intro hbroken
    cases hcheck : checkSources sources with
    | ok u => exact absurd (hexact.mp hcheck) hbroken
    | error f => exact ⟨f, rfl, Settings.failsOnly_checkSources sources f hcheck⟩

/-- A source of a name that needs others. -/
def sourceNamed (name : String) (wanted : List String) : Source :=
  ⟨"crd", name, ⟨"https://a.b/c", "main"⟩, [], [], [], "", wanted⟩

/-- The first source needs the second one, which comes later; alone, it needs a stranger. -/
theorem checkSources_exact_of_two :
    KeepsRules IsName [sourceNamed "app" ["api"], sourceNamed "api" []] ∧
    (¬KeepsRules (OverlooksNewline IsName) [sourceNamed "app" ["api"]] ∧
      ∃ f, checkSources [sourceNamed "app" ["api"]] = .error f ∧
        Settings.ExplainedOrUrl [sourceNamed "app" ["api"]] f) := by
  have hboth := checkSources_exact [sourceNamed "app" ["api"], sourceNamed "api" []]
  have halone := checkSources_exact [sourceNamed "app" ["api"]]
  have hbroken : ¬KeepsRules (OverlooksNewline IsName) [sourceNamed "app" ["api"]] := by
    intro h
    obtain ⟨-, x, hx, hname⟩ := h.needs _ List.mem_cons_self "api" List.mem_cons_self
    obtain rfl := List.mem_singleton.mp hx
    revert hname
    decide
  exact ⟨(hboth.2.1 (by decide)).mp (by decide +kernel), hbroken, halone.2.2 hbroken⟩

/-- A name with a line feed behind it is against the rules and is accepted. -/
theorem checkSources_misses_newline :
    checkSources [sourceNamed "a\n" []] = .ok () ∧
      ¬KeepsRules IsName [sourceNamed "a\n" []] := by
  refine ⟨by decide +kernel, ?_⟩
  intro h
  exact (h.names _ List.mem_cons_self).not_newline (by decide)

end Regen
