import Regen.Proofs.Number.Digits
import Regen.Proofs.Settings.Layers
import Regen.Proofs.Value.Faults

/-! # Documents that are no settings

    Why settings cannot be made of a document.  Only sources that are no list are explained.  Four
    kinds of values are faults as they stand: something that is no mapping where keys are looked
    up, something without elements where texts are listed, a value that holds an integer too long
    to be shown where a text is needed, and what stands for no integer where one is needed.  A
    document without any of them gives settings. -/

namespace Regen

/-! ## Values -/

namespace Value
variable {v : Value} {f : Fault} {key : String}

/-- Something that is no mapping, so that it has no keys and is not taken for an empty mapping. -/
def IsForeign (v : Value) : Prop := v.isTruthy ∧ v.isMapping = false

theorem toText_eq_error : v.toText = .error f ↔ v.holdsLong ∧ f = .intTooLong := by
  unfold toText
  split
  · next hlong => exact ⟨fun h => ⟨hlong, (Except.error.inj h).symm⟩, fun h => h.2 ▸ rfl⟩
  · next hshort => exact ⟨fun h => (nomatch h), fun h => absurd h.1 hshort⟩

theorem not_holdsLong_of_toText {s : String} (h : v.toText = .ok s) : ¬v.holdsLong := by
  intro hlong
  have herror : v.toText = .error .intTooLong := by
    rw [toText_eq_error]
    exact ⟨hlong, rfl⟩
  rw [herror] at h
  cases h

/-- What holds a long integer is something. -/
theorem isTruthy_of_holdsLong (h : v.holdsLong) : v.isTruthy := by
  cases v with
  | int n =>
    refine bne_iff_ne.mpr ?_
    rintro rfl
    rw [holdsLong, Number.isLong_of_lt (by decide)] at h
    cases h
  | list xs | tuple xs | set xs | map xs =>
    cases xs with
    | nil => cases h
    | cons => rfl
  | _ => cases h

theorem mapM_toText_eq_error {vs : List Value} :
    vs.mapM toText = .error f ↔ (∃ v ∈ vs, v.holdsLong) ∧ f = .intTooLong := by
  have honly : FailsOnly (fun f => (∃ v ∈ vs, v.holdsLong) ∧ f = .intTooLong) (vs.mapM toText) :=
    .mapM fun v hv f h => ⟨⟨v, hv, (toText_eq_error.mp h).1⟩, (toText_eq_error.mp h).2⟩
  refine ⟨honly f, ?_⟩
  rintro ⟨⟨v, hv, hlong⟩, rfl⟩
  match h : vs.mapM toText with
  | .error g => rw [(honly g h).2]
  | .ok _ =>
    obtain ⟨s, hs⟩ := ok_of_mapM h hv
    rw [toText_eq_error.mpr ⟨hlong, rfl⟩] at hs
    cases hs

theorem member?_eq_error : v.member? key = .error f ↔
    v.isMapping = false ∧ f = .noAttribute v.shape "get" := by
  cases v <;> simp [member?, isMapping, eq_comm]

theorem member?_of_isMapping (h : v.isMapping) (key : String) :
    v.member? key = .ok (field? (some v) key) := by
  cases v with
  | map => rfl
  | _ => cases h

theorem field?_of_member? {x : Option Value} (h : v.member? key = .ok x) :
    field? (some v) key = x := by
  cases v with
  | map => exact Except.ok.inj h
  | _ => cases h

end Value

/-! ## Fields -/

section fields
variable {v : Value} {f : Fault} {key default : String}

/-- A section has no keys if it is foreign. -/
theorem member?_sectionOf_eq_error {w : Option Value} : (sectionOf w).member? key = .error f ↔
    ∃ v, w = some v ∧ v.IsForeign ∧ f = .noAttribute v.shape "get" := by
  rw [Value.member?_eq_error]
  unfold sectionOf Value.orElse
  split
  · next v =>
    split
    · next htruthy => simp [Value.IsForeign, htruthy]
    · next hempty => simp [Value.IsForeign, hempty, Value.isMapping]
  · simp [Value.isMapping]

theorem not_isForeign_of_member? {w x : Option Value} (h : (sectionOf w).member? key = .ok x)
    (hw : w = some v) : ¬v.IsForeign := by
  intro hforeign
  have hfault : (sectionOf w).member? key = .error (.noAttribute v.shape "get") := by
    rw [member?_sectionOf_eq_error]
    exact ⟨v, hw, hforeign, rfl⟩
  rw [hfault] at h
  cases h

/-- A text under a key cannot be read if the keys cannot, or if it cannot be shown. -/
theorem textUnder_eq_error : textUnder v key default = .error f ↔
    v.member? key = .error f ∨
      ∃ w, v.member? key = .ok (some w) ∧ w.holdsLong ∧ f = .intTooLong := by
  unfold textUnder
  rw [bind_eq_error]
  refine or_congr_right ⟨?_, ?_⟩
  · rintro ⟨_ | w, hx, h⟩
    · rw [Option.getD_none, Value.toText_text] at h
      cases h
    · exact ⟨w, hx, Value.toText_eq_error.mp h⟩
  · rintro ⟨w, hw, h⟩
    exact ⟨some w, hw, Value.toText_eq_error.mpr h⟩

theorem not_holdsLong_of_textUnder {v : Option Value} {w : Value} {t : String}
    (h : textUnder (sectionOf v) key default = .ok t) (hw : Value.field? v key = some w) :
    ¬w.holdsLong := by
  obtain ⟨x, hx, htext⟩ := bind_eq_ok.mp h
  obtain rfl := hw.symm.trans (Settings.member?_sectionOf hx)
  exact Value.not_holdsLong_of_toText htext

/-- Why texts cannot be listed: what should list them has no elements, or one of these cannot be
    shown. -/
def Unlisted (w : Value) (f : Fault) : Prop :=
  (w ≠ .null ∧ w.elements? = none ∧ f = .notIterable w.shape) ∨
    ∃ vs, w.elements? = some vs ∧ (∃ x ∈ vs, x.holdsLong) ∧ f = .intTooLong

theorem textList?_eq_error {w : Value} : textList? w = .error f ↔ Unlisted w f := by
  unfold textList? Unlisted
  split
  · simp [Value.elements?]
  · simp [Value.elements?, Value.holdsLong]
  · next hnull _ =>
    rw [bind_eq_error, Value.elements]
    cases w.elements? with
    | none =>
      simp only [Except.error.injEq, reduceCtorEq, false_and, exists_false, or_false, true_and]
      exact ⟨fun h => ⟨hnull, h.symm⟩, fun h => h.2.symm⟩
    | some vs =>
      simp only [Except.ok.injEq, Option.some.injEq, reduceCtorEq, false_or, false_and, and_false,
        exists_eq_left', Value.mapM_toText_eq_error]

theorem textsUnder_eq_error : textsUnder v key = .error f ↔
    v.member? key = .error f ∨ ∃ w, v.member? key = .ok (some w) ∧ Unlisted w f := by
  unfold textsUnder
  rw [bind_eq_error]
  refine or_congr_right ⟨?_, ?_⟩
  · rintro ⟨_ | w, hx, h⟩
    · cases h
    · rw [textList?_eq_error] at h
      exact ⟨w, hx, h⟩
  · rintro ⟨w, hw, h⟩
    rw [← textList?_eq_error] at h
    exact ⟨some w, hw, h⟩

end fields

/-! ## Sources -/

namespace Source

/-- The keys of a source that texts are expected under. -/
def textKeys : List String := ["type", "name", "output_path"]

/-- The keys of a source that lists of texts are expected under. -/
def listKeys : List String := ["filters", "include_patterns", "exclude_patterns", "depends_on"]

/-- The keys of a source's place that texts are expected under. -/
def placeKeys : List String := ["url", "ref"]

/-- **Why no source can be made of a value.** -/
inductive Unreadable (v : Value) : Fault → Prop
  | shape (h : v.isMapping = false) : Unreadable v (.noAttribute v.shape "get")
  | placeShape {w : Value} (hw : Value.field? (some v) "git" = some w) (h : w.IsForeign) :
      Unreadable v (.noAttribute w.shape "get")
  | text {key : String} {w : Value} (hkey : key ∈ textKeys)
      (hw : Value.field? (some v) key = some w) (h : w.holdsLong) : Unreadable v .intTooLong
  | placeText {key : String} {w : Value} (hkey : key ∈ placeKeys)
      (hw : Value.field? (Value.field? (some v) "git") key = some w) (h : w.holdsLong) :
      Unreadable v .intTooLong
  | list {key : String} {w : Value} {f : Fault} (hkey : key ∈ listKeys)
      (hw : Value.field? (some v) key = some w) (h : Unlisted w f) : Unreadable v f

section readable
variable {v : Value} {s : Source}

/-- **A source that cannot be made has a fault** of its shape or of one of its fields. -/
theorem failsOnly_ofDocument (v : Value) : FailsOnly (Unreadable v) (ofDocument v) := by
  have hmember : ∀ key, FailsOnly (Unreadable v) (v.member? key) := by
    intro key f h
    obtain ⟨hshape, rfl⟩ := Value.member?_eq_error.mp h
    exact .shape hshape
  have htext : ∀ key ∈ textKeys, FailsOnly (Unreadable v) (textUnder v key "") := by
    intro key hkey f h
    rcases textUnder_eq_error.mp h with h | ⟨w, hw, hlong, rfl⟩
    · exact hmember key f h
    · exact .text hkey (Value.field?_of_member? hw) hlong
  have hlist : ∀ key ∈ listKeys, FailsOnly (Unreadable v) (textsUnder v key) := by
    intro key hkey f h
    rcases textsUnder_eq_error.mp h with h | ⟨w, hw, h⟩
    · exact hmember key f h
    · exact .list hkey (Value.field?_of_member? hw) h
  refine (hmember _).bind fun git hgit => ?_
  obtain rfl := Value.field?_of_member? hgit
  have hplace : ∀ key, FailsOnly (Unreadable v)
      ((sectionOf (Value.field? (some v) "git")).member? key) := by
    intro key f h
    obtain ⟨w, hw, hforeign, rfl⟩ := member?_sectionOf_eq_error.mp h
    exact .placeShape hw hforeign
  -- The two texts of the place are looked at apart: the place may be foreign, and the reference
  -- has a default for what is nothing.
  refine (htext _ (by decide)).bind fun _ _ => (htext _ (by decide)).bind fun _ _ =>
    .bind (fun f h => ?url) fun _ _ => (hplace _).bind fun ref href =>
    .bind (fun f h => ?ref) fun _ _ => (hlist _ (by decide)).bind fun _ _ =>
    (hlist _ (by decide)).bind fun _ _ => (hlist _ (by decide)).bind fun _ _ =>
    (htext _ (by decide)).bind fun _ _ => (hlist _ (by decide)).bind fun _ _ => .ok _
  case url =>
    rcases textUnder_eq_error.mp h with h | ⟨w, hw, hlong, rfl⟩
    · exact hplace _ f h
    · have hkey : "url" ∈ placeKeys := by decide
      exact .placeText hkey (Settings.member?_sectionOf hw) hlong
  case ref =>
    obtain ⟨hlong, rfl⟩ := Value.toText_eq_error.mp h
    unfold Value.orElse at hlong
    split at hlong
    · next w =>
      split at hlong
      · have hkey : "ref" ∈ placeKeys := by decide
        exact .placeText hkey (Settings.member?_sectionOf href) hlong
      · cases hlong
    · cases hlong

/-- **A source that is made has none of the faults.** -/
theorem not_unreadable_of_document (h : ofDocument v = .ok s) (f : Fault) : ¬Unreadable v f := by
  obtain ⟨git, hgit, h⟩ := bind_eq_ok.mp h
  obtain ⟨kind, hkind, h⟩ := bind_eq_ok.mp h
  obtain ⟨name, hname, h⟩ := bind_eq_ok.mp h
  obtain ⟨url, hurl, h⟩ := bind_eq_ok.mp h
  obtain ⟨ref, href, h⟩ := bind_eq_ok.mp h
  obtain ⟨refText, hrefText, h⟩ := bind_eq_ok.mp h
  obtain ⟨filters, hfilters, h⟩ := bind_eq_ok.mp h
  obtain ⟨includes, hincludes, h⟩ := bind_eq_ok.mp h
  obtain ⟨excludes, hexcludes, h⟩ := bind_eq_ok.mp h
  obtain ⟨output, houtput, h⟩ := bind_eq_ok.mp h
  obtain ⟨needs, hneeds, -⟩ := bind_eq_ok.mp h
  -- Every field was read, so none of them has a fault.
  have htexts : ∀ key ∈ textKeys, ∃ t, textUnder v key "" = .ok t := by
    simp only [textKeys, List.forall_mem_cons]
    exact ⟨⟨_, hkind⟩, ⟨_, hname⟩, ⟨_, houtput⟩, fun _ h => nomatch h⟩
  have hlists : ∀ key ∈ listKeys, ∃ ts, textsUnder v key = .ok ts := by
    simp only [listKeys, List.forall_mem_cons]
    exact ⟨⟨_, hfilters⟩, ⟨_, hincludes⟩, ⟨_, hexcludes⟩, ⟨_, hneeds⟩, fun _ h => nomatch h⟩
  have hmapping : v.isMapping := by
    by_contra hother
    rw [Value.member?_eq_error.mpr ⟨Bool.eq_false_iff.mpr hother, rfl⟩] at hgit
    cases hgit
  have hmember := Value.member?_of_isMapping hmapping
  obtain rfl := Value.field?_of_member? hgit
  rintro (hother | ⟨hw, hforeign⟩ | ⟨hkey, hw, hlong⟩ | ⟨hkey, hw, hlong⟩ | ⟨hkey, hw, hunlisted⟩)
  · rw [hmapping] at hother
    cases hother
  · obtain ⟨x, hx, -⟩ := bind_eq_ok.mp hurl
    exact not_isForeign_of_member? hx hw hforeign
  · obtain ⟨t, ht⟩ := htexts _ hkey
    rw [textUnder_eq_error.mpr (.inr ⟨_, (hmember _).trans (congrArg _ hw), hlong, rfl⟩)] at ht
    cases ht
  · simp only [placeKeys, List.mem_cons, List.not_mem_nil, or_false] at hkey
    rcases hkey with rfl | rfl
    · exact not_holdsLong_of_textUnder hurl hw hlong
    · obtain rfl := hw.symm.trans (Settings.member?_sectionOf href)
      -- A reference that holds a long integer is something, so the default does not replace it.
      rw [Value.orElse, if_pos (Value.isTruthy_of_holdsLong hlong)] at hrefText
      exact Value.not_holdsLong_of_toText hrefText hlong
  · obtain ⟨ts, hts⟩ := hlists _ hkey
    rw [textsUnder_eq_error.mpr (.inr ⟨_, (hmember _).trans (congrArg _ hw), hunlisted⟩)] at hts
    cases hts

end readable

end Source

/-! ## Settings -/

namespace Settings

/-- The sections that have keys. -/
def groups : List String := ["output", "generation", "lockfile"]

/-- The fields of sections that texts are expected in. -/
def textFields : List (String × String) := [("output", "base_path"), ("lockfile", "path")]

/-- The fields of sections that integers are expected in. -/
def integerFields : List (String × String) :=
  [("generation", "max_workers"), ("lockfile", "max_age_hours")]

/-- **Why no settings can be made of a document.** -/
inductive Unreadable (es : Entries) : Failure → Prop
  | sources {v : Value} (hv : es.get? "sources" = some v) (htruthy : v.isTruthy)
      (hother : ∀ xs label, v ≠ .list xs label) : Unreadable es (.settings .sourcesShape)
  | source {xs : List Value} {label : Label} {x : Value} {f : Fault}
      (hv : es.get? "sources" = some (.list xs label)) (hx : x ∈ xs) (h : Source.Unreadable x f) :
      Unreadable es (.value f)
  | shape {name : String} {v : Value} (hname : name ∈ groups) (hv : es.get? name = some v)
      (h : v.IsForeign) : Unreadable es (.value (.noAttribute v.shape "get"))
  | version {v : Value} (hv : es.get? "version" = some v) (h : v.holdsLong) :
      Unreadable es (.value .intTooLong)
  | text {name key : String} {v : Value} (hfield : (name, key) ∈ textFields)
      (hv : es.given name key = some v) (h : v.holdsLong) : Unreadable es (.value .intTooLong)
  | number {name key : String} {v : Value} {f : Fault} (hfield : (name, key) ∈ integerFields)
      (hv : es.given name key = some v) (h : v.toInt = .error f) : Unreadable es (.value f)

/-- Only the shape of the sources is explained. -/
theorem Unreadable.explained_or_value {es : Entries} {e : Failure} (h : Unreadable es e) :
    e = .settings .sourcesShape ∨ ∃ f, e = .value f := by
  cases h with
  | sources => exact .inl rfl
  | _ => exact .inr ⟨_, rfl⟩

section readable
variable {es : Entries} {name key default : String} {v : Value} {s s' : Settings}
  {read : Value → Settings → Except Failure Settings}

theorem read_of_onSection (h : onSection es name read s = .ok s') (hv : es.get? name = some v) :
    read v s = .ok s' := by
  rw [onSection, hv] at h
  exact h

theorem failsOnly_onSection {P : Failure → Prop}
    (h : ∀ v, es.get? name = some v → FailsOnly P (read v s)) :
    FailsOnly P (onSection es name read s) := by
  unfold onSection
  split
  · next v hv => exact h v hv
  · exact .ok _

theorem failsOnly_group (hname : name ∈ groups) (hv : es.get? name = some v) (key : String) :
    FailsOnly (Unreadable es) (valueFailure ((sectionOf (some v)).member? key)) := by
  refine .mapError fun f h => ?_
  obtain ⟨w, hw, hforeign, rfl⟩ := member?_sectionOf_eq_error.mp h
  obtain rfl := Option.some.inj hw
  exact .shape hname hv hforeign

theorem failsOnly_text (hname : name ∈ groups) (hfield : (name, key) ∈ textFields)
    (hv : es.get? name = some v) :
    FailsOnly (Unreadable es) (valueFailure (textUnder (sectionOf (some v)) key default)) := by
  refine .mapError fun f h => ?_
  rcases textUnder_eq_error.mp h with h | ⟨w, hw, hlong, rfl⟩
  · exact failsOnly_group hname hv key (.value f) (by rw [h]; rfl)
  · refine .text hfield ?_ hlong
    rw [Entries.given, hv]
    exact member?_sectionOf hw

theorem failsOnly_number {x : Option Value} {n : Int} (hfield : (name, key) ∈ integerFields)
    (hv : es.get? name = some v)
    (hx : valueFailure ((sectionOf (some v)).member? key) = .ok x) :
    FailsOnly (Unreadable es) (valueFailure (x.getD (.int n)).toInt) := by
  refine .mapError fun f h => ?_
  have hgiven : es.given name key = x := by
    rw [Entries.given, hv]
    exact member?_sectionOf (valueFailure_eq_ok.mp hx)
  cases x with
  | none => cases h
  | some w => exact .number hfield hgiven h

theorem failsOnly_sources (hv : es.get? "sources" = some v) :
    FailsOnly (Unreadable es) (sourcesOf v) := by
  by_cases htruthy : v.isTruthy
  · rw [sourcesOf, Value.orElse, if_pos htruthy]
    split
    · exact .mapError (.mapM fun x hx f h => .source hv hx (Source.failsOnly_ofDocument x f h))
    · next hother => exact .error (.sources hv htruthy hother)
  · rw [sourcesOf, Value.orElse, if_neg htruthy]
    exact .ok []

/-- **A document that gives no settings has a fault** in one of its sections. -/
theorem failsOnly_ofDocument (es : Entries) : FailsOnly (Unreadable es) (ofDocument es) := by
  unfold ofDocument
  refine (failsOnly_onSection fun v hv => ?version).bind fun _ _ =>
    (failsOnly_onSection fun v hv => ?output).bind fun _ _ =>
    (failsOnly_onSection fun v hv => ?sources).bind fun _ _ =>
    (failsOnly_onSection fun v hv => ?generation).bind fun _ _ =>
    failsOnly_onSection fun v hv => ?lockfile
  case version =>
    exact .bind (.mapError fun f h => by
      obtain ⟨hlong, rfl⟩ := Value.toText_eq_error.mp h
      exact .version hv hlong) fun _ _ => .ok _
  case output => exact (failsOnly_text (by decide) (by decide) hv).bind fun _ _ => .ok _
  case sources => exact (failsOnly_sources hv).bind fun _ _ => .ok _
  case generation =>
    exact (failsOnly_group (by decide) hv _).bind fun _ _ =>
      (failsOnly_group (by decide) hv _).bind fun _ hx =>
      (failsOnly_number (by decide) hv hx).bind fun _ _ => .ok _
  case lockfile =>
    exact (failsOnly_text (by decide) (by decide) hv).bind fun _ _ =>
      (failsOnly_group (by decide) hv _).bind fun _ hx =>
      (failsOnly_number (by decide) hv hx).bind fun _ _ => .ok _

/-- **A document that gives settings has none of the faults.** -/
theorem not_unreadable_of_document (h : ofDocument es = .ok s) (e : Failure) :
    ¬Unreadable es e := by
  have hfields := fromLayers_of_document h
  unfold ofDocument at h
  obtain ⟨s₁, hversion, h⟩ := bind_eq_ok.mp h
  obtain ⟨s₂, houtput, h⟩ := bind_eq_ok.mp h
  obtain ⟨s₃, hsources, h⟩ := bind_eq_ok.mp h
  obtain ⟨s₄, hgeneration, hlockfile⟩ := bind_eq_ok.mp h
  intro hunreadable
  cases hunreadable with
  | sources hv htruthy hother =>
    obtain ⟨sources, hmade, -⟩ := bind_eq_ok.mp (read_of_onSection hsources hv)
    rw [sourcesOf, Value.orElse, if_pos htruthy] at hmade
    split at hmade
    · exact hother _ _ rfl
    · cases hmade
  | @source xs label x f hv hx hunreadable =>
    obtain ⟨sources, hmade, -⟩ := bind_eq_ok.mp (read_of_onSection hsources hv)
    have htruthy : (Value.list xs label).isTruthy := by
      cases xs with
      | nil => cases hx
      | cons => rfl
    rw [sourcesOf, Value.orElse, if_pos htruthy] at hmade
    obtain ⟨y, hy⟩ := ok_of_mapM (valueFailure_eq_ok.mp hmade) hx
    exact Source.not_unreadable_of_document hy f hunreadable
  | @shape name v hname hv hforeign =>
    simp only [groups, List.mem_cons, List.not_mem_nil, or_false] at hname
    rcases hname with rfl | rfl | rfl
    · obtain ⟨t, ht, -⟩ := bind_eq_ok.mp (read_of_onSection houtput hv)
      obtain ⟨x, hx, -⟩ := bind_eq_ok.mp (valueFailure_eq_ok.mp ht)
      exact not_isForeign_of_member? hx rfl hforeign
    · obtain ⟨x, hx, -⟩ := bind_eq_ok.mp (read_of_onSection hgeneration hv)
      exact not_isForeign_of_member? (valueFailure_eq_ok.mp hx) rfl hforeign
    · obtain ⟨t, ht, -⟩ := bind_eq_ok.mp (read_of_onSection hlockfile hv)
      obtain ⟨x, hx, -⟩ := bind_eq_ok.mp (valueFailure_eq_ok.mp ht)
      exact not_isForeign_of_member? hx rfl hforeign
  | version hv hlong =>
    obtain ⟨t, ht, -⟩ := bind_eq_ok.mp (read_of_onSection hversion hv)
    exact Value.not_holdsLong_of_toText (valueFailure_eq_ok.mp ht) hlong
  | text hfield hv hlong =>
    simp only [textFields, List.mem_cons, List.not_mem_nil, or_false, Prod.mk.injEq] at hfield
    rcases hfield with ⟨rfl, rfl⟩ | ⟨rfl, rfl⟩
    · cases hsection : es.get? "output" with
      | none =>
        rw [Entries.given, hsection] at hv
        cases hv
      | some group =>
        rw [Entries.given, hsection] at hv
        obtain ⟨t, ht, -⟩ := bind_eq_ok.mp (read_of_onSection houtput hsection)
        exact not_holdsLong_of_textUnder (valueFailure_eq_ok.mp ht) hv hlong
    · have hpath := hfields.lockfilePath
      rw [hv] at hpath
      exact Value.not_holdsLong_of_toText hpath hlong
  | @number name key v f hfield hv hnumber =>
    have hread : ∃ n, v.toInt = .ok n := by
      simp only [integerFields, List.mem_cons, List.not_mem_nil, or_false, Prod.mk.injEq] at hfield
      rcases hfield with ⟨rfl, rfl⟩ | ⟨rfl, rfl⟩
      · have hworkers := hfields.maxWorkers
        rw [hv] at hworkers
        exact ⟨_, hworkers⟩
      · have hage := hfields.maxAgeHours
        rw [hv] at hage
        exact ⟨_, hage⟩
    obtain ⟨n, hn⟩ := hread
    rw [hnumber] at hn
    cases hn

/-- **Settings can be made of a document** exactly if it has none of the faults. -/
theorem exists_ofDocument_iff : (∃ s, ofDocument es = .ok s) ↔ ∀ e, ¬Unreadable es e := by
  refine ⟨fun ⟨s, h⟩ => not_unreadable_of_document h, fun hnone => ?_⟩
  match h : ofDocument es with
  | .ok s => exact ⟨s, rfl⟩
  | .error e => exact absurd (failsOnly_ofDocument es e h) (hnone e)

end readable

end Settings

end Regen
