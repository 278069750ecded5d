import Regen.Proofs.Lockfile.Canonical
import Regen.Proofs.Lockfile.Session
import Regen.Proofs.Yaml.Sharing

/-! # Lockfiles that are written as the same bytes

    The document of a lockfile depends neither on the order in which entries arrived nor on the
    offsets of times.  Equal documents are not always the same bytes, though: `0.0` and `-0.0` are
    equal, and an object that is reached twice gets an anchor where two equal objects are written
    twice.  Lockfiles with the same scalars, whose documents have one object at the same places,
    are saved as the same bytes. -/

namespace Regen

open Time Value

/-! ## Computations that end alike -/

/-- **Two computations end alike**: with related results or with one error. -/
inductive EndAlike {ε α β : Type} (R : α → β → Prop) : Except ε α → Except ε β → Prop
  | ok {a : α} {b : β} (h : R a b) : EndAlike R (.ok a) (.ok b)
  | error (e : ε) : EndAlike R (.error e) (.error e)

namespace EndAlike

variable {ε α β α' β' : Type} {R : α → β → Prop} {S : α' → β' → Prop}

theorem refl (x : Except ε α) : EndAlike (· = ·) x x := by
  cases x with
  | ok a => exact .ok rfl
  | error e => exact .error e

theorem bind {x : Except ε α} {y : Except ε β} {f : α → Except ε α'} {g : β → Except ε β'}
    (h : EndAlike R x y) (hfg : ∀ a b, R a b → EndAlike S (f a) (g b)) :
    EndAlike S (x >>= f) (y >>= g) := by
  cases h with
  | ok hab => exact hfg _ _ hab
  | error e => exact .error e

theorem mapM {f : α → Except ε α'} {g : β → Except ε β'} {xs : List α} {ys : List β}
    (h : List.Forall₂ (fun x y => EndAlike S (f x) (g y)) xs ys) :
    EndAlike (List.Forall₂ S) (xs.mapM f) (ys.mapM g) := by
  induction h with
  | nil => exact .ok .nil
  | cons hxy _ ih =>
    rw [List.mapM_cons, List.mapM_cons]
    exact hxy.bind fun _ _ hab => ih.bind fun _ _ hrest => .ok (.cons hab hrest)

end EndAlike

/-! ## Documents of related values -/

/-- **Two documents have the same keys** in the same order, with related values. -/
def SameKeys (V : Value → Value → Prop) (es fs : Entries) : Prop :=
  List.Forall₂ (fun e f => ∃ key, e.1 = .text key ∧ f.1 = .text key ∧ V e.2 f.2) es fs

/-- **A relation of values carries over to documents** if it holds of what a document puts around
    values: of equal texts and integers, and of documents with related values. -/
structure CarriesOver (V : Value → Value → Prop) : Prop where
  text : ∀ s, V (.text s) (.text s)
  int : ∀ n, V (.int n) (.int n)
  texts : ∀ names, V (textList names) (textList names)
  document : ∀ {es fs}, SameKeys V es fs → V (.map es none) (.map fs none)

section documents
variable {V : Value → Value → Prop}

theorem SameKeys.nil : SameKeys V [] [] := List.Forall₂.nil

theorem SameKeys.cons {key : String} {v w : Value} {es fs : Entries} (hvw : V v w)
    (h : SameKeys V es fs) : SameKeys V ((.text key, v) :: es) ((.text key, w) :: fs) :=
  List.Forall₂.cons ⟨key, rfl, rfl, hvw⟩ h

theorem SourceRecord.endAlike_toDocument (hV : CarriesOver V) {r s : SourceRecord}
    (h : SourceRecord.Rel OneInstant V r s) : EndAlike V r.toDocument s.toDocument := by
  rw [toDocument, toDocument, h.url, h.ref, h.fingerprint, h.filters, timeText_congr h.fetchedAt]
  refine (EndAlike.refl _).bind fun fetched _ hfetched => .ok (hV.document ?_)
  rw [← hfetched]
  exact .cons (hV.text _) <| .cons (hV.text _) <| .cons (hV.text _) <| .cons (hV.text _) <|
    .cons (hV.texts _) <| .cons h.metadata .nil

theorem FileRecord.endAlike_toDocument (hV : CarriesOver V) {r s : FileRecord}
    (h : FileRecord.Rel OneInstant V r s) : EndAlike V r.toDocument s.toDocument := by
  rw [toDocument, toDocument, h.sha256, h.size, h.owner, timeText_congr h.modifiedAt]
  refine (EndAlike.refl _).bind fun modified _ hmodified => .ok (hV.document ?_)
  rw [← hmodified]
  exact .cons (hV.text _) <| .cons (hV.int _) <| .cons (hV.text _) <| .cons (hV.text _) <|
    .cons h.fileType <| .cons h.lineCount .nil

theorem Statistics.toDocument_rel (hV : CarriesOver V) {s t : Statistics}
    (h : Statistics.Rel V s t) : V s.toDocument t.toDocument := by
  rw [toDocument, toDocument, h.totalMillis, h.sourcesProcessed, h.filesGenerated, h.errors,
    h.warnings]
  exact hV.document <| .cons (hV.int _) <| .cons (hV.int _) <| .cons (hV.int _) <|
    .cons (hV.int _) <| .cons (hV.int _) <| .cons h.cacheHitRate .nil

/-- Ledgers whose entries end alike do so themselves, in whatever order they have them. -/
theorem Ledger.endAlike_toDocument (hV : CarriesOver V) {α : Type} {R : α → α → Prop}
    {write : α → Except Fault Value} {l m : Ledger α} (hdistinct : l.names.Nodup)
    (h : Ledger.Rel R l m) (hwrite : ∀ x y, R x y → EndAlike V (write x) (write y)) :
    EndAlike V (l.toDocument write) (m.toDocument write) := by
  have hentries : List.Forall₂ (fun e f => EndAlike (fun e f => e.1 = f.1 ∧ V e.2 f.2)
      (do pure (e.1, ← write e.2)) (do pure (f.1, ← write f.2))) l.sorted m.sorted :=
    (h.forall₂_sorted hdistinct).imp fun e f hef =>
      (hwrite _ _ hef.2).bind fun _ _ hV => .ok ⟨hef.1, hV⟩
  refine (EndAlike.mapM hentries).bind fun es fs hes => .ok (hV.document ?_)
  rw [SameKeys, List.forall₂_map_left_iff, List.forall₂_map_right_iff]
  exact hes.imp fun e f hef => ⟨e.1, rfl, congrArg Value.text hef.1.symm, hef.2⟩

/-- **Related lockfiles have documents with the same keys in the same order and related values**,
    or fail with one error. -/
theorem Lockfile.endAlike_toDocument (hV : CarriesOver V) {l m : Lockfile}
    (hsources : l.sources.names.Nodup) (hfiles : l.files.names.Nodup)
    (hdependencies : l.dependencies.names.Nodup) (h : Lockfile.Rel OneInstant V l m) :
    EndAlike (SameKeys V) l.toDocument m.toDocument := by
  have hs := Ledger.endAlike_toDocument hV hsources h.sources fun _ _ =>
    SourceRecord.endAlike_toDocument hV
  have hf := Ledger.endAlike_toDocument hV hfiles h.files fun _ _ =>
    FileRecord.endAlike_toDocument hV
  have hd : EndAlike V (l.dependencies.toDocument fun names => .ok (textList names))
      (m.dependencies.toDocument fun names => .ok (textList names)) :=
    Ledger.endAlike_toDocument hV hdependencies h.dependencies fun names _ heq =>
      .ok (heq ▸ hV.texts names)
  rw [toDocument, toDocument, h.schemaVersion, h.toolVersion, h.revision,
    timeText_congr h.generatedAt]
  refine (EndAlike.refl _).bind fun generated _ hgenerated => hs.bind fun _ _ hs =>
    hf.bind fun _ _ hf => hd.bind fun _ _ hd => .ok ?_
  rw [← hgenerated]
  exact .cons (hV.text _) <| .cons (hV.text _) <| .cons (hV.text _) <| .cons (hV.int _) <|
    .cons hs <| .cons hf <| .cons hd <|
    .cons (Statistics.toDocument_rel hV h.statistics) .nil

end documents

namespace Value

/-! ## Equal values in the same order -/

mutual

/-- Are two values equal in content, with the entries of mappings in the same order? -/
def sameInOrder : Value → Value → Bool
  | list xs _, list ys _ => sameInOrderLists xs ys
  | tuple xs, tuple ys => sameInOrderLists xs ys
  | set xs _, set ys _ => sameInOrderLists xs ys
  | map es _, map fs _ => sameInOrderEntries es fs
  | v, w => sameScalar v w

def sameInOrderLists : List Value → List Value → Bool
  | [], [] => true
  | x :: xs, y :: ys => sameInOrder x y && sameInOrderLists xs ys
  | _, _ => false

def sameInOrderEntries : List (Value × Value) → List (Value × Value) → Bool
  | [], [] => true
  | (k, v) :: es, (l, w) :: fs => sameInOrder k l && sameInOrder v w && sameInOrderEntries es fs
  | _, _ => false

end

/-- **Two values are equal in the same order.** -/
def SameInOrder (v w : Value) : Prop := v.sameInOrder w = true

instance : DecidableRel SameInOrder :=
  fun v w => inferInstanceAs (Decidable (v.sameInOrder w = true))

theorem sameInOrder_text (s : String) : SameInOrder (.text s) (.text s) := beq_self_eq_true s

theorem carriesOver_sameInOrder : CarriesOver SameInOrder where
  text := sameInOrder_text
  int n := beq_self_eq_true n
  texts names := by
    show sameInOrderLists _ _ = true
    induction names with
    | nil => rfl
    | cons n names ih => exact Bool.and_eq_true_iff.mpr ⟨sameInOrder_text n, ih⟩
  document {es fs} h := by
    show sameInOrderEntries es fs = true
    induction h with
    | nil => rfl
    | @cons e f _ _ hef _ ih =>
      obtain ⟨k, v⟩ := e
      obtain ⟨k', w⟩ := f
      obtain ⟨key, rfl, rfl, hvw⟩ := hef
      exact Bool.and_eq_true_iff.mpr ⟨Bool.and_eq_true_iff.mpr ⟨sameInOrder_text key, hvw⟩, ih⟩

/-! ## Alike values -/

theorem alike_text (s : String) : Alike (.text s) (.text s) := beq_self_eq_true s

theorem alikeEntries_of_sameKeys {es fs : Entries} (h : SameKeys Alike es fs) :
    alikeEntries es fs = true := by
  induction h with
  | nil => rfl
  | @cons e f _ _ hef _ ih =>
    obtain ⟨k, v⟩ := e
    obtain ⟨k', w⟩ := f
    obtain ⟨key, rfl, rfl, hvw⟩ := hef
    exact Bool.and_eq_true_iff.mpr ⟨Bool.and_eq_true_iff.mpr ⟨alike_text key, hvw⟩, ih⟩

theorem carriesOver_alike : CarriesOver Alike where
  text := alike_text
  int n := beq_self_eq_true n
  texts names := by
    show alikeLists _ _ = true
    induction names with
    | nil => rfl
    | cons n names ih => exact Bool.and_eq_true_iff.mpr ⟨alike_text n, ih⟩
  document := alikeEntries_of_sameKeys

/-- Alike values have integers of the same length. -/
theorem holdsLong_cases : AlikeCases fun v w => v.holdsLong = w.holdsLong := by
  have hall : ∀ {xs ys}, List.Forall₂ (fun x y => Alike x y ∧ x.holdsLong = y.holdsLong) xs ys →
      anyLong xs = anyLong ys := by
    intro xs ys h
    induction h with
    | nil => rfl
    | cons hxy _ ih => rw [anyLong, anyLong, hxy.2, ih]
  refine ⟨fun v w h => ?_, fun _ _ _ _ => hall, fun _ _ => hall, fun _ _ _ _ => hall,
    fun _ _ _ _ h => ?_⟩
  · unfold alikeScalar at h
    split at h
    case h_1 => rfl
    all_goals first
      | cases h
      | (obtain rfl := eq_of_beq h
         rfl)
  · show anyLongEntry _ = anyLongEntry _
    induction h with
    | nil => rfl
    | cons hef _ ih => rw [anyLongEntry, anyLongEntry, hef.1.2, hef.2.2, ih]

theorem anyLongEntry_of_alike {es fs : Entries} (h : alikeEntries es fs = true) :
    anyLongEntry es = anyLongEntry fs :=
  holdsLong_cases.of_alike (.map es none) (.map fs none) h

end Value

namespace Lockfile

/-! ## Saving -/

section saving
variable {l m : Lockfile}

/-- The document that a save writes shares as that of the lockfile does: only the revision is
    another one. -/
theorem exists_toDocument_of_next {es' : Entries} (h : l.next.toDocument = .ok es') :
    ∃ es, l.toDocument = .ok es ∧ labelsOfEntries es = labelsOfEntries es' := by
  obtain ⟨generated, hgenerated, h⟩ := bind_eq_ok.mp h
  obtain ⟨sources, hsources, h⟩ := bind_eq_ok.mp h
  obtain ⟨files, hfiles, h⟩ := bind_eq_ok.mp h
  obtain ⟨dependencies, hdependencies, h⟩ := bind_eq_ok.mp h
  cases h
  exact ⟨_, bind_eq_ok.mpr ⟨generated, hgenerated, bind_eq_ok.mpr ⟨sources, hsources,
    bind_eq_ok.mpr ⟨files, hfiles, bind_eq_ok.mpr ⟨dependencies, hdependencies, rfl⟩⟩⟩⟩, rfl⟩

/-- The documents of two lockfiles, where they have one, share alike. -/
def SharesAlike (l m : Lockfile) : Prop :=
  ∀ es fs, l.toDocument = .ok es → m.toDocument = .ok fs → Yaml.ShareAlike es fs

instance : DecidableRel SharesAlike := fun l m =>
  decidable_of_iff (∀ es ∈ l.toDocument.toOption, ∀ fs ∈ m.toDocument.toOption,
      Yaml.ShareAlike es fs) <| by
    cases hl : l.toDocument <;> cases hm : m.toDocument <;>
      simp [SharesAlike, hl, hm, Except.toOption]

theorem SharesAlike.next (h : SharesAlike l m) : SharesAlike l.next m.next := by
  intro es' fs' hes' hfs'
  obtain ⟨es, hes, hlabels⟩ := exists_toDocument_of_next hes'
  obtain ⟨fs, hfs, hlabels'⟩ := exists_toDocument_of_next hfs'
  have hshare := h es fs hes hfs
  rwa [Yaml.ShareAlike, hlabels, hlabels'] at hshare

/-- Lockfiles with alike documents that share alike are encoded as the same bytes. -/
theorem encode_congr (h : EndAlike (SameKeys Alike) l.toDocument m.toDocument)
    (hshare : SharesAlike l m) : l.encode = m.encode := by
  unfold encode
  generalize hl : l.toDocument = x, hm : m.toDocument = y at h
  cases h with
  | error e => rfl
  | @ok es fs hsame =>
    have halike := alikeEntries_of_sameKeys hsame
    dsimp only
    rw [anyLongEntry_of_alike halike, Yaml.write_congr halike (hshare es fs hl hm)]

/-- **A save sees of a lockfile only its revision and what is encoded.** -/
theorem saveWith_congr {R : Lockfile → Lockfile → Prop} (hrevision : m.revision = l.revision)
    (hencode : l.next.encode = m.next.encode) (hnext : R l.next m.next) (mishaps : Mishaps)
    (d : Disk) (p : Path) (force : Bool) :
    (saveWith mishaps d p l force).1 = (saveWith mishaps d p m force).1 ∧
      EndAlike R (saveWith mishaps d p l force).2 (saveWith mishaps d p m force).2 := by
  unfold saveWith
  dsimp only
  rw [hrevision, hencode]
  split
  · exact ⟨rfl, .error _⟩
  split
  · exact ⟨rfl, .error _⟩
  split
  · exact ⟨rfl, .error _⟩
  split
  · exact ⟨rfl, .error _⟩
  · exact ⟨rfl, .ok hnext⟩

theorem Rel.next {T : Moment → Moment → Prop} {V : Value → Value → Prop}
    (h : Lockfile.Rel T V l m) : Lockfile.Rel T V l.next m.next :=
  { h with revision := congrArg (· + 1) h.revision }

/-- **The document of a lockfile is canonical**: lockfiles with equal entries in any order, and
    times given at any offsets, have equal documents with the same order of all keys, or cannot be
    written for the same reason.  If their scalars are the same and the same places of the
    documents hold one object, a save leaves the same bytes on the disk and ends alike, whatever
    goes wrong meanwhile. -/
theorem save_canonical (hsources : l.sources.names.Nodup) (hfiles : l.files.names.Nodup)
    (hdependencies : l.dependencies.names.Nodup) :
    (Lockfile.Rel OneInstant SameInOrder l m →
      EndAlike (SameKeys SameInOrder) l.toDocument m.toDocument) ∧
    (Lockfile.Rel OneInstant Alike l m →
      EndAlike (SameKeys Alike) l.toDocument m.toDocument ∧
      (SharesAlike l m → ∀ mishaps d p force,
        (saveWith mishaps d p l force).1 = (saveWith mishaps d p m force).1 ∧
          EndAlike (Lockfile.Rel OneInstant Alike) (saveWith mishaps d p l force).2
            (saveWith mishaps d p m force).2)) := by
  refine ⟨endAlike_toDocument carriesOver_sameInOrder hsources hfiles hdependencies,
    fun h => ⟨endAlike_toDocument carriesOver_alike hsources hfiles hdependencies h, ?_⟩⟩
  intro hshare mishaps d p force
  -- What is written has the next revision, but the same entries and the same objects.
  have hnext : EndAlike (SameKeys Alike) l.next.toDocument m.next.toDocument :=
    endAlike_toDocument carriesOver_alike hsources hfiles hdependencies h.next
  exact saveWith_congr h.revision (encode_congr hnext hshare.next) h.next mishaps d p force

end saving

/-- Equal lists under two keys: one object if they have a label. -/
def twice (label : Label) : Entries :=
  [(.text "p", .list [.int 1] label), (.text "q", .list [.int 1] label)]

/-- A source with equal lists, dependencies and a rate. -/
def withLists (label : Label) (rate : Number.Binary64) : Lockfile :=
  { blank with
    sources := [("api", ⟨"a.b/c", "main", "x", blank.generatedAt, [], twice label⟩)]
    dependencies := [("api", []), ("web", ["api"])]
    statistics := { blank.statistics with cacheHitRate := rate } }

/-- Noon in universal time, on a clock an hour to the east of it. -/
def noonInEast : Moment := ⟨⟨2024, 6, 1⟩, 13, 0, 0, 0, some 3600000000⟩

/-- The same, fetched and written down in the east, with the dependencies in the other order. -/
def withListsInEast (label : Label) (rate : Number.Binary64) : Lockfile :=
  { blank with
    generatedAt := noonInEast
    sources := [("api", ⟨"a.b/c", "main", "x", noonInEast, [], twice label⟩)]
    dependencies := [("web", ["api"]), ("api", [])]
    statistics := { blank.statistics with cacheHitRate := rate } }

theorem save_canonical_in_east :
    Lockfile.Rel OneInstant Alike (withListsInEast (some 7) .zero) (withLists (some 0) .zero) ∧
      (save ⟨[], []⟩ lockPath (withListsInEast (some 7) .zero) false).1 =
        (save ⟨[], []⟩ lockPath (withLists (some 0) .zero) false).1 := by
  have hnoon : OneInstant noonInEast blank.generatedAt := by decide
  have hsources : Ledger.Rel (SourceRecord.Rel OneInstant Alike)
      (withListsInEast (some 7) .zero).sources (withLists (some 0) .zero).sources :=
    Ledger.rel_of_forall₂_sorted (by decide) (.cons ⟨rfl, rfl, rfl, rfl, hnoon, rfl, rfl⟩ .nil)
  have hdependencies : Ledger.Rel (· = ·) (withListsInEast (some 7) .zero).dependencies
      (withLists (some 0) .zero).dependencies :=
    Ledger.rel_of_forall₂_sorted (by decide) (.cons ⟨rfl, rfl⟩ (.cons ⟨rfl, rfl⟩ .nil))
  have hrel : Lockfile.Rel OneInstant Alike
      (withListsInEast (some 7) .zero) (withLists (some 0) .zero) :=
    ⟨rfl, hnoon, rfl, rfl, hsources, ⟨.nil, fun _ => .none⟩, hdependencies,
      ⟨rfl, rfl, rfl, rfl, rfl, rfl⟩⟩
  have hshare : SharesAlike (withListsInEast (some 7) .zero) (withLists (some 0) .zero) := by
    decide
  exact ⟨hrel, (((save_canonical (by decide) (by decide) (by decide)).2 hrel).2 hshare _ _ _ _).1⟩

/-- What a first save leaves at the lockfile's path. -/
def firstSaved (l : Lockfile) : Option Bytes :=
  contentAt (save ⟨[], []⟩ lockPath l false).1 lockPath

/-- Does a document refer to one of its objects? -/
def isShared (content : Bytes) : Bool := content.contains '&'.toUInt8

/-- Is the last number of a document negative zero? -/
def isNegative (content : Bytes) : Bool :=
  (Text.encodeUtf8 ['-', '0', '.', '0', '\n']).isSuffixOf content

/-- **Equal lockfiles are not always saved as the same bytes**: not if an object is reached twice in
    one and two equal objects are in the other, and not if a rate is zero in one and negative zero
    in the other. -/
theorem save_misses_canonical :
    Lockfile.Rel OneInstant SameInOrder (withLists (some 0) .zero) (withLists none .zero) ∧
    Lockfile.Rel OneInstant SameInOrder (withLists none (.finite true 0 0))
      (withLists none .zero) ∧
    firstSaved (withLists (some 0) .zero) ≠ firstSaved (withLists none .zero) ∧
    firstSaved (withLists none (.finite true 0 0)) ≠ firstSaved (withLists none .zero) := by
  have hrel : ∀ {label rate}, SameInOrder (.real rate) (.real .zero) →
      Lockfile.Rel OneInstant SameInOrder (withLists label rate) (withLists none .zero) := by
    intro label rate hrate
    have hsources : Ledger.Rel (SourceRecord.Rel OneInstant SameInOrder)
        (withLists label rate).sources (withLists none .zero).sources := by
      refine Ledger.rel_of_forall₂_sorted (List.nodup_singleton "api") ?_
      exact .cons ⟨rfl, rfl, rfl, rfl, rfl, rfl, rfl⟩ .nil
    have hdependencies : Ledger.Rel (· = ·) (withLists label rate).dependencies
        (withLists none .zero).dependencies := by
      refine Ledger.rel_of_forall₂_sorted (show ["api", "web"].Nodup by decide) ?_
      exact .cons ⟨rfl, rfl⟩ (.cons ⟨rfl, rfl⟩ .nil)
    exact ⟨rfl, rfl, rfl, rfl, hsources, ⟨.nil, fun _ => .none⟩, hdependencies,
      ⟨rfl, rfl, rfl, rfl, rfl, hrate⟩⟩
  have hshared : (firstSaved (withLists (some 0) .zero)).any isShared := by decide +kernel
  have hnegative : (firstSaved (withLists none (.finite true 0 0))).any isNegative := by
    decide +kernel
  have hplain : (firstSaved (withLists none .zero)).any
      fun content => !isShared content && !isNegative content := by decide +kernel
  obtain ⟨content, hcontent, hneither⟩ := (Option.any_eq_true _ _).mp hplain
  simp only [Bool.and_eq_true, Bool.not_eq_true'] at hneither
  refine ⟨hrel rfl, hrel rfl, fun hsame => ?_, fun hsame => ?_⟩
  · rw [hsame, hcontent, Option.any_some, hneither.1] at hshared
    cases hshared
  · rw [hsame, hcontent, Option.any_some, hneither.2] at hnegative
    cases hnegative

end Lockfile

end Regen
