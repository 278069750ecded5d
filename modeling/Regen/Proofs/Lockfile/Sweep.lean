import Mathlib.Algebra.BigOperators.Group.List.Basic
import Regen.Proofs.Lockfile.Age
import Regen.Proofs.Lockfile.Healthy
import Regen.Proofs.Value.Faults

/-! # Sweeps and what is reported of them

    A report and a sweep each decide on their own which records are stale.  Both decide by the age
    of a record's time alone, so that all there is to say of them follows from one predicate on
    times: a report names the records for which it fails, a sweep keeps those for which it holds,
    and sweeps one after the other keep the records for which the predicates of all of them hold. -/

namespace Regen

open Number Time

/-! ## Ages that can be told -/

section ages
variable {t now : Moment} {maxAge : Int}

/-- Moments that both have an offset, or both have none, are some age apart. -/
theorem exists_ageHours (ht : t.IsValid) (hnow : now.IsValid)
    (h : t.offset.isSome = now.offset.isSome) : ∃ age, ageHours t now = .ok age := by
  have hsince : now.microsSince t = .ok (now.instant - t.instant) := by
    rw [Moment.microsSince, h, beq_self_eq_true, if_pos rfl]
  have hspan := hnow.span_lt ht
  exact ⟨_, ageHours_eq hsince (by omega)⟩

/-- A moment with an offset and one without are not. -/
theorem ageHours_of_mixed (h : t.offset.isSome ≠ now.offset.isSome) :
    ageHours t now = .error .mixedOffsets := by
  rw [ageHours, Moment.microsSince, if_neg (by simpa using h.symm)]
  rfl

/-- So for valid moments it is their offsets that make an age fail. -/
theorem failsOnly_ageHours (ht : t.IsValid) (hnow : now.IsValid) :
    FailsOnly (· = .mixedOffsets) (ageHours t now) := by
  intro f hf
  by_cases h : t.offset.isSome = now.offset.isSome
  · obtain ⟨age, hage⟩ := exists_ageHours ht hnow h
    rw [hage] at hf
    cases hf
  · rw [ageHours_of_mixed h] at hf
    exact (Except.error.inj hf).symm

theorem offset_eq_of_age {age : Int} (h : ageHours t now = .ok age) :
    t.offset.isSome = now.offset.isSome := by
  by_contra hmixed
  rw [ageHours_of_mixed hmixed] at h
  cases h

end ages

/-- **A filter whose every decision is known** keeps what it decides for. -/
theorem filterM_of_ok {ε α : Type} {p : α → Except ε Bool} {keep : α → Bool} {xs : List α}
    (h : ∀ x ∈ xs, p x = .ok (keep x)) : xs.filterM p = .ok (xs.filter keep) := by
  -- The filter collects what it keeps back to front.
  have haux : ∀ kept, List.filterAuxM p xs kept = .ok ((xs.filter keep).reverse ++ kept) := by
    induction xs with
    | nil => exact fun _ => rfl
    | cons x rest ih =>
      intro kept
      have hrest := ih fun y hy => h y (List.mem_cons_of_mem _ hy)
      rw [List.filterAuxM, h x List.mem_cons_self, List.filter_cons]
      refine (hrest _).trans ?_
      cases keep x with
      | true => simp
      | false => rfl
  rw [List.filterM, haux]
  exact congrArg Except.ok (by simp)

/-- A filter fails as one of its decisions does. -/
theorem FailsOnly.filterM {ε α : Type} {P : ε → Prop} {p : α → Except ε Bool} {xs : List α}
    (h : ∀ x ∈ xs, FailsOnly P (p x)) : FailsOnly P (xs.filterM p) := by
  have haux : ∀ kept, FailsOnly P (List.filterAuxM p xs kept) := by
    induction xs with
    | nil => exact fun _ => .ok _
    | cons x rest ih =>
      intro kept
      have hrest := ih fun y hy => h y (List.mem_cons_of_mem _ hy)
      exact (h x List.mem_cons_self).bind fun keep _ => hrest _
  exact (haux []).bind fun _ _ => .ok _

namespace Lockfile

/-! ## What is fresh -/

section fresh
variable {l : Lockfile} {maxAge : Int} {now t : Moment}

/-- Does a sweep keep a record of this time? -/
def isFresh (maxAge : Int) (now t : Moment) : Bool := isStale t maxAge now = .ok false

theorem isFresh_iff :
    isFresh maxAge now t = true ↔ ∃ age, ageHours t now = .ok age ∧ age ≤ maxAge := by
  rw [isFresh, decide_eq_true_iff, isStale]
  cases ageHours t now with
  | ok age => simp [Except.map]
  | error f => simp [Except.map]

/-- What is fresh is so at every greater age allowed. -/
theorem isFresh_mono {longer : Int} (h : isFresh maxAge now t = true) (hle : maxAge ≤ longer) :
    isFresh longer now t = true := by
  obtain ⟨age, hage, hfresh⟩ := isFresh_iff.mp h
  exact isFresh_iff.mpr ⟨age, hage, by omega⟩

theorem isStale_of_age {age : Int} (h : ageHours t now = .ok age) :
    isStale t maxAge now = .ok !isFresh maxAge now t := by
  unfold isFresh isStale
  rw [h]
  cases hstale : decide (maxAge < age) <;> simp [Except.map, hstale]

/-- **What is kept is fresh**, and of everything else it is known that it is stale. -/
theorem keepFresh_eq_ok {α : Type} {time : α → Moment} {es fs : Ledger α}
    (h : keepFresh time maxAge now es = .ok fs) :
    (∀ e ∈ es, ∃ stale, isStale (time e.2) maxAge now = .ok stale) ∧
      fs = es.filter fun e => isFresh maxAge now (time e.2) := by
  obtain ⟨hall, rfl⟩ := filterM_eq_ok h
  constructor
  · intro e he
    obtain ⟨keep, hkeep⟩ := hall e he
    cases hstale : isStale (time e.2) maxAge now with
    | ok stale => exact ⟨stale, rfl⟩
    | error f =>
      rw [hstale] at hkeep
      cases hkeep
  · apply List.filter_congr
    intro e _
    unfold isFresh
    cases isStale (time e.2) maxAge now with
    | ok stale => cases stale <;> rfl
    | error f => rfl

theorem ages_of_keepFresh {α : Type} {time : α → Moment} {es fs : Ledger α}
    (h : keepFresh time maxAge now es = .ok fs) :
    ∀ e ∈ es, ∃ age, ageHours (time e.2) now = .ok age := by
  intro e he
  obtain ⟨stale, hstale⟩ := (keepFresh_eq_ok h).1 e he
  cases hage : ageHours (time e.2) now with
  | ok age => exact ⟨age, rfl⟩
  | error f =>
    rw [isStale, hage] at hstale
    cases hstale

/-- A ledger whose ages can all be told is left with what is fresh. -/
theorem keepFresh_of_ages {α : Type} {time : α → Moment} {es : Ledger α}
    (h : ∀ e ∈ es, ∃ age, ageHours (time e.2) now = .ok age) :
    keepFresh time maxAge now es = .ok (es.filter fun e => isFresh maxAge now (time e.2)) := by
  apply filterM_of_ok
  intro e he
  obtain ⟨age, hage⟩ := h e he
  rw [isStale_of_age hage]
  exact congrArg Except.ok (Bool.not_not _)

/-! ## What a sweep leaves -/

/-- The times by which the records of sources and files age. -/
def recordTimes (l : Lockfile) : List Moment :=
  l.sources.map (·.2.fetchedAt) ++ l.files.map (·.2.modifiedAt)

theorem forall_mem_recordTimes {P : Moment → Prop} :
    (∀ t ∈ l.recordTimes, P t) ↔
      (∀ e ∈ l.sources, P e.2.fetchedAt) ∧ ∀ e ∈ l.files, P e.2.modifiedAt := by
  simp only [recordTimes, List.mem_append, List.mem_map, or_imp, forall_and, forall_exists_index,
    and_imp, forall_apply_eq_imp_iff₂]

/-- The lockfile with the records of those times only, each in its place. -/
def restrict (l : Lockfile) (p : Moment → Bool) : Lockfile :=
  { l with
    sources := l.sources.filter fun e => p e.2.fetchedAt
    files := l.files.filter fun e => p e.2.modifiedAt }

theorem restrict_restrict (l : Lockfile) (p q : Moment → Bool) :
    (l.restrict p).restrict q = l.restrict fun t => p t && q t := by
  simp only [restrict, List.filter_filter, Bool.and_comm]

theorem recordTimes_restrict (l : Lockfile) (p : Moment → Bool) :
    (l.restrict p).recordTimes = l.recordTimes.filter p := by
  rw [recordTimes, recordTimes, List.filter_append, List.filter_map, List.filter_map]
  rfl

theorem length_filter_lt {α : Type} (p : α → Bool) (xs : List α) :
    decide ((xs.filter p).length < xs.length) = !xs.all p := by
  rw [Bool.eq_iff_iff, decide_eq_true_iff, List.length_filter_lt_length_iff_exists]
  simp

/-- **A sweep leaves the fresh records** and says whether any was stale. -/
theorem sweep_of_ages (h : ∀ t ∈ l.recordTimes, ∃ age, ageHours t now = .ok age) :
    l.sweep maxAge now = .ok (l.restrict (isFresh maxAge now),
      !l.recordTimes.all (isFresh maxAge now)) := by
  obtain ⟨hsources, hfiles⟩ := forall_mem_recordTimes.mp h
  unfold sweep
  rw [keepFresh_of_ages hsources, keepFresh_of_ages hfiles]
  refine congrArg Except.ok (Prod.ext rfl ?_)
  simp only [length_filter_lt, recordTimes, List.all_append, List.all_map, Bool.not_and]
  rfl

/-- Of a lockfile of which some records are gone a sweep leaves the fresh ones among the others. -/
theorem sweep_restrict (h : ∀ t ∈ l.recordTimes, ∃ age, ageHours t now = .ok age)
    (p : Moment → Bool) :
    (l.restrict p).sweep maxAge now = .ok (l.restrict fun t => p t && isFresh maxAge now t,
      !(l.recordTimes.filter p).all (isFresh maxAge now)) := by
  rw [sweep_of_ages, restrict_restrict, recordTimes_restrict]
  intro t ht
  rw [recordTimes_restrict] at ht
  exact h t (List.mem_filter.mp ht).1

end fresh

/-! ## What is reported -/

/-- **A lockfile is comparable with a time** if its records have an offset exactly if the time
    has one. -/
def ComparableWith (l : Lockfile) (now : Moment) : Prop :=
  ∀ t ∈ l.recordTimes, t.offset.isSome = now.offset.isSome

instance (l : Lockfile) (now : Moment) : Decidable (l.ComparableWith now) :=
  inferInstanceAs (Decidable (∀ t ∈ l.recordTimes, t.offset.isSome = now.offset.isSome))

/-- The recorded size of all files. -/
def recordedSize (l : Lockfile) : Int := (l.files.map (·.2.size)).sum

/-- What is reported of the record of a source. -/
def sourceItem (name : String) (r : SourceRecord) (age : Int) : StaleSource :=
  ⟨name, r.url, r.ref, r.fetchedAt, age⟩

/-- What is reported of the record of a file. -/
def fileItem (path : String) (r : FileRecord) (age : Int) : StaleFile :=
  ⟨path, r.size, r.modifiedAt, age⟩

/-- **A report of a lockfile** says of every record that is older than the greatest age allowed,
    and of no other, what is recorded and how old it is: each once, by name in ascending order. -/
structure Reports (l : Lockfile) (maxAge : Int) (now : Moment) (report : SweepReport) : Prop where
  limit : report.maxAge = maxAge
  sources : ∀ s, s ∈ report.sources ↔ ∃ name r age, (name, r) ∈ l.sources ∧
    ageHours r.fetchedAt now = .ok age ∧ maxAge < age ∧ s = sourceItem name r age
  files : ∀ f, f ∈ report.files ↔ ∃ path r age, (path, r) ∈ l.files ∧
    ageHours r.modifiedAt now = .ok age ∧ maxAge < age ∧ f = fileItem path r age
  names : (report.sources.map (·.name)).Pairwise (Text.codes · < Text.codes ·)
  paths : (report.files.map (·.path)).Pairwise (Text.codes · < Text.codes ·)

section collect
variable {l : Lockfile} {maxAge : Int} {now : Moment}

/-- The entries of a ledger in order of which the time is stale. -/
def stale {α : Type} (time : α → Moment) (maxAge : Int) (now : Moment) (es : Ledger α) : Ledger α :=
  es.sorted.filter fun e => !isFresh maxAge now (time e.2)

section stale
variable {α β : Type} {time : α → Moment} {es : Ledger α} {hours : Moment → Int}

/-- One pass over a ledger reports its stale entries in order. -/
theorem mapM_report (report? : String × α → Except Fault (Option β))
    (item : String → α → Int → β)
    (hreport : ∀ e, report? e = ageHours (time e.2) now >>= fun age =>
      pure (if maxAge < age then some (item e.1 e.2 age) else none))
    (h : ∀ e ∈ es, ageHours (time e.2) now = .ok (hours (time e.2))) :
    ∃ items, es.sorted.mapM report? = .ok items ∧
      items.filterMap id =
        (stale time maxAge now es).map fun e => item e.1 e.2 (hours (time e.2)) := by
  have h : ∀ e ∈ es.sorted, ageHours (time e.2) now = .ok (hours (time e.2)) :=
    fun e he => h e (mem_sortBy.mp he)
  unfold stale
  generalize es.sorted = entries at h
  induction entries with
  | nil => exact ⟨[], rfl, rfl⟩
  | cons e rest ih =>
    obtain ⟨items, hitems, hlist⟩ := ih fun f hf => h f (List.mem_cons_of_mem _ hf)
    have hage := h e List.mem_cons_self
    have hfresh : isFresh maxAge now (time e.2) = decide (hours (time e.2) ≤ maxAge) := by
      rw [Bool.eq_iff_iff, isFresh_iff, decide_eq_true_iff, hage]
      simp
    refine ⟨_, by rw [List.mapM_cons, hreport, hage, hitems]; rfl, ?_⟩
    by_cases hle : hours (time e.2) ≤ maxAge
    · rw [if_neg (by omega), List.filterMap_cons_none rfl, hlist,
        List.filter_cons_of_neg (by simp [hfresh, hle])]
    · rw [if_pos (by omega), List.filterMap_cons, hlist,
        List.filter_cons_of_pos (by simp [hfresh, hle])]
      rfl

/-- What is reported is what the stale entries say. -/
theorem mem_reported (item : String → α → Int → β)
    (h : ∀ e ∈ es, ageHours (time e.2) now = .ok (hours (time e.2))) {x : β} :
    x ∈ ((stale time maxAge now es).map fun e => item e.1 e.2 (hours (time e.2))) ↔
      ∃ name r age, (name, r) ∈ es ∧ ageHours (time r) now = .ok age ∧ maxAge < age ∧
        x = item name r age := by
  have hstale : ∀ e, e ∈ stale time maxAge now es ↔ e ∈ es ∧ maxAge < hours (time e.2) := by
    intro e
    rw [stale, List.mem_filter, Ledger.sorted, mem_sortBy, Bool.not_eq_true']
    refine and_congr_right fun he => ?_
    rw [Bool.eq_false_iff, Ne, isFresh_iff, h e he]
    simp
  rw [List.mem_map]
  constructor
  · rintro ⟨e, he, rfl⟩
    obtain ⟨he, hlt⟩ := (hstale e).mp he
    exact ⟨e.1, e.2, _, he, h e he, hlt, rfl⟩
  · rintro ⟨name, r, age, he, hage, hlt, rfl⟩
    obtain rfl : hours (time r) = age := Except.ok.inj ((h _ he).symm.trans hage)
    exact ⟨(name, r), (hstale _).mpr ⟨he, hlt⟩, rfl⟩

theorem names_stale_ascend (hdistinct : es.names.Nodup) :
    ((stale time maxAge now es).map (·.1)).Pairwise (Text.codes · < Text.codes ·) := by
  have hsorted : es.sorted.names.Pairwise (Text.codes · < Text.codes ·) :=
    Ledger.names_sorted es ▸ Text.pairwise_sorted_of_nodup hdistinct
  exact hsorted.sublist (List.filter_sublist.map _)

/-- What is left of a ledger are the entries whose names are not those of stale ones. -/
theorem filter_isFresh_eq (hdistinct : es.names.Nodup) :
    es.filter (fun e => isFresh maxAge now (time e.2)) =
      es.filter fun e => e.1 ∉ (stale time maxAge now es).map (·.1) := by
  apply List.filter_congr
  intro e he
  rw [Bool.eq_iff_iff, decide_eq_true_iff]
  constructor
  · intro hfresh hmem
    obtain ⟨f, hf, hname⟩ := List.mem_map.mp hmem
    obtain ⟨hf, hstale⟩ := List.mem_filter.mp hf
    -- A stale entry of that name is this one.
    have hfind := (Ledger.find?_eq_some_iff hdistinct).mpr (mem_sortBy.mp hf)
    rw [hname, (Ledger.find?_eq_some_iff hdistinct).mpr he] at hfind
    rw [← Option.some.inj hfind, hfresh] at hstale
    cases hstale
  · intro hmem
    by_contra hstale
    refine hmem (List.mem_map_of_mem (List.mem_filter.mpr ⟨mem_sortBy.mpr he, ?_⟩))
    rw [Bool.eq_false_iff.mpr hstale]
    rfl

/-- Together the fresh and the stale entries are all. -/
theorem perm_fresh_stale (time : α → Moment) (es : Ledger α) :
    ((es.filter fun e => isFresh maxAge now (time e.2)) ++ stale time maxAge now es).Perm es :=
  ((perm_sortBy.filter _).append_left _).trans (List.filter_append_perm _ _)

end stale

/-- The report of a lockfile whose records have these ages. -/
def reportOf (l : Lockfile) (maxAge : Int) (now : Moment) (hours : Moment → Int) : SweepReport :=
  ⟨maxAge,
    (stale SourceRecord.fetchedAt maxAge now l.sources).map fun e =>
      sourceItem e.1 e.2 (hours e.2.fetchedAt),
    (stale FileRecord.modifiedAt maxAge now l.files).map fun e =>
      fileItem e.1 e.2 (hours e.2.modifiedAt)⟩

section report
variable {hours : Moment → Int} (h : ∀ t ∈ l.recordTimes, ageHours t now = .ok (hours t))
include h

theorem collectStale_of_ages : l.collectStale maxAge now = .ok (l.reportOf maxAge now hours) := by
  obtain ⟨hsources, hfiles⟩ := forall_mem_recordTimes.mp h
  obtain ⟨sources, hs, hsources⟩ := mapM_report (staleSource? maxAge now)
    sourceItem (fun _ => rfl) hsources
  obtain ⟨files, hf, hfiles⟩ := mapM_report (staleFile? maxAge now)
    fileItem (fun _ => rfl) hfiles
  rw [collectStale, hs, hf, reportOf, ← hsources, ← hfiles]
  rfl

theorem reports_reportOf (hsources : l.sources.names.Nodup) (hfiles : l.files.names.Nodup) :
    l.Reports maxAge now (l.reportOf maxAge now hours) := by
  obtain ⟨hs, hf⟩ := forall_mem_recordTimes.mp h
  refine ⟨rfl, fun s => ?_, fun f => ?_, ?_, ?_⟩
  · exact mem_reported sourceItem hs
  · exact mem_reported fileItem hf
  · rw [reportOf, List.map_map]
    exact names_stale_ascend hsources
  · rw [reportOf, List.map_map]
    exact names_stale_ascend hfiles

end report

/-- What a sweep leaves are the records that are not reported. -/
theorem restrict_isFresh_eq (hsources : l.sources.names.Nodup) (hfiles : l.files.names.Nodup)
    (hours : Moment → Int) :
    l.restrict (isFresh maxAge now) = { l with
      sources := l.sources.filter fun e =>
        e.1 ∉ (l.reportOf maxAge now hours).sources.map (·.name)
      files := l.files.filter fun e =>
        e.1 ∉ (l.reportOf maxAge now hours).files.map (·.path) } := by
  rw [restrict, filter_isFresh_eq hsources, filter_isFresh_eq hfiles, reportOf, List.map_map,
    List.map_map]
  rfl

/-- A report is empty if all records are fresh. -/
theorem isEmpty_reportOf (l : Lockfile) (maxAge : Int) (now : Moment) (hours : Moment → Int) :
    (l.reportOf maxAge now hours).isEmpty = l.recordTimes.all (isFresh maxAge now) := by
  have hempty : ∀ {α : Type} (time : α → Moment) (es : Ledger α),
      (stale time maxAge now es).isEmpty = es.all fun e => isFresh maxAge now (time e.2) := by
    intro α time es
    rw [Bool.eq_iff_iff, List.isEmpty_iff, stale, List.filter_eq_nil_iff, List.all_eq_true]
    simp [Ledger.sorted]
  rw [SweepReport.isEmpty, reportOf, List.isEmpty_map, List.isEmpty_map, hempty, hempty,
    recordTimes, List.all_append, List.all_map, List.all_map]
  rfl

theorem totalSize_reportOf (l : Lockfile) (maxAge : Int) (now : Moment) (hours : Moment → Int) :
    (l.reportOf maxAge now hours).totalSize =
      l.recordedSize - (l.restrict (isFresh maxAge now)).recordedSize := by
  have hparts := (@perm_fresh_stale maxAge now _ FileRecord.modifiedAt l.files).map (·.2.size)
  rw [recordedSize, ← hparts.sum_eq, List.map_append, List.sum_append, recordedSize, restrict,
    add_sub_cancel_left, SweepReport.totalSize, reportOf, List.map_map, List.sum_eq_foldr]
  rfl

end collect

/-! ## Reports and sweeps agree -/

section agree
variable {l : Lockfile} {now : Moment}

/-- Valid times that are comparable are some age apart. -/
theorem ComparableWith.ages (hvalid : ∀ t ∈ l.recordTimes, t.IsValid) (hnow : now.IsValid)
    (h : l.ComparableWith now) : ∀ t ∈ l.recordTimes, ∃ age, ageHours t now = .ok age :=
  fun t ht => exists_ageHours (hvalid t ht) hnow (h t ht)

/-- Where nothing but offsets can go wrong, reports and sweeps fail for these at a time with which
    the lockfile is not comparable. -/
theorem error_of_not_comparable (maxAge : Int) (hvalid : ∀ t ∈ l.recordTimes, t.IsValid)
    (hnow : now.IsValid) (h : ¬l.ComparableWith now) :
    l.collectStale maxAge now = .error .mixedOffsets ∧
      l.sweep maxAge now = .error .mixedOffsets := by
  have honly : ∀ {α : Type} {x : Except Fault α}, FailsOnly (· = .mixedOffsets) x →
      (∀ a, x = .ok a → l.ComparableWith now) → x = .error .mixedOffsets := by
    intro α x hfails hok
    cases hx : x with
    | ok a => exact absurd (hok a hx) h
    | error f => rw [hfails f hx]
  obtain ⟨hsources, hfiles⟩ := forall_mem_recordTimes.mp hvalid
  have hcomparable : (∀ e ∈ l.sources, ∃ age, ageHours e.2.fetchedAt now = .ok age) →
      (∀ e ∈ l.files, ∃ age, ageHours e.2.modifiedAt now = .ok age) → l.ComparableWith now :=
    fun hs hf => forall_mem_recordTimes.mpr
      ⟨fun e he => have ⟨_, hage⟩ := hs e he; offset_eq_of_age hage,
        fun e he => have ⟨_, hage⟩ := hf e he; offset_eq_of_age hage⟩
  constructor
  · refine honly ?_ fun report hreport => ?_
    · have hs : FailsOnly (· = .mixedOffsets) (l.sources.sorted.mapM (staleSource? maxAge now)) :=
        .mapM fun e he => (failsOnly_ageHours (hsources e (mem_sortBy.mp he)) hnow).bind
          fun _ _ => .ok _
      have hf : FailsOnly (· = .mixedOffsets) (l.files.sorted.mapM (staleFile? maxAge now)) :=
        .mapM fun e he => (failsOnly_ageHours (hfiles e (mem_sortBy.mp he)) hnow).bind
          fun _ _ => .ok _
      exact hs.bind fun _ _ => hf.bind fun _ _ => .ok _
    · obtain ⟨sources, hs, hreport⟩ := bind_eq_ok.mp hreport
      obtain ⟨files, hf, -⟩ := bind_eq_ok.mp hreport
      refine hcomparable (fun e he => ?_) (fun e he => ?_)
      · obtain ⟨_, hitem⟩ := ok_of_mapM hs (mem_sortBy.mpr he)
        obtain ⟨age, hage, -⟩ := bind_eq_ok.mp hitem
        exact ⟨age, hage⟩
      · obtain ⟨_, hitem⟩ := ok_of_mapM hf (mem_sortBy.mpr he)
        obtain ⟨age, hage, -⟩ := bind_eq_ok.mp hitem
        exact ⟨age, hage⟩
  · have hfails : ∀ {α : Type} {time : α → Moment} {es : Ledger α},
        (∀ e ∈ es, (time e.2).IsValid) →
        FailsOnly (· = .mixedOffsets) (keepFresh time maxAge now es) :=
      fun h => .filterM fun e he => (failsOnly_ageHours (h e he) hnow).map.map
    refine honly ?_ fun swept hswept => ?_
    · exact (hfails hsources).bind fun _ _ => (hfails hfiles).bind fun _ _ => .ok _
    · obtain ⟨sources, hs, hswept⟩ := bind_eq_ok.mp hswept
      obtain ⟨files, hf, -⟩ := bind_eq_ok.mp hswept
      exact hcomparable (ages_of_keepFresh hs) (ages_of_keepFresh hf)

/-- **A sweep removes what is reported.**  At a time with which a lockfile is comparable, a report
    names its stale records, each once and in order of their names; a sweep removes these and
    leaves all other records as they are and where they are, it says that there were any if the
    report is not empty, and the size of the files becomes smaller by that in the report.  Sweeping
    again at this time, with the same or a greater age allowed, removes nothing.  Sweeps with any
    two ages and times, in either order, leave the records that are fresh at both.  At any other
    time neither can be done. -/
theorem sweep_as_reported (hsources : l.sources.names.Nodup) (hfiles : l.files.names.Nodup)
    (hvalid : ∀ t ∈ l.recordTimes, t.IsValid) (hnow : now.IsValid) (maxAge : Int) :
    (l.ComparableWith now → ∃ report swept,
      l.collectStale maxAge now = .ok report ∧ l.Reports maxAge now report ∧
      l.sweep maxAge now = .ok (swept, !report.isEmpty) ∧
      swept = { l with
        sources := l.sources.filter fun e => e.1 ∉ report.sources.map (·.name)
        files := l.files.filter fun e => e.1 ∉ report.files.map (·.path) } ∧
      report.totalSize = l.recordedSize - swept.recordedSize ∧
      (∀ longer, maxAge ≤ longer → swept.sweep longer now = .ok (swept, false)) ∧
      ∀ other later, later.IsValid → l.ComparableWith later → ∃ once both,
        (l.sweep other later).map Prod.fst = .ok once ∧
        (swept.sweep other later).map Prod.fst = .ok both ∧
        (once.sweep maxAge now).map Prod.fst = .ok both ∧
        both = l.restrict fun t => isFresh maxAge now t && isFresh other later t) ∧
    (¬l.ComparableWith now → l.collectStale maxAge now = .error .mixedOffsets ∧
      l.sweep maxAge now = .error .mixedOffsets) := by
  refine ⟨fun hcomparable => ?_, error_of_not_comparable maxAge hvalid hnow⟩
  have hages := hcomparable.ages hvalid hnow
  obtain ⟨hours, hhours⟩ : ∃ hours : Moment → Int,
      ∀ t ∈ l.recordTimes, ageHours t now = .ok (hours t) := by
    choose! hours hhours using hages
    exact ⟨hours, hhours⟩
  refine ⟨l.reportOf maxAge now hours, l.restrict (isFresh maxAge now), collectStale_of_ages hhours,
    reports_reportOf hhours hsources hfiles, ?_, restrict_isFresh_eq hsources hfiles hours,
    totalSize_reportOf l maxAge now hours, ?_, ?_⟩
  · rw [isEmpty_reportOf]
    exact sweep_of_ages hages
  · -- What is fresh stays so at the same time.
    intro longer hle
    have hfresh : ∀ t, isFresh maxAge now t = true → isFresh longer now t = true :=
      fun t h => isFresh_mono h hle
    have hsame : (fun t => isFresh maxAge now t && isFresh longer now t) = isFresh maxAge now :=
      funext fun t => Bool.and_eq_left_iff_imp.mpr (hfresh t)
    have hall : (l.recordTimes.filter (isFresh maxAge now)).all (isFresh longer now) = true :=
      List.all_eq_true.mpr fun t ht => hfresh t (List.mem_filter.mp ht).2
    rw [sweep_restrict hages, hsame, hall]
    rfl
  · intro other later hlater hother
    have hothers := hother.ages hvalid hlater
    refine ⟨l.restrict (isFresh other later), _, ?_, ?_, ?_, rfl⟩
    · rw [sweep_of_ages hothers]
      rfl
    · rw [sweep_restrict hothers]
      rfl
    · rw [sweep_restrict hages]
      simp only [Except.map, Bool.and_comm]

/-! ### A source and a file that are too old -/

/-- Noon on a day of May. -/
def noonInMay (day : Nat) : Moment := ⟨⟨2024, 5, day⟩, 12, 0, 0, 0, some 0⟩

/-- Two sources, of which the first is old, and an old file of seven bytes. -/
def partlyOld : Lockfile :=
  { Lockfile.empty (noonInMay 31) "1" with
    sources := [("web", ⟨"https://a.b/c", "main", "x", noonInMay 1, [], []⟩),
      ("api", ⟨"https://a.b/d", "main", "y", noonInMay 30, [], []⟩)]
    files := [("out/web", ⟨"z", 7, noonInMay 1, "web", .null, .null⟩)] }

/-- The old records are reported and removed. -/
theorem sweep_as_reported_of_old :
    partlyOld.sources.names.Nodup ∧ partlyOld.files.names.Nodup ∧
      (∀ t ∈ partlyOld.recordTimes, t.IsValid) ∧ (noonInMay 31).IsValid ∧
      partlyOld.ComparableWith (noonInMay 31) ∧
      ∃ report swept, partlyOld.collectStale 168 (noonInMay 31) = .ok report ∧
        partlyOld.sweep 168 (noonInMay 31) = .ok (swept, true) ∧
        swept.sources.names = ["api"] ∧ swept.recordedSize = 0 := by
  have htimes : ∀ t ∈ partlyOld.recordTimes, t.IsValid := by decide
  have hsources : partlyOld.sources.names.Nodup := by decide
  have hfiles : partlyOld.files.names.Nodup := by decide
  have hnow : (noonInMay 31).IsValid := by decide
  have hcomparable : partlyOld.ComparableWith (noonInMay 31) := by decide
  obtain ⟨hagree, -⟩ := sweep_as_reported hsources hfiles htimes hnow 168
  obtain ⟨report, swept, hreport, -, hsweep, hswept, hsize, -⟩ := hagree hcomparable
  -- The report is computed, and with it what the sweep leaves.
  have hnames : (partlyOld.collectStale 168 (noonInMay 31)).toOption.map
      (fun r => (r.sources.map (·.name), r.totalSize, r.isEmpty)) =
      some (["web"], 7, false) := by decide
  rw [hreport] at hnames
  obtain ⟨hnames, htotal, hempty⟩ :
      report.sources.map (·.name) = ["web"] ∧ report.totalSize = 7 ∧ report.isEmpty = false := by
    simpa [Except.toOption] using hnames
  refine ⟨hsources, hfiles, htimes, hnow, hcomparable, report, swept, hreport, ?_, ?_, ?_⟩
  · rw [hsweep, hempty]
    rfl
  · rw [hswept, hnames]
    rfl
  · have hbefore : partlyOld.recordedSize = 7 := by decide
    omega

end agree

end Lockfile

end Regen
