import Mathlib.Data.List.Forall2
import Mathlib.Data.List.Induction
import Mathlib.Data.List.Nodup
import Mathlib.Data.Option.Basic
import Regen.Ledger
import Regen.Proofs.Text.Order

/-! # Ledgers with distinct names

    A ledger that was built entry by entry has each name once, so that what is found under a name
    is exactly the entry of that name. -/

namespace Regen.Ledger

variable {α : Type} {l : Ledger α} {name other : String} {entry : α}

theorem mem_names : name ∈ l.names ↔ ∃ entry, (name, entry) ∈ l := by
  simp [names]

/-- In a ledger with distinct names every entry is found. -/
theorem find?_eq_some_iff (hdistinct : l.names.Nodup) :
    l.find? name = some entry ↔ (name, entry) ∈ l := by
  refine ⟨mem_of_find?, fun hmem => ?_⟩
  induction l with
  | nil => cases hmem
  | cons x rest ih =>
    obtain ⟨n, e⟩ := x
    rw [names, List.map_cons, List.nodup_cons] at hdistinct
    rw [find?_cons]
    rcases List.mem_cons.mp hmem with heq | hrest
    · obtain ⟨rfl, rfl⟩ := Prod.mk.inj heq
      simp
    · -- The name stands further on, so it is not the first one.
      have hne : n ≠ name := by
        rintro rfl
        exact hdistinct.1 (mem_names.mpr ⟨entry, hrest⟩)
      rw [if_neg (by simpa using hne)]
      exact ih hdistinct.2 hrest

theorem mem_names_insert : other ∈ (l.insert name entry).names ↔ other = name ∨ other ∈ l.names := by
  rw [names_insert]
  split
  · next hmem =>
    constructor
    · exact Or.inr
    · rintro (rfl | h)
      · exact hmem
      · exact h
  · rw [List.mem_append, List.mem_singleton, or_comm]

/-- Giving an entry keeps names distinct. -/
theorem nodup_names_insert (hdistinct : l.names.Nodup) : (l.insert name entry).names.Nodup := by
  rw [names_insert]
  split
  · exact hdistinct
  · next hmem =>
    rw [List.nodup_append_comm, List.singleton_append, List.nodup_cons]
    exact ⟨hmem, hdistinct⟩

/-- Collecting entries one by one keeps names distinct. -/
theorem nodup_names_ofEntries (entries : List (String × α)) : (ofEntries entries).names.Nodup := by
  have hfold : ∀ {l : Ledger α}, l.names.Nodup →
      (entries.foldl (fun l e => l.insert e.1 e.2) l).names.Nodup := by
    induction entries with
    | nil => exact id
    | cons e rest ih => exact fun hdistinct => ih (nodup_names_insert hdistinct)
  exact hfold List.nodup_nil

/-- The names of collected entries are theirs. -/
theorem mem_names_ofEntries {entries : List (String × α)} :
    name ∈ (ofEntries entries).names ↔ ∃ e ∈ entries, e.1 = name := by
  have hfold : ∀ {l : Ledger α},
      name ∈ (entries.foldl (fun l e => l.insert e.1 e.2) l).names ↔
        name ∈ l.names ∨ ∃ e ∈ entries, e.1 = name := by
    induction entries with
    | nil => simp
    | cons e rest ih =>
      intro l
      rw [List.foldl_cons, ih, mem_names_insert]
      simp only [List.mem_cons, exists_eq_or_imp]
      tauto
  rw [ofEntries, hfold]
  simp [names]

theorem mem_of_mem_insert {e : String × α} (h : e ∈ l.insert name entry) :
    e = (name, entry) ∨ e ∈ l := by
  induction l with
  | nil => exact .inl (List.mem_singleton.mp h)
  | cons x rest ih =>
    obtain ⟨n, y⟩ := x
    rw [insert_cons] at h
    split at h
    · next hn =>
      obtain rfl : n = name := eq_of_beq hn
      exact (List.mem_cons.mp h).imp_right (List.mem_cons_of_mem _)
    · rcases List.mem_cons.mp h with rfl | h
      · exact .inr List.mem_cons_self
      · exact (ih h).imp_right (List.mem_cons_of_mem _)

/-- Only what was collected is there. -/
theorem mem_of_mem_ofEntries {entries : List (String × α)} {e : String × α}
    (h : e ∈ ofEntries entries) : e ∈ entries := by
  have hfold : ∀ l : Ledger α, e ∈ entries.foldl (fun l e => l.insert e.1 e.2) l →
      e ∈ entries ∨ e ∈ l := by
    clear h
    induction entries with
    | nil => exact fun _ => .inr
    | cons x rest ih =>
      intro l h
      rcases ih _ h with h | h
      · exact .inl (List.mem_cons_of_mem _ h)
      · rcases mem_of_mem_insert h with rfl | h
        · exact .inl List.mem_cons_self
        · exact .inr h
  exact (hfold [] h).resolve_right List.not_mem_nil

/-- A new name comes at the end. -/
theorem insert_of_not_mem (hnew : name ∉ l.names) : l.insert name entry = l ++ [(name, entry)] := by
  induction l with
  | nil => rfl
  | cons x rest ih =>
    obtain ⟨n, e⟩ := x
    rw [names, List.map_cons, List.mem_cons, not_or] at hnew
    have hne : ¬(n == name) = true := by simpa using Ne.symm hnew.1
    rw [insert_cons, if_neg hne, ih hnew.2, List.cons_append]

/-- Entries with distinct names are collected as they are. -/
theorem ofEntries_of_nodup {entries : List (String × α)} (hdistinct : (entries.map (·.1)).Nodup) :
    ofEntries entries = entries := by
  have hfold : ∀ l : Ledger α, (l.names ++ entries.map (·.1)).Nodup →
      entries.foldl (fun l e => l.insert e.1 e.2) l = l ++ entries := by
    induction entries with
    | nil => simp
    | cons e rest ih =>
      intro l hall
      have he : e.1 ∉ l.names := by
        intro hmem
        rw [List.nodup_append] at hall
        exact hall.2.2 e.1 hmem e.1 (by simp) rfl
      rw [List.foldl_cons, insert_of_not_mem he, ih (List.nodup_cons.mp hdistinct).2]
      · simp
      · simpa [names] using hall
  exact hfold [] (by simpa [names] using hdistinct)

/-- Entries that were collected are found from the end. -/
theorem find?_ofEntries (entries : List (String × α)) (name : String) :
    (ofEntries entries).find? name =
      (List.find? (fun e => e.1 == name) entries.reverse).map (·.2) := by
  induction entries using List.reverseRecOn with
  | nil => rfl
  | append_singleton entries e ih =>
    have hlast : ofEntries (entries ++ [e]) = (ofEntries entries).insert e.1 e.2 := by
      simp [ofEntries]
    rw [hlast, List.reverse_append, List.reverse_singleton, List.singleton_append]
    by_cases hname : e.1 = name
    · subst hname
      simp
    · rw [find?_insert_of_ne _ _ hname, ih]
      simp [hname]

/-- What is found under a name is its last entry. -/
theorem find?_ofEntries_eq_some_iff {entries : List (String × α)} :
    (ofEntries entries).find? name = some entry ↔
      ∃ before after, entries = before ++ (name, entry) :: after ∧ ∀ e ∈ after, e.1 ≠ name := by
  rw [find?_ofEntries, Option.map_eq_some_iff]
  constructor
  · intro h
    obtain ⟨⟨n, e⟩, hfind, rfl⟩ := h
    obtain ⟨hname, behind, before, heq, hbehind⟩ := List.find?_eq_some_iff_append.mp hfind
    obtain rfl : n = name := by simpa using hname
    refine ⟨before.reverse, behind.reverse, ?_, ?_⟩
    · simpa using congrArg List.reverse heq
    · intro e he
      simpa using hbehind e (List.mem_reverse.mp he)
  · intro h
    obtain ⟨before, after, rfl, hafter⟩ := h
    refine ⟨(name, entry), List.find?_eq_some_iff_append.mpr ⟨by simp, after.reverse,
      before.reverse, by simp, ?_⟩, rfl⟩
    intro e he
    simpa using hafter e (List.mem_reverse.mp he)

/-! ## Parts -/

theorem find?_isSome_iff : (l.find? name).isSome ↔ name ∈ l.names := by
  simp [find?, names]

/-- Among the entries that are kept is the one of a name, if it is kept. -/
theorem find?_filter (hdistinct : l.names.Nodup) (p : α → Bool) (name : String) :
    find? (l.filter fun e => p e.2) name = (l.find? name).filter p := by
  have hkept : (names (l.filter fun e => p e.2)).Nodup :=
    hdistinct.sublist (List.filter_sublist.map _)
  apply Option.ext
  intro entry
  rw [find?_eq_some_iff hkept, List.mem_filter, Option.filter_eq_some_iff,
    find?_eq_some_iff hdistinct]

theorem find?_insertNew (l : Ledger α) (other : String) (entry : α) (name : String) :
    (l.insertNew other entry).find? name =
      (l.find? name).or (if other = name then some entry else none) := by
  unfold insertNew has
  by_cases hname : other = name
  · subst hname
    cases hfind : l.find? other <;> simp [hfind]
  · rw [if_neg hname, Option.or_none]
    split
    · rfl
    · exact find?_insert_of_ne _ _ hname

/-- Entries that are added where there is none do not replace any. -/
theorem find?_foldl_insertNew (entries l : Ledger α) (name : String) :
    find? (entries.foldl (fun l e => l.insertNew e.1 e.2) l) name =
      (l.find? name).or (entries.find? name) := by
  induction entries generalizing l with
  | nil => simp
  | cons e rest ih =>
    obtain ⟨n, x⟩ := e
    rw [List.foldl_cons, ih, find?_insertNew, find?_cons, Option.or_assoc]
    by_cases hname : n = name <;> simp [hname]

theorem nodup_names_foldl_insertNew {entries : Ledger α} (hdistinct : l.names.Nodup) :
    (names (entries.foldl (fun l e => l.insertNew e.1 e.2) l)).Nodup := by
  induction entries generalizing l with
  | nil => exact hdistinct
  | cons e rest ih =>
    rw [List.foldl_cons]
    apply ih
    unfold insertNew
    split
    · exact hdistinct
    · exact nodup_names_insert hdistinct

/-! ## Order -/

theorem perm_names_sorted (l : Ledger α) : l.sorted.names.Perm l.names := perm_sortBy.map _

theorem names_sorted (l : Ledger α) : l.sorted.names = Text.sorted l.names := map_sortBy _ _

/-- In order every name keeps its entry. -/
theorem find?_sorted (hdistinct : l.names.Nodup) (name : String) :
    l.sorted.find? name = l.find? name := by
  have hsorted : l.sorted.names.Nodup := (perm_names_sorted l).nodup_iff.mpr hdistinct
  apply Option.ext
  intro entry
  rw [find?_eq_some_iff hsorted, find?_eq_some_iff hdistinct]
  exact perm_sortBy.mem_iff

/-! ## Ledgers with the same entries -/

/-- Two ledgers with distinct names have the same entries, in whatever order they arrived. -/
structure SameEntries (l m : Ledger α) : Prop where
  distinct : l.names.Nodup
  perm : l.Perm m

theorem SameEntries.find?_eq {m : Ledger α} (h : l.SameEntries m) (name : String) :
    l.find? name = m.find? name := by
  have hm : m.names.Nodup := (h.perm.map _).nodup_iff.mp h.distinct
  apply Option.ext
  intro entry
  rw [find?_eq_some_iff h.distinct, find?_eq_some_iff hm]
  exact h.perm.mem_iff

/-! ## Ledgers of related entries -/

/-- Two ledgers have the same names, each with related entries. -/
structure Rel {β : Type} (R : α → β → Prop) (l : Ledger α) (m : Ledger β) : Prop where
  names : m.names.Perm l.names
  entries : ∀ name, Option.Rel R (l.find? name) (m.find? name)

variable {β : Type} {R : α → β → Prop} {m : Ledger β}

theorem Rel.exists_entry (h : Rel R l m) (hentry : l.find? name = some entry) :
    ∃ other, m.find? name = some other ∧ R entry other := by
  have hrel := h.entries name
  rw [hentry] at hrel
  match hm : m.find? name with
  | none =>
    rw [hm] at hrel
    cases hrel
  | some other =>
    rw [hm] at hrel
    cases hrel with
    | some hR => exact ⟨other, rfl, hR⟩

theorem Rel.find?_eq {m : Ledger α} (h : Rel (· = ·) l m) (name : String) :
    m.find? name = l.find? name := by
  have hrel := h.entries name
  cases hl : l.find? name with
  | none =>
    rw [hl] at hrel
    cases hm : m.find? name with
    | none => rfl
    | some other =>
      rw [hm] at hrel
      cases hrel
  | some entry =>
    obtain ⟨other, hother, rfl⟩ := h.exists_entry hl
    exact hother

theorem names_of_forall₂ (h : List.Forall₂ (fun e f => e.1 = f.1 ∧ R e.2 f.2) l m) :
    m.names = l.names := by
  induction h with
  | nil => rfl
  | cons hef _ ih =>
    rw [names, List.map_cons, ← hef.1]
    exact congrArg _ ih

theorem rel_find?_of_forall₂ (h : List.Forall₂ (fun e f => e.1 = f.1 ∧ R e.2 f.2) l m)
    (name : String) : Option.Rel R (l.find? name) (m.find? name) := by
  induction h with
  | nil => exact .none
  | @cons e f l m hef _ ih =>
    obtain ⟨n, x⟩ := e
    obtain ⟨_, y⟩ := f
    obtain ⟨rfl, hxy⟩ := hef
    rw [find?_cons, find?_cons]
    split
    · exact .some hxy
    · exact ih

/-- Entries related one by one to those of a ledger in order make a related ledger. -/
theorem rel_of_forall₂_sorted (hdistinct : l.names.Nodup)
    (h : List.Forall₂ (fun e f => e.1 = f.1 ∧ R e.2 f.2) l.sorted m) : Rel R l m where
  names := names_of_forall₂ h ▸ perm_names_sorted l
  entries name := find?_sorted hdistinct name ▸ rel_find?_of_forall₂ h name

theorem forall₂_of_names (hnames : l.names = m.names)
    (hentries : ∀ e ∈ l, ∀ f ∈ m, e.1 = f.1 → R e.2 f.2) :
    List.Forall₂ (fun e f => e.1 = f.1 ∧ R e.2 f.2) l m := by
  induction l generalizing m with
  | nil =>
    obtain rfl : m = [] := List.map_eq_nil_iff.mp hnames.symm
    exact .nil
  | cons e l ih =>
    obtain ⟨f, m, rfl, hf, hm⟩ := List.map_eq_cons_iff.mp hnames.symm
    refine .cons ⟨hf.symm, hentries e List.mem_cons_self f List.mem_cons_self hf.symm⟩ ?_
    exact ih hm.symm fun e he f hf =>
      hentries e (List.mem_cons_of_mem _ he) f (List.mem_cons_of_mem _ hf)

/-- In order the entries of related ledgers are related one by one. -/
theorem Rel.forall₂_sorted (hdistinct : l.names.Nodup) (h : Rel R l m) :
    List.Forall₂ (fun e f => e.1 = f.1 ∧ R e.2 f.2) l.sorted m.sorted := by
  have hm : m.names.Nodup := h.names.nodup_iff.mpr hdistinct
  refine forall₂_of_names ?_ fun e he f hf heq => ?_
  · rw [names_sorted, names_sorted, Text.sorted_congr h.names]
  · obtain ⟨x, hx, hR⟩ :=
      h.exists_entry ((find?_eq_some_iff hdistinct).mpr (perm_sortBy.mem_iff.mp he))
    have hf := (find?_eq_some_iff hm).mpr (perm_sortBy.mem_iff.mp hf)
    rw [← heq, hx] at hf
    exact Option.some.inj hf ▸ hR

end Regen.Ledger
