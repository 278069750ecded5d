import Mathlib.Data.List.Forall2
import Mathlib.Data.List.Pairwise
import Regen.Proofs.Value.Alike
import Regen.Yaml.Writer

/-! # Documents that share alike

    The writer sees of a label only at which other places the same one stands: there it names what
    it has written before.  Two alike documents are therefore written as one text if the same
    places of them hold one object.  The walk that counts the meetings and the writing itself
    go through both documents side by side; what they know of the labels is related by the
    places that were passed so far. -/

namespace Regen

namespace Value

/-! ## Going through alike values side by side -/

/-- What two alike values have in common if their parts have it: one case for each shape. -/
structure AlikeCases (P : Value → Value → Prop) : Prop where
  scalar : ∀ v w, v.alikeScalar w = true → P v w
  list : ∀ xs ys l m, List.Forall₂ (fun x y => Alike x y ∧ P x y) xs ys →
    P (.list xs l) (.list ys m)
  tuple : ∀ xs ys, List.Forall₂ (fun x y => Alike x y ∧ P x y) xs ys → P (.tuple xs) (.tuple ys)
  set : ∀ xs ys l m, List.Forall₂ (fun x y => Alike x y ∧ P x y) xs ys →
    P (.set xs l) (.set ys m)
  map : ∀ es fs l m, List.Forall₂
    (fun e f => (Alike e.1 f.1 ∧ P e.1 f.1) ∧ Alike e.2 f.2 ∧ P e.2 f.2) es fs →
    P (.map es l) (.map fs m)

variable {P : Value → Value → Prop}

mutual

/-- **Induction over two alike values.** -/
theorem AlikeCases.of_alike (hP : AlikeCases P) (v w : Value) (h : Alike v w) : P v w := by
  match v, h with
  | .list xs l, h =>
    cases w with
    | list ys m => exact hP.list xs ys l m (hP.of_alikeLists xs ys h)
    | _ => cases h
  | .tuple xs, h =>
    cases w with
    | tuple ys => exact hP.tuple xs ys (hP.of_alikeLists xs ys h)
    | _ => cases h
  | .set xs l, h =>
    cases w with
    | set ys m => exact hP.set xs ys l m (hP.of_alikeLists xs ys h)
    | _ => cases h
  | .map es l, h =>
    cases w with
    | map fs m => exact hP.map es fs l m (hP.of_alikeEntries es fs h)
    | _ => cases h
  | .null, h | .bool _, h | .int _, h | .real _, h | .text _, h | .bytes _, h | .date _ _, h
  | .time _ _, h => exact hP.scalar _ w (by cases w <;> exact h)

theorem AlikeCases.of_alikeLists (hP : AlikeCases P) (xs ys : List Value)
    (h : alikeLists xs ys = true) : List.Forall₂ (fun x y => Alike x y ∧ P x y) xs ys := by
  match xs, ys, h with
  | [], [], _ => exact .nil
  | x :: xs, y :: ys, h =>
    rw [alikeLists, Bool.and_eq_true] at h
    exact .cons ⟨h.1, hP.of_alike x y h.1⟩ (hP.of_alikeLists xs ys h.2)

theorem AlikeCases.of_alikeEntries (hP : AlikeCases P) (es fs : Entries)
    (h : alikeEntries es fs = true) :
    List.Forall₂ (fun e f => (Alike e.1 f.1 ∧ P e.1 f.1) ∧ Alike e.2 f.2 ∧ P e.2 f.2) es fs := by
  match es, fs, h with
  | [], [], _ => exact .nil
  | (k, v) :: es, (l, w) :: fs, h =>
    rw [alikeEntries, Bool.and_eq_true, Bool.and_eq_true] at h
    exact .cons ⟨⟨h.1.1, hP.of_alike k l h.1.1⟩, h.1.2, hP.of_alike v w h.1.2⟩
      (hP.of_alikeEntries es fs h.2)

end

/-! ## Labels -/

mutual

/-- The labels of a value and of its parts, in the order in which a writer comes to them. -/
def labels : Value → List Label
  | list xs l | set xs l => l :: labelsOfAll xs
  | tuple xs => none :: labelsOfAll xs
  | map es l => l :: labelsOfEntries es
  | date _ l | time _ l => [l]
  | _ => [none]

def labelsOfAll : List Value → List Label
  | [] => []
  | x :: xs => labels x ++ labelsOfAll xs

def labelsOfEntries : List (Value × Value) → List Label
  | [] => []
  | (k, v) :: es => labels k ++ (labels v ++ labelsOfEntries es)

end

theorem length_labelsOfAll {xs ys : List Value}
    (h : List.Forall₂ (fun x y => Alike x y ∧ x.labels.length = y.labels.length) xs ys) :
    (labelsOfAll xs).length = (labelsOfAll ys).length := by
  induction h with
  | nil => rfl
  | cons hxy _ ih =>
    rw [labelsOfAll, labelsOfAll]
    simp only [List.length_append, hxy.2, ih]

/-- Alike values have as many places for labels. -/
theorem length_labels_cases : AlikeCases fun v w => v.labels.length = w.labels.length where
  scalar v w h := by
    unfold alikeScalar at h
    split at h
    all_goals first | rfl | cases h
  list xs ys l m h := congrArg (· + 1) (length_labelsOfAll h)
  tuple xs ys h := congrArg (· + 1) (length_labelsOfAll h)
  set xs ys l m h := congrArg (· + 1) (length_labelsOfAll h)
  map es fs l m h := by
    refine congrArg (· + 1) ?_
    induction h with
    | nil => rfl
    | cons hef _ ih =>
      rw [labelsOfEntries, labelsOfEntries]
      simp only [List.length_append, hef.1.2, hef.2.2, ih]

end Value

namespace Yaml

open Value

/-! ## Scalars -/

/-- Alike scalars are written as one. -/
theorem exists_scalar {v w : Value} (h : v.alikeScalar w = true) :
    ∃ s, Scalar.ofValue? v = some s ∧ Scalar.ofValue? w = some s := by
  unfold alikeScalar at h
  split at h
  case h_1 => exact ⟨_, rfl, rfl⟩
  all_goals first
    | cases h
    | (obtain rfl := eq_of_beq h
       exact ⟨_, rfl, rfl⟩)

section scalars
variable {v : Value} {s : Scalar} (h : Scalar.ofValue? v = some s)
include h

/-- A scalar has no parts. -/
theorem labels_of_scalar : v.labels = [anchorLabel v] := by
  cases v <;> first | rfl | cases h

theorem meet_of_scalar (m : Meetings) : meet m v = (m.note v).1 := by
  cases v <;> first | rfl | exact ite_self _ | cases h

end scalars

/-! ## Places of two documents -/

/-- Do two places hold one object in both documents or in neither?  A place is given by the labels
    that the documents have there. -/
def AgreeOn (p q : Label × Label) : Prop := (p.1 ≠ none ∧ p.1 = q.1) ↔ (p.2 ≠ none ∧ p.2 = q.2)

instance : DecidableRel AgreeOn := fun _ _ => inferInstanceAs (Decidable (_ ↔ _))

instance : Std.Symm AgreeOn where
  symm p q h := by
    unfold AgreeOn at h ⊢
    grind

/-- **Two documents share alike** if the same places of them hold one object. -/
def ShareAlike (es fs : Entries) : Prop :=
  ((labelsOfEntries es).zip (labelsOfEntries fs)).Pairwise AgreeOn

instance : DecidableRel ShareAlike := fun _ _ => inferInstanceAs (Decidable (List.Pairwise _ _))

/-- A pair of labels stands at one of these places. -/
def Stands (Q : List (Label × Label)) (a b : Nat) : Prop := (some a, some b) ∈ Q

/-- A place agrees with the labels that stand at others: it has one of them in both documents or in
    neither. -/
def Fits (Q : List (Label × Label)) (c : Label × Label) : Prop :=
  ∀ a b, Stands Q a b → (c.1 = some a ↔ c.2 = some b)

section places
variable {Q : List (Label × Label)} {c : Label × Label} {a b : Nat} {as bs : List Nat}

theorem agreeOn_some : AgreeOn (some a, some b) c ↔ (c.1 = some a ↔ c.2 = some b) := by
  simp only [AgreeOn, ne_eq, reduceCtorEq, not_false_eq_true, true_and]
  rw [eq_comm, eq_comm (a := some b)]

/-- Among places that agree each of them agrees with the labels. -/
theorem fits_of_pairwise (hQ : Q.Pairwise AgreeOn) (hc : c ∈ Q) : Fits Q c := by
  intro a b hab
  obtain rfl | hne := eq_or_ne (some a, some b) c
  · exact ⟨fun _ => rfl, fun _ => rfl⟩
  · exact agreeOn_some.mp (hQ.forall hab hc hne)

/-- So does a place that comes after others that agree with it. -/
theorem fits_of_append (h : (Q ++ [c]).Pairwise AgreeOn) : Fits Q c := by
  intro a b hab
  exact agreeOn_some.mp ((List.pairwise_append.mp h).2.2 _ hab c (List.mem_singleton_self c))

/-- One of the labels stands at a place in both documents or in neither. -/
theorem exists_mem_iff_of_fits (hall : List.Forall₂ (Stands Q) as bs) (hfits : Fits Q c) :
    (∃ a ∈ as, c.1 = some a) ↔ ∃ b ∈ bs, c.2 = some b := by
  induction hall with
  | nil => simp
  | cons hab _ ih => simp only [List.exists_mem_cons_iff, hfits _ _ hab, ih]

theorem mem_iff_of_fits (hall : List.Forall₂ (Stands Q) as bs)
    (hfits : Fits Q (some a, some b)) : a ∈ as ↔ b ∈ bs := by
  simpa using exists_mem_iff_of_fits hall hfits

theorem stands_of_mem (hall : List.Forall₂ (Stands Q) as bs) (hfits : Fits Q (some a, some b))
    (hmem : a ∈ as) : Stands Q a b := by
  induction hall with
  | nil => cases hmem
  | @cons a' b' _ _ hab _ ih =>
    rcases List.mem_cons.mp hmem with rfl | hmem
    · obtain rfl : b = b' := Option.some.inj ((hfits _ _ hab).mp rfl)
      exact hab
    · exact ih hmem

theorem findIdx?_of_fits (hall : List.Forall₂ (Stands Q) as bs)
    (hfits : Fits Q (some a, some b)) :
    as.findIdx? (· == a) = bs.findIdx? (· == b) := by
  induction hall with
  | nil => rfl
  | @cons a' b' _ _ hab _ ih =>
    have hhead : (a' == a) = (b' == b) := by
      rw [Bool.eq_iff_iff, beq_iff_eq, beq_iff_eq, eq_comm, @eq_comm _ b']
      simpa using hfits _ _ hab
    rw [List.findIdx?_cons, List.findIdx?_cons, hhead, ih]

end places

/-! ## Counting the meetings -/

/-- **Two walks side by side** have passed these places: they have seen the labels there, and what
    they met again stands at one of them. -/
structure Walked (Q : List (Label × Label)) (m n : Meetings) : Prop where
  seen : ∀ a, a ∈ m.seen ↔ ∃ p ∈ Q, p.1 = some a
  seen' : ∀ b, b ∈ n.seen ↔ ∃ p ∈ Q, p.2 = some b
  again : List.Forall₂ (Stands Q) m.again n.again

section walking
variable {Q : List (Label × Label)} {m n : Meetings} {v w : Value}

section steps
variable {l : Nat}

theorem note_of_none (hl : anchorLabel v = none) : m.note v = (m, true) := by
  simp only [Meetings.note, hl]

theorem note_of_new (hl : anchorLabel v = some l) (hnew : l ∉ m.seen) :
    m.note v = ({ m with seen := l :: m.seen }, true) := by
  simp [Meetings.note, hl, hnew]

theorem note_of_seen (hl : anchorLabel v = some l) (hseen : l ∈ m.seen) :
    m.note v = (if l ∈ m.again then m else { m with again := m.again ++ [l] }, false) := by
  simp [Meetings.note, hl, hseen]

end steps

/-- Afterwards the label of the value has been seen, and nothing else that was not before. -/
theorem mem_seen_note {a : Nat} :
    a ∈ (m.note v).1.seen ↔ a ∈ m.seen ∨ anchorLabel v = some a := by
  cases hl : anchorLabel v with
  | none => simp [note_of_none hl]
  | some l =>
    rw [Option.some.injEq]
    by_cases hseen : l ∈ m.seen
    · have hsame : (m.note v).1.seen = m.seen := by
        rw [note_of_seen hl hseen]
        dsimp only
        split <;> rfl
      rw [hsame]
      exact ⟨Or.inl, fun h => h.elim id fun heq => heq ▸ hseen⟩
    · rw [note_of_new hl hseen, List.mem_cons, or_comm, eq_comm]

/-- A value is new if its label has not been seen. -/
theorem note_isNew_iff : (m.note v).2 = true ↔ ∀ a, anchorLabel v = some a → a ∉ m.seen := by
  cases hl : anchorLabel v with
  | none => simp [note_of_none hl]
  | some l =>
    by_cases hseen : l ∈ m.seen
    · simp [note_of_seen hl hseen, hseen]
    · simp [note_of_new hl hseen, hseen]

/-- A value that is new has not been met again; of another one its label has. -/
theorem again_note :
    (m.note v).1.again = if (m.note v).2 then m.again else
      match anchorLabel v with
      | some a => if a ∈ m.again then m.again else m.again ++ [a]
      | none => m.again := by
  cases hl : anchorLabel v with
  | none => rw [note_of_none hl, if_pos rfl]
  | some l =>
    by_cases hseen : l ∈ m.seen
    · rw [note_of_seen hl hseen, if_neg Bool.false_ne_true]
      dsimp only
      split <;> rfl
    · rw [note_of_new hl hseen, if_pos rfl]

/-- A label has been seen in both walks or in neither, if its place agrees with those passed. -/
theorem Walked.seen_iff (h : Walked Q m n) {c : Label × Label} (hagree : ∀ p ∈ Q, AgreeOn p c) :
    (∃ a, c.1 = some a ∧ a ∈ m.seen) ↔ ∃ b, c.2 = some b ∧ b ∈ n.seen := by
  simp only [h.seen, h.seen']
  constructor
  · -- The label stands at a passed place, and there the other document has its label too.
    rintro ⟨a, ha, p, hp, hpa⟩
    obtain ⟨hsome, heq⟩ := (hagree p hp).mp ⟨by simp [hpa], hpa.trans ha.symm⟩
    obtain ⟨b, hb⟩ := Option.ne_none_iff_exists'.mp hsome
    exact ⟨b, heq ▸ hb, p, hp, hb⟩
  · rintro ⟨b, hb, p, hp, hpb⟩
    obtain ⟨hsome, heq⟩ := (hagree p hp).mpr ⟨by simp [hpb], hpb.trans hb.symm⟩
    obtain ⟨a, ha⟩ := Option.ne_none_iff_exists'.mp hsome
    exact ⟨a, heq ▸ ha, p, hp, ha⟩

/-- One step of the walks: a value is new to both or to neither. -/
theorem Walked.note (h : Walked Q m n)
    (hagree : (Q ++ [(anchorLabel v, anchorLabel w)]).Pairwise AgreeOn) :
    Walked (Q ++ [(anchorLabel v, anchorLabel w)]) (m.note v).1 (n.note w).1 ∧
      (m.note v).2 = (n.note w).2 := by
  have hmono : ∀ {c as bs}, List.Forall₂ (Stands Q) as bs →
      List.Forall₂ (Stands (Q ++ [c])) as bs :=
    fun hall => hall.imp fun _ _ hab => List.mem_append_left _ hab
  have hseen : (∃ a, anchorLabel v = some a ∧ a ∈ m.seen) ↔
      ∃ b, anchorLabel w = some b ∧ b ∈ n.seen := h.seen_iff fun p hp =>
    (List.pairwise_append.mp hagree).2.2 p hp _ (List.mem_singleton_self _)
  have hnew : (m.note v).2 = (n.note w).2 := by
    rw [Bool.eq_iff_iff, note_isNew_iff, note_isNew_iff]
    simpa using not_congr hseen
  refine ⟨⟨fun a => ?_, fun b => ?_, ?_⟩, hnew⟩
  · rw [mem_seen_note, h.seen]
    simp [or_and_right, exists_or]
  · rw [mem_seen_note, h.seen']
    simp [or_and_right, exists_or]
  · rw [again_note, again_note, ← hnew]
    split
    · exact hmono h.again
    · next hold =>
      -- Both labels have been seen, and so they have been met again in both walks or in neither.
      rw [note_isNew_iff] at hold
      push Not at hold
      obtain ⟨a, ha, hmem⟩ := hold
      obtain ⟨b, hb, -⟩ := hseen.mp ⟨a, ha, hmem⟩
      have hfits := fits_of_append hagree
      rw [ha, hb] at hfits ⊢
      dsimp only
      rw [if_congr (mem_iff_of_fits h.again hfits) rfl rfl]
      split
      · exact hmono h.again
      · refine List.rel_append (hmono h.again) (.cons ?_ .nil)
        exact List.mem_append_right _ (List.mem_singleton_self _)

/-- **Walks through parts with these places** can be made side by side: of the places some are
    passed, and the others are inside what was met before. -/
def Passes (Z : List (Label × Label)) (f g : Meetings → Meetings) : Prop :=
  ∀ Q m n, Walked Q m n → (Q ++ Z).Pairwise AgreeOn →
    ∃ Q', Q'.Sublist (Q ++ Z) ∧ Walked Q' (f m) (g n)

theorem Passes.id : Passes [] id id :=
  fun Q _ _ h _ => ⟨Q, by rw [List.append_nil], h⟩

/-- One walk after the other. -/
theorem Passes.comp {Z Z' : List (Label × Label)} {f g f' g' : Meetings → Meetings}
    (h : Passes Z f g) (h' : Passes Z' f' g') :
    Passes (Z ++ Z') (fun m => f' (f m)) fun n => g' (g n) := by
  intro Q m n hwalked hagree
  rw [← List.append_assoc] at hagree ⊢
  obtain ⟨Q', hsub, hwalked⟩ := h Q m n hwalked (List.pairwise_append.mp hagree).1
  have hmore : (Q' ++ Z').Sublist (Q ++ Z ++ Z') := hsub.append_right Z'
  obtain ⟨Q'', hsub', hwalked⟩ := h' Q' _ _ hwalked (hagree.sublist hmore)
  exact ⟨Q'', hsub'.trans hmore, hwalked⟩

/-- A walk through a value notes it, and goes through its parts if it is new. -/
theorem Passes.value (v w : Value) {Z : List (Label × Label)} {f g : Meetings → Meetings}
    (h : Passes Z f g) :
    Passes ((anchorLabel v, anchorLabel w) :: Z)
      (fun m => if (m.note v).2 then f (m.note v).1 else (m.note v).1)
      fun n => if (n.note w).2 then g (n.note w).1 else (n.note w).1 := by
  intro Q m n hwalked hagree
  rw [List.append_cons] at hagree ⊢
  -- Where the value is not new its parts are not entered, and only its own place is passed.
  obtain ⟨hwalked, hnew⟩ := hwalked.note (List.pairwise_append.mp hagree).1
  dsimp only
  rw [← hnew]
  split
  · exact h _ _ _ hwalked hagree
  · exact ⟨_, List.sublist_append_left _ _, hwalked⟩

theorem passes_meetAll {xs ys : List Value} (h : List.Forall₂ (fun x y => Alike x y ∧
      Passes (x.labels.zip y.labels) (meet · x) (meet · y)) xs ys) :
    Passes ((labelsOfAll xs).zip (labelsOfAll ys)) (meetAll · xs) (meetAll · ys) := by
  induction h with
  | nil => exact .id
  | cons hxy _ ih =>
    rw [labelsOfAll, labelsOfAll, List.zip_append (length_labels_cases.of_alike _ _ hxy.1)]
    exact hxy.2.comp ih

theorem passes_meetEntries {es fs : Entries} (h : List.Forall₂ (fun e f =>
      (Alike e.1 f.1 ∧ Passes (e.1.labels.zip f.1.labels) (meet · e.1) (meet · f.1)) ∧
        Alike e.2 f.2 ∧ Passes (e.2.labels.zip f.2.labels) (meet · e.2) (meet · f.2)) es fs) :
    Passes ((labelsOfEntries es).zip (labelsOfEntries fs)) (meetEntries · es)
      (meetEntries · fs) := by
  induction h with
  | nil => exact .id
  | cons hef _ ih =>
    rw [labelsOfEntries, labelsOfEntries,
      List.zip_append (length_labels_cases.of_alike _ _ hef.1.1),
      List.zip_append (length_labels_cases.of_alike _ _ hef.2.1)]
    exact hef.1.2.comp (hef.2.2.comp ih)

/-- **Walks through alike values can be made side by side.** -/
theorem passes_meet_cases :
    AlikeCases fun v w => Passes (v.labels.zip w.labels) (meet · v) (meet · w) where
  scalar v w h := by
    obtain ⟨s, hv, hw⟩ := exists_scalar h
    rw [labels_of_scalar hv, labels_of_scalar hw]
    simp only [meet_of_scalar hv, meet_of_scalar hw]
    have hpass := Passes.value v w .id
    simp only [id, ite_self] at hpass
    exact hpass
  list xs ys l m h := Passes.value (.list xs l) (.list ys m) (passes_meetAll h)
  tuple xs ys h := Passes.value (.tuple xs) (.tuple ys) (passes_meetAll h)
  set xs ys l m h := Passes.value (.set xs l) (.set ys m) (passes_meetAll h)
  map es fs l m h := Passes.value (.map es l) (.map fs m) (passes_meetEntries h)

end walking

/-! ## Writing -/

/-- **Two writers side by side** have written the same, and the labels that they have anchored and
    those that get an anchor stand at the same places. -/
structure Paired (Q : List (Label × Label)) (w x : Writer) : Prop where
  pen : w.pen = x.pen
  anchored : List.Forall₂ (Stands Q) w.anchored x.anchored
  shared : List.Forall₂ (Stands Q) w.shared x.shared

section writing
variable {Q : List (Label × Label)} {w x : Writer} {u v : Value}

theorem Paired.onPen (h : Paired Q w x) (f : Pen → Pen) : Paired Q (w.onPen f) (x.onPen f) :=
  ⟨congrArg f h.pen, h.anchored, h.shared⟩

theorem Paired.putTag (h : Paired Q w x) (t : Tag) : Paired Q (w.putTag t) (x.putTag t) :=
  h.onPen _

theorem Paired.scalar (h : Paired Q w x) (indent : Nat) (pos : Position) (s : Scalar) :
    Paired Q (w.scalar indent pos s) (x.scalar indent pos s) := by
  unfold Writer.scalar
  dsimp only
  split
  · exact (h.onPen _).onPen _
  · exact h.onPen _

/-- A label gets the same number in both documents, or an anchor in neither. -/
theorem Paired.anchorNumber? (h : Paired Q w x) {l m : Label} (hfits : Fits Q (l, m)) :
    (w.anchorNumber? l = none ∧ x.anchorNumber? m = none) ∨
      ∃ a b n, l = some a ∧ m = some b ∧ w.anchorNumber? l = some (a, n) ∧
        x.anchorNumber? m = some (b, n) ∧ Stands Q a b := by
  have hnone : ∀ {y : Writer} {l : Label}, (∀ a ∈ y.shared, l ≠ some a) →
      y.anchorNumber? l = none := by
    intro y l hl
    cases l with
    | none => rfl
    | some a =>
      have habsent : y.shared.findIdx? (· == a) = none :=
        List.findIdx?_eq_none_iff.mpr fun b hb =>
          beq_false_of_ne fun heq => hl b hb (congrArg some heq.symm)
      rw [Writer.anchorNumber?, Option.bind_some, habsent, Option.map_none]
  by_cases hfound : ∃ a ∈ w.shared, l = some a
  · -- The labels that get an anchor stand in the same order, so that the numbers are the same.
    obtain ⟨b, -, rfl⟩ := (exists_mem_iff_of_fits h.shared hfits).mp hfound
    obtain ⟨a, ha, rfl⟩ := hfound
    obtain ⟨i, hi⟩ : ∃ i, w.shared.findIdx? (· == a) = some i :=
      Option.isSome_iff_exists.mp (List.findIdx?_isSome.trans (List.any_eq_true.mpr
        ⟨a, ha, beq_self_eq_true a⟩))
    refine .inr ⟨a, b, i + 1, rfl, rfl, ?_, ?_, stands_of_mem h.shared hfits ha⟩
    · rw [Writer.anchorNumber?, Option.bind_some, hi, Option.map_some]
    · rw [Writer.anchorNumber?, Option.bind_some, ← findIdx?_of_fits h.shared hfits, hi,
        Option.map_some]
  · refine .inl ⟨hnone fun a ha hl => hfound ⟨a, ha, hl⟩, hnone fun b hb hm => ?_⟩
    exact hfound ((exists_mem_iff_of_fits h.shared hfits).mpr ⟨b, hb, hm⟩)

/-- Whether a value's content is still to be written is the same in both documents. -/
theorem Paired.announce (h : Paired Q w x) (hfits : Fits Q (anchorLabel u, anchorLabel v)) :
    Paired Q (w.announce u).1 (x.announce v).1 ∧ (w.announce u).2 = (x.announce v).2 := by
  unfold Writer.announce
  rcases h.anchorNumber? hfits with ⟨hu, hv⟩ | ⟨a, b, n, ha, hb, hu, hv, hab⟩
  · rw [hu, hv]
    exact ⟨h, rfl⟩
  · rw [hu, hv]
    rw [ha, hb] at hfits
    simp only [List.contains_eq_mem, decide_eq_true_eq, mem_iff_of_fits h.anchored hfits]
    split
    · exact ⟨h.onPen (·.indicator ('*' :: anchorText n) true false), rfl⟩
    · have hanchor := h.onPen (·.indicator ('&' :: anchorText n) true false)
      exact ⟨⟨hanchor.pen, .cons hab h.anchored, h.shared⟩, rfl⟩

theorem fits_of_scalar {s : Scalar} (hu : Scalar.ofValue? u = some s)
    (hv : Scalar.ofValue? v = some s) (length : Nat) :
    Writer.isShortKey.fits u length = Writer.isShortKey.fits v length := by
  have htag : ∀ {v : Value}, Scalar.ofValue? v = some s → Writer.keyTag v = s.tag := by
    intro v hv
    cases v <;> first | cases hv; rfl | cases hv
  rw [Writer.isShortKey.fits, Writer.isShortKey.fits, hu, hv, htag hu, htag hv]

/-- Alike keys are equally long. -/
theorem fits_cases : AlikeCases fun u v => ∀ length,
    Writer.isShortKey.fits u length = Writer.isShortKey.fits v length where
  scalar u v h length :=
    have ⟨_, hu, hv⟩ := exists_scalar h
    fits_of_scalar hu hv length
  list xs ys l m h _ := by cases h <;> rfl
  tuple xs ys h _ := by cases h <;> rfl
  set xs ys l m h _ := by cases h <;> rfl
  map es fs l m h _ := by cases h <;> rfl

/-- A key fits on its line in both documents or in neither. -/
theorem Paired.isShortKey (h : Paired Q w x) (hfits : Fits Q (anchorLabel u, anchorLabel v))
    (halike : Alike u v) : w.isShortKey u = x.isShortKey v := by
  have hlength := fits_cases.of_alike u v halike
  unfold Writer.isShortKey
  rcases h.anchorNumber? hfits with ⟨hu, hv⟩ | ⟨a, b, n, ha, hb, hu, hv, -⟩
  · rw [hu, hv]
    exact hlength 0
  · rw [ha, hb] at hfits
    rw [hu, hv]
    simp only [List.contains_eq_mem, mem_iff_of_fits h.anchored hfits, hlength]

/-- **A value is written alike in both documents**, from writers that have written the same. -/
def WrittenAlike (Q : List (Label × Label)) (u v : Value) : Prop :=
  ∀ w x indent pos, Paired Q w x → u.labels.zip v.labels ⊆ Q →
    Paired Q (w.value indent pos u) (x.value indent pos v)

theorem paired_items {xs ys : List Value}
    (h : List.Forall₂ (fun u v => Alike u v ∧ WrittenAlike Q u v) xs ys) (indent : Nat)
    (hpaired : Paired Q w x) (hsub : (labelsOfAll xs).zip (labelsOfAll ys) ⊆ Q) :
    Paired Q (w.items indent xs) (x.items indent ys) := by
  induction h generalizing w x with
  | nil => exact hpaired
  | cons huv _ ih =>
    rw [labelsOfAll, labelsOfAll, List.zip_append (length_labels_cases.of_alike _ _ huv.1),
      List.append_subset] at hsub
    rw [Writer.items, Writer.items]
    exact ih (huv.2 _ _ _ _ (hpaired.onPen _) hsub.1) hsub.2

/-- What is written of a value behind its anchor. -/
def content (w : Writer) (indent : Nat) (pos : Position) : Value → Writer
  | .list [] _ | .tuple [] => w.onPen (·.indicator ['[', ']'] true false)
  | .list xs _ | .tuple xs =>
    w.items (if pos != .item && !w.pen.inIndent then indent else indent + 2) xs
  | .set [] _ => (w.putTag .set).onPen (·.indicator ['\x7b', '\x7d'] true false)
  | .set xs _ => (w.putTag .set).keysOnly (indent + 2) xs
  | .map [] _ => w.onPen (·.indicator ['\x7b', '\x7d'] true false)
  | .map es _ => w.entries (indent + 2) es
  | v =>
    match Scalar.ofValue? v with
    | some s => w.scalar indent pos s
    | none => w

theorem value_eq (w : Writer) (indent : Nat) (pos : Position) (v : Value) :
    w.value indent pos v =
      if (w.announce v).2 then content (w.announce v).1 indent pos v else (w.announce v).1 := by
  cases v with
  | list xs l => cases xs <;> rw [Writer.value] <;> rfl
  | tuple xs => cases xs <;> rw [Writer.value] <;> rfl
  | set xs l => cases xs <;> rw [Writer.value] <;> rfl
  | map es l => cases es <;> rw [Writer.value] <;> rfl
  | _ => rw [Writer.value]; rfl

theorem content_of_scalar {s : Scalar} (h : Scalar.ofValue? v = some s) (w : Writer)
    (indent : Nat) (pos : Position) : content w indent pos v = w.scalar indent pos s := by
  cases v <;> first | (cases h; rfl) | cases h

theorem content_tuple (w : Writer) (indent : Nat) (pos : Position) (xs : List Value) :
    content w indent pos (.tuple xs) = content w indent pos (.list xs none) := by
  cases xs <;> rfl

theorem paired_list {xs ys : List Value} {l m : Label}
    (h : List.Forall₂ (fun u v => Alike u v ∧ WrittenAlike Q u v) xs ys) (indent : Nat)
    (pos : Position) (hpaired : Paired Q w x)
    (hsub : (labelsOfAll xs).zip (labelsOfAll ys) ⊆ Q) :
    Paired Q (content w indent pos (.list xs l)) (content x indent pos (.list ys m)) := by
  cases h with
  | nil => exact hpaired.onPen (·.indicator ['[', ']'] true false)
  | cons huv hrest =>
    -- How deep the items stand depends on the pen, which is the same one.
    show Paired Q (w.items _ _) (x.items _ _)
    rw [hpaired.pen]
    exact paired_items (.cons huv hrest) _ hpaired hsub

/-- What is written up to the colon behind a key. -/
def keyWritten (w : Writer) (indent : Nat) (k : Value) : Writer :=
  let w := w.onPen (·.indentTo indent)
  if w.isShortKey k then
    (w.value indent (.key true) k).onPen (·.indicator [':'] false false)
  else
    let w := (w.onPen (·.indicator ['?'] true true)).value indent (.key false) k
    w.onPen fun p => (p.indentTo indent).indicator [':'] true true

theorem entries_cons (w : Writer) (indent : Nat) (k v : Value) (es : Entries) :
    w.entries indent ((k, v) :: es) =
      ((keyWritten w indent k).value indent .value v).entries indent es := by
  rw [Writer.entries]
  rfl

theorem keysOnly_cons (w : Writer) (indent : Nat) (k : Value) (ks : List Value) :
    w.keysOnly indent (k :: ks) =
      ((keyWritten w indent k).scalar indent .value ⟨.null, "null".toList, false⟩).keysOnly
        indent ks := by
  rw [Writer.keysOnly]
  rfl

/-- The place of a value comes before those of its parts. -/
theorem anchorLabel_mem (u v : Value) :
    (anchorLabel u, anchorLabel v) ∈ u.labels.zip v.labels := by
  have hfirst : ∀ v : Value, ∃ rest, v.labels = anchorLabel v :: rest := by
    intro v
    cases v <;> exact ⟨_, rfl⟩
  obtain ⟨us, hu⟩ := hfirst u
  obtain ⟨vs, hv⟩ := hfirst v
  rw [hu, hv, List.zip_cons_cons]
  exact List.mem_cons_self

section pairing
variable (hfits : ∀ c ∈ Q, Fits Q c)
include hfits

theorem paired_keyWritten (halike : Alike u v) (h : WrittenAlike Q u v)
    (hpaired : Paired Q w x) (indent : Nat) (hsub : u.labels.zip v.labels ⊆ Q) :
    Paired Q (keyWritten w indent u) (keyWritten x indent v) := by
  have hmoved := hpaired.onPen (·.indentTo indent)
  unfold keyWritten
  dsimp only
  rw [hmoved.isShortKey (hfits _ (hsub (anchorLabel_mem u v))) halike]
  split
  · exact (h _ _ _ _ hmoved hsub).onPen _
  · exact (h _ _ _ _ (hmoved.onPen _) hsub).onPen _

theorem paired_entries {es fs : Entries}
    (h : List.Forall₂ (fun e f => (Alike e.1 f.1 ∧ WrittenAlike Q e.1 f.1) ∧
      Alike e.2 f.2 ∧ WrittenAlike Q e.2 f.2) es fs) (indent : Nat)
    (hpaired : Paired Q w x) (hsub : (labelsOfEntries es).zip (labelsOfEntries fs) ⊆ Q) :
    Paired Q (w.entries indent es) (x.entries indent fs) := by
  induction h generalizing w x with
  | nil => exact hpaired
  | cons hef _ ih =>
    rw [labelsOfEntries, labelsOfEntries,
      List.zip_append (length_labels_cases.of_alike _ _ hef.1.1),
      List.zip_append (length_labels_cases.of_alike _ _ hef.2.1), List.append_subset,
      List.append_subset] at hsub
    rw [entries_cons, entries_cons]
    have hkey := paired_keyWritten hfits hef.1.1 hef.1.2 hpaired indent hsub.1
    exact ih (hef.2.2 _ _ _ _ hkey hsub.2.1) hsub.2.2

theorem paired_keysOnly {xs ys : List Value}
    (h : List.Forall₂ (fun u v => Alike u v ∧ WrittenAlike Q u v) xs ys) (indent : Nat)
    (hpaired : Paired Q w x) (hsub : (labelsOfAll xs).zip (labelsOfAll ys) ⊆ Q) :
    Paired Q (w.keysOnly indent xs) (x.keysOnly indent ys) := by
  induction h generalizing w x with
  | nil => exact hpaired
  | cons huv _ ih =>
    rw [labelsOfAll, labelsOfAll, List.zip_append (length_labels_cases.of_alike _ _ huv.1),
      List.append_subset] at hsub
    rw [keysOnly_cons, keysOnly_cons]
    exact ih ((paired_keyWritten hfits huv.1 huv.2 hpaired indent hsub.1).scalar _ _ _) hsub.2

/-- Alike values are written alike if their contents are. -/
theorem writtenAlike_of_content (hcontent : ∀ w x indent pos, Paired Q w x →
      u.labels.zip v.labels ⊆ Q → Paired Q (content w indent pos u) (content x indent pos v)) :
    WrittenAlike Q u v := by
  intro w x indent pos hpaired hsub
  obtain ⟨hannounced, hnew⟩ := hpaired.announce (hfits _ (hsub (anchorLabel_mem u v)))
  rw [value_eq, value_eq, ← hnew]
  split
  · exact hcontent _ _ indent pos hannounced hsub
  · exact hannounced

/-- **Alike values are written alike.** -/
theorem writtenAlike_cases : AlikeCases (WrittenAlike Q) where
  scalar u v h := by
    obtain ⟨s, hu, hv⟩ := exists_scalar h
    refine writtenAlike_of_content hfits fun w x indent pos hpaired _ => ?_
    rw [content_of_scalar hu, content_of_scalar hv]
    exact hpaired.scalar indent pos s
  list xs ys l m h := writtenAlike_of_content hfits fun w x indent pos hpaired hsub =>
    paired_list h indent pos hpaired (List.cons_subset.mp hsub).2
  tuple xs ys h := by
    refine writtenAlike_of_content hfits fun w x indent pos hpaired hsub => ?_
    rw [content_tuple, content_tuple]
    exact paired_list h indent pos hpaired (List.cons_subset.mp hsub).2
  set xs ys l m h := by
    refine writtenAlike_of_content hfits fun w x indent pos hpaired hsub => ?_
    have htagged := hpaired.putTag .set
    cases h with
    | nil => exact htagged.onPen (·.indicator ['\x7b', '\x7d'] true false)
    | cons huv hrest =>
      exact paired_keysOnly hfits (.cons huv hrest) _ htagged (List.cons_subset.mp hsub).2
  map es fs l m h := by
    refine writtenAlike_of_content hfits fun w x indent pos hpaired hsub => ?_
    cases h with
    | nil => exact hpaired.onPen (·.indicator ['\x7b', '\x7d'] true false)
    | cons hef hrest =>
      exact paired_entries hfits (.cons hef hrest) _ hpaired (List.cons_subset.mp hsub).2

end pairing

end writing

/-- **Alike documents that share alike are written as one text.** -/
theorem write_congr {es fs : Entries} (halike : alikeEntries es fs = true)
    (hshare : ShareAlike es fs) : write es = write fs := by
  -- The walks through both documents meet the same places again; these get an anchor.
  have hstart : Walked [] ⟨[], []⟩ ⟨[], []⟩ := ⟨by simp, by simp, .nil⟩
  obtain ⟨Q, hsub, hwalked⟩ :=
    passes_meetEntries (passes_meet_cases.of_alikeEntries es fs halike) [] _ _ hstart hshare
  have hfits : ∀ c ∈ (labelsOfEntries es).zip (labelsOfEntries fs),
      Fits ((labelsOfEntries es).zip (labelsOfEntries fs)) c :=
    fun c hc => fits_of_pairwise hshare hc
  -- So the writers start alike, and they stay so.
  have hpaired : Paired ((labelsOfEntries es).zip (labelsOfEntries fs))
      ⟨.start, [], (meetEntries ⟨[], []⟩ es).again⟩
      ⟨.start, [], (meetEntries ⟨[], []⟩ fs).again⟩ :=
    ⟨rfl, .nil, hwalked.again.imp fun _ _ hab => hsub.subset hab⟩
  have hwritten := paired_entries hfits
    ((writtenAlike_cases hfits).of_alikeEntries es fs halike) 0 hpaired (List.Subset.refl _)
  exact congrArg (fun p : Pen => (p.indentTo 0).text) hwritten.pen

end Yaml

end Regen
