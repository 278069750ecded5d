import Regen.Proofs.Value.Data
import Regen.Yaml.Writer

/-! # Legible values

    Not everything that is written is read as it was: a next-line mark between single quotes is
    folded, a space behind an escape is lost where the indentation leaves no room for a line, and a
    key is no key if its colon stands more than 1024 characters behind its start.  Legible values
    are data that none of this happens to. -/

namespace Regen

open Number

namespace Yaml

/-- How many characters a text takes between double quotes. -/
def quotedWidth (cs : List Char) : Nat :=
  (cs.map fun c => if Pen.isPlainInDouble c then 1 else (Pen.escaped c).length).sum

/-- May a text stand at an indentation? -/
def isLegibleText (indent : Nat) (cs : List Char) : Bool :=
  !cs.contains '\u0085' &&
    (indent + 2 < Pen.width || !adjacent (!Pen.isPlainInDouble ·) (· == ' ') cs)

/-- May a text be a key?  A key on its own line takes 1024 characters at most with its quotes. -/
def isLegibleKey (indent : Nat) (s : String) : Bool :=
  isLegibleText indent s.toList &&
    (!Writer.isShortKey.fits (.text s) 0 || quotedWidth s.toList ≤ 1022)

end Yaml

namespace Value

open Yaml

mutual

/-- Is a value that is written at an indentation read as it was? -/
def isLegible (indent : Nat) : Value → Bool
  | null | bool _ => true
  | int n => !isLong n
  | real x => x.isCanonical
  | text s => isLegibleText indent s.toList
  | list xs _ => areLegible (indent + 2) xs
  | map es _ => areLegibleEntries (indent + 2) es
  | _ => false

def areLegible (indent : Nat) : List Value → Bool
  | [] => true
  | x :: xs => isLegible indent x && areLegible indent xs

/-- Are the keys distinct texts that may be keys, and the values legible? -/
def areLegibleEntries (indent : Nat) : List (Value × Value) → Bool
  | [] => true
  | (text s, v) :: es =>
    isLegibleKey indent s && (Entries.get? es s).isNone && isLegible indent v &&
      areLegibleEntries indent es
  | _ :: _ => false

end

theorem areLegible_iff {indent : Nat} {xs : List Value} :
    areLegible indent xs = true ↔ ∀ x ∈ xs, x.isLegible indent = true := by
  induction xs with
  | nil => simp [areLegible]
  | cons x xs ih => simp [areLegible, ih]

/-- The keys of legible entries are legible texts, and the values are legible. -/
theorem of_mem_areLegibleEntries {indent : Nat} {es : Entries}
    (h : areLegibleEntries indent es = true) {e : Value × Value} (he : e ∈ es) :
    (∃ s, e.1 = text s ∧ isLegibleKey indent s = true) ∧ e.2.isLegible indent = true := by
  induction es with
  | nil => cases he
  | cons f es ih =>
    obtain ⟨k, v⟩ := f
    cases k with
    | text s =>
      simp only [areLegibleEntries, Bool.and_eq_true] at h
      rcases List.mem_cons.mp he with rfl | he
      · exact ⟨⟨s, rfl, h.1.1.1⟩, h.1.2⟩
      · exact ih h.2 he
    | _ => cases h

/-- Entries with legible keys and values are data if the values are. -/
theorem areDataEntries_of_legible {indent : Nat} {es : Entries}
    (h : areLegibleEntries indent es = true) (hdata : ∀ e ∈ es, e.2.isData = true) :
    areDataEntries es = true := by
  induction es with
  | nil => rfl
  | cons e es ih =>
    obtain ⟨k, v⟩ := e
    cases k with
    | text s =>
      simp only [areLegibleEntries, Bool.and_eq_true] at h
      rw [areDataEntries, h.1.1.2, hdata _ List.mem_cons_self,
        ih h.2 fun f hf => hdata f (List.mem_cons_of_mem _ hf)]
      rfl
    | _ => cases h

/-- **Induction over legible values**, which stand two columns deeper on each level. -/
@[elab_as_elim]
theorem isLegible_induction {P : (indent : Nat) → (v : Value) → v.isLegible indent = true → Prop}
    (scalar : ∀ indent v h, (Scalar.ofValue? v).isSome = true → P indent v h)
    (list : ∀ indent xs label h, (∀ x ∈ xs, ∀ hx, P (indent + 2) x hx) → P indent (list xs label) h)
    (map : ∀ indent es label h, (∀ e ∈ es, ∀ he, P (indent + 2) e.2 he) →
      P indent (map es label) h)
    (indent : Nat) (v : Value) : (h : v.isLegible indent = true) → P indent v h := by
  match v with
  | .list xs label =>
    exact fun h => list indent xs label h fun x _ hx =>
      isLegible_induction scalar list map (indent + 2) x hx
  | .map es label =>
    exact fun h => map indent es label h fun e _ he =>
      isLegible_induction scalar list map (indent + 2) e.2 he
  | .null | .bool _ | .int _ | .real _ | .text _ => exact fun h => scalar indent _ h rfl
  | .bytes _ | .date .. | .time .. | .tuple _ | .set .. => exact fun h => absurd h Bool.false_ne_true
termination_by sizeOf v
decreasing_by
  · have := List.sizeOf_lt_of_mem ‹x ∈ xs›
    simp only [Value.list.sizeOf_spec]
    omega
  · have := List.sizeOf_lt_of_mem ‹e ∈ es›
    obtain ⟨k, w⟩ := e
    simp only [Prod.mk.sizeOf_spec, Value.map.sizeOf_spec] at this ⊢
    omega

/-- **Legible values are data.** -/
theorem isData_of_legible {indent : Nat} {v : Value} (h : v.isLegible indent = true) :
    v.isData = true := by
  induction indent, v, h using isLegible_induction with
  | scalar indent v h hscalar =>
    cases v with
    | real x => exact h
    | null | bool | int | text => rfl
    | list | map => cases hscalar
    | _ => cases h
  | list indent xs label h ih =>
    rw [isData, areData_iff]
    exact fun x hx => ih x hx (areLegible_iff.mp h x hx)
  | map indent es label h ih =>
    rw [isData]
    exact areDataEntries_of_legible h fun e he => ih e he (of_mem_areLegibleEntries h he).2

end Value

/-- What is legible deeper is legible at a lower indentation. -/
theorem Yaml.isLegibleText_mono {indent column : Nat} (hle : indent ≤ column) {cs : List Char}
    (h : isLegibleText column cs = true) : isLegibleText indent cs = true := by
  simp only [isLegibleText, Bool.and_eq_true, Bool.or_eq_true, decide_eq_true_eq] at h ⊢
  exact ⟨h.1, h.2.imp (fun hwidth => by omega) id⟩

theorem Yaml.isLegibleKey_mono {indent column : Nat} (hle : indent ≤ column) {s : String}
    (h : isLegibleKey column s = true) : isLegibleKey indent s = true := by
  simp only [isLegibleKey, Bool.and_eq_true] at h ⊢
  exact ⟨isLegibleText_mono hle h.1, h.2⟩

end Regen
