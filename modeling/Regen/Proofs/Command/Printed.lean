import Regen.Proofs.Command.Basic
import Regen.Proofs.Console.Panels

/-! # What printing needs

    Printing goes on exactly if all texts are shown; it changes nothing but what was printed.  One
    rule for each way of printing says which texts these are, and so a command that only prints
    at its end succeeds exactly if the texts that it quotes are shown. -/

namespace Regen

open Markup

/-- Nothing changed but what was printed. -/
def Printed (h h' : Host) : Prop := ∃ text, h' = { h with printed := text }

theorem Printed.refl (h : Host) : Printed h h := ⟨h.printed, rfl⟩

theorem Printed.trans {h h' h'' : Host} (hp : Printed h h') (hp' : Printed h' h'') :
    Printed h h'' := by
  obtain ⟨_, rfl⟩ := hp
  obtain ⟨text, rfl⟩ := hp'
  exact ⟨text, rfl⟩

namespace Command

/-- **A command prints if `P`**: then it comes to its end, and otherwise it stops with a
    failure. -/
structure PrintsIf (P : Prop) {α : Type} (x : α) (c : Command α) : Prop where
  gives : P → ∀ h, ∃ h', Gives c h x h' ∧ Printed h h'
  stops : ¬P → ∀ h, ∃ f h', Stops c h (.failure f) h'

section rules
variable {P Q : Prop} {α β γ : Type} {x : α} {y : β} {c : Command α} {f : α → Command β}

theorem PrintsIf.congr (hc : PrintsIf P x c) (h : P ↔ Q) : PrintsIf Q x c :=
  ⟨fun hq => hc.gives (h.mpr hq), fun hq => hc.stops (mt h.mp hq)⟩

theorem printsIf_pure (x : α) : PrintsIf True x (pure x : Command α) :=
  ⟨fun _ h => ⟨h, rfl, .refl h⟩, fun hno => absurd trivial hno⟩

/-- One print after the other. -/
theorem PrintsIf.bind (hc : PrintsIf P x c) (hf : PrintsIf Q y (f x)) :
    PrintsIf (P ∧ Q) y (c >>= f) := by
  constructor
  · rintro ⟨hp, hq⟩ h
    obtain ⟨h₁, hgives, hprinted⟩ := hc.gives hp h
    obtain ⟨h₂, hgives', hprinted'⟩ := hf.gives hq h₁
    exact ⟨h₂, hgives.run_bind.trans hgives', hprinted.trans hprinted'⟩
  · intro hno h
    by_cases hp : P
    · obtain ⟨h₁, hgives, -⟩ := hc.gives hp h
      obtain ⟨e, h₂, hstops⟩ := hf.stops (fun hq => hno ⟨hp, hq⟩) h₁
      exact ⟨e, h₂, hgives.run_bind.trans hstops⟩
    · obtain ⟨e, h₁, hstops⟩ := hc.stops hp h
      exact ⟨e, h₁, hstops.run_bind⟩

/-- A value that may have a failure comes first. -/
theorem PrintsIf.ofExcept_bind {P : α → Prop} {r : Except Failure α}
    (hf : ∀ x, r = .ok x → PrintsIf (P x) y (f x)) :
    PrintsIf (∃ x, r = .ok x ∧ P x) y (ofExcept r >>= f) := by
  cases r with
  | ok x =>
    have hfirst : ∀ h, Gives (ofExcept (.ok x)) h x h := fun h => gives_ofExcept.mpr ⟨rfl, rfl⟩
    constructor
    · rintro ⟨_, heq, hp⟩ h
      obtain rfl := Except.ok.inj heq
      obtain ⟨h', hgives, hprinted⟩ := (hf x rfl).gives hp h
      exact ⟨h', (hfirst h).run_bind.trans hgives, hprinted⟩
    · intro hno h
      obtain ⟨e, h', hstops⟩ := (hf x rfl).stops (fun hp => hno ⟨x, rfl, hp⟩) h
      exact ⟨e, h', (hfirst h).run_bind.trans hstops⟩
  | error e =>
    refine ⟨fun ⟨_, heq, _⟩ => (nomatch heq), fun _ h => ⟨e, h, ?_⟩⟩
    have hfirst : Stops (ofExcept (.error e) : Command α) h (.failure e) h := rfl
    exact hfirst.run_bind

/-- One print for each of several things. -/
theorem PrintsIf.forIn {xs : List γ} {P : γ → Prop} {g : γ → β → Command (ForInStep β)}
    (hg : ∀ x ∈ xs, PrintsIf (P x) (.yield y) (g x y)) :
    PrintsIf (∀ x ∈ xs, P x) y (forIn xs y g) := by
  induction xs with
  | nil => exact (printsIf_pure y).congr (by simp)
  | cons x xs ih =>
    rw [List.forIn_cons]
    have hrest := ih fun z hz => hg z (List.mem_cons_of_mem _ hz)
    exact ((hg x List.mem_cons_self).bind hrest).congr List.forall_mem_cons.symm

end rules

/-! ## Texts -/

theorem printsIf_printLines (ls : List (List Char)) : PrintsIf True () (printLines ls) :=
  ⟨fun _ _ => ⟨_, rfl, _, rfl⟩, fun hno => absurd trivial hno⟩

theorem printsIf_showStyles (rs : List Rendered) :
    PrintsIf (∀ r ∈ rs, r.fault? = none) () (showStyles rs) := by
  refine PrintsIf.congr ?_ List.findSome?_eq_none_iff
  unfold showStyles
  cases rs.findSome? Rendered.fault? with
  | none => exact (printsIf_pure ()).congr (by simp)
  | some f => exact ⟨fun hnone => (nomatch hnone), fun _ h => ⟨.value f, h, rfl⟩⟩

/-- Lines of a text that is shown. -/
theorem printsIf_rendered (text : String) (lines : Rendered → List (List Char)) :
    PrintsIf (Shown text) () (do
      let r ← render text
      showStyles [r]
      printLines (lines r)) := by
  refine PrintsIf.ofExcept_bind fun r _ => ?_
  exact ((printsIf_showStyles [r]).bind (printsIf_printLines _)).congr (by simp)

theorem printsIf_say (text : String) : PrintsIf (Shown text) () (say text) :=
  printsIf_rendered text _

theorem printsIf_sayPanel (title : String) (ls : List String) :
    PrintsIf (Shown (String.intercalate "\n" ls)) () (sayPanel title ls) :=
  printsIf_rendered _ _

/-! ## Tables -/

/-- A step for each of several things gives what it gives as a value. -/
theorem mapM_ofExcept {γ δ : Type} (g : γ → Except Failure δ) (xs : List γ) :
    (xs.mapM fun x => ofExcept (g x) : Command (List δ)) = ofExcept (xs.mapM g) := by
  induction xs with
  | nil => rfl
  | cons x xs ih =>
    rw [List.mapM_cons, List.mapM_cons, ih]
    cases g x with
    | error f => rfl
    | ok y => cases xs.mapM g <;> rfl

/-- Rendered cells, as they are shown row by row. -/
def cellsByRow (rendered : List (List Rendered)) : List Rendered :=
  (List.range ((rendered.map List.length).foldl max 0)).flatMap fun i =>
    rendered.filterMap (·[i]?)

/-- Row by row every cell is shown. -/
theorem mem_cellsByRow {rendered : List (List Rendered)} {r : Rendered} :
    r ∈ cellsByRow rendered ↔ ∃ cells ∈ rendered, r ∈ cells := by
  simp only [cellsByRow, List.mem_flatMap, List.mem_filterMap, List.mem_range]
  constructor
  · rintro ⟨i, -, cells, hcells, hr⟩
    exact ⟨cells, hcells, List.mem_of_getElem? hr⟩
  · rintro ⟨cells, hcells, hr⟩
    obtain ⟨i, hi, rfl⟩ := List.mem_iff_getElem.mp hr
    refine ⟨i, Nat.lt_of_lt_of_le hi ?_, cells, hcells, List.getElem?_eq_getElem hi⟩
    exact (Console.le_foldl_max 0).2 _ (List.mem_map_of_mem hcells)

/-- **Every cell of some columns is shown.** -/
def CellsShown (columns : List MarkedColumn) : Prop :=
  ∀ column ∈ columns, ∀ cell ∈ column.cells, Shown cell

/-- The cells are rendered column by column, and then their styles are shown row by row. -/
theorem rendered_iff {columns : List MarkedColumn} :
    (∃ rendered, columns.mapM (fun c => c.cells.mapM Markup.render) = .ok rendered ∧
      ∀ r ∈ cellsByRow rendered, r.fault? = none) ↔ CellsShown columns := by
  constructor
  · rintro ⟨rendered, hrendered, hshown⟩ column hcolumn cell hcell
    obtain ⟨cells, hcells, hcolumn⟩ := exists_mem_of_mapM hrendered hcolumn
    obtain ⟨r, hr, hcell⟩ := exists_mem_of_mapM hcolumn hcell
    exact ⟨r, hcell, hshown r (mem_cellsByRow.mpr ⟨cells, hcells, hr⟩)⟩
  · intro hshown
    obtain ⟨rendered, hrendered⟩ := exists_mapM fun (c : MarkedColumn) hc =>
      exists_mapM fun cell hcell => (hshown c hc cell hcell).imp fun _ hr => hr.1
    refine ⟨rendered, hrendered, fun r hr => ?_⟩
    obtain ⟨cells, hcells, hr⟩ := mem_cellsByRow.mp hr
    obtain ⟨column, hcolumn, hcells⟩ := exists_of_mem_mapM hrendered hcells
    obtain ⟨cell, hcell, hrender⟩ := exists_of_mem_mapM hcells hr
    obtain ⟨r', hrender', hfault⟩ := hshown column hcolumn cell hcell
    obtain rfl := Except.ok.inj (hrender.symm.trans hrender')
    exact hfault

/-- Lines around columns whose cells are shown. -/
theorem printsIf_columns (columns : List MarkedColumn)
    (lines : List Console.Column → List (List Char)) :
    PrintsIf (CellsShown columns) () (do printLines (lines (← renderColumns columns))) := by
  have hrender : (columns.mapM fun c => c.cells.mapM render) =
      ofExcept (columns.mapM fun c => c.cells.mapM Markup.render) := by
    rw [← mapM_ofExcept]
    exact congrArg (List.mapM · columns) (funext fun c => mapM_ofExcept Markup.render c.cells)
  unfold renderColumns
  rw [hrender, bind_assoc]
  refine PrintsIf.congr (.ofExcept_bind fun rendered _ => ?_) rendered_iff
  rw [bind_assoc]
  refine PrintsIf.congr ((printsIf_showStyles _).bind ?_) (and_iff_left trivial)
  rw [pure_bind]
  exact printsIf_printLines _

theorem printsIf_sayTable (title : Option String) (columns : List MarkedColumn) :
    PrintsIf (CellsShown columns) () (sayTable title columns) :=
  printsIf_columns columns _

/-! ## Success -/

/-- **A command succeeds**: the run ends with exit code zero and no failure. -/
def Succeeds (c : Command Unit) (h : Host) : Prop := ending (c.run.run h).1 = ⟨0, none, false⟩

section success
variable {P : Prop} {α : Type} {x : α} {c : Command Unit} {d : Command α} {f : α → Command Unit}
  {h h' : Host}

/-- An exit code of zero rules a failure out. -/
theorem succeeds_iff_exitCode : Succeeds c h ↔ (ending (c.run.run h).1).exitCode = 0 := by
  refine ⟨fun hsuccess => congrArg Ending.exitCode hsuccess, fun hzero => ?_⟩
  unfold Succeeds
  match hrun : (c.run.run h).1 with
  | .ok () => rfl
  | .error (.exit code) =>
    rw [hrun] at hzero
    exact congrArg (Ending.mk · none false) hzero
  | .error .endOfInput | .error (.failure _) =>
    rw [hrun] at hzero
    cases hzero

end success

end Command

end Regen
