import Regen.Command.Run
import Regen.Proofs.Outcome

/-! # Endings of commands

    A command that stops early ends the run with an exit code, and only a deliberate exit can be
    a success.  Printing, rendering and running on the host never exit; so a run whose exit code
    is zero either came to its end or reached an exit that says so. -/

namespace Regen

/-- A reason to stop that does not end the run as a success. -/
def Stop.Fails (e : Stop) : Prop := e ≠ .exit 0

namespace Command

section endings
variable {α : Type}

theorem gives_ofExcept {r : Except Failure α} {x : α} {h h' : Host} :
    Gives (ofExcept r) h x h' ↔ r = .ok x ∧ h = h' := by
  match r with
  | .ok y =>
    rw [Except.ok.injEq]
    exact gives_pure
  | .error f => exact ⟨fun hrun => (nomatch (Prod.mk.inj hrun).1), fun hr => (nomatch hr.1)⟩

/-- Within a command a run that is attempted gives its outcome. -/
theorem gives_attempt {r : Run α} {outcome : Except Failure α} {h h' : Host} :
    Gives (attempt r) h outcome h' ↔ r.run.run h = (outcome, h') := by
  have hattempt : (attempt r).run.run h = (.ok (r.run.run h).1, (r.run.run h).2) := rfl
  rw [Gives, hattempt]
  constructor
  · intro hrun
    obtain ⟨houtcome, hh⟩ := Prod.mk.inj hrun
    exact Prod.ext (Except.ok.inj houtcome) hh
  · intro hrun
    rw [hrun]

theorem not_gives_exit {code : Nat} {x : α} {h h' : Host} : ¬Gives (exit code) h x h' :=
  fun hrun => nomatch (Prod.mk.inj hrun).1

theorem not_gives_sayAndExit {text : String} {code : Nat} {x : α} {h h' : Host} :
    ¬Gives (sayAndExit text code) h x h' := by
  intro hrun
  obtain ⟨_, _, _, hexit⟩ := gives_bind.mp hrun
  exact not_gives_exit hexit

/-! ## Commands that do not exit -/

/-- A run within a command stops it with its failure. -/
theorem fails_ofRun (r : Run α) : StopsOnly Stop.Fails (ofRun r) := by
  intro h e h' hstops
  have hrun : (ofRun r).run.run h = ((r.run.run h).1.mapError .failure, (r.run.run h).2) := rfl
  rw [Stops, hrun] at hstops
  rcases hr : (r.run.run h).1 with f | x
  · rw [hr] at hstops
    obtain rfl := Except.error.inj (Prod.mk.inj hstops).1
    intro heq
    cases heq
  · rw [hr] at hstops
    cases (Prod.mk.inj hstops).1

theorem fails_ofExcept (r : Except Failure α) : StopsOnly Stop.Fails (ofExcept r) := fails_ofRun _

theorem fails_exit {code : Nat} (hcode : code ≠ 0) :
    StopsOnly Stop.Fails (exit code : Command α) :=
  .throw fun heq => hcode (Stop.exit.inj heq)

theorem fails_echo (text : String) : StopsOnly Stop.Fails (echo text) := .modify _

theorem fails_printLines (lines : List (List Char)) : StopsOnly Stop.Fails (printLines lines) :=
  fails_echo _

theorem fails_showStyles (texts : List Markup.Rendered) :
    StopsOnly Stop.Fails (showStyles texts) := by
  unfold showStyles
  split
  · exact .throw nofun
  · exact .pure ()

theorem fails_say (text : String) : StopsOnly Stop.Fails (say text) :=
  (fails_ofExcept _).bind fun _ => (fails_showStyles _).bind fun _ => fails_printLines _

theorem fails_sayTable (title : Option String) (columns : List MarkedColumn) :
    StopsOnly Stop.Fails (sayTable title columns) := by
  refine StopsOnly.bind ?_ fun _ => fails_printLines _
  exact (StopsOnly.mapM fun c => .mapM fun text => fails_ofExcept _).bind fun _ =>
    (fails_showStyles _).bind fun _ => .pure _

theorem fails_sayAndExit {text : String} {code : Nat} (hcode : code ≠ 0) :
    StopsOnly Stop.Fails (sayAndExit text code : Command α) :=
  (fails_say text).bind fun _ => fails_exit hcode

/-- **A run that cannot exit as a success succeeds only by coming to its end.** -/
theorem gives_of_exitCode {c : Command Unit} {h : Host} (hfails : StopsOnly Stop.Fails c)
    (hzero : (ending (c.run.run h).1).exitCode = 0) : ∃ h', Gives c h () h' := by
  rcases gives_or_stops c h with ⟨_, h', hgives⟩ | ⟨e, h', hstops⟩
  · exact ⟨h', hgives⟩
  -- A stop with exit code zero can only be the exit that is ruled out.
  · have hfail := hfails h e h' hstops
    rw [hstops] at hzero
    match e with
    | .exit code => exact absurd (congrArg Stop.exit hzero) hfail
    | .endOfInput | .failure _ => cases hzero

end endings

end Command

end Regen
