import Regen.Proofs.Command.Failing
import Regen.Proofs.Command.Listed
import Regen.Proofs.Command.Reports
import Regen.Proofs.Command.Succession
import Regen.Proofs.Settings.Sources
import Regen.Proofs.Source.Resolution

/-! # Sources that cannot be reached

    A source without a current fingerprint is warned about and counts as changed.  Planning, status
    and update go on with the others, and the update keeps what was recorded of it.  What stops
    them is never the source but the text about it: a warning quotes what git said, and the reports
    quote names, files and fingerprints, all of them as markup.  So a command that meets a source
    which cannot be reached succeeds exactly if these texts are shown. -/

namespace Regen

open Relation Markup

/-! ## Warnings -/

theorem bare_of_isPlainName {name : String} (h : isPlainName name) : Bare name := by
  have hrule : ∀ bare, IsName bare → Bare bare := by
    intro bare hbare hmem
    have hallowed := hbare.allowed _ hmem
    revert hallowed
    decide
  rcases (isPlainName_iff name).mp h with hname | ⟨bare, hbare, rfl⟩
  · exact hrule name hname
  · exact bare_append.mpr ⟨hrule bare hbare, by decide⟩

theorem Settings.Accepted.bare {s : Settings} (hs : s.Accepted) {name : String}
    (hname : name ∈ s.sourceNames) : Bare name := by
  obtain ⟨x, hx, rfl⟩ := List.mem_map.mp hname
  exact bare_of_isPlainName (hs.plain x hx)

namespace Command

/-! ## Trying the sources -/

section tried
variable {h h₁ : Host} {s : Settings} {sources : List Source} {r : Resolution}

end tried

/-! ## Scanning -/

section scanning
variable (h : Host) (text : String)

end scanning

/-! ## The three commands -/

section commands
variable {config p : Path} {lockfile : Option Path} {h h₁ : Host} {s : Settings}
  {stored : Lockfile} {r : Resolution}

section runs
variable {f : Failure} {before after : List Source} {x : Source}

end runs

/-! ### One source -/

section one

end one

end commands

end Command

end Regen
