import Regen.Settings.Basic
import Regen.Settings.Url

/-! # Checks of the sources

    Names identify sources, so they are plain and distinct; kinds and URLs are known ones, and a
    source depends on other configured sources only. -/

namespace Regen

/-- A letter or digit of ASCII. -/
def isNameStart (c : Char) : Bool := c.isAlphanum

/-- A character that a name may go on with. -/
def isNameChar (c : Char) : Bool := c.isAlphanum || c == '.' || c == '_' || c == '-'

/-- Is the name plain?  A line feed at its end is overlooked. -/
def isPlainName (name : String) : Bool :=
  let cs := name.toList
  let cs := if cs.getLast? == some '\n' then cs.dropLast else cs
  match cs with
  | [] => false
  | c :: rest => isNameStart c && rest.all isNameChar

/-- Check a source by itself; `seen` are the names before it. -/
def Source.check (s : Source) (seen : List String) : Except Failure Unit :=
  if !isPlainName s.name then .error (.settings (.sourceName s.name))
  else if seen.contains s.name then .error (.settings (.duplicateSource s.name))
  else if !sourceKinds.contains s.kind then .error (.settings (.sourceKind s.name s.kind))
  else Url.check s.name s.git.url

/-- Check the dependencies of a source against all names. -/
def Source.checkNeeds (s : Source) (names : List String) : List String → Except Failure Unit
  | [] => .ok ()
  | d :: rest =>
    if d == s.name then .error (.settings (.selfDependency s.name))
    else if !names.contains d then .error (.settings (.unknownDependency s.name d))
    else s.checkNeeds names rest

/-- Check each source by itself, in order. -/
def checkEach (seen : List String) : List Source → Except Failure Unit
  | [] => .ok ()
  | s :: rest =>
    match s.check seen with
    | .ok () => checkEach (s.name :: seen) rest
    | .error f => .error f

/-- Check the dependencies of each source, in order. -/
def checkAllNeeds (names : List String) : List Source → Except Failure Unit
  | [] => .ok ()
  | s :: rest =>
    match s.checkNeeds names s.dependsOn with
    | .ok () => checkAllNeeds names rest
    | .error f => .error f

/-- Check the sources, first each by itself and then their dependencies. -/
def checkSources (sources : List Source) : Except Failure Unit :=
  match checkEach [] sources with
  | .ok () => checkAllNeeds (sources.map (·.name)) sources
  | .error f => .error f

end Regen
