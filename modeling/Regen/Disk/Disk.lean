import Regen.Disk.Path
import Regen.Sort
import Regen.Text.Utf8

/-! # The disk

    The files, folders and links below the root.  A place is the list of names that leads to
    something from the root; the root itself is a folder.  Paths are followed name by name, and a
    link is followed as it is met. -/

namespace Regen

/-- Why the disk refuses something. -/
inductive DiskFault where
  | notFound
  | notFolder
  | isFolder
  | exists
  | nameTooLong
  | tooManyLinks
  | denied
  | busy
  | notEmpty
  deriving DecidableEq, Repr

def DiskFault.message : DiskFault → String
  | .notFound => "No such file or directory"
  | .notFolder => "Not a directory"
  | .isFolder => "Is a directory"
  | .exists => "File exists"
  | .nameTooLong => "File name too long"
  | .tooManyLinks => "Too many levels of symbolic links"
  | .denied => "Permission denied"
  | .busy => "Device or resource busy"
  | .notEmpty => "Directory not empty"

abbrev Bytes := List UInt8

/-- The names that lead to something from the root. -/
abbrev Place := List String

/-- What may be at a place. -/
inductive Entry where
  /-- A file's content and the time of its last change in nanoseconds since 1970. -/
  | file (content : Bytes) (changed : Int)
  | folder
  | link (target : String)
  deriving DecidableEq, Repr

/-- What is on the disk, each place once, and the folder that relative paths start from. -/
structure Disk where
  entries : List (Place × Entry)
  workFolder : Place
  deriving Repr

/-- Where a path leads. -/
inductive Spot where
  | found (place : Place) (entry : Entry)
  /-- Nothing is there, but its folder exists. -/
  | vacant (place : Place)
  deriving DecidableEq, Repr

namespace Disk

/-! ## Places -/

/-- What is at a place. -/
def at? (d : Disk) (p : Place) : Option Entry :=
  if p.isEmpty then some .folder else (d.entries.find? (·.1 == p)).map (·.2)

/-- Put something at a place, in place of what was there. -/
def put (d : Disk) (p : Place) (e : Entry) : Disk :=
  { d with entries := (p, e) :: d.entries.filter fun x => x.1 != p }

/-- Remove what is at a place. -/
def remove (d : Disk) (p : Place) : Disk :=
  { d with entries := d.entries.filter fun x => x.1 != p }

/-- Remove what is at a place and below it. -/
def removeTree (d : Disk) (p : Place) : Disk :=
  { d with entries := d.entries.filter fun x => !p.isPrefixOf x.1 }

/-- The names in a folder. -/
def namesIn (d : Disk) (p : Place) : List String :=
  d.entries.filterMap fun x => if x.1.dropLast == p then x.1.getLast? else none

/-- Is something below a place? -/
def hasChildren (d : Disk) (p : Place) : Bool := !(d.namesIn p).isEmpty

/-! ## Following paths -/

/-- The longest name in bytes. -/
def maxName : Nat := 255

/-- The longest path in bytes. -/
def maxPath : Nat := 4095

/-- How many links are followed on one way. -/
def maxLinks : Nat := 40

/-- Follow names from a folder.  `links` bounds the links that may still be followed and `fuel`
    the steps; the last name's link is followed only if `last` says so. -/
def follow (d : Disk) (last : Bool) : Nat → Nat → Place → List String → Except DiskFault Spot
  | 0, _, _, _ => .error .tooManyLinks
  | _, _, p, [] =>
    match d.at? p with
    | some e => .ok (.found p e)
    | none => .error .notFound
  | fuel + 1, links, p, ".." :: rest => follow d last fuel links p.dropLast rest
  | fuel + 1, links, p, name :: rest =>
    let next := p ++ [name]
    if maxName < name.utf8ByteSize then .error .nameTooLong
    else match d.at? next with
      | none => if rest.isEmpty then .ok (.vacant next) else .error .notFound
      | some .folder => follow d last fuel links next rest
      | some (.file c t) =>
      if rest.isEmpty then .ok (.found next (.file c t)) else .error .notFolder
      | some (.link target) =>
        if rest.isEmpty && !last then .ok (.found next (.link target))
        else
          match links with
          | 0 => .error .tooManyLinks
          | links + 1 =>
            let t := Path.ofText target
            follow d last fuel links (if t.isAbsolute then [] else p) (t.parts ++ rest)

/-- The length of the longest target of a link. -/
def longestTarget (d : Disk) : Nat :=
  d.entries.foldr (fun x m => match x.2 with
    | .link t => max t.length m
    | _ => m) 0

/-- Steps enough for any way with the allowed number of links. -/
def steps (d : Disk) (n : Nat) : Nat := n + 1 + (maxLinks + 1) * (d.longestTarget + 1)

/-- The folder that a path starts from. -/
def base (d : Disk) (p : Path) : Place := if p.isAbsolute then [] else d.workFolder

/-- Follow a path; a link at its end is followed only if `last` says so. -/
def locate (d : Disk) (p : Path) (last : Bool) : Except DiskFault Spot :=
  if maxPath < p.text.utf8ByteSize then .error .nameTooLong
  else d.follow last (d.steps p.parts.length) maxLinks (d.base p) p.parts

/-- Does a path hold a character that no path can hold? -/
def holdsNull (p : Path) : Bool := p.parts.any fun s => s.toList.contains '\x00'

/-- Is a fault the plain absence of something? -/
def isAbsence : DiskFault → Bool
  | .notFound | .notFolder | .tooManyLinks => true
  | _ => false

/-- What a path leads to, nothing if it is absent. -/
def lookUp (d : Disk) (p : Path) : Except DiskFault (Option (Place × Entry)) :=
  if holdsNull p then .ok none
  else match d.locate p true with
    | .ok (.found place e) => .ok (some (place, e))
    | .ok (.vacant _) => .ok none
    | .error f => if isAbsence f then .ok none else .error f

def exists? (d : Disk) (p : Path) : Except DiskFault Bool :=
  (d.lookUp p).map (·.isSome)

def isFolder? (d : Disk) (p : Path) : Except DiskFault Bool :=
  (d.lookUp p).map fun
    | some (_, .folder) => true
    | _ => false

def isFile? (d : Disk) (p : Path) : Except DiskFault Bool :=
  (d.lookUp p).map fun
    | some (_, .file ..) => true
    | _ => false

/-- Names from a place, two dots taken as written: they undo the name before them. -/
def climb (p : Place) (names : List String) : Place :=
  names.foldl (fun q name => if name == ".." then q.dropLast else q ++ [name]) p

/-- The place that names lead to when every link is followed.  What does not exist is taken name
    by name.  `opened` are the links being followed; one that is met again leads in a circle, and
    then the rest is left as it is written.  The flag says that there was no circle, and `fuel`
    bounds the steps. -/
def settle (d : Disk) (opened : List Place) : Nat → Place → List String → Place × Bool
  | 0, p, rest => (climb p rest, false)
  | _, p, [] => (p, true)
  | fuel + 1, p, ".." :: rest => settle d opened fuel p.dropLast rest
  | fuel + 1, p, name :: rest =>
    let next := p ++ [name]
    match d.at? next with
    | some (.link target) =>
      if opened.contains next then (climb next rest, false)
      else
        let t := Path.ofText target
        match settle d (next :: opened) fuel (if t.isAbsolute then [] else p) t.parts with
        | (q, true) => settle d opened fuel q rest
        | (q, false) => (climb q rest, false)
    | _ => settle d opened fuel next rest

/-- A path written from the root, two dots taken as written and no link followed. -/
def absolute (d : Disk) (p : Path) : Path := ⟨max p.slashes 1, climb (d.base p) p.parts⟩

/-- Steps enough to settle any path of `n` parts. -/
def settleSteps (d : Disk) (n : Nat) : Nat :=
  d.entries.foldr (fun x steps => match x.2 with
    | .link t => t.length + 1 + steps
    | _ => steps) (n + 1)

/-- The absolute path without links that a path leads to. -/
def realPath (d : Disk) (p : Path) : Path :=
  ⟨1, (d.settle [] (d.settleSteps p.parts.length) (d.base p) p.parts).1⟩

/-! ## Reading and writing -/

/-- The content of a file and the time of its last change. -/
def fileAt (d : Disk) (p : Path) : Except DiskFault (Bytes × Int) :=
  match d.locate p true with
  | .ok (.found _ (.file c t)) => .ok (c, t)
  | .ok (.found _ _) => .error .isFolder
  | .ok (.vacant _) => .error .notFound
  | .error f => .error f

/-- The time of change that a written file gets: it is not looked at. -/
def writtenAt : Int := 1717243200000000000

/-- Put a file at a path, following a link at its end. -/
def putFile (d : Disk) (p : Path) (content : Bytes) (changed : Int) : Except DiskFault Disk :=
  match d.locate p true with
  | .ok (.found place (.file ..)) | .ok (.vacant place) => .ok (d.put place (.file content changed))
  | .ok (.found _ _) => .error .isFolder
  | .error f => .error f

/-- Write a file in place, following a link at the end of its path. -/
def writeFile (d : Disk) (p : Path) (content : Bytes) : Except DiskFault Disk :=
  d.putFile p content writtenAt

/-- Make one folder. -/
def makeFolder (d : Disk) (p : Path) : Except DiskFault Disk :=
  match d.locate p false with
  | .ok (.found ..) => .error .exists
  | .ok (.vacant place) => .ok (d.put place .folder)
  | .error f => .error f

/-- Make one folder; one that exists already is fine. -/
def ensureFolder (d : Disk) (p : Path) : Disk × Except DiskFault Unit :=
  match d.makeFolder p with
  | .ok d => (d, .ok ())
  | .error .notFound => (d, .error .notFound)
  | .error f => (d, if (d.isFolder? p).toOption.getD false then .ok () else .error f)

/-- Make a folder and the folders around it that are missing.  `fuel` bounds the number of
    folders around it; folders that were made stay when a later one cannot be made. -/
def makeFoldersFrom : Nat → Disk → Path → Disk × Except DiskFault Unit
  | 0, d, p => d.ensureFolder p
  | fuel + 1, d, p =>
    match d.ensureFolder p with
    | (d, .error .notFound) =>
      if p.parent == p then (d, .error .notFound)
      else match makeFoldersFrom fuel d p.parent with
        | (d, .ok ()) => d.ensureFolder p
        | failed => failed
    | done => done

/-- Make a folder and the folders around it that are missing. -/
def makeFolders (d : Disk) (p : Path) : Disk × Except DiskFault Unit :=
  makeFoldersFrom (p.parts.length + 1) d p

/-- Create a file where nothing is. -/
def createFile (d : Disk) (p : Path) (content : Bytes) : Except DiskFault Disk :=
  match d.locate p false with
  | .ok (.found ..) => .error .exists
  | .ok (.vacant place) => .ok (d.put place (.file content writtenAt))
  | .error f => .error f

/-- Make a link where nothing is. -/
def makeLink (d : Disk) (p : Path) (target : String) : Except DiskFault Disk :=
  match d.locate p false with
  | .ok (.found ..) => .error .exists
  | .ok (.vacant place) => .ok (d.put place (.link target))
  | .error f => .error f

/-- Put something at a path, and folders around it where they are missing. -/
def install (d : Disk) (p : Path) (e : Entry) : Disk × Except DiskFault Unit :=
  match e with
  | .folder => d.makeFolders p
  | .file content changed =>
    match d.makeFolders p.parent with
    | (d, .ok ()) =>
      match d.putFile p content changed with
      | .ok d => (d, .ok ())
      | .error f => (d, .error f)
    | failed => failed
  | .link target =>
    match d.makeFolders p.parent with
    | (d, .ok ()) =>
      match d.makeLink p target with
      | .ok d => (d, .ok ())
      | .error f => (d, .error f)
    | failed => failed

/-- Give the file at a path another path, in place of a file or link that is there. -/
def moveFile (d : Disk) (source target : Path) : Except DiskFault Disk :=
  match d.locate source false with
  | .ok (.found from_ e) =>
    match target.parts.getLast? with
    | none | some ".." => .error .busy
    | some _ =>
      match d.locate target false with
      | .ok (.found _ .folder) => .error .isFolder
      | .ok (.found place _) | .ok (.vacant place) => .ok ((d.remove from_).put place e)
      | .error f => .error f
  | .ok (.vacant _) => .error .notFound
  | .error f => .error f

/-- Remove a file or a link. -/
def unlink (d : Disk) (p : Path) : Except DiskFault Disk :=
  match d.locate p false with
  | .ok (.found _ .folder) => .error .isFolder
  | .ok (.found place _) => .ok (d.remove place)
  | .ok (.vacant _) => .error .notFound
  | .error f => .error f

/-- Remove a file, a link or a tree. -/
def delete (d : Disk) (p : Path) : Except DiskFault Disk :=
  match d.locate p false with
  | .ok (.found place _) => .ok (d.removeTree place)
  | .ok (.vacant _) => .error .notFound
  | .error f => .error f

/-! ## Walking -/

/-- Everything below a folder, as lists of names; links are listed but not entered. -/
def below (d : Disk) : Nat → Place → List (List String)
  | 0, _ => []
  | fuel + 1, p =>
    (d.namesIn p).flatMap fun name =>
      let here := [name]
      match d.at? (p ++ here) with
      | some .folder => here :: (below d fuel (p ++ here)).map (here ++ ·)
      | _ => [here]

/-- The paths of all files below a folder, in the order of their parts.  A link counts if it
    leads to a file. -/
def filesBelow (d : Disk) (folder : Path) : Except DiskFault (List Path) :=
  match d.locate folder true with
  | .ok (.found place .folder) => do
    let paths := (d.below (d.entries.length + 1) place).map fun names => folder / ⟨0, names⟩
    let files ← paths.filterM d.isFile?
    pure (sortBy (fun a b => namesBefore a.parts b.parts) files)
  | .ok _ => .error .notFolder
  | .error f => .error f

/-- The paths of everything below a folder that is not a folder and does not lead to one. -/
def leavesBelow (d : Disk) (folder : Place) : List Path :=
  (d.below (d.entries.length + 1) folder).filterMap fun names =>
    if (d.isFolder? ⟨1, folder ++ names⟩).toOption.getD false then none else some ⟨0, names⟩

/-! ## Small facts -/

@[simp] theorem at?_nil (d : Disk) : d.at? [] = some .folder := rfl

/-- What was put at a place is there. -/
theorem at?_put_self (d : Disk) {p : Place} (hp : p ≠ []) (e : Entry) :
    (d.put p e).at? p = some e := by
  simp [at?, put, hp]

/-- Removing other places does not change what is found at one. -/
theorem find?_filter_ne (entries : List (Place × Entry)) {p q : Place} (h : q ≠ p) :
    ((entries.filter fun x => x.1 != p).find? fun x => x.1 == q) =
      entries.find? fun x => x.1 == q := by
  rw [List.find?_filter]
  congr 1
  funext x
  by_cases hx : x.1 = q
  · subst hx; simpa using h
  · simp [hx]

/-- Other places keep what they hold. -/
theorem at?_put_ne (d : Disk) {p q : Place} (h : q ≠ p) (e : Entry) :
    (d.put p e).at? q = d.at? q := by
  have hp : (p == q) = false := by simpa using Ne.symm h
  simp [at?, put, hp, find?_filter_ne d.entries h]

theorem at?_remove_ne (d : Disk) {p q : Place} (h : q ≠ p) : (d.remove p).at? q = d.at? q := by
  simp [at?, remove, find?_filter_ne d.entries h]

/-- Nothing is at a place from which it was removed. -/
theorem at?_remove_self (d : Disk) {p : Place} (hp : p ≠ []) : (d.remove p).at? p = none := by
  simp [at?, remove, hp, List.find?_filter]

end Disk

end Regen
