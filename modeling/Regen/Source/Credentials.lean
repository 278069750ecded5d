/-! # Credentials in URLs

    Credentials in front of the host of a web address are replaced by three stars wherever the
    address occurs in a text, before the text is shown or stored. -/

namespace Regen

/-- Is the character the letter, in either case?  The long s counts as an s. -/
def isLetter (letter c : Char) : Bool :=
  c.toLower == letter || (letter == 's' && c == 'ſ')

/-- Take letters, in either case, from the front of a text. -/
def takeLetters? : List Char → List Char → Option (List Char × List Char)
  | [], cs => some ([], cs)
  | l :: letters, c :: cs =>
    if isLetter l c then (takeLetters? letters cs).map fun r => (c :: r.1, r.2) else none
  | _ :: _, [] => none

/-- Take the beginning of a web address, up to its authority. -/
def takeWebScheme? (cs : List Char) : Option (List Char × List Char) :=
  (takeLetters? "https://".toList cs).or (takeLetters? "http://".toList cs)

/-- The rest behind the credentials that a text begins with: some characters other than `@` and a
    slash, and an `@`. -/
def afterCredentials? (cs : List Char) : Option (List Char) :=
  let isInner (c : Char) : Bool := c != '@' && c != '/'
  match cs.takeWhile isInner, cs.dropWhile isInner with
  | _ :: _, '@' :: rest => some rest
  | _, _ => none

/-- Replace the credentials of web addresses.  `fuel` bounds the length of the text. -/
def maskFrom : Nat → List Char → List Char
  | 0, cs => cs
  | _, [] => []
  | fuel + 1, c :: cs =>
    match takeWebScheme? (c :: cs) with
    | some (scheme, rest) =>
      match afterCredentials? rest with
      | some rest => scheme ++ "***@".toList ++ maskFrom fuel rest
      | none => c :: maskFrom fuel cs
    | none => c :: maskFrom fuel cs

/-- Replace the credentials of all web addresses in a text. -/
def maskCredentials (s : String) : String :=
  String.ofList (maskFrom (s.length + 1) s.toList)

end Regen
