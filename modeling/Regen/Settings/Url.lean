import Regen.Failure
import Regen.Text.Lines

/-! # URLs of sources

    A source is given by a URL, by `git@` and a host, or by a path.  Of a URL the scheme and the
    authority matter: the scheme must be a known one, and the authority must not hold a password,
    nor a user name where the scheme would send it along. -/

namespace Regen.Url

/-! ## Addresses in brackets -/

/-- One of the four numbers of a version 4 address. -/
def isOctet (cs : List Char) : Bool :=
  !cs.isEmpty && cs.length ≤ 3 && cs.all Char.isDigit && (cs == ['0'] || cs.head? != some '0') &&
    cs.foldl (fun n c => 10 * n + (c.toNat - 0x30)) 0 ≤ 255

/-- Is the text a version 4 address? -/
def isV4 (cs : List Char) : Bool :=
  let octets := Text.splitAt (· == '.') cs
  octets.length == 4 && octets.all isOctet

def isHexDigit (c : Char) : Bool :=
  c.isDigit || ('a' ≤ c && c ≤ 'f') || ('A' ≤ c && c ≤ 'F')

/-- One of the eight numbers of a version 6 address. -/
def isHextet (cs : List Char) : Bool := !cs.isEmpty && cs.length ≤ 4 && cs.all isHexDigit

/-- A version 4 address at the end stands for the last two numbers. -/
def expandV4 (parts : List (List Char)) : Option (List (List Char)) :=
  match parts.getLast? with
  | some last =>
    if last.contains '.' then
      if isV4 last then some (parts.dropLast ++ [['0'], ['0']]) else none
    else some parts
  | none => none

/-- Are these the numbers of a version 6 address?  At one place inside, an empty part stands for
    as many zeros as are missing; an empty part at an end belongs to it. -/
def isV6Parts (parts : List (List Char)) : Bool :=
  let inner := parts.tail.dropLast
  match inner.idxOf? [] with
  | none => parts.length == 8 && parts.all isHextet
  | some i =>
    let before := parts.take (i + 1)
    let after := parts.drop (i + 2)
    let before := if before == [[]] then [] else before
    let after := if after == [[]] then [] else after
    before.all isHextet && after.all isHextet && before.length + after.length ≤ 7

/-- An address may end with a percent sign and the name of a zone. -/
def dropZone (cs : List Char) : Option (List Char) :=
  match cs.dropWhile (· != '%') with
  | [] => some cs
  | _ :: zone => if zone.isEmpty || zone.contains '%' then none else some (cs.takeWhile (· != '%'))

/-- Is the text a version 6 address? -/
def isV6 (cs : List Char) : Bool :=
  if cs.contains '/' then false
  else match dropZone cs with
    | none => false
    | some cs =>
      let parts := Text.splitAt (· == ':') cs
      if parts.length < 3 then false
      else match expandV4 parts with
        | some parts => parts.length ≤ 9 && isV6Parts parts
        | none => false

/-- An address of a later version: `v`, its number, a dot and something. -/
def isFuture (cs : List Char) : Bool :=
  match cs with
  | 'v' :: rest =>
    !(rest.takeWhile isHexDigit).isEmpty &&
      match rest.dropWhile isHexDigit with
      | '.' :: _ :: _ => true
      | _ => false
  | _ => false

/-- What is wrong with a host in brackets. -/
def bracketFault? (host : List Char) : Option UrlFault :=
  if host.head? == some 'v' then if isFuture host then none else some .futureAddress
  else if isV4 host then some .bracketedV4
  else if isV6 host then none
  else some (.address (String.ofList host))

/-! ## Parts of a URL -/

/-- What matters of a URL. -/
structure Parts where
  scheme : String
  authority : List Char
  deriving Repr, DecidableEq

/-- May the character stand in a scheme? -/
def isSchemeChar (c : Char) : Bool :=
  c.isAlphanum || c == '+' || c == '-' || c == '.'

/-- The scheme in lower case and what follows it; without a scheme all follows. -/
def splitScheme (cs : List Char) : String × List Char :=
  let scheme := cs.takeWhile (· != ':')
  match cs.dropWhile (· != ':') with
  | ':' :: rest =>
    if (scheme.head?.any Char.isAlpha) && scheme.all isSchemeChar then
      (String.ofList (scheme.map Char.toLower), rest)
    else ("", cs)
  | _ => ("", cs)

/-- Characters that turn into a delimiter when they are brought to compatible form. -/
def isLookalike (c : Char) : Bool :=
  [0x2047, 0x2048, 0x2049, 0x2100, 0x2101, 0x2105, 0x2106, 0x2A74, 0xFE13, 0xFE16, 0xFE55, 0xFE56,
    0xFE5F, 0xFE6B, 0xFF03, 0xFF0F, 0xFF1A, 0xFF1F, 0xFF20].contains c.toNat

/-- What is wrong with an authority. -/
def authorityFault? (authority : List Char) : Option UrlFault :=
  let opened := authority.contains '['
  let closed := authority.contains ']'
  let bracketed := ((authority.dropWhile (· != '[')).drop 1).takeWhile (· != ']')
  let inBrackets :=
    if opened != closed then some .brackets
    else if opened then bracketFault? bracketed
    else none
  inBrackets.or
    (if authority.any isLookalike then some (.lookalike (String.ofList authority)) else none)

/-- The scheme and authority of a URL.  Leading controls and spaces are dropped, and so are tabs
    and line ends everywhere. -/
def parts (url : String) : Except UrlFault Parts :=
  let cs := url.toList.dropWhile fun c => c.toNat ≤ 0x20
  let (scheme, rest) := splitScheme (cs.filter fun c => c != '\t' && c != '\r' && c != '\n')
  let authority := match rest with
    | '/' :: '/' :: rest => rest.takeWhile fun c => c != '/' && c != '?' && c != '#'
    | _ => []
  match authorityFault? authority with
  | some f => .error f
  | none => .ok ⟨scheme, authority⟩

/-- The user name and password of an authority: what stands before its last `@`, cut at the first
    colon. -/
def Parts.userInfo (p : Parts) : List Char × List Char :=
  if p.authority.contains '@' then
    let info := ((p.authority.reverse.dropWhile (· != '@')).drop 1).reverse
    (info.takeWhile (· != ':'), (info.dropWhile (· != ':')).drop 1)
  else ([], [])

/-! ## Judgement -/

/-- Does `needle` occur in a text? -/
def occurs (needle : List Char) : List Char → Bool
  | [] => needle.isEmpty
  | c :: rest => needle.isPrefixOf (c :: rest) || occurs needle rest

/-- Is a source reached over the network? -/
def isRemote (url : String) : Bool :=
  occurs "://".toList url.toList || url.startsWith "git@"

def allowedSchemes : List String := ["https", "http", "ssh", "file"]

/-- May a source have this URL? -/
def check (source url : String) : Except Failure Unit :=
  if url == "" then .error (.settings (.noUrl source))
  else if url.startsWith "git@" || !occurs "://".toList url.toList then .ok ()
  else match parts url with
    | .error f => .error (.value (.url f))
    | .ok p =>
      let (user, password) := p.userInfo
      if !allowedSchemes.contains p.scheme then .error (.settings (.scheme source p.scheme))
      else if !password.isEmpty || (!user.isEmpty && (p.scheme == "http" || p.scheme == "https"))
      then .error (.settings (.credentials source))
      else .ok ()

end Regen.Url
