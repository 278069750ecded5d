import Regen.Number.Read
import Regen.Yaml.ScalarText
import Regen.Yaml.Token

/-! # From text to tokens

    The lexer keeps the open block indentations, the nesting of brackets and, for each bracket
    level, the place of a token that turns out to be a mapping key if a colon follows it on the
    same line within 1024 characters. -/

namespace Regen.Yaml

/-- A token that may turn out to be a mapping key. -/
structure KeyCandidate where
  /-- How many tokens stand before it. -/
  tokenCount : Nat
  /-- It starts a line of the current block, so a colon has to follow. -/
  required : Bool
  index : Nat
  line : Nat
  column : Nat
  deriving Repr

/-- The state of the lexer. -/
structure Lexer where
  cursor : Cursor
  /-- The tokens so far, the latest first. -/
  tokens : List Token
  /-- How many tokens there are so far. -/
  count : Nat
  /-- The current block's indentation, -1 outside every block. -/
  indent : Int
  /-- The indentations of the blocks around it. -/
  outer : List Int
  /-- May a mapping key start here? -/
  keyAllowed : Bool
  /-- The key candidate of each bracket level, the innermost first; one level outside all
      brackets. -/
  candidates : List (Option KeyCandidate)
  count_eq : count = tokens.length
  deriving Repr

namespace Lexer

def start (text : List Char) : Lexer :=
  ⟨Cursor.start text, [], 0, -1, [], true, [none], rfl⟩

/-- Is the place inside brackets? -/
def inFlow (x : Lexer) : Bool := 1 < x.candidates.length

def push (x : Lexer) (t : Token) : Lexer :=
  { x with tokens := t :: x.tokens, count := x.count + 1, count_eq := by simp [x.count_eq] }

/-- Put a token behind the first `place` tokens. -/
def insertAt (x : Lexer) (place : Nat) (t : Token) : Lexer :=
  { x with
    tokens := x.tokens.take (x.count - place) ++ t :: x.tokens.drop (x.count - place)
    count := x.count + 1
    count_eq := by
      rw [x.count_eq, List.length_append, List.length_cons, ← Nat.add_assoc,
        ← List.length_append, List.take_append_drop] }

/-! ## Key candidates -/

/-- Is the candidate out of reach: on an earlier line or too far back? -/
def isStale (x : Lexer) (k : KeyCandidate) : Bool :=
  k.line != x.cursor.line || 1024 < x.cursor.index - k.index

/-- Give up the candidates that are out of reach; a required one may not be given up. -/
def dropStale (x : Lexer) : Except ReadError Lexer :=
  if x.candidates.any fun k => k.any fun k => x.isStale k && k.required then .error .malformed
  else .ok { x with candidates := x.candidates.map fun k => k.filter fun k => !x.isStale k }

/-- The candidate of the current bracket level. -/
def candidate? (x : Lexer) : Option KeyCandidate := x.candidates.headD none

def setCandidate (x : Lexer) (k : Option KeyCandidate) : Lexer :=
  { x with candidates := k :: x.candidates.drop 1 }

/-- Give up the candidate of the current level; a required one may not be given up. -/
def dropCandidate (x : Lexer) : Except ReadError Lexer :=
  match x.candidate? with
  | some k => if k.required then .error .malformed else .ok (x.setCandidate none)
  | none => .ok x

/-- Remember the next token as a candidate if a key may start here. -/
def noteCandidate (x : Lexer) : Except ReadError Lexer :=
  if x.keyAllowed then do
    let x ← x.dropCandidate
    let required := !x.inFlow && x.indent == x.cursor.column
    pure (x.setCandidate
      (some ⟨x.count, required, x.cursor.index, x.cursor.line, x.cursor.column⟩))
  else .ok x

/-! ## Indentation -/

/-- Close the blocks whose indentation is greater than a column.  Inside brackets indentation
    has no meaning. -/
def unwind (x : Lexer) (column : Int) : Lexer :=
  if x.inFlow then x else go x.outer.length x
where
  go : Nat → Lexer → Lexer
    | 0, x => x
    | fuel + 1, x =>
      if column < x.indent then
        go fuel
          { x.push .blockEnd with indent := x.outer.headD (-1), outer := x.outer.drop 1 }
      else x

/-- Open a block at a column if that is deeper than the current block.  The block's first token
    goes behind the first `place` tokens. -/
def openBlock (x : Lexer) (column : Nat) (place : Nat) (t : Token) : Lexer :=
  if x.indent < column then
    { x.insertAt place t with indent := column, outer := x.indent :: x.outer }
  else x

/-! ## Blanks between tokens -/

/-- Move to the next token.  A key may start on a new line outside brackets. -/
def skipBlanks (x : Lexer) : Lexer :=
  let c := if x.cursor.index = 0 && x.cursor.rest.head? == some '\uFEFF' then x.cursor.next
    else x.cursor
  go (c.remaining + 1) { x with cursor := c }
where
  go : Nat → Lexer → Lexer
    | 0, x => x
    | fuel + 1, x =>
      let c := x.cursor.skipSpaces.skipComment
      match c.lineBreak? with
      | some (_, c) => go fuel { x with cursor := c, keyAllowed := x.keyAllowed || !x.inFlow }
      | none => { x with cursor := c }

/-! ## Names, tags and directives -/

/-- May the character stand in the name of an anchor, a directive or a tag handle? -/
def isNameChar (c : Char) : Bool := c.isAlphanum || c == '-' || c == '_'

/-- May the character stand in a tag? -/
def isTagChar (c : Char) : Bool :=
  c.isAlphanum || "-;/?:@&=+$,_.!~*'()[]%".toList.contains c

/-- The bytes of percent escapes in front. -/
def percentBytes : List Char → Except ReadError (List UInt8 × List Char)
  | '%' :: a :: b :: rest =>
    match hexValue? a, hexValue? b with
    | some x, some y => do
      let (bytes, rest) ← percentBytes rest
      pure ((x * 16 + y).toUInt8 :: bytes, rest)
    | _, _ => .error .malformed
  | '%' :: _ => .error .malformed
  | cs => .ok ([], cs)

/-- Replace percent escapes by the characters whose bytes they spell. -/
def unescapeTag : Nat → List Char → Except ReadError (List Char)
  | 0, _ => .ok []
  | _, [] => .ok []
  | fuel + 1, '%' :: rest => do
    let (bytes, rest) ← percentBytes ('%' :: rest)
    match Text.decodeUtf8 bytes with
    | .ok cs => pure (cs ++ (← unescapeTag fuel rest))
    | .error _ => .error .malformed
  | fuel + 1, c :: rest => do pure (c :: (← unescapeTag fuel rest))

/-- The characters of a tag, at least one. -/
def tagText (c : Cursor) : Except ReadError (List Char × Cursor) := do
  let (raw, c) := c.span isTagChar
  if raw.isEmpty then .error .malformed
  else pure (← unescapeTag raw.length raw, c)

/-- A tag handle: one exclamation mark, or a name between two. -/
def tagHandle (c : Cursor) : Except ReadError (List Char × Cursor) :=
  match c.rest with
  | '!' :: rest =>
    if rest.head? == some ' ' then .ok (['!'], c.next)
    else
      let name := rest.takeWhile isNameChar
      if (rest.drop name.length).head? == some '!' then
        .ok ('!' :: name ++ ['!'], c.skip (name.length + 2))
      else .error .malformed
  | _ => .error .malformed

/-- A tag from its exclamation mark on. -/
def tagToken (c : Cursor) : Except ReadError (Token × Cursor) := do
  let rest := c.rest.drop 1
  let (token, c) ←
    if rest.head? == some '<' then do
      let (suffix, c) ← tagText (c.skip 2)
      if c.rest.head? == some '>' then pure (Token.tag none suffix, c.next) else .error .malformed
    else if endsWord rest then pure (Token.tag none ['!'], c.next)
    else
      let word := rest.takeWhile fun d => !(d == ' ' || isBreak d)
      if word.contains '!' then do
        let (handle, c) ← tagHandle c
        let (suffix, c) ← tagText c
        pure (Token.tag (some handle) suffix, c)
      else do
        let (suffix, c) ← tagText c.next
        pure (Token.tag (some ['!']) suffix, c)
  if endsField c.rest then pure (token, c) else .error .malformed

/-- The name behind `*` or `&`. -/
def anchorName (c : Cursor) : Except ReadError (List Char × Cursor) :=
  let (name, c) := c.next.span isNameChar
  if name.isEmpty then .error .malformed
  else if endsWord c.rest || (c.rest.take 1).any ("?:,]\x7d%@`".toList.contains ·) then
    .ok (name, c)
  else .error .malformed

/-- Digits of a version number, at least one and no more than can be converted. -/
def versionNumber (c : Cursor) : Except ReadError (Nat × Cursor) :=
  let (ds, c) := c.span Char.isDigit
  if ds.isEmpty then .error .malformed
  else if Number.maxDigits < ds.length then .error (.fault (.intDigits ds.length))
  else .ok (Number.digitRun ds, c)

/-- A directive from its percent sign to the end of its line. -/
def directiveToken (c : Cursor) : Except ReadError (Token × Cursor) := do
  let (name, c) := c.next.span isNameChar
  if name.isEmpty || !endsField c.rest then .error .malformed
  else do
    let (d, c) ←
      if name == "YAML".toList then do
        let (major, c) ← versionNumber c.skipSpaces
        if c.rest.head? == some '.' then do
          let (minor, c) ← versionNumber c.next
          if endsField c.rest then pure (Directive.version major minor, c) else .error .malformed
        else .error .malformed
      else if name == "TAG".toList then do
        let (handle, c) ← tagHandle c.skipSpaces
        if c.rest.head? == some ' ' then do
          let (uri, c) ← tagText c.skipSpaces
          if endsField c.rest then pure (Directive.handle handle uri, c) else .error .malformed
        else .error .malformed
      else pure (Directive.reserved, c.skipWhile (!isBreak ·))
    let c ← restOfLine c
    pure (.directive d, c)

/-! ## Tokens -/

/-- A token of one character that has no other effect. -/
def simple (x : Lexer) (t : Token) : Lexer := { x.push t with cursor := x.cursor.next }

/-- A document marker or a directive ends every block. -/
def endBlocks (x : Lexer) : Except ReadError Lexer := do
  let x ← (x.unwind (-1)).dropCandidate
  pure { x with keyAllowed := false }

def openBracket (x : Lexer) (t : Token) : Except ReadError Lexer := do
  let x ← x.noteCandidate
  pure { x.simple t with candidates := none :: x.candidates, keyAllowed := true }

/-- A bracket that was never opened is malformed. -/
def closeBracket (x : Lexer) (t : Token) : Except ReadError Lexer := do
  let x ← x.dropCandidate
  if x.inFlow then
    pure { x.simple t with candidates := x.candidates.drop 1, keyAllowed := false }
  else .error .malformed

def flowEntry (x : Lexer) : Except ReadError Lexer := do
  let x ← { x with keyAllowed := true }.dropCandidate
  pure (x.simple .flowEntry)

/-- A list item; outside brackets it may open a block. -/
def blockEntry (x : Lexer) : Except ReadError Lexer :=
  if !x.inFlow && !x.keyAllowed then .error .malformed
  else do
    let x := if x.inFlow then x
      else x.openBlock x.cursor.column x.count .blockSequenceStart
    let x ← { x with keyAllowed := true }.dropCandidate
    pure (x.simple .blockEntry)

/-- A question mark that announces a key; outside brackets it may open a block. -/
def explicitKey (x : Lexer) : Except ReadError Lexer :=
  if !x.inFlow && !x.keyAllowed then .error .malformed
  else do
    let x := if x.inFlow then x
      else x.openBlock x.cursor.column x.count .blockMappingStart
    let x ← { x with keyAllowed := !x.inFlow }.dropCandidate
    pure (x.simple .key)

/-- A colon.  It makes the current candidate a key, or else belongs to an announced key. -/
def valueMark (x : Lexer) : Except ReadError Lexer :=
  match x.candidate? with
  | some k =>
    let x := (x.setCandidate none).insertAt k.tokenCount .key
    let x := if x.inFlow then x else x.openBlock k.column k.tokenCount .blockMappingStart
    .ok ({ x with keyAllowed := false }.simple .value)
  | none =>
    if !x.inFlow && !x.keyAllowed then .error .malformed
    else do
      let x := if x.inFlow then x
        else x.openBlock x.cursor.column x.count .blockMappingStart
      let x ← { x with keyAllowed := !x.inFlow }.dropCandidate
      pure (x.simple .value)

/-- A token that may be a key, read by `read`. -/
def possibleKey (x : Lexer) (read : Cursor → Except ReadError (Token × Cursor)) :
    Except ReadError Lexer := do
  let x ← x.noteCandidate
  let (t, c) ← read x.cursor
  pure { x.push t with cursor := c, keyAllowed := false }

/-- A plain scalar.  A key may follow it if a line ended behind it. -/
def plain (x : Lexer) : Except ReadError Lexer := do
  let x ← x.noteCandidate
  let (text, brokeLine, c) := plainScalar x.inFlow (x.indent + 1) x.cursor
  pure { x.push (.scalar true text) with cursor := c, keyAllowed := brokeLine }

/-- A block scalar.  A key may follow it. -/
def block (folded : Bool) (x : Lexer) : Except ReadError Lexer := do
  let x ← { x with keyAllowed := true }.dropCandidate
  let (text, c) ← blockScalar folded x.indent x.cursor
  pure { x.push (.scalar false text) with cursor := c }

/-- May a plain scalar start with this character, the given text behind it? -/
def startsPlain (flow : Bool) (c : Char) (rest : List Char) : Bool :=
  !(isSpaceOrTab c || isBreak c || "-?:,[]\x7b\x7d#&*!|>'\"%@`".toList.contains c) ||
    (!endsWord rest && (c == '-' || (!flow && (c == '?' || c == ':'))))

/-- Read the token that starts with a character. -/
def token (x : Lexer) (c : Char) (rest : List Char) : Except ReadError Lexer :=
  let column := x.cursor.column
  if c == '%' && column = 0 then do
    let x ← x.endBlocks
    let (t, c) ← directiveToken x.cursor
    pure { x.push t with cursor := c }
  else if column = 0 && x.cursor.atMark '-' then do
    let x ← x.endBlocks
    pure { x.push .documentStart with cursor := x.cursor.skip 3 }
  else if column = 0 && x.cursor.atMark '.' then do
    let x ← x.endBlocks
    pure { x.push .documentEnd with cursor := x.cursor.skip 3 }
  else if c == '[' then x.openBracket .flowSequenceStart
  else if c == '\x7b' then x.openBracket .flowMappingStart
  else if c == ']' then x.closeBracket .flowSequenceEnd
  else if c == '\x7d' then x.closeBracket .flowMappingEnd
  else if c == ',' then x.flowEntry
  else if c == '-' && endsWord rest then x.blockEntry
  else if c == '?' && (x.inFlow || endsWord rest) then x.explicitKey
  else if c == ':' && (x.inFlow || endsWord rest) then x.valueMark
  else if c == '*' then x.possibleKey fun c => (anchorName c).map fun (n, c) => (.alias n, c)
  else if c == '&' then x.possibleKey fun c => (anchorName c).map fun (n, c) => (.anchor n, c)
  else if c == '!' then x.possibleKey tagToken
  else if c == '|' && !x.inFlow then block false x
  else if c == '>' && !x.inFlow then block true x
  else if c == '\'' then
    x.possibleKey fun c => (quotedScalar false c).map fun (s, c) => (.scalar false s, c)
  else if c == '"' then
    x.possibleKey fun c => (quotedScalar true c).map fun (s, c) => (.scalar false s, c)
  else if startsPlain x.inFlow c rest then x.plain
  else .error .malformed

/-- How many tokens are settled: no token can still come between them or in front of them. -/
def settled (x : Lexer) : Nat :=
  x.candidates.foldl (fun n k => match k with
    | some k => if x.isStale k then n else min n k.tokenCount
    | none => n) x.count

/-- Read tokens to the end of the text or up to a fault.  A token is asked for when no settled
    one is left, so a fault comes to light behind the settled tokens. -/
def run : Nat → Lexer → Except ReadError TokenRun
  | 0, _ => .error .malformed
  | fuel + 1, x => do
    let y ← x.skipBlanks.dropStale
    let y := y.unwind y.cursor.column
    match y.cursor.rest with
    | [] =>
      let y ← (y.unwind (-1)).dropCandidate
      pure ⟨y.tokens.reverse, none⟩
    | c :: rest =>
      match y.token c rest with
      | .ok y => run fuel y
      | .error .malformed => .error .malformed
      | .error (.fault f) => pure ⟨x.tokens.reverse.take x.settled, some f⟩

end Lexer

/-- The tokens of a text. -/
def tokens (text : List Char) : Except ReadError TokenRun :=
  if text.all isAllowed then (Lexer.start text).run (text.length + 2) else .error .malformed

end Regen.Yaml
