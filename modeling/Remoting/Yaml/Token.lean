import Remoting.Yaml.Scalar
import Remoting.Yaml.Tag

/-!
# Tokens of a YAML document

`Token.ofText?` splits a document into tokens. That a key begins shows only at the colon behind
it, so the place of a possible key is kept: within the same line, and for at most 1024 characters,
a colon turns it into a key. Blocks have no sign of their own, they open with the first key and
close with the first line that is indented less.

Only what can occur in a mapping of scalars has tokens. A list, or a mapping within a mapping, has
none, and a document with one is refused.
-/

namespace Remoting.Yaml

inductive Token where
  | version (major minor : Nat)
  | shorthand (declared : Shorthand)
  | documentStart
  | documentEnd
  | blockStart
  | blockEnd
  | openBrace
  | closeBrace
  | comma
  | key
  | value
  | alias (name : List Char)
  | anchor (name : List Char)
  | tag (written : Tag)
  | scalar (written : Scalar)
deriving DecidableEq, Repr

/-- Where a key may turn out to have begun. In the column of its block nothing else may begin. -/
structure PossibleKey where
  start : Glyph
  required : Bool
deriving DecidableEq, Repr

inductive Level where
  | outside
  | block (column : Nat)
  | braces
deriving DecidableEq, Repr

/-- The tokens read so far, the latest first: in front of the possible key, and from it on. -/
structure Tokenizer where
  settled : List Token := []
  recent : List Token := []
  possibleKey : Option PossibleKey := none
  keyAllowed : Bool := true
  level : Level := .outside
deriving DecidableEq, Repr

def Level.column? : Level → Option Nat
  | .block column => some column
  | _ => none

/-- The level at which a key in this column stands, and the token that opens it. -/
def Level.enter? (level : Level) (column : Nat) : Option (Level × List Token) :=
  match level with
  | .outside => some (.block column, [.blockStart])
  | .block outer => if outer < column then none else some (level, [])
  | .braces => some (level, [])

namespace Tokenizer

def emit (t : Tokenizer) (token : Token) : Tokenizer :=
  { t with recent := token :: t.recent }

/-- Gives up the possible key. -/
def dropKey? (t : Tokenizer) : Option Tokenizer :=
  if t.possibleKey.any (·.required) then none else some { t with possibleKey := none }

/-- Notes that a key may begin here. -/
def saveKey? (t : Tokenizer) (g : Glyph) : Option Tokenizer :=
  if t.keyAllowed then do
    let t ← t.dropKey?
    return { t with
      settled := t.recent ++ t.settled
      recent := []
      possibleKey := some ⟨g, t.level = .block g.column⟩ }
  else some t

/-- A possible key that lies in an earlier line or too far back is none. -/
def expireKey? (t : Tokenizer) (g : Glyph) : Option Tokenizer :=
  if t.possibleKey.any fun k => k.start.line < g.line || k.start.index + 1024 < g.index then
    t.dropKey?
  else some t

def closeBlock (t : Tokenizer) : Tokenizer :=
  match t.level with
  | .block _ => { t with level := .outside }.emit .blockEnd
  | _ => t

/-- Closes a block that is indented deeper than this column. -/
def leaveBlock (t : Tokenizer) (column : Nat) : Tokenizer :=
  if t.level.column?.any (column < ·) then t.closeBlock else t

/-- The text from the next token on, and whether a key may begin there. In a line in which one
may begin, tabs do not count as blanks. A line may start with a byte order mark. -/
def skipGap (inBraces keyAllowed inComment : Bool) : List Glyph → Bool × List Glyph
  | [] => (keyAllowed, [])
  | g :: rest =>
    if isBreak g.char then skipGap inBraces (keyAllowed || !inBraces) false rest
    else if inComment || g.char == ' ' || (g.char == '\t' && (inBraces || !keyAllowed))
        || (g.char == '\uFEFF' && g.column == 0) then
      skipGap inBraces keyAllowed inComment rest
    else if g.char == '#' then skipGap inBraces keyAllowed true rest
    else (keyAllowed, g :: rest)

/-- The number in front of what follows, with at most nine digits. -/
def number? (text : List Glyph) : Option (Nat × List Glyph) :=
  let digits := (text.takeWhile (·.char.isDigit)).map (·.char)
  if digits.isEmpty || 9 < digits.length then none
  else
    let n := digits.foldl (fun n c => 10 * n + (c.toNat - '0'.toNat)) 0
    some (n, text.dropWhile (·.char.isDigit))

/-- A directive behind its percent sign, which takes a line of its own. -/
def directive? (text : List Glyph) : Option (Token × List Glyph) := do
  let name := (text.takeWhile (isNameChar ·.char)).map (·.char)
  let text := text.dropWhile (isNameChar ·.char)
  if !endsWord text then none
  let text := text.dropWhile (isBlank ·.char)
  if name = "YAML".toList then
    let (major, text) ← number? text
    let dot :: text := text | none
    if dot.char ≠ '.' then none
    let (minor, text) ← number? text
    return (.version major minor, ← afterLine? text)
  else if name = "TAG".toList then
    let (declared, text) ← Shorthand.read? text
    return (.shorthand declared, ← afterLine? text)
  else none

/-- The name of an anchor, and what follows it. -/
def anchorName? (text : List Glyph) : Option (List Char × List Glyph) :=
  let name := (text.takeWhile (isNameChar ·.char)).map (·.char)
  let rest := text.dropWhile (isNameChar ·.char)
  if !name.isEmpty
      && (endsWord rest || rest.head?.any fun g => "?:,]\x7d%@\x60".toList.contains g.char) then
    some (name, rest)
  else none

/-- A question mark announces a key, which need not be short then. -/
def key? (t : Tokenizer) (g : Glyph) : Option Tokenizer := do
  let inBraces := t.level == .braces
  if !inBraces && !t.keyAllowed then none
  let (level, opening) ← t.level.enter? g.column
  let t ← { t with level, recent := opening ++ t.recent }.dropKey?
  return { t with keyAllowed := !inBraces }.emit .key

/-- A colon makes a key of the possible key, if there is one. -/
def value? (t : Tokenizer) (g : Glyph) : Option Tokenizer :=
  match t.possibleKey with
  | some k => do
    let (level, opening) ← t.level.enter? k.start.column
    let settled := .key :: (opening ++ t.settled)
    return { t with settled, level, possibleKey := none, keyAllowed := false }.emit .value
  | none => do
    let inBraces := t.level == .braces
    if !inBraces && !t.keyAllowed then none
    let (level, opening) ← t.level.enter? g.column
    let t := { t with level, recent := opening ++ t.recent, keyAllowed := !inBraces }
    return t.emit .value

/-- The signs that start no plain scalar. -/
def isIndicator (c : Char) : Bool :=
  "-?:,[]\x7b\x7d#&*!|>\x27\"%@\x60".toList.contains c

/-- Reads the token that starts here. -/
def next? (t : Tokenizer) (g : Glyph) (rest : List Glyph) : Option (Tokenizer × List Glyph) := do
  let c := g.char
  let inBraces := t.level == .braces
  if g.column == 0 && c == '%' then
    let t ← t.closeBlock.dropKey?
    let (token, rest) ← directive? rest
    return ({ t with keyAllowed := false }.emit token, rest)
  else if atMarker (g :: rest) then
    let t ← t.closeBlock.dropKey?
    let token := if c = '-' then .documentStart else .documentEnd
    return ({ t with keyAllowed := false }.emit token, rest.drop 2)
  else if c = '\x7b' then
    if t.level ≠ .outside then none
    return ({ t with level := .braces, possibleKey := none, keyAllowed := true }.emit .openBrace,
      rest)
  else if c = '\x7d' then
    if !inBraces then none
    return ({ t with level := .outside, possibleKey := none, keyAllowed := false }.emit .closeBrace,
      rest)
  else if c = ',' then
    if !inBraces then none
    return ({ t with possibleKey := none, keyAllowed := true }.emit .comma, rest)
  else if c == '?' && (inBraces || endsWord rest) then
    return (← t.key? g, rest)
  else if c == ':' && (inBraces || endsWord rest) then
    return (← t.value? g, rest)
  else if c = '*' then
    let t ← t.saveKey? g
    let (name, rest) ← anchorName? rest
    return ({ t with keyAllowed := false }.emit (.alias name), rest)
  else if c = '&' then
    let t ← t.saveKey? g
    let (name, rest) ← anchorName? rest
    return ({ t with keyAllowed := false }.emit (.anchor name), rest)
  else if c = '!' then
    let t ← t.saveKey? g
    let (tag, rest) ← Tag.read? inBraces rest
    return ({ t with keyAllowed := false }.emit (.tag tag), rest)
  else if (c == '|' || c == '>') && !inBraces then
    let t ← t.dropKey?
    let (scalar, rest) ← Scalar.block? (c == '>') t.level.column? rest
    return ({ t with keyAllowed := true }.emit (.scalar scalar), rest)
  else if c == '\x27' || c == '"' then
    let t ← t.saveKey? g
    let (scalar, rest) ← Scalar.quoted? c [] {} rest
    return ({ t with keyAllowed := false }.emit (.scalar scalar), rest)
  else if !(endsWord [g] || isIndicator c) || (c == '-' && !endsWord rest)
      || (!inBraces && (c == '?' || c == ':')) then
    let t ← t.saveKey? g
    let indent := t.level.column?.elim 0 (· + 1)
    let (scalar, broken, rest) ← Scalar.plain? inBraces indent [c] {} rest
    return ({ t with keyAllowed := broken }.emit (.scalar scalar), rest)
  else none

/-- All tokens from here on. The bound is on their number: each takes a character at least. -/
def run? (t : Tokenizer) (bound : Nat) (text : List Glyph) : Option (List Token) :=
  match bound, skipGap (t.level == .braces) t.keyAllowed false text with
  | _, (_, []) => t.closeBlock.dropKey?.map fun t => (t.recent ++ t.settled).reverse
  | 0, _ => none
  | bound + 1, (keyAllowed, g :: rest) => do
    let t ← { t with keyAllowed }.expireKey? g
    let (t, rest) ← (t.leaveBlock g.column).next? g rest
    t.run? bound rest

end Tokenizer

/-- The tokens of a document. -/
def Token.ofText? (text : List Char) : Option (List Token) :=
  if text.all isAllowed then
    let text := glyphs text
    Tokenizer.run? {} text.length text
  else none

end Remoting.Yaml
