/-!
# Characters of a YAML document

A glyph is a character of a document with its place. A line may end in several ways; the ones that
mean no more than that are all read as a line feed, while the line separator and the paragraph
separator stay what they are.
-/

namespace Remoting.Yaml

structure Glyph where
  char : Char
  index : Nat
  line : Nat
  column : Nat
deriving DecidableEq, Repr

/-- The characters that may stand in a document at all. -/
def isAllowed (c : Char) : Bool :=
  let n := c.toNat
  n == 0x09 || n == 0x0A || n == 0x0D || (0x20 ≤ n && n ≤ 0x7E) || n == 0x85
    || (0xA0 ≤ n && n ≤ 0xFFFD) || 0x10000 ≤ n

def isBlank (c : Char) : Bool :=
  c == ' ' || c == '\t'

def isSeparator (c : Char) : Bool :=
  c == '\u2028' || c == '\u2029'

def isBreak (c : Char) : Bool :=
  c == '\n' || isSeparator c

/-- The characters of the names of anchors, directives and tag handles. -/
def isNameChar (c : Char) : Bool :=
  c.isAlphanum || c == '_' || c == '-'

def hexDigit? (c : Char) : Option Nat :=
  if c.isDigit then some (c.toNat - '0'.toNat)
  else if 'a' ≤ c ∧ c ≤ 'f' then some (c.toNat - 'a'.toNat + 10)
  else if 'A' ≤ c ∧ c ≤ 'F' then some (c.toNat - 'A'.toNat + 10)
  else none

def glyphsFrom (index line column : Nat) : List Char → List Glyph
  | [] => []
  | '\r' :: '\n' :: rest => ⟨'\n', index, line, column⟩ :: glyphsFrom (index + 2) (line + 1) 0 rest
  | c :: rest =>
    if c = '\n' ∨ c = '\r' ∨ c = '\x85' then
      ⟨'\n', index, line, column⟩ :: glyphsFrom (index + 1) (line + 1) 0 rest
    else if isSeparator c then
      ⟨c, index, line, column⟩ :: glyphsFrom (index + 1) (line + 1) 0 rest
    else ⟨c, index, line, column⟩ :: glyphsFrom (index + 1) line (column + 1) rest

def glyphs (text : List Char) : List Glyph :=
  glyphsFrom 0 0 0 text

/-- Whether a word ends here, at a blank, at a line break or with the document. -/
def endsWord : List Glyph → Bool
  | [] => true
  | g :: _ => isBlank g.char || isBreak g.char

/-- Whether a line starts here with a word of three equal characters. -/
def isMarker (c : Char) : List Glyph → Bool
  | g₁ :: g₂ :: g₃ :: rest =>
    g₁.column == 0 && g₁.char == c && g₂.char == c && g₃.char == c && endsWord rest
  | _ => false

/-- Three hyphens start a document, and three dots end it. -/
def atMarker (text : List Glyph) : Bool :=
  isMarker '-' text || isMarker '.' text

/-- The text behind the line, if nothing is left in it but blanks and a comment. -/
def afterLine? (text : List Glyph) : Option (List Glyph) :=
  let text := text.dropWhile (isBlank ·.char)
  let text :=
    if text.head?.any (·.char == '#') then text.dropWhile (!isBreak ·.char) else text
  match text with
  | [] => some []
  | g :: rest => if isBreak g.char then some rest else none

end Remoting.Yaml
