import Remoting.BigEndian
import Remoting.Yaml.Glyph

/-!
# Scalars

A scalar is a text that is written plain, in quotes or as a block. Plain and quoted scalars may run
over several lines: what lies between two words of them is a `Gap`, of which a single line break
becomes a space. In a block scalar every line counts as it stands behind the indentation, but in a
folded one lines that do not start with a blank are joined by spaces.
-/

namespace Remoting.Yaml

inductive Style where
  | plain
  | quoted
  | literal
  | folded
deriving DecidableEq, Repr

structure Scalar where
  style : Style
  text : List Char
  tag : Option Bytes := none
deriving DecidableEq, Repr

/-- Blanks and line breaks between two words, the latest first. Blanks count only as long as no
line has ended. -/
structure Gap where
  blanks : List Char := []
  breaks : List Char := []
  /-- Whether it opens with an escaped line break, which stands for nothing. -/
  escaped : Bool := false
deriving DecidableEq, Repr

namespace Gap

def isBroken (gap : Gap) : Bool :=
  gap.escaped || !gap.breaks.isEmpty

def isEmpty (gap : Gap) : Bool :=
  gap.blanks.isEmpty && !gap.isBroken

def push (gap : Gap) (c : Char) : Gap :=
  if isBreak c then { gap with breaks := c :: gap.breaks }
  else if gap.isBroken then gap
  else { gap with blanks := c :: gap.blanks }

/-- What the gap stands for. Of several line breaks the first is dropped if it is a line feed. -/
def text (gap : Gap) : List Char :=
  if gap.escaped then gap.breaks.reverse
  else
    match gap.breaks.reverse with
    | [] => gap.blanks.reverse
    | ['\n'] => [' ']
    | '\n' :: more => more
    | breaks => breaks

end Gap

namespace Scalar

/-- The signs that end a plain scalar within braces. -/
def isFlowSign (c : Char) : Bool :=
  ",[]\x7b\x7d".toList.contains c

/-- Whether a plain scalar ends in front of a text. Behind a gap it also ends at a comment, at a
marker, and where a line is indented less than it has to be. -/
def endsPlain (inBraces : Bool) (indent : Nat) (gap : Gap) (g : Glyph) (rest : List Glyph) : Bool :=
  (g.char == ':' && endsWord rest) || (inBraces && isFlowSign g.char)
    || (!gap.isEmpty
      && (g.char == '#' || (!inBraces && g.column < indent) || atMarker (g :: rest)))

/-- A plain scalar, whether a line has ended behind it, and what follows. The words read so far
stand in `done`, the latest character first. -/
def plain? (inBraces : Bool) (indent : Nat) (done : List Char) (gap : Gap) :
    List Glyph → Option (Scalar × Bool × List Glyph)
  | [] => some (⟨.plain, done.reverse, none⟩, gap.isBroken, [])
  | g :: rest =>
    if isBlank g.char || isBreak g.char then
      if gap.isBroken && g.char == '\t' && g.column < indent then none
      else plain? inBraces indent done (gap.push g.char) rest
    else if endsPlain inBraces indent gap g rest then
      some (⟨.plain, done.reverse, none⟩, gap.isBroken, g :: rest)
    else if inBraces && g.char == ':'
        && rest.head?.any fun next => next.char == '?' || isFlowSign next.char then
      none
    else plain? inBraces indent (g.char :: (gap.text.reverse ++ done)) {} rest

/-- The character for which a letter behind a backslash stands. -/
def unescape? (c : Char) : Option Char :=
  [('0', '\x00'), ('a', '\x07'), ('b', '\x08'), ('t', '\t'), ('\t', '\t'), ('n', '\n'),
    ('v', '\x0B'), ('f', '\x0C'), ('r', '\r'), ('e', '\x1B'), (' ', ' '), ('"', '"'), ('/', '/'),
    ('\\', '\\'), ('N', '\x85'), ('_', '\xA0'), ('L', '\u2028'), ('P', '\u2029')].lookup c

/-- The number of digits behind a letter that announces a code point. -/
def codeWidth? (c : Char) : Option Nat :=
  [('x', 2), ('u', 4), ('U', 8)].lookup c

def codePoint? (width : Nat) (text : List Glyph) : Option Char := do
  let digits ← (text.take width).mapM (hexDigit? ·.char)
  let n := digits.foldl (16 * · + ·) 0
  if h : digits.length = width ∧ n.isValidChar then return Char.ofNatAux n h.2 else none

/-- The text of a quoted scalar behind the opening quote, and what follows the closing one. A
quote within single quotes is written twice; within double quotes there are escapes. -/
def quoted? (quote : Char) (done : List Char) (gap : Gap) (text : List Glyph) :
    Option (Scalar × List Glyph) :=
  match text with
  | [] => none
  | g :: rest =>
    if isBlank g.char || isBreak g.char then quoted? quote done (gap.push g.char) rest
    else if atMarker (g :: rest) then none
    else
      let done := gap.text.reverse ++ done
      if g.char = quote then
        if quote == '\x27' && rest.head?.any (·.char == quote) then
          quoted? quote (quote :: done) {} (rest.drop 1)
        else some (⟨.quoted, done.reverse, none⟩, rest)
      else if quote == '"' && g.char == '\\' then
        match rest with
        | [] => none
        | letter :: rest =>
          if isBreak letter.char then quoted? quote done { escaped := true } rest
          else
            match codeWidth? letter.char with
            | some width =>
              match codePoint? width rest with
              | some c => quoted? quote (c :: done) {} (rest.drop width)
              | none => none
            | none =>
              match unescape? letter.char with
              | some c => quoted? quote (c :: done) {} rest
              | none => none
      else quoted? quote (g.char :: done) {} rest
termination_by text.length
decreasing_by all_goals simp only [List.length_cons, List.length_drop]; omega

/-- What is kept of the line breaks that end a block scalar: none, the first one, or all. -/
inductive Chomping where
  | strip
  | clip
  | keep
deriving DecidableEq, Repr

def chomping? : List Glyph → Option Chomping × List Glyph
  | [] => (none, [])
  | g :: rest =>
    if g.char = '+' then (some .keep, rest)
    else if g.char = '-' then (some .strip, rest)
    else (none, g :: rest)

/-- The indentation that a block scalar announces, or zero if it announces none. -/
def increment? : List Glyph → Option (Nat × List Glyph)
  | [] => some (0, [])
  | g :: rest =>
    if g.char = '0' then none
    else if g.char.isDigit then some (g.char.toNat - '0'.toNat, rest)
    else some (0, g :: rest)

/-- The line that opens a block scalar: how its end is treated, and its indentation, which may be
given in either order. -/
def header? (text : List Glyph) : Option (Chomping × Nat × List Glyph) := do
  let (first, text) := chomping? text
  let (increment, text) ← increment? text
  let (second, text) := if first.isNone && increment ≠ 0 then chomping? text else (none, text)
  return ((first.or second).getD .clip, increment, ← afterLine? text)

/-- The column of the first line that is not empty, or the widest one before it. -/
def firstColumn? (widest : Nat) : List Glyph → Option Nat
  | [] => some widest
  | g :: rest =>
    if g.char = ' ' then firstColumn? widest rest
    else if g.char = '\t' then none
    else if isBreak g.char then firstColumn? (max widest g.column) rest
    else some (max widest g.column)

/-- The lines of a block scalar read so far, all with the latest character first. -/
structure Lines where
  done : List Char := []
  lineEnd : Option Char := none
  /-- The empty lines behind it. -/
  breaks : List Char := []
  /-- Whether the last line started with a blank, so that it is not joined to others. -/
  indented : Bool := false
  inLine : Bool := false
deriving DecidableEq, Repr

def Lines.start (lines : Lines) (folded : Bool) (c : Char) : Lines :=
  let joint :=
    if folded && lines.lineEnd == some '\n' && !lines.indented && !isBlank c then
      if lines.breaks.isEmpty then [' '] else []
    else lines.lineEnd.toList
  { done := c :: (lines.breaks ++ joint ++ lines.done), indented := isBlank c, inLine := true }

def Lines.text (lines : Lines) : Chomping → List Char
  | .strip => lines.done.reverse
  | .clip => (lines.lineEnd.toList ++ lines.done).reverse
  | .keep => (lines.breaks ++ lines.lineEnd.toList ++ lines.done).reverse

/-- The lines that are indented up to a column, and what follows them. -/
def lines? (folded : Bool) (indent : Nat) (lines : Lines) :
    List Glyph → Option (Lines × List Glyph)
  | [] => some (lines, [])
  | g :: rest =>
    if lines.inLine then
      let next :=
        if isBreak g.char then { lines with lineEnd := some g.char, inLine := false }
        else { lines with done := g.char :: lines.done }
      lines? folded indent next rest
    else if g.column < indent ∧ g.char = ' ' then lines? folded indent lines rest
    else if g.column < indent ∧ g.char = '\t' then none
    else if isBreak g.char then
      lines? folded indent { lines with breaks := g.char :: lines.breaks } rest
    else if g.column = indent then lines? folded indent (lines.start folded g.char) rest
    else some (lines, g :: rest)

/-- A block scalar behind its sign, within a block whose column is `outer`. -/
def block? (folded : Bool) (outer : Option Nat) (text : List Glyph) :
    Option (Scalar × List Glyph) := do
  let (chomping, increment, text) ← header? text
  let indent ←
    if increment = 0 then
      (firstColumn? 0 text).map fun widest => max (max widest (outer.elim 0 (· + 1))) 1
    else some (outer.getD 0 + increment)
  let (lines, rest) ← lines? folded indent {} text
  return (⟨if folded then .folded else .literal, lines.text chomping, none⟩, rest)

end Scalar

end Remoting.Yaml
