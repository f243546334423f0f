import Remoting.BigEndian
import Remoting.Yaml.Glyph

/-!
# Tags

A tag is written in full, or as a handle and a suffix, where a shorthand says for what the handle
stands. Bytes may be written in hexadecimal; they have to come in groups that look like one
character, and a zero byte ends the tag.
-/

namespace Remoting.Yaml

/-- A tag as it is written. A tag in full has no handle. -/
structure Tag where
  handle : List Char
  suffix : Bytes
deriving DecidableEq, Repr

/-- What a handle stands for. -/
structure Shorthand where
  handle : List Char
  expansion : Bytes
deriving DecidableEq, Repr

namespace Tag

def ascii (text : String) : Bytes :=
  text.toList.map fun c => UInt8.ofNat c.toNat

/-- The shorthands that need not be declared. -/
def standardShorthands : List Shorthand :=
  [⟨['!'], ascii "!"⟩, ⟨['!', '!'], ascii "tag:yaml.org,2002:"⟩]

def isUriChar (full : Bool) (c : Char) : Bool :=
  isNameChar c || ";/?:@&=+$.!~*()\x27".toList.contains c || (full && ",[]".toList.contains c)

/-- The number of bytes still due in a group after this byte, if it may stand there. -/
def due? (due : Nat) (byte : UInt8) : Option Nat :=
  if due ≠ 0 then if byte &&& 0xC0 = 0x80 then some (due - 1) else none
  else if byte &&& 0x80 = 0 then some 0
  else if byte &&& 0xE0 = 0xC0 then some 1
  else if byte &&& 0xF0 = 0xE0 then some 2
  else if byte &&& 0xF8 = 0xF0 then some 3
  else none

def uriFrom? (full : Bool) (due : Nat) (done : Bytes) :
    List Glyph → Option (Bytes × List Glyph)
  | [] => if due = 0 then some (done.reverse, []) else none
  | g :: rest =>
    if g.char = '%' then
      match rest with
      | high :: low :: rest =>
        match hexDigit? high.char, hexDigit? low.char with
        | some high, some low =>
          let byte := UInt8.ofNat (16 * high + low)
          match due? due byte with
          | some due => uriFrom? full due (byte :: done) rest
          | none => none
        | _, _ => none
      | _ => none
    else if due ≠ 0 then none
    else if isUriChar full g.char then uriFrom? full 0 (UInt8.ofNat g.char.toNat :: done) rest
    else some (done.reverse, g :: rest)

/-- The longest run of bytes up to a zero byte, which must not be missing altogether. -/
def uri? (full : Bool) (text : List Glyph) : Option (Bytes × List Glyph) := do
  let (bytes, rest) ← uriFrom? full 0 [] text
  if bytes.isEmpty then none else return (bytes.takeWhile (· ≠ 0), rest)

/-- A tag behind its exclamation mark. The mark alone is a tag too. -/
def bare? (text : List Glyph) : Option (Tag × List Glyph) :=
  match text with
  | [] => some (⟨[], ascii "!"⟩, [])
  | g :: rest =>
    if g.char = '<' then
      match uri? true rest with
      | some (bytes, closing :: rest) =>
        if closing.char = '>' then some (⟨[], bytes⟩, rest) else none
      | _ => none
    else
      let name := (g :: rest).takeWhile (isNameChar ·.char)
      match (g :: rest).dropWhile (isNameChar ·.char) with
      | mark :: rest' =>
        if mark.char = '!' then
          (uri? false rest').map fun (bytes, rest) =>
            (⟨'!' :: name.map (·.char) ++ ['!'], bytes⟩, rest)
        else local? (g :: rest)
      | [] => local? (g :: rest)
where
  local? (text : List Glyph) : Option (Tag × List Glyph) := do
    let (bytes, rest) ← uriFrom? false 0 [] text
    match bytes.takeWhile (· ≠ 0) with
    | [] => return (⟨[], ascii "!"⟩, rest)
    | suffix => return (⟨['!'], suffix⟩, rest)

/-- A tag behind its exclamation mark, with nothing attached to its end. -/
def read? (inBraces : Bool) (text : List Glyph) : Option (Tag × List Glyph) := do
  let (tag, rest) ← bare? text
  if endsWord rest || (inBraces && rest.head?.any (·.char == ',')) then return (tag, rest) else none

def resolve? (shorthands : List Shorthand) (t : Tag) : Option Bytes :=
  if t.handle.isEmpty then some t.suffix
  else (shorthands.find? (·.handle = t.handle)).map (·.expansion ++ t.suffix)

end Tag

/-- The handle that a directive declares, which may be named or not, and what it stands for. -/
def Shorthand.read? (text : List Glyph) : Option (Shorthand × List Glyph) := do
  let mark :: text := text | none
  if mark.char ≠ '!' then none
  let name := (text.takeWhile (isNameChar ·.char)).map (·.char)
  let text := text.dropWhile (isNameChar ·.char)
  let (handle, text) ←
    if text.head?.any (·.char == '!') then some ('!' :: name ++ ['!'], text.drop 1)
    else if name.isEmpty then some (['!'], text)
    else none
  if !text.head?.any (isBlank ·.char) then none
  let (expansion, text) ← Tag.uri? true (text.dropWhile (isBlank ·.char))
  if endsWord text then return (⟨handle, expansion⟩, text) else none

end Remoting.Yaml
