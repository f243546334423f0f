import Remoting.HandlerTable
import Remoting.Samples

/-!
# Sample handlers

Handlers for the sample types. Tokens travel in capitals, points as two numbers with a comma
between them, leaves as label and weight with a colon. The other encoders and decoders are general:
the document, a fixed text, a fixed value, a failure.
-/

namespace Remoting

namespace DecimalText

/-- The number written by one or more digits. -/
def natural? (digits : List Char) : Option Nat :=
  if digits.isEmpty || !digits.all Char.isDigit then none
  else some (digits.foldl (fun n c => n * 10 + (c.toNat - '0'.toNat)) 0)

/-- Digits behind an optional sign. -/
def integer? (text : List Char) : Option Int :=
  match text with
  | '+' :: digits => (natural? digits).map Int.ofNat
  | '-' :: digits => (natural? digits).map fun n => -(n : Int)
  | digits => (natural? digits).map Int.ofNat

def int32? (text : List Char) : Option Int32 := do
  let n ← integer? text
  if Int32.minValue.toInt ≤ n ∧ n ≤ Int32.maxValue.toInt then return Int32.ofInt n else none

/-- Without a sign, or with a plus. -/
def uint32? (text : List Char) : Option UInt32 := do
  let n ← match text with
    | '+' :: digits => natural? digits
    | digits => natural? digits
  if n < UInt32.size then return UInt32.ofNat n else none

end DecimalText

namespace SampleHandlers

/-- The text in front of the first separator and behind it. -/
def splitFirst? (separator : Char) (text : List Char) : Option (List Char × List Char) :=
  match text.dropWhile (· ≠ separator) with
  | [] => none
  | _ :: rest => some (text.takeWhile (· ≠ separator), rest)

def splitLast? (separator : Char) (text : List Char) : Option (List Char × List Char) :=
  (splitFirst? separator text.reverse).map fun (tail, head) => (head.reverse, tail.reverse)

def encodeToken (text : String) : Except String String :=
  if text.isEmpty then .error "empty token" else .ok (text.map Char.toUpper)

def token : Handler Sample :=
  Handler.typed (SampleType.token.name)
    (fun | .application (.token text) => some text | _ => none)
    (fun text => .application (.token text))
    encodeToken
    (fun text => .ok (text.map Char.toLower))

def decodePoint (text : String) : Except String (Int32 × Int32) := do
  let some (x, y) := splitFirst? ',' text.toList | throw "no comma"
  let some x := DecimalText.int32? x | throw "bad x"
  let some y := DecimalText.int32? y | throw "bad y"
  return (x, y)

def point : Handler Sample :=
  Handler.typed (SampleType.point.name)
    (fun | .application (.point x y) => some (x, y) | _ => none)
    (fun (x, y) => .application (.point x y))
    (fun (x, y) => .ok s!"{x},{y}")
    decodePoint

def decodeLeaf (text : String) : Except String (String × UInt32) := do
  let some (label, weight) := splitLast? ':' text.toList | throw "no colon"
  let some n := DecimalText.uint32? weight | throw s!"bad weight {String.ofList weight}"
  return (String.ofList label, n)

def leaf : Handler Sample :=
  Handler.typed (SampleType.leaf.name)
    (fun | .application (.leaf label weight) => some (label, weight) | _ => none)
    (fun (label, weight) => .application (.leaf label weight))
    (fun (label, weight) => .ok s!"{label}:{weight}")
    decodeLeaf

variable {ω : Type} [Portable ω]

def encodeWrapped (before after : String) (o : Object ω) : Except String String :=
  (fun text => before ++ text ++ after) <$> o.document

/-- The document of objects of one type only. -/
def encodeOnly (loader : Loader ω) (label : String) (o : Object ω) : Except String String :=
  if o.typeName = loader.typeName then o.document else .error s!"not a {label}"

def decodeDocument (loader : Loader ω) (text : String) : Except String (Value ω) :=
  match loader.load (Utf8.encode text) with
  | some o => .ok (.object o)
  | none => .error "bad json"

end SampleHandlers

end Remoting
