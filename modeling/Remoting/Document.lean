import Remoting.Utf8

/-!
# Documents

A document is the generic form of an application object: null, a boolean, a number, a text, an
array, or an object with named members. This module holds the tree that reading a document gives,
the questions asked of a tree when a typed value is read from it, and the text of the parts from
which a document is written.

Numbers with a fraction or an exponent are told apart from integers but their value is not kept,
for no application type holds one. A string that is no text, since it has half a surrogate pair
or bytes that are not UTF-8, is `garbled`; it does no harm where it is skipped.
-/

namespace Remoting

inductive Document where
  | null
  | boolean (value : Bool)
  | integer (value : Int)
  | real
  | text (value : String)
  | garbled
  | array (items : List Document)
  | object (members : List (Option String × Document))

namespace Document

def text? : Document → Option String
  | .text value => some value
  | _ => none

def boolean? : Document → Option Bool
  | .boolean value => some value
  | _ => none

def integerIn? (low high : Int) : Document → Option Int
  | .integer value => if low ≤ value ∧ value ≤ high then some value else none
  | _ => none

def int32? (d : Document) : Option Int32 :=
  Int32.ofInt <$> d.integerIn? Int32.minValue.toInt Int32.maxValue.toInt

def int64? (d : Document) : Option Int64 :=
  Int64.ofInt <$> d.integerIn? Int64.minValue.toInt Int64.maxValue.toInt

def uint8? (d : Document) : Option UInt8 :=
  (UInt8.ofNat ·.toNat) <$> d.integerIn? 0 0xFF

def uint32? (d : Document) : Option UInt32 :=
  (UInt32.ofNat ·.toNat) <$> d.integerIn? 0 0xFFFFFFFF

def list? {α : Type} (read : Document → Option α) : Document → Option (List α)
  | .array items => items.mapM read
  | _ => none

def optional? {α : Type} (read : Document → Option α) : Document → Option (Option α)
  | .null => some none
  | d => some <$> read d

def null? : Document → Option Unit
  | .null => some ()
  | _ => none

/-- The members named by `labels`, in their order. They stand in an array of just so many items,
or in an object, where members of other names are skipped but no label may occur twice. -/
def members? (labels : List String) : Document → Option (List (Option Document))
  | .array items => if items.length = labels.length then some (items.map some) else none
  | .object members => do
    let named ← members.mapM fun (key, value) => key.map fun label => (label, value)
    labels.mapM fun label =>
      match named.filter (·.1 == label) with
      | [] => some none
      | [(_, value)] => some (some value)
      | _ => none
  | _ => none

/-- A member that must be there. -/
def required {α : Type} (read : Document → Option α) (member : Option Document) : Option α :=
  member.bind read

/-- A member that may be left out, which means the same as null. -/
def omissible {α : Type} (read : Document → Option α) (member : Option Document) :
    Option (Option α) :=
  member.elim (some none) (optional? read)

end Document

namespace DocumentText

def controlEscape (c : Char) : List Char :=
  let digits := Nat.toDigits 16 c.toNat
  ['\\', 'u'] ++ List.replicate (4 - digits.length) '0' ++ digits

def escape (c : Char) : List Char :=
  match c with
  | '"' => ['\\', '"']
  | '\\' => ['\\', '\\']
  | '\x08' => ['\\', 'b']
  | '\x0c' => ['\\', 'f']
  | '\n' => ['\\', 'n']
  | '\r' => ['\\', 'r']
  | '\t' => ['\\', 't']
  | c => if c.toNat < 0x20 then controlEscape c else [c]

def string (text : String) : String :=
  String.ofList ('"' :: text.toList.flatMap escape ++ ['"'])

def list (items : List String) : String :=
  "[" ++ String.intercalate "," items ++ "]"

def object (members : List (String × String)) : String :=
  "\x7b" ++ String.intercalate "," (members.map fun (label, text) => string label ++ ":" ++ text)
    ++ "\x7d"

def optional (item : Option String) : String :=
  item.getD "null"

end DocumentText

end Remoting
