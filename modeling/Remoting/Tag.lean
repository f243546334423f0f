import Remoting.Value
import Remoting.Layout

/-!
# Tags

The tag in front of a value says how the bytes behind it are to be read. Its ordinal is what
stands on the wire, so the order of the tags is fixed for good.
-/

namespace Remoting

inductive Tag where
  | null
  | boolean
  | byte
  | short
  | int
  | long
  | float
  | double
  | char
  | text
  | object
deriving DecidableEq, Repr

namespace Tag

def all : List Tag :=
  [.null, .boolean, .byte, .short, .int, .long, .float, .double, .char, .text, .object]

def ordinal : Tag → UInt8
  | .null => 0
  | .boolean => 1
  | .byte => 2
  | .short => 3
  | .int => 4
  | .long => 5
  | .float => 6
  | .double => 7
  | .char => 8
  | .text => 9
  | .object => 10

def ofOrdinal? (n : UInt8) : Option Tag :=
  all.find? (·.ordinal = n)

@[simp] theorem ofOrdinal?_ordinal (t : Tag) : ofOrdinal? t.ordinal = some t := by
  cases t <;> rfl

theorem ordinal_of_ofOrdinal? {n : UInt8} {t : Tag} (h : ofOrdinal? n = some t) :
    t.ordinal = n := by
  simpa using List.find?_some h

def name : Tag → String
  | .null => "NULL"
  | .boolean => "BOOL"
  | .byte => "BYTE"
  | .short => "SHORT"
  | .int => "INT"
  | .long => "LONG"
  | .float => "FLOAT"
  | .double => "DOUBLE"
  | .char => "CHAR"
  | .text => "STRING"
  | .object => "UNKNOWN"

/-- The number of bytes behind the tag, where it is the same for all values of the kind. -/
def fixedSize? : Tag → Option Nat
  | .null => some 0
  | .boolean | .byte => some 1
  | .short => some 2
  | .char => some Layout.charWidth
  | .int | .float => some 4
  | .long | .double => some 8
  | .text | .object => none

end Tag

def Scalar.tag : Scalar → Tag
  | .null => .null
  | .boolean _ => .boolean
  | .byte _ => .byte
  | .short _ => .short
  | .int _ => .int
  | .long _ => .long
  | .float _ => .float
  | .double _ => .double
  | .char _ => .char
  | .text _ => .text

def Value.tag {ω : Type} : Value ω → Tag
  | .scalar value => value.tag
  | .object _ => .object

end Remoting
