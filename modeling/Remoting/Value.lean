import Remoting.Portable
import Remoting.ShortestDecimal

/-!
# Values

A value that can be sent is a scalar or an object. Floating-point scalars are held as words. Two
values are equal if they are of one kind and numerically equal, so a word that is not a number
differs from itself.
-/

namespace Remoting

inductive Scalar where
  | null
  | boolean (value : Bool)
  | byte (value : Int8)
  | short (value : Int16)
  | int (value : Int32)
  | long (value : Int64)
  | float (word : UInt32)
  | double (word : UInt64)
  | char (unit : UInt16)
  | text (value : String)
deriving DecidableEq

inductive Value (ω : Type) where
  | scalar (value : Scalar)
  | object (value : Object ω)

namespace Scalar

def agree : Scalar → Scalar → Bool
  | .float a, .float b => Binary.single.agree a.toNat b.toNat
  | .double a, .double b => Binary.double.agree a.toNat b.toNat
  | a, b => a == b

def describe : Scalar → String
  | .null => "Null"
  | .boolean value => s!"Bool({value})"
  | .byte value => s!"Byte({value})"
  | .short value => s!"Short({value})"
  | .int value => s!"Int({value})"
  | .long value => s!"Long({value})"
  | .float word => s!"Float({Binary.single.text word.toNat})"
  | .double word => s!"Double({Binary.double.text word.toNat})"
  | .char unit => s!"Char({unit})"
  | .text value => s!"String({Describe.quoted value})"

/-- A character that is one UTF-16 code unit. -/
def ofChar? (c : Char) : Option Scalar :=
  if c.toNat < UInt16.size then some (.char (UInt16.ofNat c.toNat)) else none

end Scalar

namespace Value

variable {ω : Type}

instance : Inhabited (Value ω) := ⟨.scalar .null⟩

def isNull : Value ω → Bool
  | .scalar .null => true
  | _ => false

def boolean? : Value ω → Option Bool
  | .scalar (.boolean value) => some value
  | _ => none

def byte? : Value ω → Option Int8
  | .scalar (.byte value) => some value
  | _ => none

def short? : Value ω → Option Int16
  | .scalar (.short value) => some value
  | _ => none

def int? : Value ω → Option Int32
  | .scalar (.int value) => some value
  | _ => none

def long? : Value ω → Option Int64
  | .scalar (.long value) => some value
  | _ => none

def float? : Value ω → Option UInt32
  | .scalar (.float word) => some word
  | _ => none

def double? : Value ω → Option UInt64
  | .scalar (.double word) => some word
  | _ => none

/-- The character, unless the code unit is one half of a surrogate pair. -/
def char? : Value ω → Option Char
  | .scalar (.char unit) =>
    if h : unit.toNat.isValidChar then some (Char.ofNatAux unit.toNat h) else none
  | _ => none

def text? : Value ω → Option String
  | .scalar (.text value) => some value
  | _ => none

def object? : Value ω → Option (Object ω)
  | .scalar _ => none
  | .object value => some value

def outstanding? (v : Value ω) : Option UInt32 :=
  v.object?.bind Object.outstanding?

def describe [Portable ω] : Value ω → String
  | .scalar value => value.describe
  | .object value => s!"Object({value.describe})"

instance [Portable ω] : BEq (Value ω) where
  beq
    | .scalar a, .scalar b => a.agree b
    | .object a, .object b => a == b
    | _, _ => false

end Value

end Remoting
