/-!
# Binary floating-point words

A floating-point number is held as the word that represents it, so that every bit of it survives.
`Binary` describes an interchange format by the widths of its exponent and fraction fields; the
functions below take such a word apart, and `agree` is numeric equality: a word that is not a
number equals nothing, and the two zeros are equal.
-/

namespace Remoting

structure Binary where
  exponentWidth : Nat
  fractionWidth : Nat
deriving DecidableEq, Repr

namespace Binary

def single : Binary := ⟨8, 23⟩

def double : Binary := ⟨11, 52⟩

variable (f : Binary) (word : Nat)

def negative : Bool :=
  word.testBit (f.exponentWidth + f.fractionWidth)

def exponentField : Nat :=
  (word >>> f.fractionWidth) % (1 <<< f.exponentWidth)

def fractionField : Nat :=
  word % (1 <<< f.fractionWidth)

def special : Bool :=
  f.exponentField word == (1 <<< f.exponentWidth) - 1

def isNaN : Bool :=
  f.special word && f.fractionField word != 0

def isInfinite : Bool :=
  f.special word && f.fractionField word == 0

def isZero : Bool :=
  f.exponentField word == 0 && f.fractionField word == 0

def significand : Nat :=
  if f.exponentField word = 0 then f.fractionField word
  else (1 <<< f.fractionWidth) + f.fractionField word

/-- The magnitude of a finite word is `significand * 2 ^ exponent`. -/
def exponent : Int :=
  (max 1 (f.exponentField word) : Nat) - ((1 <<< (f.exponentWidth - 1)) - 1 : Nat) - f.fractionWidth

def agree (a b : Nat) : Bool :=
  !f.isNaN a && !f.isNaN b && (a == b || f.isZero a && f.isZero b)

end Binary

end Remoting
