import Remoting.Binary

/-!
# Shortest decimals

The decimal chosen for a finite word is the one with the fewest digits among those nearer to it
than to any other word, and of those the nearest, a tie going up. The reals that round to a word
form an interval, whose ends belong to it when the significand is even. If a grid of decimals
meets the interval at all, one of the two neighbours of the word on that grid lies in it, so only
those two are looked at.
-/

namespace Remoting

structure Decimal where
  significand : Nat
  scale : Int
deriving DecidableEq, Repr

/-- A power of ten; one where the exponent is negative. -/
def powerOfTen (exponent : Int) : Nat :=
  Nat.pow 10 exponent.toNat

namespace Decimal

def digits (d : Decimal) : List Char :=
  Nat.toDigits 10 d.significand

/-- The same number without zeros at the end of its digits. -/
def normal (d : Decimal) : Decimal :=
  if h : d.significand ≠ 0 ∧ d.significand % 10 = 0 then
    normal ⟨d.significand / 10, d.scale + 1⟩
  else d
termination_by d.significand
decreasing_by exact Nat.div_lt_self (by omega) (by decide)

/-- The power of ten of the first digit. -/
def leadingExponent (d : Decimal) : Int :=
  d.digits.length - 1 + d.scale

def positional (d : Decimal) : List Char :=
  let digits := d.digits
  if 0 ≤ d.scale then digits ++ List.replicate d.scale.toNat '0' ++ ['.', '0']
  else
    let places := (-d.scale).toNat
    let padded := List.replicate (places + 1 - digits.length) '0' ++ digits
    let whole := padded.length - places
    padded.take whole ++ '.' :: padded.drop whole

def scientific (d : Decimal) : List Char :=
  let exponent := (toString d.leadingExponent).toList
  match d.digits with
  | [] => '0' :: 'e' :: exponent
  | [c] => c :: 'e' :: exponent
  | c :: rest => c :: '.' :: rest ++ 'e' :: exponent

end Decimal

/-- An interval of reals around a value, all three over one denominator. -/
structure Interval where
  low : Nat
  value : Nat
  high : Nat
  denominator : Nat
  closed : Bool
deriving DecidableEq, Repr

namespace Interval

/-- The reals that round to a word. Below a power of two the words lie twice as dense, so there
the lower half gap is half as wide. -/
def around (f : Binary) (word : Nat) : Interval :=
  let m := f.significand word
  let gap := if f.fractionField word = 0 ∧ 1 < f.exponentField word then 1 else 2
  let e := f.exponent word - 2
  let up := 1 <<< e.toNat
  { low := (4 * m - gap) * up
    value := 4 * m * up
    high := (4 * m + 2) * up
    denominator := 1 <<< (-e).toNat
    closed := m % 2 == 0 }

/-- Whether the decimal `significand * 10 ^ scale` lies in the interval. -/
def contains (i : Interval) (d : Decimal) : Bool :=
  let n := d.significand * powerOfTen d.scale * i.denominator
  let unit := powerOfTen (-d.scale)
  if i.closed then i.low * unit ≤ n && n ≤ i.high * unit
  else i.low * unit < n && n < i.high * unit

def leadingExponent (i : Interval) : Int :=
  if i.denominator ≤ i.value then (Nat.toDigits 10 (i.value / i.denominator)).length - 1
  else -((Nat.toDigits 10 ((i.denominator - 1) / i.value)).length : Int)

/-- The better neighbour of the value on the grid of multiples of `10 ^ scale`, if one is in the
interval. -/
def nearest? (i : Interval) (scale : Int) : Option Decimal :=
  let n := i.value * powerOfTen (-scale)
  let unit := i.denominator * powerOfTen scale
  let below : Decimal := ⟨n / unit, scale⟩
  let above : Decimal := ⟨n / unit + 1, scale⟩
  match i.contains below, i.contains above with
  | true, true => some (if 2 * (n % unit) < unit then below else above)
  | true, false => some below
  | false, true => some above
  | false, false => none

end Interval

namespace Binary

/-- Seventeen digits tell any two words of the formats in use apart. -/
def shortest (f : Binary) (word : Nat) : Decimal :=
  let i := Interval.around f word
  let leading := i.leadingExponent
  let found := (List.range 17).findSome? fun (n : Nat) => i.nearest? (leading - n)
  (found.getD ⟨i.value / i.denominator, 0⟩).normal

def magnitudeText (f : Binary) (word : Nat) : List Char :=
  if f.isInfinite word then ['i', 'n', 'f']
  else if f.isZero word then ['0', '.', '0']
  else
    let d := f.shortest word
    if -4 ≤ d.leadingExponent ∧ d.leadingExponent < 16 then d.positional else d.scientific

/-- Positional between 10⁻⁴ and 10¹⁶, with at least one digit behind the point; else with a power
of ten. -/
def text (f : Binary) (word : Nat) : String :=
  if f.isNaN word then "NaN"
  else String.ofList ((if f.negative word then ['-'] else []) ++ f.magnitudeText word)

end Binary

end Remoting
