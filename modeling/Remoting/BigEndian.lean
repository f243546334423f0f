/-!
# Big-endian words

A word of `width` bytes is written with its most significant byte first. `encode` cuts a number
into that many bytes, dropping whatever does not fit, and `decode` reads any byte string as a
number. On byte strings of one length the two are inverse to each other.
-/

namespace Remoting

abbrev Bytes := List UInt8

namespace BigEndian

/-- How many numbers a word can hold. -/
def capacity : Nat → Nat
  | 0 => 1
  | width + 1 => 256 * capacity width

def encode : Nat → Nat → Bytes
  | 0, _ => []
  | width + 1, n => UInt8.ofNat (n / capacity width) :: encode width n

def decode (bytes : Bytes) : Nat :=
  bytes.foldl (fun n b => n * 256 + b.toNat) 0

@[simp] theorem length_encode (width n : Nat) : (encode width n).length = width := by
  induction width with
  | zero => rfl
  | succ width ih => simp [encode, ih]

end BigEndian

end Remoting
