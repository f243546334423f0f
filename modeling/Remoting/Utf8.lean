import Remoting.BigEndian

/-!
# UTF-8 text

`encode` gives the bytes of a text and `decode` the text of well-formed bytes. Bytes that are not
well formed are answered with their first fault: the length of the well-formed part in front of
it, and the number of bytes that make up the broken sequence, or nothing where the bytes end
inside a sequence that could still have been completed.
-/

namespace Remoting.Utf8

structure Fault where
  validUpTo : Nat
  width : Option Nat
deriving DecidableEq, Repr

def Fault.message (f : Fault) : String :=
  match f.width with
  | some n => s!"invalid utf-8 sequence of {n} bytes from index {f.validUpTo}"
  | none => s!"incomplete utf-8 byte sequence from index {f.validUpTo}"

/-- The bytes that may follow a lead byte, position by position. The second byte is restricted
so that overlong forms, surrogates and code points above U+10FFFF have no sequence. -/
def continuations (lead : UInt8) : Option (List (UInt8 × UInt8)) :=
  let any := (0x80, 0xBF)
  if lead ≤ 0x7F then some []
  else if lead < 0xC2 then none
  else if lead ≤ 0xDF then some [any]
  else if lead = 0xE0 then some [(0xA0, 0xBF), any]
  else if lead = 0xED then some [(0x80, 0x9F), any]
  else if lead ≤ 0xEF then some [any, any]
  else if lead = 0xF0 then some [(0x90, 0xBF), any, any]
  else if lead < 0xF4 then some [any, any, any]
  else if lead = 0xF4 then some [(0x80, 0x8F), any, any]
  else none

inductive Sequence where
  | complete
  | brokenAfter (matched : Nat)
  | cutShort
deriving DecidableEq, Repr

def matchSequence : List (UInt8 × UInt8) → Bytes → Nat → Sequence
  | [], _, _ => .complete
  | _ :: _, [], _ => .cutShort
  | (low, high) :: ranges, b :: bytes, matched =>
    if low ≤ b ∧ b ≤ high then matchSequence ranges bytes (matched + 1) else .brokenAfter matched

/-- The first fault at or after position `at`; the end of the bytes counts as one, so that the
function is total, but it is asked only about bytes that are not well formed. -/
def faultFrom : Nat → Nat → Bytes → Fault
  | _, start, [] => ⟨start, none⟩
  | skip + 1, start, _ :: bytes => faultFrom skip (start + 1) bytes
  | 0, start, b :: bytes =>
    match continuations b with
    | none => ⟨start, some 1⟩
    | some ranges =>
      match matchSequence ranges bytes 1 with
      | .complete => faultFrom ranges.length (start + 1) bytes
      | .brokenAfter matched => ⟨start, some matched⟩
      | .cutShort => ⟨start, none⟩

def firstFault (bytes : Bytes) : Fault :=
  faultFrom 0 0 bytes

def encode (text : String) : Bytes :=
  text.toByteArray.data.toList

def decode (bytes : Bytes) : Except Fault String :=
  if h : (ByteArray.mk bytes.toArray).IsValidUTF8 then .ok (String.ofByteArray _ h)
  else .error (firstFault bytes)

theorem length_encode (text : String) : (encode text).length = text.utf8ByteSize := by
  show text.toByteArray.data.toList.length = text.toByteArray.size
  simp

theorem decode_encode (text : String) : decode (encode text) = .ok text := by
  simp [decode, encode, text.isValidUTF8]

theorem eq_encode_of_decode {bytes : Bytes} {text : String} (h : decode bytes = .ok text) :
    bytes = encode text := by
  unfold decode at h
  split at h
  · cases h; simp [encode]
  · cases h

end Remoting.Utf8
