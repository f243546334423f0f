import Remoting.ByteFault
import Remoting.Layout

/-!
# Reading bytes

A reader stands at an offset in front of the bytes that are left. The first step that fails
poisons it: whatever lies behind a misread field must not be interpreted, so every later step
fails at the same offset. A composite field that fails keeps what it had consumed.
-/

namespace Remoting

structure Reader where
  offset : Nat := 0
  rest : Bytes
  poisoned : Bool := false
deriving DecidableEq, Repr

namespace Reader

def ofBytes (bytes : Bytes) : Reader :=
  { rest := bytes }

def remaining (r : Reader) : Nat :=
  r.rest.length

def atEnd (r : Reader) : Bool :=
  r.rest.isEmpty

end Reader

abbrev Read (α : Type) := EStateM ByteFault Reader α

namespace Read

def failAt {α : Type} (offset : Nat) (cause : ByteFault.Cause) : Read α := fun r =>
  .error ⟨offset, cause⟩ { r with poisoned := true }

def take (n : Nat) : Read Bytes := fun r =>
  if r.poisoned then .error ⟨r.offset, .abandoned⟩ r
  else
    let taken := r.rest.take n
    if taken.length < n then failAt r.offset .endOfInput r
    else .ok taken { r with offset := r.offset + n, rest := r.rest.drop n }

def word (width : Nat) : Read Nat :=
  BigEndian.decode <$> take width

def uint8 : Read UInt8 := UInt8.ofNat <$> word 1
def uint16 : Read UInt16 := UInt16.ofNat <$> word 2
def uint32 : Read UInt32 := UInt32.ofNat <$> word 4
def uint64 : Read UInt64 := UInt64.ofNat <$> word 8
def int8 : Read Int8 := UInt8.toInt8 <$> uint8
def int16 : Read Int16 := UInt16.toInt16 <$> uint16
def int32 : Read Int32 := UInt32.toInt32 <$> uint32
def int64 : Read Int64 := UInt64.toInt64 <$> uint64

def boolean : Read Bool := do
  let start := (← get).offset
  let byte ← uint8
  if byte = 0 then return false
  else if byte = 1 then return true
  else failAt start (.badBoolean byte)

/-- A length that must not exceed `limit`. -/
def lengthUpTo (width limit : Nat) : Read Nat := do
  let start := (← get).offset
  let length ← word width
  if length ≤ limit then return length
  else failAt start (.overLimit length limit)

def utf8 (length : Nat) : Read String := do
  let start := (← get).offset
  match Utf8.decode (← take length) with
  | .ok text => return text
  | .error fault => failAt start (.badText fault)

def shortText : Read String := do
  utf8 (← word Layout.nameLengthWidth)

def text (limit : Nat) : Read String := do
  utf8 (← lengthUpTo Layout.textLengthWidth limit)

def counted (limit : Nat) : Read Bytes := do
  take (← lengthUpTo Layout.payloadLengthWidth limit)

end Read

end Remoting
