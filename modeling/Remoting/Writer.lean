import Remoting.ByteFault
import Remoting.Layout

/-!
# Writing bytes

A writer collects bytes and only ever adds to their end, or drops what lies behind a mark.
`atomically` runs a step that may fail and, if it does, drops whatever the step had written.
-/

namespace Remoting

structure Writer where
  bytes : Bytes := []
deriving DecidableEq, Repr

namespace Writer

def offset (w : Writer) : Nat :=
  w.bytes.length

def append (w : Writer) (bytes : Bytes) : Writer :=
  ⟨w.bytes ++ bytes⟩

def rewind (w : Writer) (mark : Nat) : Writer :=
  ⟨w.bytes.take mark⟩

end Writer

abbrev Write (ε α : Type) := EStateM ε Writer α

namespace Write

variable {ε : Type}

def bytes (bytes : Bytes) : Write ε Unit :=
  modify (·.append bytes)

def word (width n : Nat) : Write ε Unit :=
  Write.bytes (BigEndian.encode width n)

def uint8 (v : UInt8) : Write ε Unit := word 1 v.toNat
def uint16 (v : UInt16) : Write ε Unit := word 2 v.toNat
def uint32 (v : UInt32) : Write ε Unit := word 4 v.toNat
def uint64 (v : UInt64) : Write ε Unit := word 8 v.toNat
def int8 (v : Int8) : Write ε Unit := uint8 v.toUInt8
def int16 (v : Int16) : Write ε Unit := uint16 v.toUInt16
def int32 (v : Int32) : Write ε Unit := uint32 v.toUInt32
def int64 (v : Int64) : Write ε Unit := uint64 v.toUInt64

def boolean (v : Bool) : Write ε Unit :=
  uint8 (if v then 1 else 0)

def fail (cause : ByteFault.Cause) : Write ByteFault Unit := do
  throw ⟨(← get).offset, cause⟩

/-- A text behind its byte count, which has to fit its two bytes. -/
def shortText (text : String) : Write ByteFault Unit :=
  let encoded := Utf8.encode text
  if encoded.length < BigEndian.capacity Layout.nameLengthWidth then do
    word Layout.nameLengthWidth encoded.length
    Write.bytes encoded
  else fail (.textTooLong encoded.length)

/-- Bytes behind their number, which has to fit its four bytes. -/
def counted (payload : Bytes) : Write ByteFault Unit :=
  if payload.length < BigEndian.capacity Layout.payloadLengthWidth then do
    word Layout.payloadLengthWidth payload.length
    Write.bytes payload
  else fail (.payloadTooLong payload.length)

def text (text : String) : Write ByteFault Unit :=
  counted (Utf8.encode text)

def atomically {α : Type} (step : Write ε α) : Write ε α := fun w =>
  match step w with
  | .ok a w' => .ok a w'
  | .error e w' => .error e (w'.rewind w.offset)

end Write

end Remoting
