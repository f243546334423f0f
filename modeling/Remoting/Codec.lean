import Remoting.Catalog
import Remoting.CodecError
import Remoting.Frame
import Remoting.HandlerTable

/-!
# Codecs

A codec writes and reads values, with a catalog of the types it knows, a table of handlers and its
settings. An object goes through the nearest handler registered along its lineage; without one it
is written as its document. Whoever reads it goes by its own catalog and its own handlers.

Writing is atomic. Reading either fails with a fault of the stream, which poisons the reader, or
consumes the value to its end, be it of use or not.
-/

namespace Remoting

structure Codec (ω : Type) [Portable ω] where
  catalog : Catalog ω := {}
  table : HandlerTable ω := .empty
  settings : Settings := {}

/-- What is worth telling an operator though no call fails of it. -/
inductive Notice where
  | passedThrough (typeName : String)
  | unresolved (id : UInt32) (typeName : String)
  | notAnError (id : UInt32) (description : String)
deriving DecidableEq, Repr

def Notice.message : Notice → String
  | .passedThrough typeName =>
    s!"[codec] {typeName} was custom-encoded but no decoder is registered; "
      ++ "passing the raw text through"
  | .unresolved id typeName => s!"[message] completion {id} carries unresolvable type {typeName}"
  | .notAnError id description =>
    s!"[message] completion {id} reports a non-object failure: {description}"

/-- A reader together with the notices given while reading, oldest first. -/
structure Input extends Reader where
  notices : List Notice := []
deriving DecidableEq, Repr

abbrev Encode (α : Type) := Write CodecError α

abbrev Decode (α : Type) := EStateM CodecError Input α

def Input.ofBytes (bytes : Bytes) : Input :=
  { Reader.ofBytes bytes with }

def Encode.lift {α : Type} (step : Write ByteFault α) : Encode α :=
  step.adaptExcept .stream

def Decode.lift {α : Type} (step : Read α) : Decode α := fun input =>
  match step input.toReader with
  | .ok a reader => .ok a { input with toReader := reader }
  | .error fault reader => .error (.stream fault) { input with toReader := reader }

def Decode.notice (n : Notice) : Decode Unit :=
  modify fun input => { input with notices := input.notices ++ [n] }

namespace Codec

variable {ω : Type} [Portable ω] (c : Codec ω)

/-- Whether the payload of an object is a handler's text, and the payload. -/
def represent (o : Object ω) : Except CodecError (Bool × Bytes) :=
  match closest? (c.catalog.searchOrder o.typeName) c.table with
  | some (registered, handler) =>
    match handler.encode o with
    | .ok text => .ok (true, Utf8.encode text)
    | .error reason => .error (.custom registered reason)
  | none =>
    match o.document with
    | .ok text => .ok (false, Utf8.encode text)
    | .error reason => .error (.fallback o.typeName (.refused reason))

def encodeObject (o : Object ω) : Encode Unit := do
  Encode.lift (Write.shortText o.typeName)
  match c.represent o with
  | .error e => throw e
  | .ok (custom, payload) =>
    Write.boolean custom
    Encode.lift (Write.counted payload)

def encodeUnguarded (v : Value ω) : Encode Unit := do
  Write.uint8 v.tag.ordinal
  match v with
  | .scalar s => Encode.lift (Frame.writeScalar s)
  | .object o => c.encodeObject o

def encode (v : Value ω) : Encode Unit :=
  Write.atomically (c.encodeUnguarded v)

def toBytes (v : Value ω) : Except CodecError Bytes :=
  match c.encode v {} with
  | .ok _ writer => .ok writer.bytes
  | .error e _ => .error e

/-- What becomes of a handler's text that no handler can read. -/
def withoutDecoder (typeName text : String) : Decode (Value ω) := do
  match c.settings.missingDecoder with
  | .fail => throw (.missingDecoder typeName)
  | .warnAndPassThrough =>
    Decode.notice (.passedThrough typeName)
    return .scalar (.text text)
  | .passThrough => return .scalar (.text text)

def decodeCustom (entry : Catalog.Entry ω) (typeName : String) (payload : Bytes) :
    Decode (Value ω) := do
  match Utf8.decode payload with
  | .error fault =>
    let start := (← get).offset - payload.length - Layout.payloadLengthWidth
    Decode.lift (Read.failAt start (.badCustomText typeName fault))
  | .ok text =>
    match closest? entry.lineage c.table with
    | none => c.withoutDecoder typeName text
    | some (registered, handler) =>
      match handler.decode text with
      | .ok v => return v
      | .error reason => throw (.custom registered reason)

def decodeFallback (entry : Catalog.Entry ω) (typeName : String) (payload : Bytes) :
    Decode (Value ω) :=
  match entry.load? payload with
  | some (some o) => pure (.object o)
  | some none => throw (.fallback typeName .unreadable)
  | none => throw (.notLoadable typeName)

def decodeObject (typeName : String) (custom : Bool) (payload : Bytes) : Decode (Value ω) :=
  match c.catalog.get? typeName with
  | none => throw (.unknownType typeName custom payload)
  | some entry =>
    if custom then c.decodeCustom entry typeName payload
    else decodeFallback entry typeName payload

def decode : Decode (Value ω) := do
  match ← Decode.lift (Frame.read c.settings) with
  | .scalar s => return .scalar s
  | .object typeName custom payload => c.decodeObject typeName custom payload

/-- A value that must end the input. -/
def decodeToEnd : Decode (Value ω) := do
  let v ← c.decode
  let input ← get
  if input.atEnd then return v
  else Decode.lift (Read.failAt input.offset (.trailing input.remaining))

/-- Reads at most so many values; `done` holds the results so far, last first. -/
def decodeUpTo : Nat → Input → List (Nat × Except CodecError (Value ω)) →
    List (Nat × Except CodecError (Value ω)) × Input
  | 0, input, done => (done.reverse, input)
  | bound + 1, input, done =>
    if input.atEnd then (done.reverse, input)
    else
      match c.decode input with
      | .ok v rest => decodeUpTo bound rest ((input.offset, .ok v) :: done)
      | .error e rest =>
        let done := (input.offset, .error e) :: done
        if e.isFormatError then (done.reverse, rest) else decodeUpTo bound rest done

/-- Reads values until the input ends or is found corrupt. With each result stands the offset at
which its value began. As no value is shorter than a byte, the bytes left bound their number. -/
def decodeAll (input : Input) : List (Nat × Except CodecError (Value ω)) × Input :=
  c.decodeUpTo input.remaining input []

def fromBytes (bytes : Bytes) : Except CodecError (Value ω) :=
  match c.decodeToEnd (.ofBytes bytes) with
  | .ok v _ => .ok v
  | .error e _ => .error e

end Codec

end Remoting
