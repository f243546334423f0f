import Remoting.ByteFault

/-!
# Why a value could not be written or read

After a fault of the stream nothing that follows can be read. All other errors are about an object
that was read to its end but cannot be rebuilt, so that reading may go on behind it.
-/

namespace Remoting

/-- Why the generic form of an object was of no use. -/
inductive FallbackCause where
  | refused (reason : String)
  | unreadable
deriving DecidableEq, Repr

inductive CodecError where
  | stream (fault : ByteFault)
  | unknownType (typeName : String) (custom : Bool) (payload : Bytes)
  | missingDecoder (typeName : String)
  | notLoadable (typeName : String)
  | custom (registered reason : String)
  | fallback (typeName : String) (cause : FallbackCause)
deriving DecidableEq, Repr

namespace CodecError

def isFormatError : CodecError → Bool
  | .stream _ => true
  | _ => false

def isResolutionError : CodecError → Bool
  | .unknownType .. => true
  | _ => false

/-- The type that the error is about. A handler's failure is about the type it is registered
for. -/
def typeName? : CodecError → Option String
  | .stream _ => none
  | .unknownType typeName _ _ => some typeName
  | .missingDecoder typeName => some typeName
  | .notLoadable typeName => some typeName
  | .custom registered _ => some registered
  | .fallback typeName _ => some typeName

/-- The byte that stood in the place of a tag, and where. -/
def unknownTag? : CodecError → Option (Nat × UInt8)
  | .stream ⟨offset, .unknownTag byte⟩ => some (offset, byte)
  | _ => none

/-- Why a document could not be read is not told. -/
def message? : CodecError → Option String
  | .stream ⟨offset, .unknownTag byte⟩ =>
    some s!"corrupt stream: unknown tag {byte} at offset {offset}"
  | .stream fault => some s!"corrupt stream: {fault.message}"
  | .unknownType typeName _ _ => some s!"unknown type on the wire: {typeName}"
  | .missingDecoder typeName =>
    some s!"{typeName} was written by a custom encoder but no decoder is registered"
  | .notLoadable typeName => some s!"type {typeName} cannot be instantiated"
  | .custom registered reason => some s!"custom handler for {registered} failed: {reason}"
  | .fallback typeName (.refused reason) =>
    some s!"fallback serialization of {typeName} failed: {reason}"
  | .fallback _ .unreadable => none

/-- Whether another error lies behind this one. -/
def hasSource (e : CodecError) : Bool :=
  match e with
  | .stream _ => e.unknownTag?.isNone
  | .fallback .. => true
  | _ => false

end CodecError

end Remoting
