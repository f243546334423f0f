import Remoting.Reader
import Remoting.Writer
import Remoting.Tag
import Remoting.Settings

/-!
# Frames

A frame is one value as it stands on the wire, before anything is made of an object's payload. A
scalar is written behind its tag. Behind the tag of an object come its type name, whether the
payload is the text of a handler, and the payload.
-/

namespace Remoting

inductive Frame where
  | scalar (value : Scalar)
  | object (typeName : String) (custom : Bool) (payload : Bytes)
deriving DecidableEq

namespace Frame

def writeScalar : Scalar → Write ByteFault Unit
  | .null => pure ()
  | .boolean value => Write.boolean value
  | .byte value => Write.int8 value
  | .short value => Write.int16 value
  | .int value => Write.int32 value
  | .long value => Write.int64 value
  | .float word => Write.uint32 word
  | .double word => Write.uint64 word
  | .char unit => Write.uint16 unit
  | .text value => Write.text value

def readScalar (settings : Settings) : Tag → Read Scalar
  | .boolean => .boolean <$> Read.boolean
  | .byte => .byte <$> Read.int8
  | .short => .short <$> Read.int16
  | .int => .int <$> Read.int32
  | .long => .long <$> Read.int64
  | .float => .float <$> Read.uint32
  | .double => .double <$> Read.uint64
  | .char => .char <$> Read.uint16
  | .text => .text <$> Read.text settings.textLimit
  | .null | .object => pure .null

def readTag : Read Tag := do
  let start := (← get).offset
  let byte ← Read.uint8
  match Tag.ofOrdinal? byte with
  | some tag => return tag
  | none => Read.failAt start (.unknownTag byte)

def readObject (settings : Settings) : Read Frame := do
  let typeName ← Read.shortText
  let custom ← Read.boolean
  let payload ← Read.counted settings.payloadLimit
  return .object typeName custom payload

def read (settings : Settings) : Read Frame := do
  match ← readTag with
  | .object => readObject settings
  | tag => .scalar <$> readScalar settings tag

end Frame

end Remoting
