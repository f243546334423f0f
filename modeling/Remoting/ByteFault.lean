import Remoting.Utf8

/-!
# Faults of a byte stream

A fault tells where in the stream something went wrong and why. Its kind says which side failed:
writing, reading past the end, reading bytes that mean nothing, or reading on after a failure.
-/

namespace Remoting

inductive ByteFault.Kind where
  | writeFailed
  | readFailed
  | invalidData
  | poisoned
deriving DecidableEq, Repr

inductive ByteFault.Cause where
  | textTooLong (size : Nat)
  | payloadTooLong (size : Nat)
  | tooManyArguments (count : Nat)
  | endOfInput
  | badBoolean (byte : UInt8)
  | overLimit (length limit : Nat)
  | badText (fault : Utf8.Fault)
  | badCustomText (typeName : String) (fault : Utf8.Fault)
  | unknownTag (byte : UInt8)
  | badCount (count : Int32)
  | trailing (count : Nat)
  | reported (reason : String)
  | abandoned
deriving DecidableEq, Repr

structure ByteFault where
  offset : Nat
  cause : ByteFault.Cause
deriving DecidableEq, Repr

namespace ByteFault

def Cause.kind : Cause → Kind
  | .textTooLong _ | .payloadTooLong _ | .tooManyArguments _ => .writeFailed
  | .endOfInput => .readFailed
  | .abandoned => .poisoned
  | _ => .invalidData

def kind (f : ByteFault) : Kind :=
  f.cause.kind

def hexByte (b : UInt8) : String :=
  let digits := Nat.toDigits 16 b.toNat
  String.ofList (List.replicate (2 - digits.length) '0' ++ digits)

def Cause.reason? : Cause → Option String
  | .textTooLong size => some s!"string of {size} bytes exceeds u16 prefix"
  | .payloadTooLong size => some s!"payload of {size} bytes exceeds u32 prefix"
  | .tooManyArguments count => some s!"{count} arguments exceed i32 count"
  | .endOfInput => some "unexpected end of buffer"
  | .badBoolean byte => some s!"non-canonical boolean byte 0x{hexByte byte}"
  | .overLimit length limit => some s!"length prefix {length} exceeds limit {limit}"
  | .badText fault => some s!"invalid UTF-8: {fault.message}"
  | .badCustomText typeName fault =>
    some s!"custom payload of {typeName} is not UTF-8: {fault.message}"
  | .unknownTag byte => some s!"unknown tag {byte}"
  | .badCount count => some s!"invalid argument count {count}"
  | .trailing count => some s!"{count} trailing bytes"
  | .reported reason => some reason
  | .abandoned => none

def reason? (f : ByteFault) : Option String :=
  f.cause.reason?

def message (f : ByteFault) : String :=
  let reason := f.reason?.getD ""
  match f.kind with
  | .writeFailed => s!"write failed at offset {f.offset}: {reason}"
  | .readFailed => s!"read failed at offset {f.offset}: {reason}"
  | .invalidData => s!"invalid data at offset {f.offset}: {reason}"
  | .poisoned => s!"cursor abandoned after failed read at offset {f.offset}"

end ByteFault

end Remoting
