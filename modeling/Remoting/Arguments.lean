import Remoting.Codec

/-!
# Argument lists

The arguments of a call are written behind their number. Reading consumes every one of them: an
argument that cannot be rebuilt makes the list fail, but only once the list was read to its end,
and the first such argument is the one reported. A fault of the stream ends reading at once. A
number of arguments that could not fit the bytes that are left is refused before any is read.
-/

namespace Remoting.Arguments

variable {ω : Type} [Portable ω] (c : Codec ω)

def encode (args : List (Value ω)) : Encode Unit := do
  if args.length ≤ 0x7FFFFFFF then
    Write.atomically do
      Write.word 4 args.length
      args.forM c.encode
  else throw (.stream ⟨(← get).offset, .tooManyArguments args.length⟩)

/-- Reads so many further arguments; `done` holds the earlier ones, last first, and `failure` the
first failure among them. -/
def decodeRest : Nat → List (Value ω) → Option CodecError → Decode (List (Value ω))
  | 0, done, failure, input =>
    match failure with
    | none => .ok done.reverse input
    | some e => .error e input
  | count + 1, done, failure, input =>
    match c.decode input with
    | .ok v input => decodeRest count (v :: done) failure input
    | .error e input =>
      if e.isFormatError then .error e input
      else decodeRest count (.scalar .null :: done) (failure <|> some e) input

def decode : Decode (List (Value ω)) := do
  let start := (← get).offset
  let count ← Decode.lift Read.int32
  if 0 ≤ count.toInt ∧ count.toInt ≤ (← get).remaining then
    decodeRest c count.toInt.toNat [] none
  else Decode.lift (Read.failAt start (.badCount count))

end Remoting.Arguments
