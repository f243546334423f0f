import Remoting.Codec
import Remoting.SlotTable

/-!
# Completions

The outcome of an asynchronous call comes as two values, what was thrown and what was returned,
under the id that a placeholder announced. A value that cannot be rebuilt is replaced by null and
the name of its type is kept, so that whoever waits for the outcome learns of it. The outcome is
published under the id, and whoever holds the placeholder waits there for it.
-/

namespace Remoting

inductive RemoteFault (ω : Type) where
  | thrown (error : Object ω)
  | notAnError (value : Value ω)
  | unresolved (typeName : String)

abbrev Outcome (ω : Type) := Except (RemoteFault ω) (Value ω)

structure Completion (ω : Type) where
  id : UInt32
  thrown : Value ω := .scalar .null
  returned : Value ω := .scalar .null
  unresolved : Option String := none

def RemoteFault.message {ω : Type} [Portable ω] : RemoteFault ω → String
  | .thrown error => s!"remote computation failed: {error.describe}"
  | .notAnError value => s!"remote failure is not an error object: {value.describe}"
  | .unresolved typeName => s!"remote outcome carries unresolvable type {typeName}"

namespace Completion

variable {ω : Type}

def success (id : UInt32) (value : Value ω) : Completion ω :=
  { id, returned := value }

def failure (id : UInt32) (error : Object ω) : Completion ω :=
  { id, thrown := .object error }

def outcome (m : Completion ω) : Outcome ω :=
  match m.unresolved with
  | some typeName => .error (.unresolved typeName)
  | none =>
    match m.thrown with
    | .scalar .null => .ok m.returned
    | .object error => .error (.thrown error)
    | value => .error (.notAnError value)

/-- Settles the id with the outcome, and tells whether it is the one that counts. -/
def publish (m : Completion ω) (t : SlotTable (Outcome ω)) : SlotTable (Outcome ω) × Bool :=
  t.settle m.id m.outcome

variable [Portable ω]

def notice? (m : Completion ω) : Option Notice :=
  match m.outcome with
  | .error (.unresolved typeName) => some (.unresolved m.id typeName)
  | .error (.notAnError value) => some (.notAnError m.id value.describe)
  | _ => none

def encode (c : Codec ω) (m : Completion ω) : Encode Unit :=
  Write.atomically do
    c.encode m.thrown
    c.encode m.returned

/-- A value, or null and the type name of a value that cannot be rebuilt. -/
def decodePart (c : Codec ω) : Decode (Value ω × Option String) := fun input =>
  match c.decode input with
  | .ok v input => .ok (v, none) input
  | .error e input =>
    match e.typeName? with
    | some typeName => .ok (.scalar .null, some typeName) input
    | none => .error e input

def decode (c : Codec ω) (id : UInt32) : Decode (Completion ω) := do
  let (thrown, lostThrown) ← decodePart c
  let (returned, lostReturned) ← decodePart c
  return { id, thrown, returned, unresolved := lostThrown <|> lostReturned }

end Completion

/-- A handle on the outcome that a placeholder stands for; no other value stands for one. -/
def Value.resolve? {ω : Type} (v : Value ω) (t : SlotTable (Outcome ω)) :
    Option (SlotTable (Outcome ω) × Handle) :=
  v.outstanding?.map t.awaitOrCreate

end Remoting
