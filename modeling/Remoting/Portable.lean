import Remoting.DocumentReader
import Remoting.QuotedText

/-!
# Objects

An application type is portable if each of its values has a type name and a document, which some
values may refuse to give. An object is either such a value or a placeholder, which stands for a
result that is still outstanding. A loader rebuilds the objects of one type from documents; that
they are of this type is part of it.
-/

namespace Remoting

class Portable (ω : Type) extends BEq ω where
  typeName : ω → String
  document : ω → Except String String
  describe : ω → String

inductive Object (ω : Type) where
  | placeholder (outstanding : UInt32)
  | application (value : ω)

def placeholderName : String := "tagwire.PendingRef"

namespace Object

variable {ω : Type} [Portable ω]

def typeName : Object ω → String
  | .placeholder _ => placeholderName
  | .application value => Portable.typeName value

/-- The generic form of the object, or why it refuses to be given one. -/
def document : Object ω → Except String String
  | .placeholder outstanding =>
    .ok (DocumentText.object [("outstanding_id", toString outstanding)])
  | .application value => Portable.document value

def describe (o : Object ω) : String :=
  let content := match o with
    | .placeholder outstanding =>
      Describe.record "PendingRef" [("outstanding_id", toString outstanding)] false
    | .application value => Portable.describe value
  s!"{o.typeName}({content})"

def outstanding? : Object ω → Option UInt32
  | .placeholder outstanding => some outstanding
  | .application _ => none

instance : BEq (Object ω) where
  beq
    | .placeholder a, .placeholder b => a == b
    | .application a, .application b =>
      Portable.typeName a == Portable.typeName b && a == b
    | _, _ => false

end Object

structure Loader (ω : Type) [Portable ω] where
  typeName : String
  load : Bytes → Option (Object ω)
  typeName_load : ∀ bytes o, load bytes = some o → o.typeName = typeName

namespace Loader

variable {ω : Type} [Portable ω]

def placeholder? (bytes : Bytes) : Option (Object ω) := do
  match ← (← Document.parse? bytes).members? ["outstanding_id"] with
  | [id] => return .placeholder (← Document.required Document.uint32? id)
  | _ => none

theorem typeName_placeholder? (bytes : Bytes) (o : Object ω) (h : placeholder? bytes = some o) :
    o.typeName = placeholderName := by
  simp only [placeholder?, Option.bind_eq_bind, Option.bind_eq_some_iff] at h
  obtain ⟨_, _, _, _, h⟩ := h
  split at h
  · simp only [Option.bind_eq_some_iff, Option.pure_def, Option.some.injEq] at h
    obtain ⟨_, _, rfl⟩ := h
    rfl
  · cases h

def placeholder : Loader ω :=
  ⟨placeholderName, placeholder?, typeName_placeholder?⟩

end Loader

end Remoting
