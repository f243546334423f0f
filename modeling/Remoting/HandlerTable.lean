import Remoting.Value
import Remoting.Registry

/-!
# Handlers

A handler turns objects into text and text into values. Handlers are registered by type name; the
last registration of a name counts. A typed handler serves the values of one application type and
refuses all other objects that come to it.
-/

namespace Remoting

structure Handler (ω : Type) where
  encode : Object ω → Except String String
  decode : String → Except String (Value ω)

abbrev HandlerTable (ω : Type) := Registry String (Handler ω)

namespace Handler

variable {ω : Type}

def describe (_ : Handler ω) : String :=
  Describe.record "Handler" [] true

def typed [Portable ω] {α : Type} (typeName : String) (view : Object ω → Option α)
    (inject : α → Object ω) (encode : α → Except String String)
    (decode : String → Except String α) : Handler ω where
  encode o :=
    match view o with
    | some value => encode value
    | none => .error s!"encoder for {typeName} cannot encode {o.typeName}"
  decode text := (fun value => .object (inject value)) <$> decode text

end Handler

namespace HandlerTable

variable {ω : Type}

def register (t : HandlerTable ω) (typeName : String) (handler : Handler ω) : HandlerTable ω :=
  t.insert typeName handler

def clear (_ : HandlerTable ω) : HandlerTable ω :=
  .empty

def names (t : HandlerTable ω) : List String :=
  t.keys.mergeSort fun a b => decide (a ≤ b)

def describe (t : HandlerTable ω) : String :=
  Describe.record "DispatchTable" [("types", Describe.list (t.names.map Describe.quoted))] false

end HandlerTable

end Remoting
