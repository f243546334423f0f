import Remoting.Portable
import Remoting.Registry

/-!
# Declarations

A declaration names a type and its direct ancestors. A concrete type comes with the loader of its
objects, which also gives it its name; abstract classes and interfaces are known by name only.
-/

namespace Remoting

/-- Every type descends from the root, which is therefore never declared. -/
def rootName : String := "object"

/-- What is declared, with its name. -/
inductive Subject (ω : Type) [Portable ω] where
  | concrete (loader : Loader ω)
  | abstract (name : String)
  | interface (name : String)

structure Declaration (ω : Type) [Portable ω] where
  subject : Subject ω
  superclass : Option String := none
  interfaces : List String := []

abbrev Declarations (ω : Type) [Portable ω] := Registry String (Declaration ω)

namespace Declaration

variable {ω : Type} [Portable ω]

def name (d : Declaration ω) : String :=
  match d.subject with
  | .concrete loader => loader.typeName
  | .abstract name => name
  | .interface name => name

def isInterface (d : Declaration ω) : Bool :=
  match d.subject with
  | .interface _ => true
  | _ => false

def loader? (d : Declaration ω) : Option (Loader ω) :=
  match d.subject with
  | .concrete loader => some loader
  | _ => none

def kindName (d : Declaration ω) : String :=
  match d.subject with
  | .concrete _ => "Concrete"
  | .abstract _ => "Abstract"
  | .interface _ => "Interface"

def extending (d : Declaration ω) (superclass : String) : Declaration ω :=
  { d with superclass := some superclass }

def implementing (d : Declaration ω) (interface : String) : Declaration ω :=
  { d with interfaces := d.interfaces ++ [interface] }

def describe (d : Declaration ω) : String :=
  Describe.record "TypeDecl"
    [("name", Describe.quoted d.name), ("kind", d.kindName),
      ("superclass", Describe.option (d.superclass.map Describe.quoted)),
      ("interfaces", Describe.list (d.interfaces.map Describe.quoted))] true

end Declaration

/-- What can be wrong with a set of declarations. -/
inductive HierarchyFault where
  | duplicate (name : String)
  | reserved (name : String)
  | undeclared (name referrer : String)
  | cycle (name : String)
  | invalidSuperclass (name superclass : String)
  | notAnInterface (name referrer : String)
deriving DecidableEq, Repr

namespace HierarchyFault

def message : HierarchyFault → String
  | .duplicate name => s!"type '{name}' declared twice"
  | .reserved name => s!"type name '{name}' is reserved"
  | .undeclared name referrer => s!"type '{name}' referenced by '{referrer}' is not declared"
  | .cycle name => s!"superclass cycle through '{name}'"
  | .invalidSuperclass name superclass =>
    s!"'{name}' cannot have '{superclass}' as superclass"
  | .notAnInterface name referrer =>
    s!"'{name}' is implemented by '{referrer}' but is not an interface"

end HierarchyFault

end Remoting
