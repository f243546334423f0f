import Remoting.Lineage

/-!
# Catalogs

A catalog holds declared types with their lineages. It is built from a list of declarations, or
by adding further ones to a catalog that is already there; the list is refused if a name is used
twice or is the root's, if a superclass or an interface is of the wrong kind or not declared, or
if a chain of superclasses closes into a cycle.
-/

namespace Remoting

structure Catalog.Entry (ω : Type) [Portable ω] where
  declaration : Declaration ω
  lineage : List String

structure Catalog (ω : Type) [Portable ω] where
  entries : Registry String (Catalog.Entry ω) := .empty

namespace Catalog

variable {ω : Type} [Portable ω]

def Entry.load? (e : Entry ω) (bytes : Bytes) : Option (Option (Object ω)) :=
  e.declaration.loader?.map (·.load bytes)

def add (decls : Declarations ω) (d : Declaration ω) :
    Except HierarchyFault (Declarations ω) :=
  if d.name = rootName then .error (.reserved d.name)
  else if decls.contains d.name then .error (.duplicate d.name)
  else .ok (decls.insert d.name d)

/-- The declarations by name, each name once and none the root's. -/
def collect (ds : List (Declaration ω)) : Except HierarchyFault (Declarations ω) :=
  ds.foldlM add .empty

def declaredAsInterface (decls : Declarations ω) (name : String) : Bool :=
  (decls.get? name).any (·.isInterface)

def declaredAsClass (decls : Declarations ω) (name : String) : Bool :=
  (decls.get? name).any (!·.isInterface)

/-- Classes extend classes, interfaces extend nothing, and what is implemented are interfaces.
Names that are not declared are left to the lineages. -/
def checkShape (decls : Declarations ω) (d : Declaration ω) : Except HierarchyFault Unit := do
  if let some superclass := d.superclass then
    if d.isInterface || declaredAsInterface decls superclass then
      throw (.invalidSuperclass d.name superclass)
  if let some interface := d.interfaces.find? (declaredAsClass decls) then
    throw (.notAnInterface interface d.name)

def enter (decls : Declarations ω) (entries : Registry String (Entry ω)) (d : Declaration ω) :
    Except HierarchyFault (Registry String (Entry ω)) := do
  return entries.insert d.name ⟨d, ← lineage decls d.name⟩

def build (ds : List (Declaration ω)) : Except HierarchyFault (Catalog ω) := do
  let decls ← collect ds
  ds.forM (checkShape decls)
  return ⟨← ds.foldlM (enter decls) .empty⟩

def declarations (c : Catalog ω) : List (Declaration ω) :=
  c.entries.values.map (·.declaration)

/-- The catalog with further declarations. -/
def extend (c : Catalog ω) (ds : List (Declaration ω)) : Except HierarchyFault (Catalog ω) :=
  build (c.declarations ++ ds)

def get? (c : Catalog ω) (name : String) : Option (Entry ω) :=
  c.entries.get? name

def size (c : Catalog ω) : Nat :=
  c.entries.size

def lineage? (c : Catalog ω) (name : String) : Option (List String) :=
  (c.get? name).map (·.lineage)

/-- Where to look for handlers of a type, be it declared or not. -/
def searchOrder (c : Catalog ω) (name : String) : List String :=
  (c.lineage? name).getD (detachedLineage name)

theorem searchOrder_of_declared (c : Catalog ω) {name : String} {entry : Entry ω}
    (h : c.get? name = some entry) : c.searchOrder name = entry.lineage := by
  rw [searchOrder, lineage?, h, Option.map_some, Option.getD_some]

theorem searchOrder_of_undeclared (c : Catalog ω) {name : String} (h : c.get? name = none) :
    c.searchOrder name = detachedLineage name := by
  rw [searchOrder, lineage?, h, Option.map_none, Option.getD_none]

end Catalog

end Remoting
