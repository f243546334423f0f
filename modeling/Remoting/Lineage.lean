import Remoting.Declaration

/-!
# Lineages

The lineage of a type is the order in which its ancestors are searched: the type and its
superclasses, then the interfaces reachable from the type itself, nearest first, then the root.
`chain` follows the superclasses and `walk` visits the interfaces breadth first; both end because
every step uses up a declared name that was not seen before.
-/

namespace Remoting.Lineage

variable {ω α : Type} [Portable ω]

/-- The number of declared names not in the list. -/
def unseen (decls : Declarations ω) (seen : List String) : Nat :=
  decls.keys.countP (· ∉ seen)

theorem countP_lt_countP {l : List α} {p q : α → Bool} (hpq : ∀ x, p x → q x) {a : α}
    (ha : a ∈ l) (hp : ¬ p a) (hq : q a) : l.countP p < l.countP q := by
  induction l with
  | nil => cases ha
  | cons b l ih =>
    have hle : l.countP p ≤ l.countP q := List.countP_mono_left fun x _ => hpq x
    rcases List.mem_cons.mp ha with rfl | hmem
    · simp only [List.countP_cons, hp, hq]
      simp; omega
    · have := ih hmem
      have := hpq b
      simp only [List.countP_cons]
      by_cases hb : p b
      · simp only [hb, hpq b hb, if_true]; omega
      · simp only [hb]; simp; omega

theorem unseen_cons_lt {decls : Declarations ω} {seen : List String} {name : String}
    (hmem : name ∈ decls.keys) (hseen : name ∉ seen) :
    unseen decls (name :: seen) < unseen decls seen :=
  countP_lt_countP (fun x hx => by simp_all) hmem (by simp) (by simpa using hseen)

/-- The superclasses of a type, starting with itself. -/
def chain (decls : Declarations ω) (seen : List String) (referrer name : String) :
    Except HierarchyFault (List String) :=
  if _hseen : name ∈ seen then .error (.cycle name)
  else
    match _hdecl : decls.get? name with
    | none => .error (.undeclared name referrer)
    | some d =>
      match d.superclass with
      | none => .ok [name]
      | some superclass => (name :: ·) <$> chain decls (name :: seen) name superclass
termination_by unseen decls seen
decreasing_by exact unseen_cons_lt (Registry.mem_keys_of_get? _hdecl) _hseen

/-- The names that occur for the first time, in order. -/
def fresh (visited : List String) : List String → List String
  | [] => []
  | name :: names =>
    if name ∈ visited then fresh visited names else name :: fresh (name :: visited) names

theorem unseen_fresh (decls : Declarations ω) (visited names : List String)
    (hmem : ∀ n ∈ fresh visited names, n ∈ decls.keys) :
    unseen decls (visited ++ fresh visited names) + (fresh visited names).length
      ≤ unseen decls visited := by
  induction names generalizing visited with
  | nil => simp [fresh]
  | cons n names ih =>
    simp only [fresh] at hmem ⊢
    split
    next h => exact ih visited (by simpa [h] using hmem)
    next h =>
      rw [if_neg h] at hmem
      have hrest := ih (n :: visited) fun m hm => hmem m (List.mem_cons_of_mem _ hm)
      have hlt := unseen_cons_lt (hmem n List.mem_cons_self) h
      have hperm : unseen decls (visited ++ n :: fresh (n :: visited) names)
          = unseen decls (n :: visited ++ fresh (n :: visited) names) := by
        unfold unseen
        congr 1
        funext x
        simp only [List.mem_append, List.mem_cons]
        grind
      rw [hperm, List.length_cons]
      omega

/-- All names visited, in the order of discovery. The queue holds those whose interfaces are
still to be looked at. -/
def walk (decls : Declarations ω) (start : String) (visited queue : List String) :
    Except HierarchyFault (List String) :=
  match queue with
  | [] => .ok visited
  | next :: queue =>
    match decls.get? next with
    | none => .error (.undeclared next start)
    | some d =>
      match _hmissing : (fresh visited d.interfaces).find? (· ∉ decls.keys) with
      | some missing => .error (.undeclared missing next)
      | none =>
        walk decls start (visited ++ fresh visited d.interfaces)
          (queue ++ fresh visited d.interfaces)
termination_by unseen decls visited + queue.length
decreasing_by
  have hall : ∀ n ∈ fresh visited d.interfaces, n ∈ decls.keys := by
    simpa using _hmissing
  have := unseen_fresh decls visited d.interfaces hall
  simp only [List.length_append, List.length_cons]
  omega

end Lineage

variable {ω : Type} [Portable ω]

def lineage (decls : Declarations ω) (name : String) : Except HierarchyFault (List String) := do
  let chain ← Lineage.chain decls [] name name
  let visited ← Lineage.walk decls name [name] [name]
  return chain ++ visited.drop 1 ++ [rootName]

/-- The lineage of a type of which nothing is known but its name. -/
def detachedLineage (name : String) : List String :=
  [name, rootName]

/-- The first name of a lineage that is registered, with what is registered for it. -/
def closest? {α : Type} (lineage : List String) (registry : Registry String α) :
    Option (String × α) :=
  lineage.findSome? fun name => (registry.get? name).map (name, ·)

end Remoting
