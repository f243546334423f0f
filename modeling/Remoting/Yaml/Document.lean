import Remoting.Registry
import Remoting.Yaml.Token

/-!
# YAML documents

A document is empty or a mapping of scalars, in a block or within braces. A member of the mapping
may be given an anchor and be repeated by an alias. Anchors are numbered by the count of the names
in use, so one whose name was in use before has the number of the next new name too, and of two
scalars with one number the later is meant.
-/

namespace Remoting.Yaml

/-- A name or a value: written out, or by the number of an anchor. -/
inductive Member where
  | scalar (written : Scalar)
  | alias (number : Nat)
deriving DecidableEq, Repr

structure Anchors where
  numbers : Registry (List Char) Nat := .empty
  /-- The mapping itself is no scalar. -/
  scalars : Registry Nat (Option Scalar) := .empty

def Anchors.add (a : Anchors) (name : Option (List Char)) (scalar : Option Scalar) : Anchors :=
  match name with
  | none => a
  | some name => ⟨a.numbers.insert name a.numbers.size, a.scalars.insert a.numbers.size scalar⟩

structure Document where
  entries : List (Member × Member) := []
  anchors : Anchors := {}

namespace Document

/-- What may stand in front of a scalar or a mapping. -/
structure Properties where
  anchor : Option (List Char) := none
  tag : Option Bytes := none
deriving DecidableEq, Repr

/-- The properties, which may come in either order, and what follows them. -/
def properties? (shorthands : List Shorthand) :
    List Token → Option (Properties × List Token)
  | .anchor name :: .tag tag :: rest | .tag tag :: .anchor name :: rest =>
    (tag.resolve? shorthands).map fun bytes => (⟨some name, some bytes⟩, rest)
  | .anchor name :: rest => some (⟨some name, none⟩, rest)
  | .tag tag :: rest => (tag.resolve? shorthands).map fun bytes => (⟨none, some bytes⟩, rest)
  | rest => some ({}, rest)

def member? (shorthands : List Shorthand) (anchors : Anchors) (tokens : List Token) :
    Option (Member × Anchors × List Token) :=
  match tokens with
  | .alias name :: rest => (anchors.numbers.get? name).map fun n => (.alias n, anchors, rest)
  | tokens =>
    match properties? shorthands tokens with
    | some (p, .scalar s :: rest) =>
      let tagged := { s with tag := p.tag }
      some (.scalar tagged, anchors.add p.anchor (some tagged), rest)
    | some (p, rest) =>
      if p = {} then none
      else
        let empty := ⟨.plain, [], p.tag⟩
        some (.scalar empty, anchors.add p.anchor (some empty), rest)
    | none => none

theorem length_properties? {shorthands : List Shorthand} {tokens rest : List Token}
    {p : Properties} (h : properties? shorthands tokens = some (p, rest)) :
    rest.length ≤ tokens.length ∧ (p ≠ {} → rest.length < tokens.length) := by
  unfold properties? at h
  split at h
  all_goals simp only [Option.map_eq_some_iff, Option.some.injEq, Prod.mk.injEq] at h
  all_goals grind

theorem length_member? {shorthands : List Shorthand} {anchors anchors' : Anchors}
    {tokens rest : List Token} {m : Member}
    (h : member? shorthands anchors tokens = some (m, anchors', rest)) :
    rest.length < tokens.length := by
  unfold member? at h
  split at h
  · obtain ⟨_, _, heq⟩ := Option.map_eq_some_iff.mp h
    cases heq
    exact Nat.lt_succ_self _
  · split at h
    · next hp =>
      have hle := (length_properties? hp).1
      cases h
      exact hle
    · next hp =>
      split at h
      · cases h
      · next hne =>
        have hlt := (length_properties? hp).2 hne
        cases h
        exact hlt
    · cases h

/-- A name and its value, each with its sign in front. -/
def pair? (shorthands : List Shorthand) (anchors : Anchors) (tokens : List Token) :
    Option ((Member × Member) × Anchors × List Token) := do
  let .key :: tokens := tokens | none
  let (name, anchors, tokens) ← member? shorthands anchors tokens
  let .value :: tokens := tokens | none
  let (value, anchors, tokens) ← member? shorthands anchors tokens
  return ((name, value), anchors, tokens)

theorem length_pair? {shorthands : List Shorthand} {anchors anchors' : Anchors}
    {tokens rest : List Token} {e : Member × Member}
    (h : pair? shorthands anchors tokens = some (e, anchors', rest)) :
    rest.length < tokens.length := by
  unfold pair? at h
  simp only [Option.bind_eq_bind] at h
  split at h
  · obtain ⟨⟨_, _, tokens₁⟩, hname, h⟩ := Option.bind_eq_some_iff.mp h
    have hlt := length_member? hname
    dsimp only at h
    split at h
    · obtain ⟨⟨_, _, tokens₂⟩, hvalue, h⟩ := Option.bind_eq_some_iff.mp h
      have hlt' := length_member? hvalue
      cases h
      simp only [List.length_cons] at hlt ⊢
      omega
    · cases h
  · cases h

/-- What follows the end of the entries. -/
def closed? (inBraces : Bool) : List Token → Option (List Token)
  | .blockEnd :: rest => if inBraces then none else some rest
  | .closeBrace :: rest => if inBraces then some rest else none
  | _ => none

/-- What follows behind an entry. Within braces there are commas between entries, and there may
be one behind the last. -/
def separated? (inBraces : Bool) (tokens : List Token) : Option (List Token) :=
  if inBraces then
    match tokens with
    | .comma :: rest => some rest
    | .closeBrace :: _ => some tokens
    | _ => none
  else some tokens

theorem length_separated? {inBraces : Bool} {tokens rest : List Token}
    (h : separated? inBraces tokens = some rest) : rest.length ≤ tokens.length := by
  unfold separated? at h
  split at h
  · split at h
    · cases h
      exact Nat.le_succ _
    · cases h
      exact Nat.le_refl _
    · cases h
  · cases h
    exact Nat.le_refl _

/-- The entries up to the closing token, and what follows it. -/
def entries? (shorthands : List Shorthand) (inBraces : Bool) (anchors : Anchors)
    (tokens : List Token) : Option (Document × List Token) :=
  match closed? inBraces tokens with
  | some rest => some (⟨[], anchors⟩, rest)
  | none =>
    match _hpair : pair? shorthands anchors tokens with
    | none => none
    | some (entry, anchors, rest) =>
      match _hrest : separated? inBraces rest with
      | none => none
      | some rest =>
        (entries? shorthands inBraces anchors rest).map fun (d, rest) =>
          (⟨entry :: d.entries, d.anchors⟩, rest)
termination_by tokens.length
decreasing_by exact Nat.lt_of_le_of_lt (length_separated? _hrest) (length_pair? _hpair)

/-- The content of a document, and what follows it. -/
def root? (shorthands : List Shorthand) (tokens : List Token) : Option (Document × List Token) := do
  let (p, rest) ← properties? shorthands tokens
  let anchors := Anchors.add {} p.anchor none
  match rest with
  | .blockStart :: rest => entries? shorthands false anchors rest
  | .openBrace :: rest => entries? shorthands true anchors rest
  | .scalar _ :: _ => none
  | rest => if p = {} then none else return ({}, rest)

/-- The shorthands that the directives declare, each handle once, and what follows them. There
may be one version, which has to be known. -/
def directives? (versions : Nat) (declared : List Shorthand) :
    List Token → Option (List Shorthand × List Token)
  | .version major minor :: rest =>
    if versions = 0 ∧ major = 1 ∧ (minor = 1 ∨ minor = 2) then
      directives? (versions + 1) declared rest
    else none
  | .shorthand s :: rest =>
    if declared.any (·.handle = s.handle) then none
    else directives? versions (declared ++ [s]) rest
  | rest => some (declared, rest)

/-- Whether a token belongs to the content of a document. -/
def startsContent : Token → Bool
  | .version .. | .shorthand _ | .documentStart | .documentEnd => false
  | _ => true

/-- The only document of these tokens. It has to be opened by a marker if there are directives;
behind the marker nothing more is needed. -/
def ofTokens? (tokens : List Token) : Option Document := do
  let (declared, rest) ← directives? 0 [] tokens
  let shorthands := declared ++ Tag.standardShorthands
  let (document, rest) ←
    match rest with
    | .documentStart :: rest =>
      if rest.head?.any startsContent then root? shorthands rest else some ({}, rest)
    | rest => if tokens.head?.any startsContent then root? shorthands rest else none
  if rest.all (· = .documentEnd) then return document else none

def ofText? (text : List Char) : Option Document :=
  match Token.ofText? text with
  | none => none
  | some [] => some {}
  | some tokens => ofTokens? tokens

end Document

end Remoting.Yaml
