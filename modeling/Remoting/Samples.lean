import Remoting.Portable

/-!
# Sample application types

A small closed world of application types, of every shape that a document can have: records, bare
texts, a record with optional and repeated members, a type without content, one that refuses some
of its values, and records that differ in nothing but names of unusual form or length.
-/

namespace Remoting

/-- The types that hold a small number and differ by name only. -/
inductive Numbered where
  | named
  | root
  | empty
  | foreign
  | long255
  | long65535
  | long65536
deriving DecidableEq, Repr

inductive SampleType where
  | point
  | label
  | token
  | leaf
  | twig
  | probe
  | oops
  | blob
  | record
  | unit
  | refuser
  | numbered (kind : Numbered)
deriving DecidableEq, Repr

inductive Sample where
  | point (x y : Int32)
  | label (text : String)
  | token (text : String)
  | leaf (label : String) (weight : UInt32)
  | twig (label : String)
  | probe (n : UInt8)
  | oops (message : String)
  | blob (tag : String) (data : List UInt8)
  | record (id : Int64) (name : Option String) (tags : List String) (ok : Bool)
  | unit
  | refuser (code : UInt32)
  | numbered (kind : Numbered) (id : UInt8)
deriving DecidableEq

namespace Numbered

def repeated (n : Nat) (c : Char) : String :=
  String.ofList (List.replicate n c)

def typeName : Numbered → String
  | .named => "misc.Named"
  | .root => "object"
  | .empty => ""
  | .foreign => "нет.🦀"
  | .long255 => repeated 255 'm'
  | .long65535 => repeated 65535 'L'
  | .long65536 => repeated 65536 'L'

def title : Numbered → String
  | .named => "Named"
  | .root => "Root"
  | .empty => "Empty"
  | .foreign => "Uni"
  | .long255 => "Long255"
  | .long65535 => "Long65535"
  | .long65536 => "Long65536"

end Numbered

namespace SampleType

def name : SampleType → String
  | .point => "geo.Point"
  | .label => "geo.Label"
  | .token => "auth.Token"
  | .leaf => "tree.Leaf"
  | .twig => "tree.Twig"
  | .probe => "p.Probe"
  | .oops => "test.Oops"
  | .blob => "fuzz.Blob"
  | .record => "misc.Record"
  | .unit => "misc.Unit"
  | .refuser => "bad.Refuser"
  | .numbered kind => kind.typeName

end SampleType

namespace Sample

def type : Sample → SampleType
  | .point .. => .point
  | .label _ => .label
  | .token _ => .token
  | .leaf .. => .leaf
  | .twig _ => .twig
  | .probe _ => .probe
  | .oops _ => .oops
  | .blob .. => .blob
  | .record .. => .record
  | .unit => .unit
  | .refuser _ => .refuser
  | .numbered kind _ => .numbered kind

open DocumentText in
def document : Sample → Except String String
  | .point x y => .ok (object [("x", toString x), ("y", toString y)])
  | .label text => .ok (string text)
  | .token text => .ok (string text)
  | .leaf title weight => .ok (object [("label", string title), ("weight", toString weight)])
  | .twig title => .ok (object [("label", string title)])
  | .probe n => .ok (object [("n", toString n)])
  | .oops message => .ok (object [("message", string message)])
  | .blob tag data => .ok (object [("tag", string tag), ("data", list (data.map toString))])
  | .record id name tags ok =>
    .ok (object [("id", toString id), ("name", optional (name.map string)),
      ("tags", list (tags.map string)), ("ok", toString ok)])
  | .unit => .ok "null"
  | .refuser code =>
    if code = 13 then .error "refused" else .ok (object [("code", toString code)])
  | .numbered _ id => .ok (object [("id", toString id)])

open Describe in
def describe : Sample → String
  | .point x y => Describe.record "Point" [("x", toString x), ("y", toString y)] false
  | .label text => s!"Label({quoted text})"
  | .token text => s!"Token({quoted text})"
  | .leaf title weight =>
    Describe.record "Leaf" [("label", quoted title), ("weight", toString weight)] false
  | .twig title => Describe.record "Twig" [("label", quoted title)] false
  | .probe n => Describe.record "Probe" [("n", toString n)] false
  | .oops message => Describe.record "Oops" [("message", quoted message)] false
  | .blob tag data =>
    Describe.record "Blob" [("tag", quoted tag), ("data", list (data.map toString))] false
  | .record id name tags ok =>
    Describe.record "Record" [("id", toString id), ("name", option (name.map quoted)),
      ("tags", list (tags.map quoted)), ("ok", toString ok)] false
  | .unit => "Unit"
  | .refuser code => Describe.record "Refuser" [("code", toString code)] false
  | .numbered kind id => Describe.record kind.title [("id", toString id)] false

instance : Portable Sample where
  typeName s := s.type.name
  document := document
  describe := describe

open Document in
def read (type : SampleType) (d : Document) : Option Sample :=
  match type with
  | .point => do
    let [x, y] ← d.members? ["x", "y"] | none
    return .point (← required int32? x) (← required int32? y)
  | .label => .label <$> d.text?
  | .token => .token <$> d.text?
  | .leaf => do
    let [title, weight] ← d.members? ["label", "weight"] | none
    return .leaf (← required text? title) (← required uint32? weight)
  | .twig => do
    let [title] ← d.members? ["label"] | none
    return .twig (← required text? title)
  | .probe => do
    let [n] ← d.members? ["n"] | none
    return .probe (← required uint8? n)
  | .oops => do
    let [message] ← d.members? ["message"] | none
    return .oops (← required text? message)
  | .blob => do
    let [tag, data] ← d.members? ["tag", "data"] | none
    return .blob (← required text? tag) (← required (list? uint8?) data)
  | .record => do
    let [id, name, tags, ok] ← d.members? ["id", "name", "tags", "ok"] | none
    return .record (← required int64? id) (← omissible text? name)
      (← required (list? text?) tags) (← required boolean? ok)
  | .unit => (fun _ => .unit) <$> d.null?
  | .refuser => do
    let [code] ← d.members? ["code"] | none
    return .refuser (← required uint32? code)
  | .numbered kind => do
    let [id] ← d.members? ["id"] | none
    return .numbered kind (← required uint8? id)

theorem type_read {type : SampleType} {d : Document} {s : Sample} (h : read type d = some s) :
    s.type = type := by
  cases type <;> simp only [read, bind, Option.bind_eq_some_iff, Option.map_eq_map,
    Option.map_eq_some_iff] at h
  all_goals
    first
    | (obtain ⟨_, _, rfl⟩ := h; rfl)
    | (obtain ⟨_, _, h⟩ := h
       split at h
       · simp only [Option.bind_eq_some_iff, Option.pure_def, Option.some.injEq] at h
         grind [Sample.type]
       · cases h)

end Sample

/-- The loader of a sample type. -/
def SampleType.loader (type : SampleType) : Loader Sample where
  typeName := type.name
  load bytes := ((Document.parse? bytes).bind (Sample.read type)).map .application
  typeName_load bytes o h := by
    obtain ⟨s, hs, rfl⟩ := Option.map_eq_some_iff.mp h
    obtain ⟨d, _, hd⟩ := Option.bind_eq_some_iff.mp hs
    exact congrArg SampleType.name (Sample.type_read hd)

end Remoting
