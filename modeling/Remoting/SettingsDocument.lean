import Remoting.Settings
import Remoting.Utf8
import Remoting.Yaml.Document

/-!
# Reading settings

Settings stand in a YAML document, a mapping from names to values. A setting that is left out
keeps its default, and so do all in an empty document; a name that is not known or stands twice
makes the document unreadable. Lengths are plain numbers, for a quoted number is a text. The policy
is a text, or is told by the tag of a value that is empty or null.
-/

namespace Remoting.SettingsDocument

def inBase? (base : Nat) (digits : List Char) : Option Nat := do
  let digits ← digits.mapM Yaml.hexDigit?
  if digits.isEmpty || digits.any (base ≤ ·) then none
  else
    digits.foldlM (fun n digit =>
      let n := base * n + digit
      if n < UInt64.size then some n else none) 0

/-- A natural number below 2⁶⁴: decimal without needless zeros, or with a letter for its base. -/
def number? (text : List Char) : Option Nat :=
  match if text.head? = some '+' then text.drop 1 else text with
  | '0' :: 'x' :: digits => inBase? 16 digits
  | '0' :: 'o' :: digits => inBase? 8 digits
  | '0' :: 'b' :: digits => inBase? 2 digits
  | ['0'] => some 0
  | '0' :: _ => none
  | digits => inBase? 10 digits

/-- A length, which is plain unless its tag tells that it is an integer. -/
def length? (s : Yaml.Scalar) : Option Nat :=
  if s.style = .plain
      ∨ (s.style = .literal ∧ s.tag = some (Yaml.Tag.ascii "tag:yaml.org,2002:int")) then
    number? s.text
  else none

/-- What a tag says that is made for one application only. -/
def localTag? (s : Yaml.Scalar) : Option String :=
  match s.tag with
  | some (0x21 :: name) => (Utf8.decode (if name.isEmpty then [0x21] else name)).toOption
  | _ => none

def isNull (s : Yaml.Scalar) : Bool :=
  s.style == .plain && ["", "null", "Null", "NULL", "~"].contains (String.ofList s.text)

def policy? (s : Yaml.Scalar) : Option MissingDecoder :=
  match localTag? s with
  | some name => if isNull s then MissingDecoder.ofName? name else none
  | none => MissingDecoder.ofName? (String.ofList s.text)

def assign? (s : Settings) (name : String) (value : Yaml.Scalar) : Option Settings :=
  if name = "max_string_len" then (length? value).map fun n => { s with textLimit := n }
  else if name = "max_payload_len" then (length? value).map fun n => { s with payloadLimit := n }
  else if name = "missing_decoder" then
    (policy? value).map fun p => { s with missingDecoder := p }
  else none

/-- The scalar that a name or a value stands for. -/
def resolve? (anchors : Yaml.Anchors) : Yaml.Member → Option Yaml.Scalar
  | .scalar s => some s
  | .alias number => (anchors.scalars.get? number).join

def settings? (d : Yaml.Document) : Option Settings := do
  let entries ← d.entries.mapM fun (name, value) => do
    return (String.ofList (← resolve? d.anchors name).text, ← resolve? d.anchors value)
  if (entries.map (·.1)).Nodup then
    entries.foldlM (fun s (name, value) => assign? s name value) {}
  else none

end SettingsDocument

/-- The settings of a document, if it can be read and they are valid. -/
def Settings.ofDocument (text : String) : Except SettingsFault Settings := do
  match (Yaml.Document.ofText? text.toList).bind SettingsDocument.settings? with
  | none => throw .unreadable
  | some s =>
    s.validate
    return s

end Remoting
