import Remoting.Printable

/-!
# Text for people to read

The parts from which descriptions are built: quoted strings, lists, options and records with
named members. In a quoted string quotes, backslashes and the usual controls have short escapes,
and every other character that cannot be seen is written with its code point.
-/

namespace Remoting.Describe

def escape (c : Char) : List Char :=
  match c with
  | '\x00' => ['\\', '0']
  | '\t' => ['\\', 't']
  | '\n' => ['\\', 'n']
  | '\r' => ['\\', 'r']
  | '"' => ['\\', '"']
  | '\\' => ['\\', '\\']
  | c => if isPrintable c then [c] else ['\\', 'u', '\x7b'] ++ Nat.toDigits 16 c.toNat ++ ['\x7d']

def quoted (text : String) : String :=
  String.ofList ('"' :: text.toList.flatMap escape ++ ['"'])

def list (items : List String) : String :=
  "[" ++ String.intercalate ", " items ++ "]"

def option (item : Option String) : String :=
  match item with
  | none => "None"
  | some text => s!"Some({text})"

/-- A name with its members in braces. If some are not shown, two dots end the list. -/
def record (name : String) (members : List (String × String)) (elided : Bool) : String :=
  let shown := members.map fun (label, text) => s!"{label}: {text}"
  name ++ " \x7b " ++ String.intercalate ", " (if elided then shown ++ [".."] else shown) ++ " \x7d"

end Remoting.Describe
