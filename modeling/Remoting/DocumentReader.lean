import Remoting.Document

/-!
# Reading documents

Reading goes in two passes. `tokens` cuts the bytes into tokens, each shorter than what it was cut
from. `Parse.step` then feeds the tokens one by one to a stack of the arrays and objects that are
still open, so that nesting is bounded by nothing but the length of the input.
-/

namespace Remoting

inductive Token where
  | scalar (value : Document)
  | beginArray
  | endArray
  | beginObject
  | endObject
  | comma
  | colon

namespace Token

def isBlank (b : UInt8) : Bool :=
  b == ' '.toUInt8 || b == '\t'.toUInt8 || b == '\n'.toUInt8 || b == '\r'.toUInt8

def isDigit (b : UInt8) : Bool :=
  '0'.toUInt8 ≤ b && b ≤ '9'.toUInt8

/-- What a string is made of: bytes as they stand, and UTF-16 code units given by escapes. -/
inductive Piece where
  | byte (value : UInt8)
  | unit (value : Nat)

def hexDigit? (b : UInt8) : Option Nat :=
  if isDigit b then some (b.toNat - '0'.toNat)
  else if 'a'.toUInt8 ≤ b ∧ b ≤ 'f'.toUInt8 then some (b.toNat - 'a'.toNat + 10)
  else if 'A'.toUInt8 ≤ b ∧ b ≤ 'F'.toUInt8 then some (b.toNat - 'A'.toNat + 10)
  else none

def hexUnit? (a b c d : UInt8) : Option Nat := do
  return ((← hexDigit? a) * 16 + (← hexDigit? b)) * 256 + (← hexDigit? c) * 16 + (← hexDigit? d)

def shortEscape? (b : UInt8) : Option UInt8 :=
  let table := [('"', '"'), ('\\', '\\'), ('/', '/'), ('b', '\x08'), ('f', '\x0c'), ('n', '\n'),
    ('r', '\r'), ('t', '\t')]
  (table.find? (·.1.toUInt8 == b)).map (·.2.toUInt8)

/-- The pieces of a string up to its closing quote, and the bytes behind it. -/
def pieces? : Bytes → List Piece → Option (List Piece × Bytes)
  | [], _ => none
  | b :: rest, done =>
    if b = '"'.toUInt8 then some (done.reverse, rest)
    else if b < 0x20 then none
    else if b = '\\'.toUInt8 then
      match rest with
      | [] => none
      | e :: rest =>
        if e = 'u'.toUInt8 then
          match rest with
          | p :: q :: r :: s :: rest =>
            match hexUnit? p q r s with
            | some n => pieces? rest (.unit n :: done)
            | none => none
          | _ => none
        else
          match shortEscape? e with
          | some c => pieces? rest (.byte c :: done)
          | none => none
    else pieces? rest (.byte b :: done)

def isHighSurrogate (n : Nat) : Bool :=
  0xD800 ≤ n && n ≤ 0xDBFF

def isLowSurrogate (n : Nat) : Bool :=
  0xDC00 ≤ n && n ≤ 0xDFFF

def pushChar (n : Nat) (reversed : Bytes) : Bytes :=
  (Utf8.encode (String.singleton (Char.ofNat n))).reverse ++ reversed

/-- Surrogates have to come in pairs, a high one in front of a low one. -/
def assemble? : List Piece → Bytes → Option Bytes
  | [], reversed => some reversed.reverse
  | .byte b :: rest, reversed => assemble? rest (b :: reversed)
  | .unit high :: .unit low :: rest, reversed =>
    if isHighSurrogate high then
      if isLowSurrogate low then
        assemble? rest (pushChar (0x10000 + (high - 0xD800) * 0x400 + (low - 0xDC00)) reversed)
      else none
    else if isLowSurrogate high then none
    else assemble? (.unit low :: rest) (pushChar high reversed)
  | .unit n :: rest, reversed =>
    if isHighSurrogate n || isLowSurrogate n then none
    else assemble? rest (pushChar n reversed)

def stringOf (pieces : List Piece) : Document :=
  match (assemble? pieces []).map Utf8.decode with
  | some (.ok text) => .text text
  | _ => .garbled

def naturalOf (digits : Bytes) : Nat :=
  digits.foldl (fun n b => n * 10 + (b.toNat - '0'.toNat)) 0

/-- Digits behind a point, or nothing without a point. -/
def fraction? (bytes : Bytes) : Option (Bool × Bytes) :=
  match bytes with
  | [] => some (false, [])
  | b :: rest =>
    if b = '.'.toUInt8 then
      if (rest.takeWhile isDigit).isEmpty then none else some (true, rest.dropWhile isDigit)
    else some (false, b :: rest)

def dropSign (bytes : Bytes) : Bytes :=
  match bytes with
  | [] => []
  | b :: rest => if b = '+'.toUInt8 ∨ b = '-'.toUInt8 then rest else b :: rest

def power? (bytes : Bytes) : Option (Bool × Bytes) :=
  match bytes with
  | [] => some (false, [])
  | b :: rest =>
    if b = 'e'.toUInt8 ∨ b = 'E'.toUInt8 then
      if ((dropSign rest).takeWhile isDigit).isEmpty then none
      else some (true, (dropSign rest).dropWhile isDigit)
    else some (false, b :: rest)

/-- A number whose integer part is `digits`. Minus zero is not an integer. -/
def number? (negative : Bool) (digits rest : Bytes) : Option (Document × Bytes) := do
  let (fractional, rest) ← fraction? rest
  let (powered, rest) ← power? rest
  let n := naturalOf digits
  if fractional || powered || (negative && n == 0) then return (.real, rest)
  else return (.integer (if negative then -n else n), rest)

/-- A number that starts with the given digit; zero stands alone in front of the point. -/
def numberFrom? (negative : Bool) (b : UInt8) (rest : Bytes) : Option (Document × Bytes) :=
  if !isDigit b then none
  else if b = '0'.toUInt8 then number? negative [b] rest
  else number? negative (b :: rest.takeWhile isDigit) (rest.dropWhile isDigit)

def word? (letters : List Char) (value : Document) (bytes : Bytes) : Option (Document × Bytes) :=
  if letters.map Char.toUInt8 <+: bytes then some (value, bytes.drop letters.length) else none

def scalar? (b : UInt8) (rest : Bytes) : Option (Document × Bytes) :=
  if b = '"'.toUInt8 then (pieces? rest []).map fun (pieces, rest) => (stringOf pieces, rest)
  else if b = '-'.toUInt8 then
    match rest with
    | [] => none
    | d :: rest => numberFrom? true d rest
  else if b = 'n'.toUInt8 then word? ['u', 'l', 'l'] .null rest
  else if b = 't'.toUInt8 then word? ['r', 'u', 'e'] (.boolean true) rest
  else if b = 'f'.toUInt8 then word? ['a', 'l', 's', 'e'] (.boolean false) rest
  else numberFrom? false b rest

def mark? (b : UInt8) : Option Token :=
  let table := [('[', Token.beginArray), (']', .endArray), ('\x7b', .beginObject),
    ('\x7d', .endObject), (',', .comma), (':', .colon)]
  (table.find? (·.1.toUInt8 == b)).map (·.2)

def next? (b : UInt8) (rest : Bytes) : Option (Token × Bytes) :=
  match mark? b with
  | some token => some (token, rest)
  | none => (scalar? b rest).map fun (value, rest) => (.scalar value, rest)

theorem length_pieces? {bytes rest : Bytes} {done found : List Piece}
    (h : pieces? bytes done = some (found, rest)) : rest.length ≤ bytes.length := by
  fun_induction pieces? bytes done <;> simp_all <;> omega

theorem length_fraction? {bytes rest : Bytes} {found : Bool}
    (h : fraction? bytes = some (found, rest)) : rest.length ≤ bytes.length := by
  unfold fraction? at h
  split at h
  · simp_all
  · split at h
    · split at h
      · cases h
      · simp only [Option.some.injEq, Prod.mk.injEq] at h
        rw [← h.2, List.length_cons]
        exact Nat.le_succ_of_le (List.dropWhile_suffix _).length_le
    · simp_all

theorem length_dropSign (bytes : Bytes) : (dropSign bytes).length ≤ bytes.length := by
  unfold dropSign
  split
  · simp
  · split <;> simp

theorem length_power? {bytes rest : Bytes} {found : Bool}
    (h : power? bytes = some (found, rest)) : rest.length ≤ bytes.length := by
  unfold power? at h
  split at h
  · simp_all
  next b tail =>
    split at h
    · split at h
      · cases h
      · simp only [Option.some.injEq, Prod.mk.injEq] at h
        rw [← h.2, List.length_cons]
        exact Nat.le_succ_of_le
          (Nat.le_trans (List.dropWhile_suffix _).length_le (length_dropSign tail))
    · simp_all

theorem length_number? {negative : Bool} {digits bytes rest : Bytes} {value : Document}
    (h : number? negative digits bytes = some (value, rest)) : rest.length ≤ bytes.length := by
  simp only [number?, Option.bind_eq_bind, Option.bind_eq_some_iff] at h
  obtain ⟨⟨fractional, mid⟩, hf, ⟨powered, last⟩, hp, h⟩ := h
  have hlast : last = rest := by
    dsimp only at h
    split at h <;> simp_all
  exact hlast ▸ Nat.le_trans (length_power? hp) (length_fraction? hf)

theorem length_numberFrom? {negative : Bool} {b : UInt8} {bytes rest : Bytes} {value : Document}
    (h : numberFrom? negative b bytes = some (value, rest)) : rest.length ≤ bytes.length := by
  unfold numberFrom? at h
  split at h
  · cases h
  · split at h
    · exact length_number? h
    · exact Nat.le_trans (length_number? h) (List.dropWhile_suffix _).length_le

theorem length_word? {letters : List Char} {bytes rest : Bytes} {value found : Document}
    (h : word? letters value bytes = some (found, rest)) : rest.length ≤ bytes.length := by
  unfold word? at h
  split at h
  · simp only [Option.some.injEq, Prod.mk.injEq] at h
    simp [← h.2]
  · cases h

theorem length_scalar? {b : UInt8} {bytes rest : Bytes} {value : Document}
    (h : scalar? b bytes = some (value, rest)) : rest.length ≤ bytes.length := by
  unfold scalar? at h
  split at h
  · obtain ⟨⟨found, mid⟩, hp, h⟩ := Option.map_eq_some_iff.mp h
    simp only [Prod.mk.injEq] at h
    exact h.2 ▸ length_pieces? hp
  · split at h
    · split at h
      · cases h
      · exact Nat.le_trans (length_numberFrom? h) (Nat.le_succ _)
    · repeat' split at h
      all_goals first | exact length_word? h | exact length_numberFrom? h

theorem length_next? {b : UInt8} {bytes rest : Bytes} {token : Token}
    (h : next? b bytes = some (token, rest)) : rest.length ≤ bytes.length := by
  unfold next? at h
  split at h
  · simp_all
  · obtain ⟨⟨value, mid⟩, hs, h⟩ := Option.map_eq_some_iff.mp h
    simp only [Prod.mk.injEq] at h
    exact h.2 ▸ length_scalar? hs

end Token

def tokens? (bytes : Bytes) (done : List Token) : Option (List Token) :=
  match bytes with
  | [] => some done.reverse
  | b :: rest =>
    if Token.isBlank b then tokens? rest done
    else
      match _h : Token.next? b rest with
      | none => none
      | some (token, rest) => tokens? rest (token :: done)
termination_by bytes.length
decreasing_by
  · simp
  · have := Token.length_next? _h
    simp; omega

namespace Parse

/-- An array or object that is still open, with what it holds so far, last first. -/
inductive Open where
  | array (items : List Document)
  | object (members : List (Option String × Document)) (label : Option String)

inductive State where
  | value (outer : List Open)
  | firstItem (outer : List Open)
  | firstLabel (outer : List Open)
  | label (members : List (Option String × Document)) (outer : List Open)
  | colon (members : List (Option String × Document)) (label : Option String) (outer : List Open)
  | complete (value : Document) (outer : List Open)

def value? (outer : List Open) : Token → Option State
  | .scalar value => some (.complete value outer)
  | .beginArray => some (.firstItem outer)
  | .beginObject => some (.firstLabel outer)
  | _ => none

def label? (members : List (Option String × Document)) (outer : List Open) :
    Token → Option State
  | .scalar (.text label) => some (.colon members (some label) outer)
  | .scalar .garbled => some (.colon members none outer)
  | _ => none

def close? (value : Document) : List Open → Token → Option State
  | .array items :: outer, .comma => some (.value (.array (value :: items) :: outer))
  | .array items :: outer, .endArray =>
    some (.complete (.array (value :: items).reverse) outer)
  | .object members label :: outer, .comma => some (.label ((label, value) :: members) outer)
  | .object members label :: outer, .endObject =>
    some (.complete (.object ((label, value) :: members).reverse) outer)
  | _, _ => none

def step : State → Token → Option State
  | .value outer, token => value? outer token
  | .firstItem outer, .endArray => some (.complete (.array []) outer)
  | .firstItem outer, token => value? (.array [] :: outer) token
  | .firstLabel outer, .endObject => some (.complete (.object []) outer)
  | .firstLabel outer, token => label? [] outer token
  | .label members outer, token => label? members outer token
  | .colon members label outer, .colon => some (.value (.object members label :: outer))
  | .colon _ _ _, _ => none
  | .complete value outer, token => close? value outer token

def finish : State → Option Document
  | .complete value [] => some value
  | _ => none

end Parse

/-- The document that the bytes hold, if they hold one and nothing else. -/
def Document.parse? (bytes : Bytes) : Option Document := do
  Parse.finish (← (← tokens? bytes []).foldlM Parse.step (.value []))

end Remoting
