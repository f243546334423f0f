import Mathlib.Tactic.IntervalCases
import Remoting.DocumentReader
import Remoting.Portable

/-!
# The document of a placeholder

A placeholder is written as an object with one member, whose value is the id in decimal digits. The
reader takes these digits, which have no leading zero, for the number they came from, and the
loader makes of it the same placeholder again.
-/

namespace Remoting

namespace Utf8

theorem encode_append (s t : String) : encode (s ++ t) = encode s ++ encode t := by
  rw [encode, encode, encode, String.toByteArray_append]
  simp

theorem encode_ofList_of_ascii {l : List Char} (h : ∀ c ∈ l, c.utf8Size = 1) :
    encode (String.ofList l) = l.map Char.toUInt8 := by
  induction l with
  | nil => rfl
  | cons c l ih =>
    have hc := String.utf8EncodeChar_eq_singleton (h c List.mem_cons_self)
    have hl := ih fun c hc => h c (List.mem_cons_of_mem _ hc)
    rw [encode, String.toByteArray_ofList] at hl ⊢
    rw [List.utf8Encode_cons, List.utf8Encode_singleton, hc]
    simp only [ByteArray.data_append, Array.toList_append, List.data_toByteArray, hl]
    rfl

end Utf8

namespace DocumentText

def digit (d : Nat) : UInt8 :=
  UInt8.ofNat ('0'.toNat + d)

/-- The decimal digits of a number. -/
def decimal (n : Nat) : Bytes :=
  (Nat.toDigits 10 n).map Char.toUInt8

theorem toUInt8_digitChar {d : Nat} (h : d < 10) : d.digitChar.toUInt8 = digit d := by
  interval_cases d <;> rfl

theorem decimal_eq (n : Nat) :
    decimal n = (if n < 10 then [] else decimal (n / 10)) ++ [digit (n % 10)] := by
  rw [decimal, Nat.toDigits_eq_if (by decide)]
  split
  · rename_i hn
    simp [toUInt8_digitChar hn, Nat.mod_eq_of_lt hn]
  · have hd : n % 10 < 10 := Nat.mod_lt n (by decide)
    simp [decimal, toUInt8_digitChar hd]

theorem encode_toString (n : Nat) : Utf8.encode (toString n) = decimal n := by
  rw [Nat.toString_eq_ofList_toDigits, decimal]
  apply Utf8.encode_ofList_of_ascii
  intro c hc
  have hdigit := Nat.isDigit_of_mem_toDigits (by decide) (by decide) hc
  rw [Char.isDigit_iff_toNat] at hdigit
  rw [Char.utf8Size_eq_one_iff, UInt32.le_iff_toNat_le]
  exact Nat.le_trans hdigit.2 (by decide)

theorem length_decimal_le {n k : Nat} (hk : 0 < k) (h : n < 10 ^ k) : (decimal n).length ≤ k := by
  rw [decimal, List.length_map]
  exact (Nat.length_toDigits_le_iff (by decide) hk).mpr h

theorem exists_digit_of_mem_decimal {n : Nat} {b : UInt8} (h : b ∈ decimal n) :
    ∃ d < 10, b = digit d := by
  induction n using Nat.strong_induction_on with
  | _ n ih =>
    rw [decimal_eq, List.mem_append, List.mem_singleton] at h
    rcases h with h | rfl
    · split at h
      · cases h
      · exact ih (n / 10) (by omega) h
    · exact ⟨n % 10, Nat.mod_lt n (by decide), rfl⟩

/-- Only zero has a leading zero. -/
theorem exists_decimal_eq_cons (n : Nat) :
    ∃ d < 10, ∃ digits, decimal n = digit d :: digits ∧ (d = 0 → n = 0) := by
  induction n using Nat.strong_induction_on with
  | _ n ih =>
    rw [decimal_eq]
    by_cases hn : n < 10
    · rw [if_pos hn]
      exact ⟨n % 10, by omega, [], rfl, by omega⟩
    · obtain ⟨d, hd, digits, heq, hzero⟩ := ih (n / 10) (by omega)
      rw [if_neg hn, heq]
      refine ⟨d, hd, digits ++ [digit (n % 10)], rfl, ?_⟩
      intro h
      have hsmall := hzero h
      omega

end DocumentText

namespace Token

open DocumentText (digit decimal)

theorem isDigit_digit {d : Nat} (h : d < 10) : isDigit (digit d) = true := by
  interval_cases d <;> rfl

theorem naturalOf_decimal (n : Nat) : naturalOf (decimal n) = n := by
  induction n using Nat.strong_induction_on with
  | _ n ih =>
    have hd : ∀ d < 10, (digit d).toNat - '0'.toNat = d := by
      decide
    have hlast := hd (n % 10) (Nat.mod_lt n (by decide))
    rw [DocumentText.decimal_eq]
    by_cases hn : n < 10
    · rw [if_pos hn]
      simp only [naturalOf, List.nil_append, List.foldl_cons, List.foldl_nil, hlast]
      omega
    · have hfront := ih (n / 10) (by omega)
      rw [naturalOf] at hfront
      rw [if_neg hn, naturalOf, List.foldl_append, hfront]
      simp only [List.foldl_cons, List.foldl_nil, hlast]
      omega

theorem number?_of_brace (digits rest : Bytes) :
    number? false digits (0x7D :: rest) = some (.integer (naturalOf digits), 0x7D :: rest) :=
  rfl

/-- Digits are read as far as they go, if a brace ends them. -/
theorem numberFrom?_decimal {n d : Nat} {digits : Bytes} (hd : d < 10)
    (heq : decimal n = digit d :: digits) (hzero : d = 0 → n = 0) (rest : Bytes) :
    numberFrom? false (digit d) (digits ++ 0x7D :: rest) = some (.integer n, 0x7D :: rest) := by
  have hvalue := naturalOf_decimal n
  rw [heq] at hvalue
  rw [numberFrom?, isDigit_digit hd, Bool.not_true, if_neg Bool.false_ne_true]
  -- a leading zero is read alone, which is right for zero only
  by_cases hz : d = 0
  · have hn := hzero hz
    subst hz hn
    cases heq
    exact number?_of_brace [digit 0] rest
  · have hne : digit d ≠ '0'.toUInt8 := by
      interval_cases d
      · exact absurd rfl hz
      all_goals decide
    have hdigits : ∀ b ∈ digits, isDigit b = true := by
      intro b hb
      have hmem : b ∈ decimal n := by
        rw [heq]
        exact List.mem_cons_of_mem _ hb
      obtain ⟨e, he, rfl⟩ := DocumentText.exists_digit_of_mem_decimal hmem
      exact isDigit_digit he
    have htake : (digits ++ 0x7D :: rest).takeWhile isDigit = digits := by
      rw [List.takeWhile_append_of_pos hdigits]
      exact List.append_nil _
    have hdrop : (digits ++ 0x7D :: rest).dropWhile isDigit = 0x7D :: rest := by
      rw [List.dropWhile_append_of_pos hdigits]
      rfl
    rw [if_neg hne, htake, hdrop, number?_of_brace, hvalue]

theorem next?_digit {d : Nat} (hd : d < 10) (rest : Bytes) :
    next? (digit d) rest =
      (numberFrom? false (digit d) rest).map fun (value, rest) => (.scalar value, rest) := by
  interval_cases d <;> rfl

theorem isBlank_digit {d : Nat} (hd : d < 10) : isBlank (digit d) = false := by
  interval_cases d <;> rfl

end Token

theorem tokens?_cons {b : UInt8} {rest rest' : Bytes} {token : Token} {done : List Token}
    (hb : Token.isBlank b = false) (h : Token.next? b rest = some (token, rest')) :
    tokens? (b :: rest) done = tokens? rest' (token :: done) := by
  rw [tokens?, hb, if_neg Bool.false_ne_true]
  split
  · rename_i hnone
    rw [h] at hnone
    cases hnone
  · rename_i token' rest'' hsome
    rw [h] at hsome
    cases hsome
    rfl

theorem tokens?_decimal (n : Nat) (rest : Bytes) (done : List Token) :
    tokens? (DocumentText.decimal n ++ 0x7D :: rest) done =
      tokens? (0x7D :: rest) (.scalar (.integer n) :: done) := by
  obtain ⟨d, hd, digits, heq, hzero⟩ := DocumentText.exists_decimal_eq_cons n
  rw [heq, List.cons_append]
  apply tokens?_cons (Token.isBlank_digit hd)
  rw [Token.next?_digit hd, Token.numberFrom?_decimal hd heq hzero]
  rfl

/-- A byte that stands for itself between quotes. -/
def Token.Plain (b : UInt8) : Prop :=
  b ≠ '"'.toUInt8 ∧ ¬ b < 0x20 ∧ b ≠ '\\'.toUInt8

instance : DecidablePred Token.Plain :=
  fun _ => inferInstanceAs (Decidable (_ ∧ _ ∧ _))

theorem Token.pieces?_of_plain {bytes : Bytes} (plain : ∀ b ∈ bytes, Plain b) (rest : Bytes)
    (done : List Piece) :
    pieces? (bytes ++ 0x22 :: rest) done = some (done.reverse ++ bytes.map .byte, rest) := by
  induction bytes generalizing done with
  | nil =>
    rw [List.map_nil, List.append_nil, List.nil_append, pieces?.eq_def]
    exact if_pos rfl
  | cons b bytes ih =>
    obtain ⟨hquote, hcontrol, hescape⟩ := plain b List.mem_cons_self
    have htail := ih (fun b hb => plain b (List.mem_cons_of_mem _ hb)) (.byte b :: done)
    rw [List.cons_append, pieces?.eq_def]
    dsimp only
    rw [if_neg hquote, if_neg hcontrol, if_neg hescape, htail]
    simp

theorem Token.assemble?_bytes (bytes reversed : Bytes) :
    assemble? (bytes.map .byte) reversed = some (reversed.reverse ++ bytes) := by
  induction bytes generalizing reversed with
  | nil => simp [assemble?]
  | cons b bytes ih => simp [assemble?, ih]

theorem tokens?_text {text : String} (plain : ∀ b ∈ Utf8.encode text, Token.Plain b)
    (rest : Bytes) (done : List Token) :
    tokens? (0x22 :: (Utf8.encode text ++ 0x22 :: rest)) done =
      tokens? rest (.scalar (.text text) :: done) := by
  have hstring : Token.stringOf ((Utf8.encode text).map .byte) = .text text := by
    rw [Token.stringOf, Token.assemble?_bytes, List.reverse_nil, List.nil_append, Option.map_some,
      Utf8.decode_encode]
  have hscalar : Token.scalar? 0x22 (Utf8.encode text ++ 0x22 :: rest) =
      some (.text text, rest) := by
    have hquote : (0x22 : UInt8) = '"'.toUInt8 := rfl
    rw [Token.scalar?.eq_def, if_pos hquote, Token.pieces?_of_plain plain, Option.map_some,
      List.reverse_nil, List.nil_append]
    dsimp only
    rw [hstring]
  apply tokens?_cons rfl
  exact congrArg (Option.map fun (value, rest) => (Token.scalar value, rest)) hscalar

/-- The text of a placeholder's document. -/
def DocumentText.placeholder (id : UInt32) : String :=
  object [("outstanding_id", toString id)]

theorem DocumentText.encode_placeholder (id : UInt32) :
    Utf8.encode (placeholder id) =
      0x7B :: 0x22 :: (Utf8.encode "outstanding_id" ++
        0x22 :: 0x3A :: (decimal id.toNat ++ [0x7D])) := by
  have hlabel : Utf8.encode (string "outstanding_id") =
      0x22 :: (Utf8.encode "outstanding_id" ++ [0x22]) := by
    decide +kernel
  have htext : placeholder id =
      "\x7b" ++ (string "outstanding_id" ++ ":" ++ toString id.toNat) ++ "\x7d" :=
    rfl
  have hopening : Utf8.encode "\x7b" = [0x7B] := by decide
  have hcolon : Utf8.encode ":" = [0x3A] := by decide
  have hclosing : Utf8.encode "\x7d" = [0x7D] := by decide
  rw [htext]
  simp only [Utf8.encode_append, encode_toString, hlabel, hopening, hcolon, hclosing,
    List.append_assoc, List.cons_append, List.nil_append]

theorem DocumentText.size_placeholder_le (id : UInt32) : (placeholder id).utf8ByteSize ≤ 29 := by
  have hdigits : (decimal id.toNat).length ≤ 10 := by
    apply length_decimal_le (by decide)
    have hlt := id.toNat_lt
    omega
  have hlabel : (Utf8.encode "outstanding_id").length = 14 := by decide
  rw [← Utf8.length_encode, encode_placeholder]
  simp only [List.length_cons, List.length_append, List.length_nil, hlabel]
  omega

theorem Document.parse?_placeholder (id : UInt32) :
    parse? (Utf8.encode (DocumentText.placeholder id)) =
      some (.object [(some "outstanding_id", .integer id.toNat)]) := by
  have hplain : ∀ b ∈ Utf8.encode "outstanding_id", Token.Plain b := by decide +kernel
  have hbrace : Token.next? 0x7D [] = some (.endObject, []) := rfl
  have hend : ∀ done, tokens? [] done = some done.reverse := by
    intro done
    rw [tokens?]
  rw [DocumentText.encode_placeholder, parse?, tokens?_cons rfl rfl, tokens?_text hplain,
    tokens?_cons rfl rfl, tokens?_decimal, tokens?_cons rfl hbrace, hend]
  rfl

theorem Document.uint32?_integer (n : UInt32) : uint32? (.integer n.toNat) = some n := by
  have hlow : (0 : Int) ≤ n.toNat := Int.natCast_nonneg _
  have hhigh : (n.toNat : Int) ≤ 0xFFFFFFFF := by
    have hlt := n.toNat_lt
    omega
  rw [uint32?, integerIn?, if_pos ⟨hlow, hhigh⟩]
  simp

/-- The loader of placeholders makes of a placeholder's document the same placeholder. -/
theorem Loader.placeholder?_encode {ω : Type} [Portable ω] (id : UInt32) :
    (placeholder? (Utf8.encode (DocumentText.placeholder id)) : Option (Object ω)) =
      some (.placeholder id) := by
  have hmembers : Document.members? ["outstanding_id"]
      (.object [(some "outstanding_id", .integer id.toNat)]) = some [some (.integer id.toNat)] :=
    rfl
  have hid := Document.uint32?_integer id
  simp only [placeholder?, Document.parse?_placeholder, hmembers, Document.required,
    Option.bind_eq_bind, Option.bind_some, hid]
  rfl

end Remoting
