import Remoting.Proofs.ConsecutiveValues

/-!
# Reading argument lists

The loop that reads the arguments holds what the answers so far come to, and goes on as long as the
stream is not found corrupt. So a list is corrupt exactly if its count cannot be read or is
negative, or one of as many values behind it is corrupt; a count that exceeds the bytes that are
left is a case of the last. Any other list is read to its end, and its first error decides only
then.
-/

namespace Remoting

/-- What a list of answers comes to: its values if there is nothing else, or its first error. -/
inductive Amounts {α : Type} : List (Except CodecError α) → Except CodecError (List α) → Prop
  | values (vs : List α) : Amounts (vs.map .ok) (.ok vs)
  | firstError (vs : List α) (e : CodecError) (later : List (Except CodecError α)) :
      Amounts (vs.map .ok ++ .error e :: later) (.error e)

variable {ω : Type} [Portable ω] (c : Codec ω)

namespace Arguments

open Decode (failure?)

/-- What the answers come to, computed from the first error and the values in the list. -/
def total (answers : List (Except CodecError (Value ω))) : Except CodecError (List (Value ω)) :=
  match answers.findSome? failure? with
  | some e => .error e
  | none => .ok (answers.map Value.orNull)

omit [Portable ω] in
theorem total_ok_cons (v : Value ω) (answers : List (Except CodecError (Value ω))) :
    total (.ok v :: answers) = (total answers).map (v :: ·) := by
  simp only [total, List.findSome?_cons, failure?]
  cases answers.findSome? failure? <;> rfl

omit [Portable ω] in
theorem total_map_ok (vs : List (Value ω)) : total (vs.map .ok) = .ok vs := by
  induction vs with
  | nil => rfl
  | cons v vs ih =>
    rw [List.map_cons, total_ok_cons, ih]
    rfl

omit [Portable ω] in
theorem amounts_total (answers : List (Except CodecError (Value ω))) :
    Amounts answers (total answers) := by
  induction answers with
  | nil => exact .values []
  | cons a answers ih =>
    cases a with
    | error e => exact .firstError [] e answers
    | ok v =>
      rw [total_ok_cons]
      generalize total answers = result at ih
      cases ih with
      | values vs => exact .values (v :: vs)
      | firstError vs e later => exact .firstError (v :: vs) e later

omit [Portable ω] in
theorem corrupt_total {answers : List (Except CodecError (Value ω))}
    (sound : ∀ a ∈ answers, corrupt a = false) : corrupt (total answers) = false := by
  have hamounts := amounts_total answers
  generalize total answers = result at hamounts
  cases hamounts with
  | values vs => rfl
  | firstError vs e later => exact sound (.error e) (by simp)

/-- By induction on the arguments that are left: what the loop holds is what the answers to the
earlier calls come to. -/
theorem decodeRest_of_sound (before : List (Except CodecError (Value ω))) {n : Nat} {input : Input}
    (sound : ∀ a ∈ c.answers n input, corrupt a = false) :
    decodeRest c n (before.map Value.orNull).reverse (before.findSome? failure?) input =
      Decode.conclude (total (before ++ c.answers n input)) (c.inputAfter n input) := by
  induction n generalizing before input with
  | zero =>
    rw [Codec.answers, Codec.inputAfter, List.append_nil, total]
    cases before.findSome? failure? with
    | none =>
      rw [decodeRest, List.reverse_reverse]
      rfl
    | some e => rfl
  | succ n ih =>
    have hlater : ∀ a ∈ c.answers n (finalState (c.decode input)), corrupt a = false := fun a ha =>
      sound a (List.mem_cons_of_mem _ ha)
    have hfirst := sound _ List.mem_cons_self
    have hrest := ih (before ++ [Decode.answer (c.decode input)]) hlater
    rw [List.append_assoc, List.singleton_append] at hrest
    rw [decodeRest, Codec.answers, Codec.inputAfter, ← hrest]
    cases hdecode : c.decode input with
    | ok v m => simp [finalState, Decode.answer, failure?, Value.orNull]
    | error e m =>
      rw [hdecode] at hfirst
      have hformat : e.isFormatError = false := hfirst
      simp [finalState, Decode.answer, failure?, Value.orNull, hformat]

theorem corrupt_decodeRest (done : List (Value ω)) (failure : Option CodecError) {n : Nat}
    {input : Input} (h : ∃ a ∈ c.answers n input, corrupt a = true) :
    corrupt (Decode.answer (decodeRest c n done failure input)) = true := by
  induction n generalizing done failure input with
  | zero =>
    obtain ⟨a, ha, _⟩ := h
    cases ha
  | succ n ih =>
    obtain ⟨a, ha, hcorrupt⟩ := h
    rw [Codec.answers] at ha
    rw [decodeRest]
    cases hdecode : c.decode input with
    | ok v m =>
      rw [hdecode] at ha
      rcases List.mem_cons.mp ha with rfl | ha
      · cases hcorrupt
      · exact ih _ _ ⟨a, ha, hcorrupt⟩
    | error e m =>
      rw [hdecode] at ha
      cases hformat : e.isFormatError with
      | true =>
        simp only [hformat, if_true]
        exact hformat
      | false =>
        simp only [hformat, Bool.false_eq_true, if_false]
        rcases List.mem_cons.mp ha with rfl | ha
        · exact absurd (hcorrupt.symm.trans hformat) Bool.true_eq_false.mp
        · exact ih _ _ ⟨a, ha, hcorrupt⟩

/-- A count is read back from wherever it stands. -/
theorem read_count {n : Nat} (hn : n ≤ 0x7FFFFFFF) {input : Input} (fresh : input.poisoned = false)
    (next : BigEndian.encode 4 n <+: input.rest) :
    ∃ count : Int32, count.toInt = n ∧
      Decode.lift Read.int32 input = .ok count (input.behind (BigEndian.encode 4 n)) := by
  have hword : (Int32.ofNat n).toUInt32.toNat = n := by
    rw [Int32.toUInt32_ofNat']
    exact UInt32.toNat_ofNat_of_lt' (Nat.lt_of_le_of_lt hn (by decide))
  have hread : Read.int32 input.toReader =
      .ok (Int32.ofNat n) (input.behind (BigEndian.encode 4 n)).toReader := by
    apply (Reads.int32 input.toReader fresh _ _).mpr
    exact ⟨_, rfl, by rw [hword]; exact Reader.passes_behind fresh next⟩
  refine ⟨Int32.ofNat n, Int32.toInt_ofNat_of_lt (by omega), ?_⟩
  rw [Decode.lift, hread]
  rfl

/-- Where a count was read, its four bytes stand next on a sound input. -/
theorem passes_of_count {input body : Input} {count : Int32}
    (h : Decode.lift Read.int32 input = .ok count body) :
    input.poisoned = false ∧
      input.toReader.Passes (BigEndian.encode 4 count.toUInt32.toNat) body.toReader := by
  have hread : Read.int32 input.toReader = .ok count body.toReader := by
    rw [Decode.lift] at h
    cases hstep : Read.int32 input.toReader with
    | ok n r =>
      rw [hstep] at h
      cases h
      rfl
    | error fault r =>
      rw [hstep] at h
      cases h
  have fresh : input.poisoned = false := by
    by_contra hpoisoned
    have habandons : Abandons id id Read.int32 := ((Read.abandons_word 4).map _).map _
    rw [habandons input.toReader (Bool.eq_true_of_not_eq_false hpoisoned)] at hread
    cases hread
  obtain ⟨_, rfl, hpass⟩ := (Reads.int32 input.toReader fresh count body.toReader).mp hread
  exact ⟨fresh, hpass⟩

theorem corrupt_of_no_count {input last : Input} {e : CodecError}
    (h : Decode.lift Read.int32 input = .error e last) : e.isFormatError = true := by
  rw [Decode.lift] at h
  cases hstep : Read.int32 input.toReader with
  | ok count r =>
    rw [hstep] at h
    cases h
  | error fault r =>
    rw [hstep] at h
    cases h
    rfl

theorem decode_of_no_count {input last : Input} {e : CodecError}
    (h : Decode.lift Read.int32 input = .error e last) : decode c input = .error e last := by
  change (Decode.lift Read.int32 >>= _) input = _
  exact bind_of_error h

theorem decode_of_count {input body : Input} {count : Int32}
    (h : Decode.lift Read.int32 input = .ok count body) :
    decode c input =
      if 0 ≤ count.toInt ∧ count.toInt ≤ body.remaining then
        decodeRest c count.toInt.toNat [] none body
      else .error (.stream ⟨input.offset, .badCount count⟩) { body with poisoned := true } := by
  have hbody : decode c input =
      (if 0 ≤ count.toInt ∧ count.toInt ≤ body.remaining then
        decodeRest c count.toInt.toNat [] none
      else Decode.lift (Read.failAt input.offset (.badCount count))) body := bind_of_ok h
  rw [hbody]
  split <;> rfl

/-- The list is corrupt exactly if the count is negative or one of the values behind it is corrupt;
that the count exceeds what is left need not be said. -/
theorem corrupt_decode_iff_of_count {input body : Input} {count : Int32}
    (h : Decode.lift Read.int32 input = .ok count body) :
    corrupt (Decode.answer (decode c input)) = true ↔
      count.toInt < 0 ∨ ∃ a ∈ c.answers count.toInt.toNat body, corrupt a = true := by
  rw [decode_of_count c h]
  by_cases hguard : 0 ≤ count.toInt ∧ count.toInt ≤ body.remaining
  · rw [if_pos hguard]
    constructor
    · intro hcorrupt
      by_contra hnot
      rw [not_or] at hnot
      have sound : ∀ a ∈ c.answers count.toInt.toNat body, corrupt a = false := fun a ha =>
        Bool.eq_false_of_not_eq_true fun hbad => hnot.2 ⟨a, ha, hbad⟩
      have hrest := decodeRest_of_sound c [] sound
      rw [List.nil_append] at hrest
      rw [show decodeRest c count.toInt.toNat [] none body = _ from hrest, Decode.answer_conclude,
        corrupt_total sound] at hcorrupt
      cases hcorrupt
    · rintro (hneg | hbad)
      · omega
      · exact corrupt_decodeRest c [] none hbad
  · rw [if_neg hguard]
    refine iff_of_true rfl ?_
    by_cases hneg : count.toInt < 0
    · exact .inl hneg
    · exact .inr (c.exists_corrupt_of_remaining_lt (by omega))

theorem decode_of_sound {input body : Input} {count : Int32}
    (h : Decode.lift Read.int32 input = .ok count body) (hcount : 0 ≤ count.toInt)
    (sound : ∀ a ∈ c.answers count.toInt.toNat body, corrupt a = false) :
    decode c input = Decode.conclude (total (c.answers count.toInt.toNat body))
      (c.inputAfter count.toInt.toNat body) := by
  obtain ⟨frames, hframes⟩ := c.exists_yields sound
  have hle := hframes.length_le_remaining
  rw [Codec.length_answers] at hle
  rw [decode_of_count c h, if_pos ⟨hcount, by omega⟩]
  exact decodeRest_of_sound c [] sound

/-- A list whose members round-trip is read back from wherever it was written. -/
theorem decode_of_roundTrips {args : List (Value ω)} (h : ∀ v ∈ args, c.RoundTrips v)
    (hcount : args.length ≤ 0x7FFFFFFF) :
    ∃ form, (∀ out, encode c args out = .ok () (out.append form)) ∧
      ∀ input : Input, input.poisoned = false → form <+: input.rest →
        decode c input = .ok args (input.behind form) := by
  obtain ⟨form, hform, hread⟩ := c.answers_of_roundTrips h
  have hencode := atomic_encode c args
  rw [form?, if_pos hcount, hform] at hencode
  refine ⟨BigEndian.encode 4 args.length ++ form, hencode, ?_⟩
  rintro input fresh ⟨rest, hrest⟩
  rw [List.append_assoc] at hrest
  obtain ⟨count, hint, hlift⟩ := read_count hcount fresh ⟨_, hrest⟩
  have hbody : (input.behind (BigEndian.encode 4 args.length)).rest = form ++ rest := by
    simp [Input.behind, ← hrest]
  obtain ⟨hanswers, hlast⟩ := hread _ rfl ⟨rest, hbody.symm⟩
  have hnat : count.toInt.toNat = args.length := by omega
  have sound : ∀ a ∈ c.answers count.toInt.toNat
      (input.behind (BigEndian.encode 4 args.length)), corrupt a = false := by
    rw [hnat, hanswers]
    intro a ha
    obtain ⟨v, _, rfl⟩ := List.mem_map.mp ha
    rfl
  have hstop : (input.behind (BigEndian.encode 4 args.length)).behind form =
      input.behind (BigEndian.encode 4 args.length ++ form) := by
    simp [Input.behind, Nat.add_assoc]
  rw [decode_of_sound c hlift (by omega) sound, hnat, hanswers, hlast, hstop]
  rw [total_map_ok]
  rfl

/-- An argument list is corrupt exactly if its count cannot be read or is negative, or one of as
many calls behind it finds the stream corrupt. Any other list is read to the end of its last value,
and comes to the values if all were rebuilt, or else to the first error. Arguments that round-trip
one by one do so as a list, which can be written if its count fits. -/
theorem decode_consumes_all :
    (∀ input, corrupt (Decode.answer (decode c input)) = true ↔
      (∃ e last, Decode.lift Read.int32 input = .error e last) ∨
      ∃ count body, Decode.lift Read.int32 input = .ok count body ∧
        (count.toInt < 0 ∨ ∃ a ∈ c.answers count.toInt.toNat body, corrupt a = true)) ∧
    (∀ input count body, Decode.lift Read.int32 input = .ok count body → 0 ≤ count.toInt →
      (∀ a ∈ c.answers count.toInt.toNat body, corrupt a = false) →
      ∃ result frames last, Amounts (c.answers count.toInt.toNat body) result ∧
        decode c input = Decode.conclude result last ∧
        last = c.inputAfter count.toInt.toNat body ∧ last.poisoned = false ∧
        input.toReader.Passes (BigEndian.encode 4 count.toUInt32.toNat) body.toReader ∧
        c.Yields body frames (c.answers count.toInt.toNat body) last) ∧
    ∀ args : List (Value ω), (∀ v ∈ args, c.RoundTrips v) →
      (args.length ≤ 0x7FFFFFFF → ∃ form, (∀ out, encode c args out = .ok () (out.append form)) ∧
        ∀ input : Input, input.poisoned = false → form <+: input.rest →
          decode c input = .ok args (input.behind form)) ∧
      (0x7FFFFFFF < args.length → ∀ out, ∃ e, encode c args out = .error e out) := by
  refine ⟨fun input => ?_, fun input count body hread hcount sound => ?_, fun args hargs => ?_⟩
  · cases hread : Decode.lift Read.int32 input with
    | error e last =>
      rw [decode_of_no_count c hread]
      exact iff_of_true (corrupt_of_no_count hread) (.inl ⟨e, last, rfl⟩)
    | ok count body =>
      rw [corrupt_decode_iff_of_count c hread]
      constructor
      · exact fun h => .inr ⟨count, body, rfl, h⟩
      · rintro (⟨_, _, ⟨⟩⟩ | ⟨_, _, ⟨⟩, h⟩)
        exact h
  · obtain ⟨frames, hframes⟩ := c.exists_yields sound
    obtain ⟨fresh, hcounted⟩ := passes_of_count hread
    have hbody : body.poisoned = false := hcounted.poisoned.trans fresh
    exact ⟨_, frames, _, amounts_total _, decode_of_sound c hread hcount sound, rfl,
      c.poisoned_inputAfter hbody sound, hcounted, hframes⟩
  · refine ⟨decode_of_roundTrips c hargs, fun hlong out => ?_⟩
    have hencode := atomic_encode c args
    rw [form?, if_neg (Nat.not_le_of_lt hlong)] at hencode
    exact hencode out

end Arguments

/-- An argument of a type nobody knows, and the number seven behind it. -/
def lostArgument : Bytes :=
  [0, 0, 0, 2, 10, 0, 1, 65, 0, 0, 0, 0, 0, 4, 0, 0, 0, 7]

theorem lostArgument_read_to_end :
    (∃ result, Amounts [.error (.unknownType "A" false []), .ok (.scalar (.int 7))] result ∧
      Arguments.decode ({} : Codec Sample) (.ofBytes lostArgument) =
        Decode.conclude result ⟨⟨18, [], false⟩, []⟩) ∧
    ∃ form last, Arguments.encode ({} : Codec Sample) [.scalar .null, .scalar (.int 7)] {} =
        .ok () ⟨form⟩ ∧
      Arguments.decode ({} : Codec Sample) (.ofBytes form) =
        .ok [.scalar .null, .scalar (.int 7)] last := by
  obtain ⟨_, hread, hreturn⟩ := Arguments.decode_consumes_all ({} : Codec Sample)
  constructor
  · have sound : ∀ a ∈ ({} : Codec Sample).answers 2 ⟨⟨4, lostArgument.drop 4, false⟩, []⟩,
        corrupt a = false := by
      intro a ha
      have hanswers : ({} : Codec Sample).answers 2 ⟨⟨4, lostArgument.drop 4, false⟩, []⟩ =
          [.error (.unknownType "A" false []), .ok (.scalar (.int 7))] := rfl
      rw [hanswers] at ha
      simp only [List.mem_cons, List.not_mem_nil, or_false] at ha
      rcases ha with rfl | rfl <;> rfl
    obtain ⟨result, _, _, hamounts, hdecode, rfl, _⟩ :=
      hread (.ofBytes lostArgument) 2 _ rfl (by decide) sound
    exact ⟨result, hamounts, hdecode⟩
  · have hargs : ∀ v ∈ [Value.scalar .null, .scalar (.int 7)],
        ({} : Codec Sample).RoundTrips v := by
      intro v hv
      simp only [List.mem_cons, List.not_mem_nil, or_false] at hv
      rcases hv with rfl | rfl
      · exact Codec.roundTrips_null
      · exact (Codec.Sendable.scalar (.int 7) nofun).roundTrips
    obtain ⟨form, hencode, hdecode⟩ := (hreturn _ hargs).1 (by decide)
    exact ⟨form, _, hencode {}, hdecode (.ofBytes form) rfl (List.prefix_refl _)⟩

end Remoting
