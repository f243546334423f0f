import Remoting.Proofs.ConsecutiveValues

/-!
# Reading the body of a completion

The body of a completion is read by two calls in a row. If one of them finds the stream corrupt, so
does reading the body, with the same fault. Otherwise both values are consumed, be they of use or
not, and the completion is made of the two answers: null stands for a value that cannot be rebuilt,
and then the completion reports the loss and nothing else.
-/

namespace Remoting

/-- Every error but a fault of the stream is about some type. -/
theorem CodecError.exists_typeName {e : CodecError} (h : e.isFormatError = false) :
    ∃ typeName, e.typeName? = some typeName := by
  cases e with
  | stream fault => cases h
  | unknownType typeName _ _ | missingDecoder typeName | notLoadable typeName
  | custom typeName _ | fallback typeName _ => exact ⟨typeName, rfl⟩

namespace Completion

/-- What a completion reports: a lost value before all else, and success only if null was thrown. -/
inductive Reports {ω : Type} (m : Completion ω) : Outcome ω → Prop
  | unresolved (typeName : String) (lost : m.unresolved = some typeName) :
      m.Reports (.error (.unresolved typeName))
  | success (kept : m.unresolved = none) (null : m.thrown = .scalar .null) :
      m.Reports (.ok m.returned)
  | thrown (error : Object ω) (kept : m.unresolved = none) (object : m.thrown = .object error) :
      m.Reports (.error (.thrown error))
  | notAnError (s : Scalar) (kept : m.unresolved = none) (odd : m.thrown = .scalar s)
      (nonnull : s ≠ .null) : m.Reports (.error (.notAnError (.scalar s)))

theorem reports_iff {ω : Type} {m : Completion ω} {o : Outcome ω} :
    m.Reports o ↔ m.outcome = o := by
  constructor
  · intro h
    rw [outcome]
    cases h with
    | unresolved typeName lost => rw [lost]
    | success kept null => rw [kept, null]
    | thrown error kept object => rw [kept, object]
    | notAnError s kept odd nonnull =>
      rw [kept, odd]
      cases s with
      | null => exact absurd rfl nonnull
      | _ => rfl
  · rintro rfl
    rw [outcome]
    cases hlost : m.unresolved with
    | some typeName => exact .unresolved typeName hlost
    | none =>
      cases hthrown : m.thrown with
      | object error => exact .thrown error hlost hthrown
      | scalar s =>
        cases s with
        | null => exact .success hlost hthrown
        | _ => exact .notAnError _ hlost hthrown (by rintro ⟨⟩)

variable {ω : Type} [Portable ω] (c : Codec ω)

open Decode (answer failure?)

/-- The completion that two answers make. -/
def ofAnswers {ω : Type} (id : UInt32) (first second : Except CodecError (Value ω)) :
    Completion ω where
  id
  thrown := Value.orNull first
  returned := Value.orNull second
  unresolved := ((failure? first).bind CodecError.typeName?) <|>
    (failure? second).bind CodecError.typeName?

omit [Portable ω] in
theorem isSome_typeName_iff {a : Except CodecError (Value ω)} (sound : corrupt a = false) :
    ((failure? a).bind CodecError.typeName?).isSome = true ↔ ∃ e, a = .error e := by
  cases a with
  | ok v => exact iff_of_false nofun (by rintro ⟨_, ⟨⟩⟩)
  | error e =>
    obtain ⟨typeName, hname⟩ := CodecError.exists_typeName sound
    refine iff_of_true ?_ ⟨e, rfl⟩
    rw [failure?, Option.bind_some, hname]
    rfl

theorem decodePart_of_sound {input : Input} (sound : corrupt (answer (c.decode input)) = false) :
    decodePart c input = .ok (Value.orNull (answer (c.decode input)),
      (failure? (answer (c.decode input))).bind CodecError.typeName?)
      (finalState (c.decode input)) := by
  rw [decodePart]
  cases hdecode : c.decode input with
  | ok v last => rfl
  | error e last =>
    rw [hdecode] at sound
    obtain ⟨typeName, hname⟩ := CodecError.exists_typeName sound
    simp only [hname, answer, failure?, Option.bind_some, Value.orNull, finalState]

theorem decodePart_of_corrupt {input : Input} (h : corrupt (answer (c.decode input)) = true) :
    ∃ e last, e.isFormatError = true ∧ c.decode input = .error e last ∧
      decodePart c input = .error e last := by
  rw [decodePart]
  cases hdecode : c.decode input with
  | ok v last =>
    rw [hdecode] at h
    cases h
  | error e last =>
    rw [hdecode] at h
    cases e with
    | stream fault => exact ⟨.stream fault, last, rfl, rfl, rfl⟩
    | _ => cases h

theorem sound_of_decodePart {input last : Input} {part : Value ω × Option String}
    (h : decodePart c input = .ok part last) :
    corrupt (answer (c.decode input)) = false ∧ last = finalState (c.decode input) := by
  cases hanswer : corrupt (answer (c.decode input)) with
  | true =>
    obtain ⟨_, _, _, _, hpart⟩ := decodePart_of_corrupt c hanswer
    rw [hpart] at h
    cases h
  | false =>
    rw [decodePart_of_sound c hanswer] at h
    cases h
    exact ⟨rfl, rfl⟩

theorem sound_of_decode {id : UInt32} {input last : Input} {m : Completion ω}
    (h : decode c id input = .ok m last) : ∀ a ∈ c.answers 2 input, corrupt a = false := by
  obtain ⟨_, _, _, _, middle, hthrown, hreturned, _⟩ := (decode_eq_ok_iff c).mp h
  obtain ⟨hfirst, rfl⟩ := sound_of_decodePart c hthrown
  obtain ⟨hsecond, _⟩ := sound_of_decodePart c hreturned
  intro a ha
  simp only [Codec.answers, List.mem_cons, List.not_mem_nil, or_false] at ha
  rcases ha with rfl | rfl
  · exact hfirst
  · exact hsecond

theorem decode_of_sound (id : UInt32) {input : Input}
    (first : corrupt (answer (c.decode input)) = false)
    (second : corrupt (answer (c.decode (finalState (c.decode input)))) = false) :
    decode c id input =
      .ok (ofAnswers id (answer (c.decode input))
        (answer (c.decode (finalState (c.decode input))))) (c.inputAfter 2 input) := by
  rw [decode_eq_ok_iff]
  exact ⟨_, _, _, _, _, decodePart_of_sound c first, decodePart_of_sound c second, rfl⟩

theorem decode_eq_error_iff {id : UInt32} {input last : Input} {e : CodecError} :
    decode c id input = .error e last ↔ e.isFormatError = true ∧
      (c.decode input = .error e last ∨
        corrupt (answer (c.decode input)) = false ∧
          c.decode (finalState (c.decode input)) = .error e last) := by
  cases hfirst : corrupt (answer (c.decode input)) with
  | true =>
    obtain ⟨e', last', hformat, hdecode, hpart⟩ := decodePart_of_corrupt c hfirst
    have hbody : decode c id input = .error e' last' := bind_of_error hpart
    rw [hbody, hdecode]
    constructor
    · rintro ⟨⟩
      exact ⟨hformat, .inl rfl⟩
    · rintro ⟨_, h | ⟨h, _⟩⟩
      · cases h
        rfl
      · cases h
  | false =>
    have hnot : e.isFormatError = true → c.decode input ≠ .error e last := by
      intro hformat hdecode
      rw [hdecode] at hfirst
      exact Bool.false_ne_true (hfirst.symm.trans hformat)
    have hpart := decodePart_of_sound c hfirst
    cases hsecond : corrupt (answer (c.decode (finalState (c.decode input)))) with
    | true =>
      obtain ⟨e', last', hformat, hdecode, hpart'⟩ := decodePart_of_corrupt c hsecond
      have hbody : decode c id input = .error e' last' :=
        (bind_of_ok hpart).trans (bind_of_error hpart')
      rw [hbody, hdecode]
      constructor
      · rintro ⟨⟩
        exact ⟨hformat, .inr ⟨rfl, rfl⟩⟩
      · rintro ⟨hformat', h | ⟨_, h⟩⟩
        · exact absurd h (hnot hformat')
        · cases h
          rfl
    | false =>
      rw [decode_of_sound c id hfirst hsecond]
      constructor
      · rintro ⟨⟩
      · rintro ⟨hformat, h | ⟨_, h⟩⟩
        · exact absurd h (hnot hformat)
        · rw [h] at hsecond
          exact absurd (hsecond.symm.trans hformat) Bool.false_ne_true

omit [Portable ω] in
theorem isSome_unresolved_ofAnswers {id : UInt32} {first second : Except CodecError (Value ω)}
    (sound : ∀ a ∈ [first, second], corrupt a = false) :
    (ofAnswers id first second).unresolved.isSome = true ↔
      (∃ e, first = .error e) ∨ ∃ e, second = .error e := by
  rw [← isSome_typeName_iff (sound first (by simp)), ← isSome_typeName_iff (sound second (by simp)),
    ofAnswers]
  dsimp only
  cases (failure? first).bind CodecError.typeName? with
  | none => simp
  | some typeName => simp

/-- A body is read if and only if neither of two calls in a row finds the stream corrupt; otherwise
the fault is that of the first call that does. What was read ends behind the second value, and is
made of the two answers. -/
theorem decode_consumes_both (id : UInt32) (input : Input) :
    ((∃ m last, decode c id input = .ok m last) ↔ ∀ a ∈ c.answers 2 input, corrupt a = false) ∧
    (∀ e last, decode c id input = .error e last ↔ e.isFormatError = true ∧
      (c.decode input = .error e last ∨
        corrupt (answer (c.decode input)) = false ∧
          c.decode (finalState (c.decode input)) = .error e last)) ∧
    ∀ m last, decode c id input = .ok m last →
      last = c.inputAfter 2 input ∧ last.poisoned = false ∧
      (∃ frames, c.Yields input frames (c.answers 2 input) last) ∧
      (∃ first second, c.answers 2 input = [first, second] ∧ m.id = id ∧
        m.thrown = Value.orNull first ∧ m.returned = Value.orNull second ∧
        (m.unresolved.isSome = true ↔ (∃ e, first = .error e) ∨ ∃ e, second = .error e)) ∧
      ∀ o, m.outcome = o ↔ m.Reports o := by
  have hread (sound : ∀ a ∈ c.answers 2 input, corrupt a = false) :=
    decode_of_sound c id (sound _ List.mem_cons_self)
      (sound _ (List.mem_cons_of_mem _ List.mem_cons_self))
  refine ⟨⟨?_, fun sound => ⟨_, _, hread sound⟩⟩, fun e last => decode_eq_error_iff c, ?_⟩
  · rintro ⟨m, last, h⟩
    exact sound_of_decode c h
  · intro m last h
    have sound := sound_of_decode c h
    rw [hread sound] at h
    cases h
    have hfresh := c.accountable_decode.fresh (sound _ List.mem_cons_self)
    exact ⟨rfl, c.poisoned_inputAfter hfresh sound, c.exists_yields sound,
      ⟨_, _, rfl, rfl, rfl, rfl, isSome_unresolved_ofAnswers sound⟩, fun _ => reports_iff.symm⟩

end Completion

/-- An error of a type nobody knows was thrown, and nothing was returned. -/
def foreignError : Bytes :=
  [10, 0, 1, 65, 0, 0, 0, 0, 0, 0]

theorem foreignError_read_to_end :
    ∃ m last, Completion.decode ({} : Codec Sample) 8 (.ofBytes foreignError) = .ok m last ∧
      last.offset = 10 ∧ last.poisoned = false ∧ m.thrown = .scalar .null ∧
      m.unresolved.isSome = true ∧ m.Reports (.error (.unresolved "A")) := by
  obtain ⟨m, last, hdecode⟩ : ∃ m last,
      Completion.decode ({} : Codec Sample) 8 (.ofBytes foreignError) = .ok m last := ⟨_, _, rfl⟩
  obtain ⟨_, _, hmade⟩ :=
    Completion.decode_consumes_both ({} : Codec Sample) 8 (.ofBytes foreignError)
  obtain ⟨rfl, hsound, _, ⟨first, second, hanswers, _, hthrown, _, hlost⟩, hreports⟩ :=
    hmade m last hdecode
  cases hanswers
  refine ⟨m, _, hdecode, rfl, hsound, hthrown, hlost.mpr (.inl ⟨_, rfl⟩), ?_⟩
  rw [← hreports]
  cases hdecode
  rfl

end Remoting
