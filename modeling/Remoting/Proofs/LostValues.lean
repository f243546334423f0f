import Remoting.Proofs.CompletionOutcome

/-!
# The type that a lost value is blamed on

A completion keeps a type name of the first of its two values that cannot be rebuilt. That is the
name under which the object was sent, unless a handler refused the object's text: then it is the
name for which the handler is registered, which may be an ancestor's. Only for a handler of the
object's own type do the two agree.
-/

namespace Remoting

/-- The type on which the loss of an object is blamed. -/
def CodecError.blamed (typeName : String) : CodecError → String
  | .custom registered _ => registered
  | _ => typeName

theorem CodecError.blamed_eq_iff {typeName : String} {e : CodecError} :
    e.blamed typeName = typeName ↔
      ∀ registered reason, e = .custom registered reason → registered = typeName := by
  cases e with
  | custom registered reason =>
    constructor
    · intro h _ _ he
      cases he
      exact h
    · intro h
      exact h registered reason rfl
  | _ => exact iff_of_true rfl nofun

variable {ω : Type} [Portable ω] (c : Codec ω)

namespace Codec

/-- Only objects are lost, and the error is made of their payload. -/
theorem exists_object_of_lost {input last : Input} {e : CodecError}
    (h : c.decode input = .error e last) (sound : e.isFormatError = false) :
    ∃ typeName custom payload, (Frame.object typeName custom payload).Fits ∧
      (Frame.object typeName custom payload).bytes <+: input.rest ∧
      c.Receives typeName custom payload (.error e) := by
  have hsound : corrupt (Decode.answer (c.decode input)) = false := by
    rw [h]
    exact sound
  obtain ⟨f, hfits, _, hreadable, hprefix, hdecode⟩ := c.exists_frame_of_sound hsound
  have hanswer := congrArg Decode.answer hdecode
  rw [h, Decode.answer_conclude] at hanswer
  cases f with
  | scalar s => cases hanswer
  | object typeName custom payload =>
    have hreceives := c.receives_rebuild hreadable
    rw [← hanswer] at hreceives
    exact ⟨typeName, custom, payload, hfits, hprefix, hreceives⟩

theorem Receives.typeName?_eq {typeName : String} {custom : Bool} {payload : Bytes}
    {e : CodecError} (h : c.Receives typeName custom payload (.error e)) :
    e.typeName? = some (e.blamed typeName) := by
  cases h <;> rfl

/-- An object that was sent under the type name stands next and cannot be rebuilt. -/
structure Loses (input : Input) (typeName : String) (e : CodecError) (last : Input) : Prop where
  sent : ∃ custom payload, (Frame.object typeName custom payload).Fits ∧
    (Frame.object typeName custom payload).bytes <+: input.rest
  lost : c.decode input = .error e last

variable {c}

theorem Loses.typeName?_eq {input last : Input} {typeName : String} {e : CodecError}
    (h : c.Loses input typeName e last) (sound : e.isFormatError = false) :
    e.typeName? = some (e.blamed typeName) := by
  obtain ⟨custom, payload, hfits, hprefix⟩ := h.sent
  obtain ⟨typeName', custom', payload', hfits', hprefix', hreceives⟩ :=
    c.exists_object_of_lost h.lost sound
  have hframe := Frame.eq_of_prefix hfits hfits' hprefix hprefix'
  simp only [Frame.object.injEq] at hframe
  rw [hframe.1]
  exact hreceives.typeName?_eq c

end Codec

namespace Completion

/-- The first of the two values that cannot be rebuilt was sent under the type name. -/
inductive Loses (input : Input) (typeName : String) (e : CodecError) : Prop where
  | thrown (middle : Input) (lost : c.Loses input typeName e middle)
  | returned (thrown : Value ω) (middle last : Input) (kept : c.decode input = .ok thrown middle)
      (lost : c.Loses middle typeName e last)

/-- A part of a completion that was read has no fault of the stream. -/
theorem isFormatError_of_decodePart {input last last' : Input} {e : CodecError}
    {part : Value ω × Option String} (h : decodePart c input = .ok part last')
    (he : c.decode input = .error e last) : e.isFormatError = false := by
  rw [decodePart, he] at h
  cases e with
  | stream fault => cases h
  | _ => rfl

theorem lost_of_decodePart {input last last' : Input} {e : CodecError} {typeName : String}
    {part : Value ω × Option String} (h : decodePart c input = .ok part last')
    (loses : c.Loses input typeName e last) : part.2 = some (e.blamed typeName) := by
  have hname := loses.typeName?_eq (isFormatError_of_decodePart c h loses.lost)
  rw [decodePart, loses.lost] at h
  dsimp only at h
  rw [hname] at h
  cases h
  rfl

theorem unresolved_of_loses {id : UInt32} {input input' : Input} {m : Completion ω}
    {typeName : String} {e : CodecError} (h : decode c id input = .ok m input')
    (loses : Loses c input typeName e) : m.unresolved = some (e.blamed typeName) := by
  obtain ⟨thrown, lostThrown, returned, lostReturned, middle, hthrown, hreturned, rfl⟩ :=
    (decode_eq_ok_iff c).mp h
  cases loses with
  | thrown middle' lost =>
    have hname : lostThrown = some (e.blamed typeName) := lost_of_decodePart c hthrown lost
    rw [hname]
    rfl
  | returned value middle' last kept lost =>
    rw [(decodePart_eq_ok_none_iff c).mpr kept] at hthrown
    cases hthrown
    have hname : lostReturned = some (e.blamed typeName) := lost_of_decodePart c hreturned lost
    rw [hname]
    rfl

theorem kept_or_loses_of_decodePart {input last : Input} {part : Value ω × Option String}
    (h : decodePart c input = .ok part last) :
    c.decode input = .ok part.1 last ∨ ∃ typeName e, c.Loses input typeName e last := by
  cases hdecode : c.decode input with
  | ok v last' =>
    rw [(decodePart_eq_ok_none_iff c).mpr hdecode] at h
    cases h
    exact .inl rfl
  | error e last' =>
    have hsound := isFormatError_of_decodePart c h hdecode
    obtain ⟨typeName, custom, payload, hfits, hprefix, hreceives⟩ :=
      c.exists_object_of_lost hdecode hsound
    rw [decodePart, hdecode] at h
    dsimp only at h
    rw [hreceives.typeName?_eq c] at h
    cases h
    exact .inr ⟨typeName, e, ⟨custom, payload, hfits, hprefix⟩, hdecode⟩

theorem kept_or_loses {id : UInt32} {input input' : Input} {m : Completion ω}
    (h : decode c id input = .ok m input') :
    (∃ middle, c.decode input = .ok m.thrown middle ∧ c.decode middle = .ok m.returned input') ∨
      ∃ typeName e, Loses c input typeName e := by
  obtain ⟨thrown, lostThrown, returned, lostReturned, middle, hthrown, hreturned, rfl⟩ :=
    (decode_eq_ok_iff c).mp h
  rcases kept_or_loses_of_decodePart c hthrown with hfirst | ⟨typeName, e, loses⟩
  · rcases kept_or_loses_of_decodePart c hreturned with hsecond | ⟨typeName, e, loses⟩
    · exact .inl ⟨middle, hfirst, hsecond⟩
    · exact .inr ⟨typeName, e, .returned thrown middle input' hfirst loses⟩
  · exact .inr ⟨typeName, e, .thrown middle loses⟩

/-- If a value is lost, the completion and its outcome name the type on which the loss of the
first such value is blamed. It is the type under which this value was sent exactly if no handler of
another type refused it. -/
theorem blamed_of_decode {id : UInt32} {input input' : Input} {m : Completion ω}
    (h : decode c id input = .ok m input') :
    ((∃ middle,
        c.decode input = .ok m.thrown middle ∧ c.decode middle = .ok m.returned input') ∨
      ∃ typeName e, Loses c input typeName e) ∧
    ∀ typeName e, Loses c input typeName e →
      m.unresolved = some (e.blamed typeName) ∧
      m.outcome = .error (.unresolved (e.blamed typeName)) ∧
      (m.unresolved = some typeName ↔
        ∀ registered reason, e = .custom registered reason → registered = typeName) := by
  refine ⟨kept_or_loses c h, ?_⟩
  intro typeName e loses
  have hname := unresolved_of_loses c h loses
  refine ⟨hname, ?_, ?_⟩
  · rw [outcome, hname]
  · rw [hname, Option.some.injEq, CodecError.blamed_eq_iff]

end Completion

/-- Nothing was thrown, but of the type of what was returned nothing is known. -/
def foreignReturn : Bytes :=
  [0, 10, 0, 6, 120, 46, 71, 111, 110, 101, 0, 0, 0, 0, 0]

theorem foreignReturn_blames_own_type :
    ∃ m last, Completion.decode ({} : Codec Sample) 5 (.ofBytes foreignReturn) = .ok m last ∧
      m.outcome = .error (.unresolved "x.Gone") := by
  obtain ⟨m, last, hdecode⟩ : ∃ m last,
      Completion.decode ({} : Codec Sample) 5 (.ofBytes foreignReturn) = .ok m last := ⟨_, _, rfl⟩
  have loses : Completion.Loses ({} : Codec Sample) (.ofBytes foreignReturn) "x.Gone"
      (.unknownType "x.Gone" false []) :=
    .returned (.scalar .null) _ _ rfl
      ⟨⟨false, [], ⟨by decide, by decide⟩, List.prefix_refl _⟩, rfl⟩
  exact ⟨m, last, hdecode, ((Completion.blamed_of_decode {} hdecode).2 _ _ loses).2.1⟩

/-- Knows an error type, and has a handler for all types that can read none of them. -/
def refusingCodec : Codec Sample where
  catalog := hushingCodec.catalog
  table := .register .empty rootName
    { encode := Object.document, decode := fun _ => .error "refused" }

theorem hushedFailure_blames_root :
    Completion.Loses refusingCodec (.ofBytes hushedFailure) SampleType.oops.name
      (.custom rootName "refused") ∧
    ∃ m last, Completion.decode refusingCodec 1 (.ofBytes hushedFailure) = .ok m last ∧
      m.unresolved = some rootName ∧ rootName ≠ SampleType.oops.name := by
  refine ⟨.thrown _ ⟨⟨true, hushedFailure.drop 17 |>.take 18, ⟨by decide, by decide⟩, ?_⟩, rfl⟩,
    _, _, rfl, rfl, by decide⟩
  exact ⟨[4, 0, 0, 0, 7], by decide⟩

end Remoting
