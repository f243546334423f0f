import Remoting.Proofs.DecodeProgress
import Remoting.Proofs.DecoderLanguage
import Remoting.Proofs.PeerTransfer
import Remoting.Samples

/-!
# Failures stay failures

What a completion is rebuilt into is a success only if null was thrown, or an object that a handler
takes for null. A thrown value that cannot be rebuilt is null in the completion, but the name of its
type is kept there, and so the completion is no success.
-/

namespace Remoting

variable {ω : Type} [Portable ω] (c : Codec ω)

/-- An object stands next whose text is read as null by the handler nearest to its type. -/
def Codec.TakesForNull (bytes : Bytes) : Prop :=
  ∃ typeName text entry registered handler,
    (Frame.object typeName true (Utf8.encode text)).Fits ∧
    (Frame.object typeName true (Utf8.encode text)).bytes <+: bytes ∧
    c.catalog.get? typeName = some entry ∧
    c.table.Nearest entry.lineage registered handler ∧
    handler.decode text = .ok (.scalar .null)

def Frame.tag : Frame → Tag
  | .scalar s => s.tag
  | .object .. => .object

theorem Frame.head?_eq_iff_of_prefix {f : Frame} {bytes : Bytes} {t : Tag} (h : f.bytes <+: bytes) :
    bytes.head? = some t.ordinal ↔ f.tag = t := by
  obtain ⟨rest, rfl⟩ := h
  have hhead : (f.bytes ++ rest).head? = some f.tag.ordinal := by cases f <;> rfl
  rw [hhead, Option.some.injEq, Tag.ordinal_inj]

namespace Codec

/-- What is sound was made of the frame that stands next, and reading goes on behind it. -/
theorem exists_frame_of_sound {input : Input}
    (sound : corrupt (Decode.answer (c.decode input)) = false) :
    ∃ f : Frame, f.Fits ∧ f.Within c.settings ∧ c.Readable f ∧ f.bytes <+: input.rest ∧
      c.decode input = Decode.conclude (c.rebuild 0 f)
        ⟨⟨input.offset + f.bytes.length, input.rest.drop f.bytes.length, false⟩,
          input.notices ++ c.notices f⟩ := by
  have hfresh : input.poisoned = false := by
    cases hp : input.poisoned with
    | false => rfl
    | true =>
      rw [c.abandons_decode input hp] at sound
      cases sound
  obtain ⟨w, hw, hprefix⟩ := (c.corrupt_answer_iff hfresh).mp sound
  obtain ⟨f, hfit, hlimit, hreadable, rfl⟩ := c.sentence_iff.mp hw
  refine ⟨f, hfit, hlimit, hreadable, hprefix, ?_⟩
  rw [c.decode_eq_of_readable hfresh hfit hlimit hreadable (Reader.passes_of_prefix hprefix),
    hfresh]

theorem exists_frame_of_decode {input input' : Input} {v : Value ω}
    (h : c.decode input = .ok v input') :
    ∃ f : Frame, f.Fits ∧ f.bytes <+: input.rest ∧ c.Readable f ∧ c.rebuild 0 f = .ok v := by
  have hsound : corrupt (Decode.answer (c.decode input)) = false := by
    rw [h]
    rfl
  obtain ⟨f, hfit, _, hreadable, hprefix, hdecode⟩ := c.exists_frame_of_sound hsound
  have hanswer := congrArg Decode.answer hdecode
  rw [h, Decode.answer_conclude] at hanswer
  exact ⟨f, hfit, hprefix, hreadable, hanswer.symm⟩

theorem rebuild_of_takes {start : Nat} {typeName text registered : String}
    {entry : Catalog.Entry ω} {handler : Handler ω} (hentry : c.catalog.get? typeName = some entry)
    (hnearest : c.table.Nearest entry.lineage registered handler) :
    c.rebuild start (.object typeName true (Utf8.encode text)) =
      (handler.decode text).mapError (.custom registered) := by
  rw [c.rebuild_text hentry, rebuildText, closest?_eq_some_iff.mpr hnearest]

/-- A value that was read is null only if null was sent or a handler made it null. -/
theorem eq_null_iff_of_decode {input input' : Input} {v : Value ω}
    (h : c.decode input = .ok v input') :
    v = .scalar .null ↔
      input.rest.head? = some Tag.null.ordinal ∨ c.TakesForNull input.rest := by
  obtain ⟨f, hfit, hprefix, hreadable, hrebuild⟩ := c.exists_frame_of_decode h
  rw [Frame.head?_eq_iff_of_prefix hprefix]
  cases f with
  | scalar s =>
    cases hrebuild
    constructor
    · intro hnull
      cases hnull
      exact .inl rfl
    · rintro (htag | ⟨_, _, _, _, _, hfit', hprefix', _⟩)
      · cases s with
        | null => rfl
        | _ => cases htag
      · have hframe := Frame.eq_of_prefix hfit hfit' hprefix hprefix'
        cases hframe
  | object typeName custom payload =>
    have hreceives := c.receives_rebuild hreadable
    rw [hrebuild] at hreceives
    constructor
    · rintro rfl
      cases hreceives with
      | decoded entry registered handler text _ declared nearest decodes =>
        exact .inr ⟨typeName, text, entry, registered, handler, hfit, hprefix, declared, nearest,
          decodes⟩
    · rintro (htag | ⟨_, _, _, _, _, hfit', hprefix', hentry, hnearest, hdecodes⟩)
      · cases htag
      · have hframe := Frame.eq_of_prefix hfit hfit' hprefix hprefix'
        rw [hframe, c.rebuild_of_takes hentry hnearest, hdecodes] at hrebuild
        cases hrebuild
        rfl

end Codec

namespace Completion

omit [Portable ω] in
theorem outcome_eq_ok_iff {m : Completion ω} {v : Value ω} :
    m.outcome = .ok v ↔ m.unresolved = none ∧ m.thrown = .scalar .null ∧ m.returned = v := by
  obtain ⟨id, thrown, returned, unresolved⟩ := m
  rw [outcome]
  cases unresolved with
  | some typeName => simp
  | none =>
    cases thrown with
    | object error => simp
    | scalar s => cases s <;> simp

omit [Portable ω] in
theorem exists_fault_iff {m : Completion ω} :
    (∃ fault, m.outcome = .error fault) ↔ ∀ v, m.outcome ≠ .ok v := by
  cases m.outcome <;> simp

theorem decodePart_eq_ok_none_iff {input input' : Input} {v : Value ω} :
    decodePart c input = .ok (v, none) input' ↔ c.decode input = .ok v input' := by
  rw [decodePart]
  cases c.decode input with
  | ok v' last =>
    constructor <;> rintro ⟨⟩ <;> rfl
  | error e last =>
    dsimp only
    cases e.typeName? with
    | none => exact ⟨nofun, nofun⟩
    | some typeName => exact ⟨nofun, nofun⟩

theorem decode_eq_ok_iff {id : UInt32} {input input' : Input} {m : Completion ω} :
    decode c id input = .ok m input' ↔
      ∃ thrown lostThrown returned lostReturned middle,
        decodePart c input = .ok (thrown, lostThrown) middle ∧
        decodePart c middle = .ok (returned, lostReturned) input' ∧
        m = { id, thrown, returned, unresolved := lostThrown <|> lostReturned } := by
  rw [decode, bind_eq_ok_iff]
  simp only [bind_eq_ok_iff]
  constructor
  · rintro ⟨⟨thrown, lostThrown⟩, middle, hthrown, ⟨returned, lostReturned⟩, _, hreturned, ⟨⟩⟩
    exact ⟨thrown, lostThrown, returned, lostReturned, middle, hthrown, hreturned, rfl⟩
  · rintro ⟨thrown, lostThrown, returned, lostReturned, middle, hthrown, hreturned, rfl⟩
    exact ⟨(thrown, lostThrown), middle, hthrown, (returned, lostReturned), _, hreturned, rfl⟩

/-- Nothing was lost on the way to a success. -/
theorem outcome_eq_ok_iff_of_decode {id : UInt32} {input input' : Input} {m : Completion ω}
    {v : Value ω} (h : decode c id input = .ok m input') :
    m.outcome = .ok v ↔
      ∃ middle, c.decode input = .ok (.scalar .null) middle ∧ c.decode middle = .ok v input' := by
  obtain ⟨thrown, lostThrown, returned, lostReturned, middle, hthrown, hreturned, rfl⟩ :=
    (decode_eq_ok_iff c).mp h
  rw [outcome_eq_ok_iff]
  constructor
  · rintro ⟨hlost, hnull, hv⟩
    obtain ⟨rfl, rfl⟩ : lostThrown = none ∧ lostReturned = none := by
      cases lostThrown <;> cases lostReturned <;> cases hlost
      exact ⟨rfl, rfl⟩
    obtain rfl : thrown = .scalar .null := hnull
    obtain rfl : returned = v := hv
    rw [decodePart_eq_ok_none_iff] at hthrown hreturned
    exact ⟨middle, hthrown, hreturned⟩
  · rintro ⟨middle', hnull, hv⟩
    rw [← decodePart_eq_ok_none_iff, hthrown] at hnull
    cases hnull
    rw [← decodePart_eq_ok_none_iff, hreturned] at hv
    cases hv
    exact ⟨rfl, rfl, rfl⟩

/-- A failure stays one under every policy, unless a handler takes what was thrown for null. -/
theorem failure_of_decode {id : UInt32} {input input' : Input} {m : Completion ω}
    (h : decode c id input = .ok m input') :
    (input.rest.head? ≠ some Tag.null.ordinal → ¬ c.TakesForNull input.rest →
      ∃ fault, m.outcome = .error fault) ∧
    ∀ v, m.outcome = .ok v ↔
      (input.rest.head? = some Tag.null.ordinal ∨ c.TakesForNull input.rest) ∧
        ∃ thrown middle, c.decode input = .ok thrown middle ∧ c.decode middle = .ok v input' := by
  have hok (v : Value ω) : m.outcome = .ok v ↔
      (input.rest.head? = some Tag.null.ordinal ∨ c.TakesForNull input.rest) ∧
        ∃ thrown middle, c.decode input = .ok thrown middle ∧ c.decode middle = .ok v input' := by
    rw [outcome_eq_ok_iff_of_decode c h]
    constructor
    · rintro ⟨middle, hthrown, hreturned⟩
      exact ⟨(c.eq_null_iff_of_decode hthrown).mp rfl, _, middle, hthrown, hreturned⟩
    · rintro ⟨hnull, thrown, middle, hthrown, hreturned⟩
      rw [(c.eq_null_iff_of_decode hthrown).mpr hnull] at hthrown
      exact ⟨middle, hthrown, hreturned⟩
  refine ⟨fun htag htakes => ?_, hok⟩
  rw [exists_fault_iff]
  intro v hv
  exact ((hok v).mp hv).1.elim htag htakes

end Completion

/-- True where an error belongs, and null behind it. -/
theorem failure_of_thrown_boolean :
    ∃ m last, Completion.decode ({} : Codec Sample) 7 (.ofBytes [1, 1, 0]) = .ok m last ∧
      ∃ fault, m.outcome = .error fault := by
  obtain ⟨m, last, hdecode⟩ : ∃ m last,
      Completion.decode ({} : Codec Sample) 7 (.ofBytes [1, 1, 0]) = .ok m last := ⟨_, _, rfl⟩
  refine ⟨m, last, hdecode, (Completion.failure_of_decode {} hdecode).1 (by decide) ?_⟩
  rintro ⟨_, _, entry, _, _, _, _, hentry, _⟩
  cases hentry

/-- Takes all that is thrown at it for nothing. -/
def hushingCodec : Codec Sample where
  catalog := ⟨Registry.empty.insert SampleType.oops.name
    ⟨⟨.concrete SampleType.oops.loader, none, []⟩, [SampleType.oops.name, rootName]⟩⟩
  table := .register .empty SampleType.oops.name
    { encode := Object.document, decode := fun _ => .ok (.scalar .null) }

/-- An error was thrown that says boom, and seven was returned. -/
def hushedFailure : Bytes :=
  [10, 0, 9, 116, 101, 115, 116, 46, 79, 111, 112, 115, 1, 0, 0, 0, 18, 123, 34, 109, 101, 115, 115,
    97, 103, 101, 34, 58, 34, 98, 111, 111, 109, 34, 125, 4, 0, 0, 0, 7]

theorem hushedFailure_succeeds :
    hushedFailure.head? ≠ some Tag.null.ordinal ∧
    ∃ m last, Completion.decode hushingCodec 1 (.ofBytes hushedFailure) = .ok m last ∧
      m.outcome = .ok (.scalar (.int 7)) :=
  ⟨by decide, _, _, rfl, rfl⟩

end Remoting
