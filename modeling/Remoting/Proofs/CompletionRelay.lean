import Remoting.Proofs.AtomicWriting
import Remoting.Proofs.CompletionOutcome
import Remoting.Proofs.StreamRoundTrip

/-!
# Completions that are passed on

The body of a completion is made of its two values, and the name of a type that was lost is no part
of it. So a completion that is written and read again comes back with its values, but as one of
which nothing was lost.
-/

namespace Remoting

variable {ω : Type}

/-- The input behind the given bytes, which were read without a remark. -/
def Input.behind (input : Input) (w : Bytes) : Input :=
  ⟨⟨input.offset + w.length, input.rest.drop w.length, false⟩, input.notices⟩

/-- The completion as it would be if no value had been lost. -/
def Completion.bare (m : Completion ω) : Completion ω :=
  { m with unresolved := none }

theorem Completion.outcome_bare_eq_iff {m : Completion ω} :
    m.bare.outcome = m.outcome ↔ m.unresolved = none := by
  constructor
  · intro h
    cases hlost : m.unresolved with
    | none => rfl
    | some typeName =>
      have hm : m.outcome = .error (.unresolved typeName) := by
        rw [outcome, hlost]
      rw [hm, outcome, bare] at h
      dsimp only at h
      split at h <;> cases h
  · intro hlost
    have hm : m.bare = m := by
      rw [bare, ← hlost]
    rw [hm]

variable [Portable ω] (c : Codec ω)

namespace Codec

/-- The value can be written, and reading its bytes gives it back. -/
def RoundTrips (v : Value ω) : Prop :=
  ∃ bytes, c.toBytes v = .ok bytes ∧ c.fromBytes bytes = .ok v

theorem decodeToEnd_eq_ok_iff {v : Value ω} {input last : Input} :
    c.decodeToEnd input = .ok v last ↔ c.decode input = .ok v last ∧ last.atEnd = true := by
  rw [decodeToEnd, bind_eq_ok_iff]
  constructor
  · rintro ⟨v', mid, hdecode, hend⟩
    rw [bind_eq_ok_iff] at hend
    obtain ⟨_, _, ⟨⟩, hend⟩ := hend
    split at hend
    · cases hend
      exact ⟨hdecode, by assumption⟩
    · cases hend
  · rintro ⟨hdecode, hend⟩
    refine ⟨v, last, hdecode, ?_⟩
    rw [bind_eq_ok_iff]
    refine ⟨_, _, rfl, ?_⟩
    rw [if_pos hend]
    rfl

theorem fromBytes_eq_ok_iff_decode {bytes : Bytes} {v : Value ω} :
    c.fromBytes bytes = .ok v ↔
      ∃ last, c.decode (.ofBytes bytes) = .ok v last ∧ last.atEnd = true := by
  simp only [← decodeToEnd_eq_ok_iff]
  rw [fromBytes]
  cases c.decodeToEnd (.ofBytes bytes) with
  | error e last =>
    constructor
    · intro h
      cases h
    · rintro ⟨_, ⟨⟩⟩
  | ok v' last =>
    constructor
    · rintro ⟨⟩
      exact ⟨last, rfl⟩
    · rintro ⟨_, ⟨⟩⟩
      rfl

/-- Bytes that are read to their end are the form of a frame. -/
theorem fromBytes_eq_ok_iff {bytes : Bytes} {v : Value ω} :
    c.fromBytes bytes = .ok v ↔ ∃ f : Frame, f.Fits ∧ f.Within c.settings ∧ c.Readable f ∧
      bytes = f.bytes ∧ c.rebuild 0 f = .ok v := by
  rw [fromBytes_eq_ok_iff_decode]
  constructor
  · rintro ⟨last, hdecode, hend⟩
    have hsound : corrupt (Decode.answer (c.decode (.ofBytes bytes))) = false := by
      rw [hdecode]
      rfl
    obtain ⟨f, hfits, hwithin, hreadable, ⟨rest, hrest⟩, heq⟩ := c.exists_frame_of_sound hsound
    rw [hdecode] at heq
    have hanswer : c.rebuild 0 f = .ok v := by
      have hanswer := congrArg Decode.answer heq
      rw [Decode.answer_conclude] at hanswer
      exact hanswer.symm
    rw [hanswer] at heq
    cases heq
    -- nothing is left behind the frame
    have hempty : rest = [] := by
      change ((bytes.drop f.bytes.length).isEmpty) = true at hend
      change f.bytes ++ rest = bytes at hrest
      rw [← hrest, List.drop_left] at hend
      exact List.isEmpty_iff.mp hend
    rw [hempty, List.append_nil] at hrest
    exact ⟨f, hfits, hwithin, hreadable, hrest.symm, hanswer⟩
  · rintro ⟨f, hfits, hwithin, hreadable, rfl, hanswer⟩
    have hpasses : (Input.ofBytes f.bytes).Passes f.bytes ⟨0 + f.bytes.length, [], false⟩ :=
      ⟨(List.append_nil _).symm, rfl, rfl⟩
    have hdecode := c.decode_eq_of_readable rfl hfits hwithin hreadable hpasses
    rw [hanswer] at hdecode
    exact ⟨_, hdecode, rfl⟩

/-- The form of a frame is read as this frame, for no frame begins another. -/
theorem fromBytes_form_eq_ok_iff {f : Frame} {v : Value ω} (hfits : f.Fits) :
    c.fromBytes f.bytes = .ok v ↔
      f.Within c.settings ∧ c.Readable f ∧ c.rebuild 0 f = .ok v := by
  rw [fromBytes_eq_ok_iff]
  constructor
  · rintro ⟨g, hg, hwithin, hreadable, heq, hrebuild⟩
    have hprefix : g.bytes <+: f.bytes := heq ▸ List.prefix_refl _
    obtain rfl : f = g := Frame.eq_of_prefix hfits hg (List.prefix_refl _) hprefix
    exact ⟨hwithin, hreadable, hrebuild⟩
  · rintro ⟨hwithin, hreadable, hrebuild⟩
    exact ⟨f, hfits, hwithin, hreadable, rfl, hrebuild⟩

/-- What a codec writes and then understands, it reads without a remark. -/
theorem notices_of_rebuild {v v' : Value ω} {f : Frame} {start : Nat} (hf : c.frame v = .ok f)
    (hrebuild : c.rebuild start f = .ok v') : c.notices f = [] := by
  cases v with
  | scalar s =>
    cases hf
    rfl
  | object o =>
    obtain ⟨custom, payload, hrepresent, rfl⟩ := c.frame_object_eq_ok_iff.mp hf
    cases sends_of_represent hrepresent with
    | generic document unhandled written => rfl
    | handled registered handler text nearest written =>
      cases hentry : c.catalog.get? o.typeName with
      | none =>
        rw [rebuild, hentry] at hrebuild
        cases hrebuild
      | some entry =>
        rw [c.catalog.searchOrder_of_declared hentry] at nearest
        rw [notices, hentry, Utf8.decode_encode]
        dsimp only
        rw [textNotices, closest?_eq_some_iff.mpr nearest]
        rfl

variable {c}

theorem Carries.decode_eq {f : Frame} {v : Value ω} {input : Input} (h : c.Carries f v)
    (fresh : input.poisoned = false) (next : f.bytes <+: input.rest) :
    c.decode input = .ok v (input.behind f.bytes) := by
  rw [c.decode_eq_of_readable fresh h.fits h.within h.readable (Reader.passes_of_prefix next),
    h.rebuild, h.notices, List.append_nil, fresh]
  rfl

theorem RoundTrips.exists_carries {v : Value ω} (h : c.RoundTrips v) : ∃ f, c.Carries f v := by
  obtain ⟨bytes, hwrite, hread⟩ := h
  obtain ⟨f, hf, hfits, rfl⟩ := c.toBytes_eq_ok_iff.mp hwrite
  obtain ⟨hwithin, hreadable, hrebuild⟩ := (c.fromBytes_form_eq_ok_iff hfits).mp hread
  exact ⟨f, hf, hfits, hwithin, hreadable, hrebuild, c.notices_of_rebuild hf hrebuild⟩

theorem Carries.roundTrips {f : Frame} {v : Value ω} (h : c.Carries f v) : c.RoundTrips v :=
  ⟨f.bytes, c.toBytes_eq_ok_iff.mpr ⟨f, h.frame, h.fits, rfl⟩,
    (c.fromBytes_form_eq_ok_iff h.fits).mpr ⟨h.within, h.readable, h.rebuild⟩⟩

theorem Sendable.roundTrips {v : Value ω} (h : c.Sendable v) : c.RoundTrips v := by
  obtain ⟨f, hf⟩ := h.exists_carries
  exact hf.roundTrips

theorem roundTrips_null : c.RoundTrips (.scalar .null) :=
  (Sendable.scalar .null nofun).roundTrips

end Codec

namespace Completion

theorem exists_form (m : Completion ω) (thrown : c.RoundTrips m.thrown)
    (returned : c.RoundTrips m.returned) :
    ∃ form, (∀ out, m.encode c out = .ok () (out.append form)) ∧
      ∀ input : Input, input.poisoned = false → form <+: input.rest →
        decode c m.id input = .ok m.bare (input.behind form) := by
  obtain ⟨f, hf⟩ := thrown.exists_carries
  obtain ⟨g, hg⟩ := returned.exists_carries
  have hform : c.formOf? [m.thrown, m.returned] = some (f.bytes ++ g.bytes) := by
    have hthrown := c.toBytes_eq_ok_iff.mpr ⟨f, hf.frame, hf.fits, rfl⟩
    have hreturned := c.toBytes_eq_ok_iff.mpr ⟨g, hg.frame, hg.fits, rfl⟩
    simp [Codec.formOf?, hthrown, hreturned, Except.toOption]
  have hencode := atomic_encode c m
  rw [hform] at hencode
  refine ⟨f.bytes ++ g.bytes, hencode, ?_⟩
  intro input fresh next
  obtain ⟨rest, hrest⟩ := next
  have hthrown : c.decode input = .ok m.thrown (input.behind f.bytes) := by
    apply hf.decode_eq fresh
    rw [← hrest, List.append_assoc]
    exact List.prefix_append _ _
  have hmiddle : (input.behind f.bytes).rest = g.bytes ++ rest := by
    simp [Input.behind, ← hrest]
  have hreturned : c.decode (input.behind f.bytes) =
      .ok m.returned ((input.behind f.bytes).behind g.bytes) := by
    apply hg.decode_eq rfl
    rw [hmiddle]
    exact List.prefix_append _ _
  have hlast : (input.behind f.bytes).behind g.bytes = input.behind (f.bytes ++ g.bytes) := by
    simp [Input.behind, Nat.add_assoc]
  rw [hlast] at hreturned
  rw [decode_eq_ok_iff]
  exact ⟨m.thrown, none, m.returned, none, input.behind f.bytes,
    (decodePart_eq_ok_none_iff c).mpr hthrown, (decodePart_eq_ok_none_iff c).mpr hreturned, rfl⟩

/-- A completion adds its two values whatever was written before. Wherever they are read again,
they give the completion as if nothing had been lost, and this keeps the outcome exactly if nothing
was. -/
theorem relays_values_alone (m : Completion ω) (thrown : c.RoundTrips m.thrown)
    (returned : c.RoundTrips m.returned) :
    (∃ form, (∀ out, m.encode c out = .ok () (out.append form)) ∧
      ∀ input : Input, input.poisoned = false → form <+: input.rest →
        decode c m.id input = .ok m.bare (input.behind form)) ∧
    (m.bare.outcome = m.outcome ↔ m.unresolved = none) :=
  ⟨exists_form c m thrown returned, outcome_bare_eq_iff⟩

end Completion

theorem unitFailure_passed_on :
    let m : Completion Sample := .failure 9 (.application .unit)
    ∃ out last, m.encode sampleCodec {} = .ok () out ∧
      Completion.decode sampleCodec 9 (.ofBytes out.bytes) = .ok m last ∧
      m.outcome = .error (.thrown (.application .unit)) := by
  intro m
  have thrown : sampleCodec.RoundTrips m.thrown := by
    apply Codec.Sendable.roundTrips
    apply sendable_of_mem_mixedStream
    simp [m, mixedStream, Completion.failure]
  have returned : sampleCodec.RoundTrips m.returned := Codec.roundTrips_null
  obtain ⟨⟨form, hencode, hdecode⟩, _⟩ :=
    Completion.relays_values_alone sampleCodec m thrown returned
  exact ⟨_, _, hencode {}, hdecode (.ofBytes form) rfl (List.prefix_refl _), rfl⟩

/-- Whoever does not know the type of an error loses it and, passing on the rest, reports
success. -/
theorem lostError_passed_on_as_success :
    ∃ m last, Completion.decode ({} : Codec Sample) 1 (.ofBytes hushedFailure) = .ok m last ∧
      ({} : Codec Sample).RoundTrips m.thrown ∧ ({} : Codec Sample).RoundTrips m.returned ∧
      m.outcome = .error (.unresolved SampleType.oops.name) ∧
      ∃ out m' last', m.encode {} {} = .ok () out ∧
        Completion.decode ({} : Codec Sample) m.id (.ofBytes out.bytes) = .ok m' last' ∧
        m'.outcome = .ok (.scalar (.int 7)) :=
  ⟨_, _, rfl, ⟨[0], rfl, rfl⟩, ⟨[4, 0, 0, 0, 7], rfl, rfl⟩, rfl, _, _, _, rfl, rfl, rfl⟩

end Remoting
