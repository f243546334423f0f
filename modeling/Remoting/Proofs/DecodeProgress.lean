import Remoting.Arguments
import Remoting.Completion
import Remoting.Proofs.FaultPoisoning
import Remoting.Proofs.ObjectRebuilding
import Remoting.Samples

/-!
# Progress of a decoder

Decoding a value, a last value, an argument list or a completion poisons the input if and only if
it ends with a fault of the stream. Otherwise the input has moved on, and so reading value after
value comes to its end within as many rounds as there are bytes.
-/

namespace Remoting

def CodecError.fault? : CodecError → Option ByteFault
  | .stream fault => some fault
  | _ => none

theorem CodecError.isSome_fault? (e : CodecError) : e.fault?.isSome = e.isFormatError := by
  cases e <;> rfl

theorem CodecError.fault?_eq_none {e : CodecError} (h : e.isFormatError = false) :
    e.fault? = none := by
  rw [← Option.not_isSome_iff_eq_none, e.isSome_fault?, h]
  exact Bool.false_ne_true

theorem corrupt_answer {α : Type} (result : EStateM.Result CodecError Input α) :
    corrupt (Decode.answer result) = ((raised? result).bind CodecError.fault?).isSome := by
  cases result with
  | ok a input => rfl
  | error e input => exact e.isSome_fault?.symm

/-- What the caller of a decoding step can rely on. -/
structure Accountable {α : Type} (step : Decode α) : Prop where
  poisoned_iff : ∀ input, (finalState (step input)).poisoned = true ↔
    corrupt (Decode.answer (step input)) = true
  advances : ∀ input, corrupt (Decode.answer (step input)) = false →
    input.offset < (finalState (step input)).offset
  located : ∀ input fault, input.poisoned = false →
    Decode.answer (step input) = .error (.stream fault) →
    input.offset ≤ fault.offset ∧ fault.offset ≤ (finalState (step input)).offset
  abandoned : ∀ input, input.poisoned = true →
    step input = .error (.stream ⟨input.offset, .abandoned⟩) input
  total : ∀ input, (finalState (step input)).offset + (finalState (step input)).remaining =
    input.offset + input.remaining

namespace Decode

abbrev Careful {α : Type} (start least : Nat) (step : Decode α) : Prop :=
  Remoting.Careful Input.toReader CodecError.fault? start least step

abbrev Abandons {α : Type} (step : Decode α) : Prop :=
  Remoting.Abandons Input.toReader CodecError.stream step

variable {α : Type} {start least : Nat}

theorem careful_lift {step : Read α} (h : Remoting.Careful id some start least step) :
    Careful start least (Decode.lift step) := by
  intro input hinput hstart
  have hleft := h input.toReader hinput hstart
  unfold Decode.lift
  cases hr : step input.toReader with
  | ok a r =>
    rw [hr] at hleft
    exact hleft
  | error fault r =>
    rw [hr] at hleft
    exact hleft

theorem abandons_lift {step : Read α} (h : Remoting.Abandons id id step) :
    Abandons (Decode.lift step) := by
  intro input hinput
  unfold Decode.lift
  rw [h input.toReader hinput]
  rfl

theorem careful_conclude {input input' : Input} {answer : Except CodecError α}
    (hahead : input.Ahead input'.toReader) (hfar : input.offset + least ≤ input'.offset)
    (hpoisoned : input'.poisoned = corrupt answer)
    (hfault : ∀ fault, answer = .error (.stream fault) →
      start ≤ fault.offset ∧ fault.offset ≤ input'.offset) :
    input.Left start least (finalState (Decode.conclude answer input')).toReader
      ((raised? (Decode.conclude answer input')).bind CodecError.fault?) := by
  cases answer with
  | ok a => exact .sound hahead hfar hpoisoned
  | error e =>
    cases e with
    | stream fault =>
      obtain ⟨hbehind, hbefore⟩ := hfault fault rfl
      exact .corrupt hahead hbehind hbefore hpoisoned
    | unknownType | missingDecoder | notLoadable | custom | fallback =>
      exact .sound hahead hfar hpoisoned

/-- A step that is careful, and gives up a poisoned input, is accountable to its callers. -/
theorem accountable {step : Decode α} (hcareful : ∀ start, Careful start 1 step)
    (habandons : Abandons step) : Accountable step := by
  have hleft : ∀ input : Input, input.poisoned = false →
      input.Left input.offset 1 (finalState (step input)).toReader
        ((raised? (step input)).bind CodecError.fault?) := fun input hinput =>
    hcareful input.offset input hinput (Nat.le_refl _)
  refine ⟨?_, ?_, ?_, habandons, ?_⟩
  · intro input
    cases hinput : input.poisoned with
    | true =>
      rw [habandons input hinput]
      exact iff_of_true hinput rfl
    | false => rw [(hleft input hinput).poisoned, corrupt_answer]
  · intro input hanswer
    cases hinput : input.poisoned with
    | true =>
      rw [habandons input hinput] at hanswer
      cases hanswer
    | false =>
      have h := hleft input hinput
      rw [corrupt_answer, Option.isSome_eq_false_iff, Option.isNone_iff_eq_none] at hanswer
      rw [hanswer] at h
      cases h with
      | sound _ hfar _ => exact hfar
  · intro input fault hinput hanswer
    have h := hleft input hinput
    cases hr : step input with
    | ok a input' =>
      rw [hr] at hanswer
      cases hanswer
    | error e input' =>
      rw [hr] at hanswer h
      cases hanswer
      cases h with
      | corrupt _ hbehind hbefore _ => exact ⟨hbehind, hbefore⟩
  · intro input
    cases hinput : input.poisoned with
    | true => rw [habandons input hinput]; rfl
    | false => exact (hleft input hinput).ahead.total

end Decode

theorem Reader.Passes.ahead {r r' : Reader} {w : Bytes} (h : r.Passes w r') : r.Ahead r' where
  offset_le := by
    rw [h.offset]
    exact Nat.le_add_right _ _
  total := by
    rw [h.offset, remaining, remaining, h.rest, List.length_append]
    omega

theorem Frame.one_le_length_bytes (f : Frame) : 1 ≤ f.bytes.length := by
  cases f with
  | scalar s => exact Nat.le_add_left _ _
  | object typeName custom payload => exact Nat.le_add_left _ _

theorem Frame.payloadStart_bounds (f : Frame) (start : Nat) :
    start ≤ f.payloadStart (start + f.bytes.length) ∧
      f.payloadStart (start + f.bytes.length) ≤ start + f.bytes.length := by
  cases f with
  | scalar s => exact ⟨Nat.le_add_right _ _, Nat.le_refl _⟩
  | object typeName custom payload =>
    simp only [payloadStart, bytes, objectBody, counted, List.length_append,
      BigEndian.length_encode]
    omega

namespace Codec

variable {ω : Type} [Portable ω] (c : Codec ω) {start : Nat}

theorem offset_of_rebuild {f : Frame} {fault : ByteFault} {place : Nat}
    (h : c.rebuild place f = .error (.stream fault)) : fault.offset = place := by
  cases f with
  | scalar s => cases h
  | object typeName custom payload =>
    rw [rebuild] at h
    cases hentry : c.catalog.get? typeName with
    | none =>
      rw [hentry] at h
      cases h
    | some entry =>
      rw [hentry] at h
      cases custom with
      | false =>
        have hgeneric := corrupt_rebuildGeneric entry typeName payload
        change rebuildGeneric entry typeName payload = _ at h
        rw [h] at hgeneric
        cases hgeneric
      | true =>
        cases htext : Utf8.decode payload with
        | ok text =>
          have hnot := c.corrupt_rebuildText entry typeName text
          simp only [htext, if_true] at h
          rw [h] at hnot
          cases hnot
        | error bad =>
          simp only [htext, if_true] at h
          cases h
          rfl

theorem careful_decode : Decode.Careful start 1 c.decode := by
  intro input hinput hstart
  cases hread : Frame.read c.settings input.toReader with
  | error fault r =>
    have hleft := Frame.careful_read c.settings input.toReader hinput hstart
    rw [hread] at hleft
    have hdecode : c.decode input = .error (.stream fault) { input with toReader := r } :=
      bind_of_error (by rw [Decode.lift, hread])
    rw [hdecode]
    exact hleft
  | ok f r =>
    obtain ⟨_, ⟨⟨hfit, hlimit⟩, rfl⟩, hpass⟩ :=
      (Reads.frame c.settings input.toReader hinput f r).mp hread
    rw [c.decode_eq_of_frame hinput hfit hlimit hpass]
    have hoffset : r.offset = input.offset + f.bytes.length := hpass.offset
    have hlength := f.one_le_length_bytes
    apply Decode.careful_conclude
    · exact ⟨hpass.ahead.offset_le, hpass.ahead.total⟩
    · change input.offset + 1 ≤ r.offset
      omega
    · rfl
    · intro fault hfault
      have hplace := c.offset_of_rebuild hfault
      have hbounds := f.payloadStart_bounds input.offset
      rw [← hoffset] at hbounds
      rw [hplace]
      exact ⟨hstart.trans hbounds.1, hbounds.2⟩

theorem abandons_decode : Decode.Abandons c.decode :=
  (Decode.abandons_lift (Frame.abandons_read c.settings)).bind

theorem careful_decodeToEnd : Decode.Careful start 1 c.decodeToEnd := by
  refine c.careful_decode.bind fun v => ?_
  have hlast (input : Input) : Decode.Careful input.offset 0 (if input.atEnd then pure v
      else Decode.lift (Read.failAt input.offset (.trailing input.remaining))) := by
    split_ifs
    · exact .pure _
    · exact Decode.careful_lift (Read.careful_failAt _ _)
  exact .fromState hlast fun _ => rfl

theorem abandons_decodeToEnd : Decode.Abandons c.decodeToEnd :=
  c.abandons_decode.bind

end Codec

namespace Arguments

variable {ω : Type} [Portable ω] (c : Codec ω) {start : Nat}

/-- By induction on the arguments that are left; what was put off is no fault of the stream. -/
theorem careful_decodeRest (count : Nat) (done : List (Value ω)) (failure : Option CodecError)
    (hfailure : ∀ e, failure = some e → e.isFormatError = false) :
    Decode.Careful start 0 (decodeRest c count done failure) := by
  induction count generalizing done failure with
  | zero =>
    intro input hinput _
    cases failure with
    | none => exact .sound (.refl _) (Nat.le_refl _) hinput
    | some e =>
      have hleft : input.Left start 0 input.toReader none :=
        .sound (.refl _) (Nat.le_refl _) hinput
      rw [← CodecError.fault?_eq_none (hfailure e rfl)] at hleft
      exact hleft
  | succ count ih =>
    intro input hinput hstart
    have hdecode := c.careful_decode input hinput hstart
    rw [decodeRest]
    cases hr : c.decode input with
    | ok v m =>
      rw [hr] at hdecode
      cases hdecode with
      | sound hahead hfar hsound =>
        have hm : start ≤ m.offset := hstart.trans hahead.offset_le
        exact .behind hahead hahead.offset_le (ih (v :: done) failure hfailure m hsound hm)
    | error e m =>
      rw [hr] at hdecode
      cases hformat : e.isFormatError with
      | true =>
        simp only [hformat, if_true]
        exact hdecode.weaken (Nat.le_refl _) (Nat.zero_le _)
      | false =>
        have hfault : (raised? (c.decode input)).bind CodecError.fault? = none := by
          rw [hr]
          exact CodecError.fault?_eq_none hformat
        rw [hr] at hfault
        rw [hfault] at hdecode
        have hfailure' : ∀ e', (failure <|> some e) = some e' → e'.isFormatError = false := by
          intro e' he'
          cases failure with
          | none =>
            cases he'
            exact hformat
          | some first => exact hfailure e' he'
        simp only [hformat, Bool.false_eq_true, if_false]
        cases hdecode with
        | sound hahead hfar hsound =>
          have hm : start ≤ m.offset := hstart.trans hahead.offset_le
          exact .behind hahead hahead.offset_le (ih _ _ hfailure' m hsound hm)

theorem careful_decode : Decode.Careful start 1 (decode c) := by
  have hcount {place : Nat} : Decode.Careful place 1 (Decode.lift Read.int32) := by
    have hword : Remoting.Careful id some place 4 Read.int32 :=
      ((Read.careful_word 4).map _).map _
    exact (Decode.careful_lift hword).weaken (by omega)
  have hrest (place : Nat) (count : Int32) (input : Input) : Decode.Careful place 0
      (if 0 ≤ count.toInt ∧ count.toInt ≤ input.remaining then
        decodeRest c count.toInt.toNat [] none
      else Decode.lift (Read.failAt place (.badCount count))) := by
    split_ifs
    · exact careful_decodeRest c _ [] none nofun
    · exact Decode.careful_lift (Read.careful_failAt _ _)
  have hbehind (place : Nat) := hcount.bind fun count =>
    .ofState (hrest place count) fun _ => rfl
  exact .fromState (fun input => hbehind input.offset) fun _ => rfl

theorem abandons_decode : Decode.Abandons (decode c) := by
  have hcount : Decode.Abandons (Decode.lift Read.int32) :=
    Decode.abandons_lift (((Read.abandons_word 4).map _).map _)
  exact .fromState (fun _ => hcount.bind) fun _ => rfl

end Arguments

namespace Completion

variable {ω : Type} [Portable ω] (c : Codec ω) {start : Nat}

theorem careful_decodePart : Decode.Careful start 1 (decodePart c) := by
  intro input hinput hstart
  have hdecode := c.careful_decode input hinput hstart
  unfold decodePart
  cases hr : c.decode input with
  | ok v m =>
    rw [hr] at hdecode
    exact hdecode
  | error e m =>
    rw [hr] at hdecode
    cases e with
    | stream fault => exact hdecode
    | unknownType | missingDecoder | notLoadable | custom | fallback => exact hdecode

theorem abandons_decodePart : Decode.Abandons (decodePart c) := by
  intro input hinput
  unfold decodePart
  rw [c.abandons_decode input hinput]
  rfl

theorem careful_decode (id : UInt32) : Decode.Careful start 1 (decode c id) :=
  (careful_decodePart c).bind fun _ =>
    ((careful_decodePart c).weaken (Nat.zero_le _)).bind fun _ => .pure _

theorem abandons_decode (id : UInt32) : Decode.Abandons (decode c id) :=
  (abandons_decodePart c).bind

end Completion

namespace Codec

variable {ω : Type} [Portable ω] (c : Codec ω)

theorem accountable_decode : Accountable c.decode :=
  Decode.accountable (fun _ => c.careful_decode) c.abandons_decode

/-- Values are read until the input ends or is found corrupt. -/
inductive Drains : Input → List (Nat × Except CodecError (Value ω)) → Input → Prop
  | ended {input : Input} : input.atEnd = true → Drains input [] input
  | stopped {input : Input} : input.atEnd = false →
      corrupt (Decode.answer (c.decode input)) = true →
      Drains input [(input.offset, Decode.answer (c.decode input))] (finalState (c.decode input))
  | onward {input last : Input} {results : List (Nat × Except CodecError (Value ω))} :
      input.atEnd = false → corrupt (Decode.answer (c.decode input)) = false →
      Drains (finalState (c.decode input)) results last →
      Drains input ((input.offset, Decode.answer (c.decode input)) :: results) last

theorem decodeUpTo_succ (bound : Nat) (input : Input)
    (done : List (Nat × Except CodecError (Value ω))) (hend : input.atEnd = false) :
    c.decodeUpTo (bound + 1) input done =
      if corrupt (Decode.answer (c.decode input)) then
        (((input.offset, Decode.answer (c.decode input)) :: done).reverse,
          finalState (c.decode input))
      else c.decodeUpTo bound (finalState (c.decode input))
        ((input.offset, Decode.answer (c.decode input)) :: done) := by
  rw [decodeUpTo, hend, if_neg Bool.false_ne_true]
  cases c.decode input with
  | ok v m => rfl
  | error e m => rfl

/-- The bytes that are left bound the number of rounds, as each consumes a byte at least. -/
theorem drains_decodeUpTo (bound : Nat) (input : Input)
    (done : List (Nat × Except CodecError (Value ω))) (hbound : input.remaining ≤ bound) :
    ∃ results last, c.Drains input results last ∧ results.length ≤ input.remaining ∧
      c.decodeUpTo bound input done = (done.reverse ++ results, last) := by
  induction bound generalizing input done with
  | zero =>
    have hend : input.atEnd = true := by
      have hzero : input.rest.length = 0 := Nat.le_zero.mp hbound
      rw [Reader.atEnd, List.length_eq_zero_iff.mp hzero]
      rfl
    exact ⟨[], input, .ended hend, Nat.zero_le _, by simp [decodeUpTo]⟩
  | succ bound ih =>
    cases hend : input.atEnd with
    | true => exact ⟨[], input, .ended hend, Nat.zero_le _, by simp [decodeUpTo, hend]⟩
    | false =>
      have hsome : 1 ≤ input.remaining := by
        rw [Reader.atEnd, List.isEmpty_eq_false_iff] at hend
        exact List.length_pos_iff.mpr hend
      rw [c.decodeUpTo_succ bound input done hend]
      cases hcorrupt : corrupt (Decode.answer (c.decode input)) with
      | true =>
        refine ⟨_, _, .stopped hend hcorrupt, hsome, ?_⟩
        rw [if_pos rfl, List.reverse_cons]
      | false =>
        have hadvances := c.accountable_decode.advances input hcorrupt
        have htotal := c.accountable_decode.total input
        obtain ⟨results, last, hdrains, hlength, hrest⟩ :=
          ih (finalState (c.decode input))
            ((input.offset, Decode.answer (c.decode input)) :: done) (by omega)
        refine ⟨_, last, .onward hend hcorrupt hdrains, ?_, ?_⟩
        · rw [List.length_cons]
          omega
        · rw [if_neg Bool.false_ne_true, hrest, List.reverse_cons, List.append_assoc]
          rfl

theorem Drains.unique {input last last' : Input}
    {results results' : List (Nat × Except CodecError (Value ω))}
    (h : c.Drains input results last) (h' : c.Drains input results' last') :
    results = results' ∧ last = last' := by
  induction h generalizing results' last' with
  | ended hend =>
    cases h' with
    | ended _ => exact ⟨rfl, rfl⟩
    | stopped hnot _ | onward hnot _ _ =>
      rw [hend] at hnot
      cases hnot
  | stopped hnot hcorrupt =>
    cases h' with
    | ended hend =>
      rw [hend] at hnot
      cases hnot
    | stopped _ _ => exact ⟨rfl, rfl⟩
    | onward _ hsound _ =>
      rw [hcorrupt] at hsound
      cases hsound
  | onward hnot hsound _ ih =>
    cases h' with
    | ended hend =>
      rw [hend] at hnot
      cases hnot
    | stopped _ hcorrupt =>
      rw [hsound] at hcorrupt
      cases hcorrupt
    | onward _ _ h' =>
      obtain ⟨hresults, hlast⟩ := ih h'
      rw [hresults, hlast]
      exact ⟨rfl, rfl⟩

theorem drains_iff {input last : Input} {results : List (Nat × Except CodecError (Value ω))} :
    c.Drains input results last ↔ c.decodeAll input = (results, last) := by
  obtain ⟨results', last', hdrains, _, hall⟩ :=
    c.drains_decodeUpTo input.remaining input [] (Nat.le_refl _)
  rw [decodeAll, hall, List.reverse_nil, List.nil_append]
  constructor
  · intro h
    obtain ⟨hresults, hlast⟩ := Drains.unique c h hdrains
    rw [hresults, hlast]
  · intro h
    cases h
    exact hdrains

/-- A step of decoding, be it of a value, of a last value, of an argument list or of a completion,
ends with a poisoned input exactly if it ends with a fault of the stream. So the loop that reads
value after value ends, with no more rounds than there are bytes. -/
theorem poisoned_exactly_by_faults :
    Accountable c.decode ∧ Accountable c.decodeToEnd ∧ Accountable (Arguments.decode c) ∧
      (∀ id, Accountable (Completion.decode c id)) ∧
      ∀ input, ∃ results last, results.length ≤ input.remaining ∧
        c.decodeAll input = (results, last) ∧
        ∀ results' last', c.Drains input results' last' ↔ (results', last') = (results, last) := by
  refine ⟨c.accountable_decode, ?_, ?_, fun id => ?_, fun input => ?_⟩
  · exact Decode.accountable (fun _ => c.careful_decodeToEnd) c.abandons_decodeToEnd
  · exact Decode.accountable (fun _ => Arguments.careful_decode c) (Arguments.abandons_decode c)
  · exact Decode.accountable (fun _ => Completion.careful_decode c id)
      (Completion.abandons_decode c id)
  · obtain ⟨results, last, hdrains, hlength, _⟩ :=
      c.drains_decodeUpTo input.remaining input [] (Nat.le_refl _)
    have hall := c.drains_iff.mp hdrains
    refine ⟨results, last, hlength, hall, fun results' last' => ?_⟩
    rw [c.drains_iff, hall, eq_comm]

end Codec

/-- Two arguments, the first of a type nobody knows and the second under a tag nobody knows. -/
def doublyBadArguments : Bytes :=
  [0, 0, 0, 2, 10, 0, 1, 65, 0, 0, 0, 0, 0, 200]

/-- What was put off about the first argument does not keep the second from poisoning the input. -/
theorem doublyBadArguments_poison :
    Decode.answer (Arguments.decode ({} : Codec Sample) (.ofBytes doublyBadArguments)) =
      .error (.stream ⟨13, .unknownTag 200⟩) ∧
    (finalState (Arguments.decode ({} : Codec Sample) (.ofBytes doublyBadArguments))).poisoned =
      true ∧
    0 ≤ 13 ∧ 13 ≤
      (finalState (Arguments.decode ({} : Codec Sample) (.ofBytes doublyBadArguments))).offset := by
  have hanswer : Decode.answer
      (Arguments.decode ({} : Codec Sample) (.ofBytes doublyBadArguments)) =
        .error (.stream ⟨13, .unknownTag 200⟩) := rfl
  obtain ⟨_, _, hlist, _, _⟩ := Codec.poisoned_exactly_by_faults ({} : Codec Sample)
  refine ⟨hanswer, ?_, hlist.located _ _ rfl hanswer⟩
  rw [hlist.poisoned_iff, hanswer]
  rfl

end Remoting
