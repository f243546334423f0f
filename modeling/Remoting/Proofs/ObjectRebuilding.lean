import Remoting.Codec
import Remoting.Proofs.FrameReading

/-!
# Values and their frames

A codec writes a value by turning it into a frame, and reads a value by rebuilding it from the
frame that stands next. `Codec.frame` and `Codec.rebuild` say so without a stream: encoding adds
the form of a frame that fits, and decoding first fails or reads a frame and then gives whatever
the frame is rebuilt into. The only fault left to find in a frame is a handler's text that is not
UTF-8, which makes the frame unreadable for a codec that knows the type.
-/

namespace Remoting

variable {ω : Type} [Portable ω]

/-- The handler is registered, and nothing is registered before its name in the lineage. -/
def HandlerTable.Nearest {ω : Type} (table : HandlerTable ω) (lineage : List String)
    (registered : String) (handler : Handler ω) : Prop :=
  ∃ nearer farther, lineage = nearer ++ registered :: farther ∧
    (∀ name ∈ nearer, table.get? name = none) ∧ table.get? registered = some handler

theorem HandlerTable.Nearest.get?_eq {ω : Type} {table : HandlerTable ω} {lineage : List String}
    {registered : String} {handler : Handler ω} (h : table.Nearest lineage registered handler) :
    table.get? registered = some handler := by
  obtain ⟨_, _, _, _, hget⟩ := h
  exact hget

theorem closest?_eq_none_iff {α : Type} {lineage : List String} {registry : Registry String α} :
    closest? lineage registry = none ↔ ∀ name ∈ lineage, registry.get? name = none := by
  simp only [closest?, List.findSome?_eq_none_iff, Option.map_eq_none_iff]

theorem closest?_eq_some_iff_split {α : Type} {lineage : List String}
    {registry : Registry String α} {registered : String} {found : α} :
    closest? lineage registry = some (registered, found) ↔
      ∃ nearer farther, lineage = nearer ++ registered :: farther ∧
        (∀ name ∈ nearer, registry.get? name = none) ∧ registry.get? registered = some found := by
  simp only [closest?, List.findSome?_eq_some_iff, Option.map_eq_none_iff,
    Option.map_eq_some_iff, Prod.mk.injEq]
  constructor
  · rintro ⟨nearer, _, farther, rfl, ⟨_, hget, rfl, rfl⟩, hnearer⟩
    exact ⟨nearer, farther, rfl, hnearer, hget⟩
  · rintro ⟨nearer, farther, rfl, hnearer, hget⟩
    exact ⟨nearer, registered, farther, rfl, ⟨found, hget, rfl, rfl⟩, hnearer⟩

theorem closest?_eq_some_iff {ω : Type} {lineage : List String} {table : HandlerTable ω}
    {registered : String} {handler : Handler ω} :
    closest? lineage table = some (registered, handler) ↔
      table.Nearest lineage registered handler :=
  closest?_eq_some_iff_split

theorem Encode.lift_eq_ok_iff {α : Type} {step : Write ByteFault α} {out out' : Writer} {a : α} :
    Encode.lift step out = .ok a out' ↔ step out = .ok a out' := by
  rw [Encode.lift, EStateM.adaptExcept]
  cases step out with
  | ok _ _ => simp only [EStateM.Result.ok.injEq]
  | error _ _ => simp only [reduceCtorEq]

theorem Write.atomically_eq_ok_iff {ε α : Type} {step : Write ε α} {out out' : Writer} {a : α} :
    Write.atomically step out = .ok a out' ↔ step out = .ok a out' := by
  rw [Write.atomically]
  cases step out with
  | ok _ _ => simp only [EStateM.Result.ok.injEq]
  | error _ _ => simp only [reduceCtorEq]

namespace Codec

variable (c : Codec ω)

def frame : Value ω → Except CodecError Frame
  | .scalar s => .ok (.scalar s)
  | .object o => (fun (custom, payload) => .object o.typeName custom payload) <$> c.represent o

theorem frame_object_eq_ok_iff {o : Object ω} {f : Frame} :
    c.frame (.object o) = .ok f ↔ ∃ custom payload, c.represent o = .ok (custom, payload) ∧
      f = .object o.typeName custom payload := by
  rw [frame]
  cases c.represent o with
  | error e =>
    constructor
    · intro h
      cases h
    · rintro ⟨_, _, ⟨⟩, _⟩
  | ok r =>
    constructor
    · rintro ⟨⟩
      exact ⟨r.1, r.2, rfl, rfl⟩
    · rintro ⟨_, _, ⟨⟩, rfl⟩
      rfl

theorem encodeObject_eq_ok_iff {o : Object ω} {u : Unit} {out out' : Writer} :
    c.encodeObject o out = .ok u out' ↔
      ∃ custom payload, c.represent o = .ok (custom, payload) ∧
        (Frame.object o.typeName custom payload).Fits ∧
        out' = out.append (Frame.objectBody o.typeName custom payload) := by
  rw [encodeObject, bind_eq_ok_iff]
  simp only [Encode.lift_eq_ok_iff, Write.shortText_eq_ok_iff]
  cases hr : c.represent o with
  | error e =>
    constructor
    · rintro ⟨_, _, _, ⟨⟩⟩
    · rintro ⟨_, _, ⟨⟩, _⟩
  | ok r =>
    obtain ⟨custom, payload⟩ := r
    simp only [bind_eq_ok_iff, Encode.lift_eq_ok_iff, Write.boolean_eq_ok_iff,
      Write.counted_eq_ok_iff, Except.ok.injEq, Prod.mk.injEq]
    constructor
    · rintro ⟨_, _, ⟨hname, rfl⟩, _, _, rfl, hpayload, rfl⟩
      refine ⟨custom, payload, ⟨rfl, rfl⟩, ⟨hname, hpayload⟩, ?_⟩
      rw [Writer.append_append, Writer.append_append, Frame.objectBody]
    · rintro ⟨_, _, ⟨rfl, rfl⟩, ⟨hname, hpayload⟩, rfl⟩
      refine ⟨(), _, ⟨hname, rfl⟩, (), _, rfl, hpayload, ?_⟩
      rw [Writer.append_append, Writer.append_append, Frame.objectBody]

theorem encode_eq_ok_iff {v : Value ω} {u : Unit} {out out' : Writer} :
    c.encode v out = .ok u out' ↔
      ∃ f, c.frame v = .ok f ∧ f.Fits ∧ out' = out.append f.bytes := by
  rw [encode, Write.atomically_eq_ok_iff]
  cases v with
  | scalar s =>
    rw [encodeUnguarded, bind_eq_ok_iff]
    simp only [Write.uint8_eq_ok_iff, Encode.lift_eq_ok_iff, Frame.writeScalar_eq_ok_iff]
    constructor
    · rintro ⟨_, _, rfl, hfit, rfl⟩
      exact ⟨_, rfl, hfit, Writer.append_append ..⟩
    · rintro ⟨_, ⟨⟩, hfit, rfl⟩
      exact ⟨(), _, rfl, hfit, (Writer.append_append ..).symm⟩
  | object o =>
    rw [encodeUnguarded, bind_eq_ok_iff]
    simp only [Write.uint8_eq_ok_iff, encodeObject_eq_ok_iff, frame_object_eq_ok_iff]
    constructor
    · rintro ⟨_, _, rfl, custom, payload, hr, hfit, rfl⟩
      exact ⟨_, ⟨custom, payload, hr, rfl⟩, hfit, Writer.append_append ..⟩
    · rintro ⟨_, ⟨custom, payload, hr, rfl⟩, hfit, rfl⟩
      exact ⟨(), _, rfl, custom, payload, hr, hfit, (Writer.append_append ..).symm⟩

theorem toBytes_eq_ok_iff {v : Value ω} {bytes : Bytes} :
    c.toBytes v = .ok bytes ↔ ∃ f, c.frame v = .ok f ∧ f.Fits ∧ bytes = f.bytes := by
  rw [toBytes]
  constructor
  · intro h
    cases hv : c.encode v {} with
    | error e out => rw [hv] at h; cases h
    | ok u out =>
      rw [hv] at h
      cases h
      obtain ⟨f, hf, hfit, rfl⟩ := c.encode_eq_ok_iff.mp hv
      exact ⟨f, hf, hfit, rfl⟩
  · rintro ⟨f, hf, hfit, rfl⟩
    have hv : c.encode v {} = .ok () (({} : Writer).append f.bytes) :=
      c.encode_eq_ok_iff.mpr ⟨f, hf, hfit, rfl⟩
    rw [hv]
    rfl

/-- What the text of a handler is made into by a codec that knows the type. -/
def rebuildText (entry : Catalog.Entry ω) (typeName text : String) :
    Except CodecError (Value ω) :=
  match closest? entry.lineage c.table with
  | some (registered, handler) => (handler.decode text).mapError (.custom registered)
  | none =>
    if c.settings.missingDecoder = .fail then .error (.missingDecoder typeName)
    else .ok (.scalar (.text text))

def rebuildGeneric (entry : Catalog.Entry ω) (typeName : String) (payload : Bytes) :
    Except CodecError (Value ω) :=
  match entry.load? payload with
  | some (some o) => .ok (.object o)
  | some none => .error (.fallback typeName .unreadable)
  | none => .error (.notLoadable typeName)

/-- What a frame is made into. A text that is no text is a fault at `start`, the place of the
payload's length. -/
def rebuild (start : Nat) : Frame → Except CodecError (Value ω)
  | .scalar s => .ok (.scalar s)
  | .object typeName custom payload =>
    match c.catalog.get? typeName with
    | none => .error (.unknownType typeName custom payload)
    | some entry =>
      if custom then
        match Utf8.decode payload with
        | .ok text => c.rebuildText entry typeName text
        | .error fault => .error (.stream ⟨start, .badCustomText typeName fault⟩)
      else rebuildGeneric entry typeName payload

/-- What an operator is told of a handler's text. -/
def textNotices (entry : Catalog.Entry ω) (typeName : String) : List Notice :=
  if (closest? entry.lineage c.table).isSome then []
  else if c.settings.missingDecoder = .warnAndPassThrough then [.passedThrough typeName]
  else []

def notices : Frame → List Notice
  | .object typeName true payload =>
    match c.catalog.get? typeName, Utf8.decode payload with
    | some entry, .ok _ => c.textNotices entry typeName
    | _, _ => []
  | _ => []

theorem rebuild_text {start : Nat} {typeName text : String} {entry : Catalog.Entry ω}
    (hentry : c.catalog.get? typeName = some entry) :
    c.rebuild start (.object typeName true (Utf8.encode text)) =
      c.rebuildText entry typeName text := by
  rw [rebuild, hentry]
  dsimp only
  rw [if_pos rfl, Utf8.decode_encode]

def Readable : Frame → Prop
  | .scalar _ => True
  | .object typeName custom payload =>
    custom = true → c.catalog.get? typeName ≠ none → ∃ text, payload = Utf8.encode text

end Codec

/-- Whether the answer is that the stream is corrupt. -/
def corrupt {α : Type} : Except CodecError α → Bool
  | .ok _ => false
  | .error e => e.isFormatError

def Decode.conclude {α : Type} (answer : Except CodecError α) (input : Input) :
    EStateM.Result CodecError Input α :=
  match answer with
  | .ok a => .ok a input
  | .error e => .error e input

/-- The answer of a step, without the state that it leaves. -/
def Decode.answer {α : Type} : EStateM.Result CodecError Input α → Except CodecError α
  | .ok a _ => .ok a
  | .error e _ => .error e

@[simp] theorem Decode.answer_conclude {α : Type} (answer : Except CodecError α) (input : Input) :
    Decode.answer (Decode.conclude answer input) = answer := by
  cases answer <;> rfl

/-- The place of the payload's length in a frame that ends at `stop`. -/
def Frame.payloadStart (stop : Nat) : Frame → Nat
  | .scalar _ => stop
  | .object _ _ payload => stop - payload.length - Layout.payloadLengthWidth

theorem Utf8.exists_encode_iff {payload : Bytes} :
    (∃ text, payload = Utf8.encode text) ↔ ∃ text, Utf8.decode payload = .ok text := by
  constructor
  · rintro ⟨text, rfl⟩
    exact ⟨text, Utf8.decode_encode text⟩
  · rintro ⟨text, h⟩
    exact ⟨text, Utf8.eq_encode_of_decode h⟩

namespace Codec

variable (c : Codec ω)

theorem corrupt_rebuildText (entry : Catalog.Entry ω) (typeName text : String) :
    corrupt (c.rebuildText entry typeName text) = false := by
  rw [rebuildText]
  cases closest? entry.lineage c.table with
  | none => dsimp only; split_ifs <;> rfl
  | some found =>
    dsimp only
    cases found.2.decode text <;> rfl

theorem corrupt_rebuildGeneric (entry : Catalog.Entry ω) (typeName : String) (payload : Bytes) :
    corrupt (rebuildGeneric entry typeName payload) = false := by
  rw [rebuildGeneric]
  obtain _ | _ | _ := entry.load? payload <;> rfl

theorem corrupt_rebuild_eq_false_iff (start : Nat) {f : Frame} :
    corrupt (c.rebuild start f) = false ↔ c.Readable f := by
  cases f with
  | scalar s => exact ⟨fun _ => trivial, fun _ => rfl⟩
  | object typeName custom payload =>
    rw [rebuild, Readable]
    cases c.catalog.get? typeName with
    | none => exact ⟨fun _ _ h => absurd rfl h, fun _ => rfl⟩
    | some entry =>
      cases custom with
      | false =>
        exact ⟨fun _ h => absurd h Bool.false_ne_true,
          fun _ => corrupt_rebuildGeneric entry typeName payload⟩
      | true =>
        rw [Utf8.exists_encode_iff]
        dsimp only
        cases Utf8.decode payload with
        | ok text =>
          exact ⟨fun _ _ _ => ⟨text, rfl⟩, fun _ => c.corrupt_rebuildText entry typeName text⟩
        | error fault =>
          constructor
          · intro h
            cases h
          · intro h
            obtain ⟨_, ⟨⟩⟩ := h rfl (Option.some_ne_none entry)

/-- Only a fault tells where it was found. -/
theorem rebuild_eq_of_readable {f : Frame} (h : c.Readable f) (start start' : Nat) :
    c.rebuild start f = c.rebuild start' f := by
  cases f with
  | scalar s => rfl
  | object typeName custom payload =>
    have hnot := (c.corrupt_rebuild_eq_false_iff start).mpr h
    rw [rebuild] at hnot ⊢
    rw [rebuild]
    cases hentry : c.catalog.get? typeName with
    | none => rfl
    | some entry =>
      cases custom with
      | false => rfl
      | true =>
        rw [hentry] at hnot
        cases hd : Utf8.decode payload with
        | ok text => rfl
        | error fault =>
          simp only [hd, if_true] at hnot
          cases hnot

/-- The input behind a frame, after it was answered for. -/
def inputBehind (f : Frame) (input : Input) : Input :=
  { input with
    poisoned := corrupt (c.rebuild (f.payloadStart input.offset) f)
    notices := input.notices ++ c.notices f }

theorem decodeFallback_eq (entry : Catalog.Entry ω) (typeName : String) (payload : Bytes)
    (input : Input) :
    decodeFallback entry typeName payload input =
      Decode.conclude (rebuildGeneric entry typeName payload) input := by
  rw [decodeFallback, rebuildGeneric]
  obtain _ | _ | _ := entry.load? payload <;> rfl

theorem withoutDecoder_eq (typeName text : String) (input : Input) :
    c.withoutDecoder typeName text input =
      Decode.conclude
        (if c.settings.missingDecoder = .fail then .error (.missingDecoder typeName)
          else .ok (.scalar (.text text)))
        { input with notices := input.notices ++
            if c.settings.missingDecoder = .warnAndPassThrough then [.passedThrough typeName]
            else [] } := by
  rw [withoutDecoder]
  cases c.settings.missingDecoder with
  | fail => simp only [reduceCtorEq, if_true, if_false, List.append_nil]; rfl
  | warnAndPassThrough => rfl
  | passThrough => simp only [reduceCtorEq, if_false, List.append_nil]; rfl

theorem decodeCustom_eq_of_text (entry : Catalog.Entry ω) (typeName text : String)
    (input : Input) :
    c.decodeCustom entry typeName (Utf8.encode text) input =
      Decode.conclude (c.rebuildText entry typeName text)
        { input with notices := input.notices ++ c.textNotices entry typeName } := by
  rw [decodeCustom, Utf8.decode_encode, rebuildText, textNotices]
  cases closest? entry.lineage c.table with
  | none => exact c.withoutDecoder_eq typeName text input
  | some found =>
    obtain ⟨registered, handler⟩ := found
    rw [Option.isSome_some, if_pos rfl, List.append_nil]
    dsimp only
    cases handler.decode text <;> rfl

theorem decodeObject_eq (typeName : String) (custom : Bool) (payload : Bytes) {input : Input}
    (hinput : input.poisoned = false) :
    c.decodeObject typeName custom payload input =
      Decode.conclude (c.rebuild ((Frame.object typeName custom payload).payloadStart input.offset)
        (.object typeName custom payload))
        (c.inputBehind (.object typeName custom payload) input) := by
  obtain ⟨⟨offset, rest, poisoned⟩, notices⟩ := input
  obtain rfl : poisoned = false := hinput
  rw [inputBehind, rebuild, decodeObject]
  cases hentry : c.catalog.get? typeName with
  | none =>
    have hnotices : c.notices (.object typeName custom payload) = [] := by
      cases custom <;> simp [Codec.notices, hentry]
    rw [hnotices, List.append_nil]
    rfl
  | some entry =>
    cases custom with
    | false =>
      dsimp only
      rw [if_neg Bool.false_ne_true, if_neg Bool.false_ne_true, corrupt_rebuildGeneric,
        Codec.notices, List.append_nil]
      · exact decodeFallback_eq entry typeName payload _
      · nofun
    | true =>
      rw [Codec.notices, hentry]
      dsimp only
      rw [if_pos rfl, if_pos rfl]
      cases hd : Utf8.decode payload with
      | ok text =>
        dsimp only
        rw [Utf8.eq_encode_of_decode hd, c.corrupt_rebuildText]
        exact c.decodeCustom_eq_of_text entry typeName text _
      | error fault =>
        rw [decodeCustom, hd, List.append_nil]
        rfl

theorem decode_eq_of_frame {f : Frame} {input : Input} {r : Reader}
    (hinput : input.poisoned = false) (hfit : f.Fits) (hlimit : f.Within c.settings)
    (hpass : input.toReader.Passes f.bytes r) :
    c.decode input = Decode.conclude (c.rebuild (f.payloadStart r.offset) f)
      (c.inputBehind f { input with toReader := r }) := by
  have hread : Frame.read c.settings input.toReader = .ok f r :=
    (Reads.frame c.settings input.toReader hinput f r).mpr ⟨_, ⟨⟨hfit, hlimit⟩, rfl⟩, hpass⟩
  have hr : r.poisoned = false := hpass.poisoned.trans hinput
  have hlift : Decode.lift (Frame.read c.settings) input = .ok f { input with toReader := r } := by
    rw [Decode.lift, hread]
  have hdecode : c.decode input = (match f with
      | .scalar s => (return .scalar s : Decode (Value ω))
      | .object typeName custom payload => c.decodeObject typeName custom payload)
      { input with toReader := r } := bind_of_ok hlift
  rw [hdecode]
  cases f with
  | scalar s =>
    have hnotices : c.notices (.scalar s) = [] := rfl
    obtain ⟨offset, rest, poisoned⟩ := r
    obtain rfl : poisoned = false := hr
    rw [inputBehind, hnotices, List.append_nil]
    rfl
  | object typeName custom payload => exact c.decodeObject_eq typeName custom payload hr

theorem decode_eq_of_readable {f : Frame} {input : Input} {r : Reader}
    (hinput : input.poisoned = false) (hfit : f.Fits) (hlimit : f.Within c.settings)
    (hreadable : c.Readable f) (hpass : input.toReader.Passes f.bytes r) :
    c.decode input = Decode.conclude (c.rebuild 0 f) ⟨r, input.notices ++ c.notices f⟩ := by
  have hsound : corrupt (c.rebuild (f.payloadStart r.offset) f) = r.poisoned := by
    rw [(c.corrupt_rebuild_eq_false_iff _).mpr hreadable, hpass.poisoned, hinput]
  rw [c.decode_eq_of_frame hinput hfit hlimit hpass, inputBehind, hsound,
    c.rebuild_eq_of_readable hreadable _ 0]

theorem decode_eq_of_no_frame {input : Input} (hinput : input.poisoned = false)
    (hno : ∀ f : Frame, f.Fits → f.Within c.settings → ¬ f.bytes <+: input.rest) :
    ∃ fault input', c.decode input = .error (.stream fault) input' := by
  cases hread : Frame.read c.settings input.toReader with
  | ok f r =>
    obtain ⟨_, ⟨⟨hfit, hlimit⟩, rfl⟩, hpass⟩ :=
      (Reads.frame c.settings input.toReader hinput f r).mp hread
    exact absurd ⟨r.rest, hpass.rest.symm⟩ (hno f hfit hlimit)
  | error fault r =>
    refine ⟨fault, { input with toReader := r }, bind_of_error ?_⟩
    rw [Decode.lift, hread]

end Codec

end Remoting
