import Remoting.Arguments
import Remoting.Completion
import Remoting.Proofs.PeerTransfer

/-!
# Writing all or nothing

What a value, a list of arguments or a completion adds to the bytes written so far does not depend
on them, and what cannot be written adds nothing, wherever in it the fault lies. A step that is not
guarded may leave some bytes behind when it fails; a guard in front of it takes them back.
`Codec.Refuses` lists why a value cannot be written, in the order in which this is found out.
-/

namespace Remoting

open BigEndian (capacity)

/-- The step adds these bytes whatever was written before, or always fails, and then leaves some
bytes behind what was written before. -/
def Encode.Adds (step : Encode Unit) : Option Bytes → Prop
  | some form => ∀ out, step out = .ok () (out.append form)
  | none => ∀ out, ∃ e more, step out = .error e (out.append more)

/-- The step adds these bytes whatever was written before, or always fails, and then leaves
everything as it was. -/
def Encode.Atomic (step : Encode Unit) : Option Bytes → Prop
  | some form => ∀ out, step out = .ok () (out.append form)
  | none => ∀ out, ∃ e, step out = .error e out

namespace Writer

@[simp] theorem rewind_append (out : Writer) (more : Bytes) :
    (out.append more).rewind out.offset = out := by
  simp [append, rewind, offset]

@[simp] theorem offset_append (out : Writer) (more : Bytes) :
    (out.append more).offset = out.offset + more.length := by
  simp [append, offset]

end Writer

namespace Encode

variable {step next : Encode Unit} {form form' : Option Bytes}

theorem Adds.bind (h : step.Adds form) (h' : next.Adds form') :
    Adds (step >>= fun _ => next) (form.bind fun w => form'.map (w ++ ·)) := by
  cases form with
  | none =>
    intro out
    obtain ⟨e, more, hstep⟩ := h out
    exact ⟨e, more, bind_of_error hstep⟩
  | some w =>
    have hbind (out : Writer) : (step >>= fun _ => next) out = next (out.append w) :=
      bind_of_ok (h out)
    cases form' with
    | none =>
      intro out
      obtain ⟨e, more, hnext⟩ := h' (out.append w)
      rw [Writer.append_append] at hnext
      exact ⟨e, w ++ more, (hbind out).trans hnext⟩
    | some w' =>
      intro out
      have hnext := h' (out.append w)
      rw [Writer.append_append] at hnext
      exact (hbind out).trans hnext

theorem Atomic.adds (h : step.Atomic form) : step.Adds form := by
  cases form with
  | some w => exact h
  | none =>
    intro out
    obtain ⟨e, he⟩ := h out
    exact ⟨e, [], by rw [he, Writer.append_nil]⟩

theorem Adds.atomic (h : step.Adds form) : Atomic (Write.atomically step) form := by
  cases form with
  | some w =>
    intro out
    rw [Write.atomically, h out]
  | none =>
    intro out
    obtain ⟨e, more, he⟩ := h out
    refine ⟨e, ?_⟩
    rw [Write.atomically, he]
    simp

theorem adds_word (width n : Nat) :
    Adds (Write.word width n) (some (BigEndian.encode width n)) :=
  fun _ => rfl

end Encode

variable {ω : Type} [Portable ω]

/-- Why a value cannot be written from `start` on. The name of a type is looked at first, then
the payload is made, and its length is looked at last. -/
inductive Codec.Refuses (c : Codec ω) (start : Nat) : Value ω → CodecError → Prop where
  | longText (text : String) (long : 2 ^ 32 ≤ text.utf8ByteSize) :
      c.Refuses start (.scalar (.text text))
        (.stream ⟨start + 1, .payloadTooLong text.utf8ByteSize⟩)
  | longName (o : Object ω) (long : 65535 < o.typeName.utf8ByteSize) :
      c.Refuses start (.object o) (.stream ⟨start + 1, .textTooLong o.typeName.utf8ByteSize⟩)
  | handler (o : Object ω) (registered : String) (handler : Handler ω) (reason : String)
      (named : o.typeName.utf8ByteSize ≤ 65535)
      (nearest : c.table.Nearest (c.catalog.searchOrder o.typeName) registered handler)
      (refused : handler.encode o = .error reason) :
      c.Refuses start (.object o) (.custom registered reason)
  | document (o : Object ω) (reason : String) (named : o.typeName.utf8ByteSize ≤ 65535)
      (unhandled : ∀ name ∈ c.catalog.searchOrder o.typeName, c.table.get? name = none)
      (refused : o.document = .error reason) :
      c.Refuses start (.object o) (.fallback o.typeName (.refused reason))
  | longPayload (o : Object ω) (custom : Bool) (payload : Bytes)
      (named : o.typeName.utf8ByteSize ≤ 65535) (sends : c.Sends o custom payload)
      (long : 2 ^ 32 ≤ payload.length) :
      c.Refuses start (.object o)
        (.stream ⟨start + 4 + o.typeName.utf8ByteSize, .payloadTooLong payload.length⟩)

theorem Encode.lift_of_error {α : Type} {step : Write ByteFault α} {fault : ByteFault}
    {out out' : Writer} (h : step out = .error fault out') :
    Encode.lift step out = .error (.stream fault) out' := by
  rw [Encode.lift, EStateM.adaptExcept, h]

namespace Write

theorem atomically_of_error {ε α : Type} {step : Write ε α} {e : ε} {out : Writer}
    {more : Bytes} (h : step out = .error e (out.append more)) :
    atomically step out = .error e out := by
  rw [atomically, h]
  simp

theorem counted_of_long {payload : Bytes} (long : 2 ^ 32 ≤ payload.length) (out : Writer) :
    counted payload out = .error ⟨out.offset, .payloadTooLong payload.length⟩ out := by
  have hnot : ¬ payload.length < capacity Layout.payloadLengthWidth := Nat.not_lt_of_le long
  rw [counted_apply, if_neg hnot]

theorem shortText_of_long {text : String} (long : 65535 < text.utf8ByteSize) (out : Writer) :
    shortText text out = .error ⟨out.offset, .textTooLong text.utf8ByteSize⟩ out := by
  have hnot : ¬ text.utf8ByteSize < capacity Layout.nameLengthWidth := Nat.not_lt_of_le long
  rw [shortText_apply, if_neg hnot]

end Write

namespace Codec

variable (c : Codec ω)

theorem represent_of_sends {o : Object ω} {custom : Bool} {payload : Bytes}
    (h : c.Sends o custom payload) : c.represent o = .ok (custom, payload) := by
  cases h with
  | handled registered handler text nearest written =>
    rw [represent, closest?_eq_some_iff.mpr nearest]
    dsimp only
    rw [written]
  | generic document unhandled written =>
    rw [represent, closest?_eq_none_iff.mpr unhandled]
    dsimp only
    rw [written]

/-- What is written of an object behind the name of its type. -/
def encodePayload (o : Object ω) : Encode Unit :=
  match c.represent o with
  | .error e => throw e
  | .ok (custom, payload) => do
    Write.boolean custom
    Encode.lift (Write.counted payload)

theorem encodeUnguarded_of_named {o : Object ω} (named : o.typeName.utf8ByteSize ≤ 65535)
    (out : Writer) :
    c.encodeUnguarded (.object o) out =
      c.encodePayload o
        (out.append ([Tag.object.ordinal] ++
          counted Layout.nameLengthWidth (Utf8.encode o.typeName))) := by
  have htag : c.encodeUnguarded (.object o) out =
      c.encodeObject o (out.append [Tag.object.ordinal]) :=
    bind_of_ok (Write.uint8_apply _ out)
  have hname : Encode.lift (Write.shortText o.typeName) (out.append [Tag.object.ordinal]) =
      .ok () (out.append ([Tag.object.ordinal] ++
        counted Layout.nameLengthWidth (Utf8.encode o.typeName))) := by
    rw [Encode.lift_eq_ok_iff, Write.shortText_eq_ok_iff, Writer.append_append]
    exact ⟨Nat.lt_succ_of_le named, rfl⟩
  rw [htag, encodeObject, bind_of_ok hname]
  unfold encodePayload
  cases c.represent o <;> rfl

theorem encode_of_represent_error {o : Object ω} {e : CodecError}
    (named : o.typeName.utf8ByteSize ≤ 65535) (h : c.represent o = .error e) (out : Writer) :
    c.encode (.object o) out = .error e out := by
  have hunguarded := c.encodeUnguarded_of_named named out
  rw [encodePayload, h] at hunguarded
  exact Write.atomically_of_error hunguarded

theorem encode_of_long_payload {o : Object ω} {custom : Bool} {payload : Bytes}
    (named : o.typeName.utf8ByteSize ≤ 65535) (h : c.represent o = .ok (custom, payload))
    (long : 2 ^ 32 ≤ payload.length) (out : Writer) :
    c.encode (.object o) out =
      .error (.stream ⟨out.offset + 4 + o.typeName.utf8ByteSize, .payloadTooLong payload.length⟩)
        out := by
  let behindName := out.append ([Tag.object.ordinal] ++
    counted Layout.nameLengthWidth (Utf8.encode o.typeName))
  have hplace : (behindName.append [flag custom]).offset =
      out.offset + 4 + o.typeName.utf8ByteSize := by
    simp only [behindName, Writer.offset_append, counted, List.length_append,
      List.length_singleton, BigEndian.length_encode, Utf8.length_encode, Layout.nameLengthWidth]
    omega
  have hcounted := Encode.lift_of_error
    (Write.counted_of_long long (behindName.append [flag custom]))
  rw [hplace, Writer.append_append] at hcounted
  have hunguarded := c.encodeUnguarded_of_named named out
  rw [encodePayload, h] at hunguarded
  dsimp only at hunguarded
  rw [bind_of_ok (Write.boolean_apply custom behindName), Writer.append_append, hcounted]
    at hunguarded
  exact Write.atomically_of_error hunguarded

theorem encode_of_refuses {v : Value ω} {e : CodecError} {out : Writer}
    (h : c.Refuses out.offset v e) : c.encode v out = .error e out := by
  cases h with
  | longText text long =>
    rw [← Utf8.length_encode] at long ⊢
    have htext := Encode.lift_of_error
      (Write.counted_of_long long (out.append [Tag.text.ordinal]))
    rw [Writer.offset_append] at htext
    have hunguarded : c.encodeUnguarded (.scalar (.text text)) out =
        Encode.lift (Write.counted (Utf8.encode text)) (out.append [Tag.text.ordinal]) :=
      bind_of_ok (Write.uint8_apply _ out)
    exact Write.atomically_of_error (hunguarded.trans htext)
  | longName o long =>
    have hname := Encode.lift_of_error
      (Write.shortText_of_long long (out.append [Tag.object.ordinal]))
    rw [Writer.offset_append] at hname
    have hunguarded : c.encodeUnguarded (.object o) out =
        c.encodeObject o (out.append [Tag.object.ordinal]) :=
      bind_of_ok (Write.uint8_apply _ out)
    exact Write.atomically_of_error (hunguarded.trans (bind_of_error hname))
  | handler o registered handler reason named nearest refused =>
    apply c.encode_of_represent_error named
    rw [represent, closest?_eq_some_iff.mpr nearest]
    dsimp only
    rw [refused]
  | document o reason named unhandled refused =>
    apply c.encode_of_represent_error named
    rw [represent, closest?_eq_none_iff.mpr unhandled]
    dsimp only
    rw [refused]
  | longPayload o custom payload named sends long =>
    exact c.encode_of_long_payload named (c.represent_of_sends sends) long out

theorem refuses_of_represent {o : Object ω} {e : CodecError}
    (named : o.typeName.utf8ByteSize ≤ 65535) (h : c.represent o = .error e) (start : Nat) :
    c.Refuses start (.object o) e := by
  rw [represent] at h
  cases hclosest : closest? (c.catalog.searchOrder o.typeName) c.table with
  | some found =>
    obtain ⟨registered, handler⟩ := found
    rw [hclosest] at h
    dsimp only at h
    cases htext : handler.encode o with
    | ok text => simp [htext] at h
    | error reason =>
      simp only [htext, Except.error.injEq] at h
      rw [← h]
      exact .handler o registered handler reason named (closest?_eq_some_iff.mp hclosest) htext
  | none =>
    rw [hclosest] at h
    cases hdocument : o.document with
    | ok document => simp [hdocument] at h
    | error reason =>
      simp only [hdocument, Except.error.injEq] at h
      rw [← h]
      exact .document o reason named (closest?_eq_none_iff.mp hclosest) hdocument

theorem fits_or_refuses (v : Value ω) (start : Nat) :
    (∃ f, c.frame v = .ok f ∧ f.Fits) ∨ ∃ e, c.Refuses start v e := by
  cases v with
  | scalar s =>
    by_cases hfits : s.Fits
    · exact .inl ⟨.scalar s, rfl, hfits⟩
    · cases s with
      | text text => exact .inr ⟨_, .longText text (Nat.le_of_not_lt hfits)⟩
      | _ => exact absurd trivial hfits
  | object o =>
    by_cases hlong : 65535 < o.typeName.utf8ByteSize
    · exact .inr ⟨_, .longName o hlong⟩
    have named : o.typeName.utf8ByteSize ≤ 65535 := Nat.le_of_not_lt hlong
    cases hrepresent : c.represent o with
    | error e => exact .inr ⟨e, c.refuses_of_represent named hrepresent start⟩
    | ok r =>
      obtain ⟨custom, payload⟩ := r
      by_cases hpayload : 2 ^ 32 ≤ payload.length
      · exact .inr ⟨_, .longPayload o custom payload named (sends_of_represent hrepresent) hpayload⟩
      · refine .inl ⟨_, c.frame_object_eq_ok_iff.mpr ⟨custom, payload, hrepresent, rfl⟩, ?_⟩
        exact ⟨Nat.lt_succ_of_le named, Nat.lt_of_not_le hpayload⟩

theorem encode_eq_error_iff {v : Value ω} {e : CodecError} {out out' : Writer} :
    c.encode v out = .error e out' ↔ out' = out ∧ c.Refuses out.offset v e := by
  constructor
  · intro h
    rcases c.fits_or_refuses v out.offset with ⟨f, hf, hfits⟩ | ⟨e', he'⟩
    · have hok : c.encode v out = .ok () (out.append f.bytes) :=
        c.encode_eq_ok_iff.mpr ⟨f, hf, hfits, rfl⟩
      rw [hok] at h
      cases h
    · have herror := c.encode_of_refuses he'
      rw [herror] at h
      cases h
      exact ⟨rfl, he'⟩
  · rintro ⟨rfl, h⟩
    exact c.encode_of_refuses h

theorem atomic_encode (v : Value ω) : (c.encode v).Atomic (c.toBytes v).toOption := by
  cases hbytes : c.toBytes v with
  | ok form =>
    obtain ⟨f, hf, hfits, rfl⟩ := c.toBytes_eq_ok_iff.mp hbytes
    intro out
    exact c.encode_eq_ok_iff.mpr ⟨f, hf, hfits, rfl⟩
  | error e =>
    intro out
    rcases c.fits_or_refuses v out.offset with ⟨f, hf, hfits⟩ | ⟨e', he'⟩
    · have hok := c.toBytes_eq_ok_iff.mpr ⟨f, hf, hfits, rfl⟩
      rw [hbytes] at hok
      cases hok
    · exact ⟨e', c.encode_of_refuses he'⟩

/-- The bytes of values that stand one behind the other, if they can all be written. -/
def formOf? : List (Value ω) → Option Bytes
  | [] => some []
  | v :: values => (c.toBytes v).toOption.bind fun w => (formOf? values).map (w ++ ·)

theorem adds_forM (values : List (Value ω)) :
    Encode.Adds (values.forM c.encode) (c.formOf? values) := by
  induction values with
  | nil =>
    intro out
    exact congrArg (EStateM.Result.ok ()) out.append_nil.symm
  | cons v values ih => exact (c.atomic_encode v).adds.bind ih

end Codec

/-- The bytes of a list of arguments: their number, then one behind the other. -/
def Arguments.form? (c : Codec ω) (args : List (Value ω)) : Option Bytes :=
  if args.length ≤ 0x7FFFFFFF then
    (c.formOf? args).map (BigEndian.encode 4 args.length ++ ·)
  else none

theorem Arguments.atomic_encode (c : Codec ω) (args : List (Value ω)) :
    Encode.Atomic (Arguments.encode c args) (Arguments.form? c args) := by
  by_cases hcount : args.length ≤ 0x7FFFFFFF
  · have h := ((Encode.adds_word 4 args.length).bind (c.adds_forM args)).atomic
    rw [Arguments.encode, if_pos hcount, Arguments.form?, if_pos hcount]
    exact h
  · rw [Arguments.encode, if_neg hcount, Arguments.form?, if_neg hcount]
    exact fun out => ⟨_, rfl⟩

theorem Completion.atomic_encode (c : Codec ω) (m : Completion ω) :
    Encode.Atomic (m.encode c) (c.formOf? [m.thrown, m.returned]) := by
  have hreturned : (c.encode m.returned).Adds (c.formOf? [m.returned]) := by
    have h := (c.atomic_encode m.returned).adds
    cases hbytes : c.toBytes m.returned with
    | error e => simpa [Codec.formOf?, hbytes] using h
    | ok w => simpa [Codec.formOf?, hbytes] using h
  exact ((c.atomic_encode m.thrown).adds.bind hreturned).atomic

/-- Whatever was written before, a value adds its own bytes or nothing, and so do a list of
arguments and a completion. A value is refused for one reason only, the first that applies. -/
theorem Codec.encode_adds_form_or_nothing (c : Codec ω) :
    (∀ v : Value ω, (c.encode v).Atomic (c.toBytes v).toOption) ∧
    (∀ args, Encode.Atomic (Arguments.encode c args) (Arguments.form? c args)) ∧
    (∀ m : Completion ω, Encode.Atomic (m.encode c) (c.formOf? [m.thrown, m.returned])) ∧
    ∀ (v : Value ω) (e : CodecError) (out out' : Writer),
      c.encode v out = .error e out' ↔ out' = out ∧ c.Refuses out.offset v e :=
  ⟨c.atomic_encode, Arguments.atomic_encode c, Completion.atomic_encode c,
    fun _ _ _ _ => c.encode_eq_error_iff⟩

end Remoting
