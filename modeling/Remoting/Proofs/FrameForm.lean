import Remoting.Frame
import Remoting.Proofs.WordRoundTrip

/-!
# The one form of a frame

Every frame has one string of bytes on the wire, `Frame.bytes`. A frame fits if its lengths fit
the prefixes in front of them. Writing a scalar succeeds exactly if it fits, and then adds its form
to what was written before.
-/

namespace Remoting

open BigEndian (capacity)

section Bind

variable {ε σ α β : Type} {step : EStateM ε σ α} {next : α → EStateM ε σ β} {s m s' : σ}

theorem bind_of_ok {a : α} (h : step s = .ok a m) : (step >>= next) s = next a m := by
  change EStateM.bind step next s = _
  simp only [EStateM.bind, h]

theorem bind_of_error {e : ε} (h : step s = .error e m) : (step >>= next) s = .error e m := by
  change EStateM.bind step next s = _
  simp only [EStateM.bind, h]

theorem bind_eq_ok_iff {b : β} :
    (step >>= next) s = .ok b s' ↔ ∃ a m, step s = .ok a m ∧ next a m = .ok b s' := by
  cases hs : step s with
  | ok a m =>
    rw [bind_of_ok hs]
    constructor
    · exact fun h => ⟨a, m, rfl, h⟩
    · rintro ⟨_, _, ⟨⟩, h⟩
      exact h
  | error e m =>
    rw [bind_of_error hs]
    constructor
    · intro h
      cases h
    · rintro ⟨_, _, ⟨⟩, _⟩

end Bind

/-- Bytes behind their number, which is given `width` bytes. -/
def counted (width : Nat) (payload : Bytes) : Bytes :=
  BigEndian.encode width payload.length ++ payload

def flag (value : Bool) : UInt8 :=
  if value then 1 else 0

def Scalar.body : Scalar → Bytes
  | .null => []
  | .boolean value => [flag value]
  | .byte value => BigEndian.encode 1 value.toUInt8.toNat
  | .short value => BigEndian.encode 2 value.toUInt16.toNat
  | .int value => BigEndian.encode 4 value.toUInt32.toNat
  | .long value => BigEndian.encode 8 value.toUInt64.toNat
  | .float word => BigEndian.encode 4 word.toNat
  | .double word => BigEndian.encode 8 word.toNat
  | .char unit => BigEndian.encode 2 unit.toNat
  | .text value => counted Layout.textLengthWidth (Utf8.encode value)

def Scalar.Fits : Scalar → Prop
  | .text value => value.utf8ByteSize < capacity Layout.textLengthWidth
  | _ => True

namespace Frame

def objectBody (typeName : String) (custom : Bool) (payload : Bytes) : Bytes :=
  counted Layout.nameLengthWidth (Utf8.encode typeName) ++
    ([flag custom] ++ counted Layout.payloadLengthWidth payload)

def bytes : Frame → Bytes
  | .scalar value => [value.tag.ordinal] ++ value.body
  | .object typeName custom payload =>
    [Tag.object.ordinal] ++ objectBody typeName custom payload

def Fits : Frame → Prop
  | .scalar value => value.Fits
  | .object typeName _ payload =>
    typeName.utf8ByteSize < capacity Layout.nameLengthWidth ∧
      payload.length < capacity Layout.payloadLengthWidth

end Frame

namespace BigEndian

@[simp] theorem encode_one (b : UInt8) : encode 1 b.toNat = [b] := by
  simp [encode, capacity]

end BigEndian

namespace Writer

@[simp] theorem append_append (w : Writer) (a b : Bytes) :
    (w.append a).append b = w.append (a ++ b) := by
  simp only [append, List.append_assoc]

@[simp] theorem append_nil (w : Writer) : w.append [] = w := by
  simp [append]

end Writer

namespace Write

variable {ε : Type}

theorem ok_eq_ok_iff {u : Unit} {out out' : Writer} :
    (EStateM.Result.ok () out : EStateM.Result ε Writer Unit) = .ok u out' ↔ out' = out := by
  rw [EStateM.Result.ok.injEq, and_iff_right rfl, eq_comm]

theorem uint8_apply (v : UInt8) (out : Writer) :
    (uint8 v : Write ε Unit) out = .ok () (out.append [v]) := by
  rw [← BigEndian.encode_one v]
  rfl

theorem uint8_eq_ok_iff {v : UInt8} {u : Unit} {out out' : Writer} :
    (uint8 v : Write ε Unit) out = .ok u out' ↔ out' = out.append [v] := by
  rw [uint8_apply, ok_eq_ok_iff]

theorem boolean_apply (v : Bool) (out : Writer) :
    (boolean v : Write ε Unit) out = .ok () (out.append [flag v]) :=
  uint8_apply (flag v) out

theorem counted_apply (payload : Bytes) (out : Writer) :
    counted payload out =
      if payload.length < capacity Layout.payloadLengthWidth then
        .ok () (out.append (Remoting.counted Layout.payloadLengthWidth payload))
      else .error ⟨out.offset, .payloadTooLong payload.length⟩ out := by
  unfold counted
  split
  · rw [Remoting.counted, ← Writer.append_append]
    rfl
  · rfl

theorem shortText_apply (text : String) (out : Writer) :
    shortText text out =
      if text.utf8ByteSize < capacity Layout.nameLengthWidth then
        .ok () (out.append (Remoting.counted Layout.nameLengthWidth (Utf8.encode text)))
      else .error ⟨out.offset, .textTooLong text.utf8ByteSize⟩ out := by
  rw [← Utf8.length_encode, shortText]
  split
  · rw [Remoting.counted, ← Writer.append_append]
    rfl
  · rfl

theorem ite_eq_ok_iff {P : Prop} [Decidable P] {fault : ε} {u : Unit} {out out' out'' : Writer} :
    (if P then EStateM.Result.ok () out else .error fault out'') = .ok u out' ↔
      P ∧ out' = out := by
  by_cases h : P
  · rw [if_pos h, and_iff_right h, ok_eq_ok_iff]
  · rw [if_neg h]
    constructor
    · intro he
      cases he
    · exact fun he => absurd he.1 h

theorem boolean_eq_ok_iff {v : Bool} {u : Unit} {out out' : Writer} :
    (boolean v : Write ε Unit) out = .ok u out' ↔ out' = out.append [flag v] := by
  rw [boolean_apply, ok_eq_ok_iff]

theorem counted_eq_ok_iff {payload : Bytes} {u : Unit} {out out' : Writer} :
    counted payload out = .ok u out' ↔
      payload.length < capacity Layout.payloadLengthWidth ∧
        out' = out.append (Remoting.counted Layout.payloadLengthWidth payload) := by
  rw [counted_apply, ite_eq_ok_iff]

theorem shortText_eq_ok_iff {text : String} {u : Unit} {out out' : Writer} :
    shortText text out = .ok u out' ↔
      text.utf8ByteSize < capacity Layout.nameLengthWidth ∧
        out' = out.append (Remoting.counted Layout.nameLengthWidth (Utf8.encode text)) := by
  rw [shortText_apply, ite_eq_ok_iff]

end Write

theorem Frame.writeScalar_eq_ok_iff {value : Scalar} {u : Unit} {out out' : Writer} :
    writeScalar value out = .ok u out' ↔ value.Fits ∧ out' = out.append value.body := by
  have of_form {form : Bytes} (h : writeScalar value out = .ok () (out.append form)) :
      writeScalar value out = .ok u out' ↔ True ∧ out' = out.append form := by
    rw [h, Write.ok_eq_ok_iff, true_and]
  cases value with
  | null => exact of_form (by rw [Scalar.body, Writer.append_nil]; rfl)
  | boolean value => exact of_form (Write.boolean_apply value out)
  | byte | short | int | long | float | double | char => exact of_form rfl
  | text value =>
    rw [writeScalar, Write.text, Write.counted_eq_ok_iff, Utf8.length_encode]
    rfl

end Remoting
