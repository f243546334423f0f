import Remoting.Proofs.FaultPoisoning
import Remoting.Proofs.FrameReading

/-!
# A reader stays within its buffer

Whatever is read from a buffer, in any order and with any lengths and limits, the reader stands at
an offset into the buffer and has the rest of it left. What a call gives are the bytes that the
reader has passed; a call that fails puts an end to all reading. The slices that are taken end
within the buffer, so their ends can be computed with words of 64 bits.
-/

namespace Remoting

open BigEndian (capacity)

/-- The calls that read. Lengths and texts of a known length are also parts of other calls, which
take the rest of their bytes where the call for the length leaves the reader. -/
inductive ReadCall where
  | int8
  | uint8
  | int16
  | uint16
  | int32
  | uint32
  | int64
  | uint64
  | boolean
  | take (length : Nat)
  | lengthUpTo (width limit : Nat)
  | utf8 (length : Nat)
  | shortText
  | text (limit : Nat)
  | counted (limit : Nat)

namespace ReadCall

abbrev Value : ReadCall → Type
  | .int8 => Int8
  | .uint8 => UInt8
  | .int16 => Int16
  | .uint16 => UInt16
  | .int32 => Int32
  | .uint32 => UInt32
  | .int64 => Int64
  | .uint64 => UInt64
  | .boolean => Bool
  | .take _ => Bytes
  | .lengthUpTo _ _ => Nat
  | .utf8 _ => String
  | .shortText => String
  | .text _ => String
  | .counted _ => Bytes

def run : (call : ReadCall) → Read call.Value
  | .int8 => Read.int8
  | .uint8 => Read.uint8
  | .int16 => Read.int16
  | .uint16 => Read.uint16
  | .int32 => Read.int32
  | .uint32 => Read.uint32
  | .int64 => Read.int64
  | .uint64 => Read.uint64
  | .boolean => Read.boolean
  | .take length => Read.take length
  | .lengthUpTo width limit => Read.lengthUpTo width limit
  | .utf8 length => Read.utf8 length
  | .shortText => Read.shortText
  | .text limit => Read.text limit
  | .counted limit => Read.counted limit

/-- The bytes of a value, behind their number where the call reads it first. -/
def bytes : (call : ReadCall) → call.Value → Bytes
  | .int8, v => BigEndian.encode 1 v.toUInt8.toNat
  | .uint8, v => [v]
  | .int16, v => BigEndian.encode 2 v.toUInt16.toNat
  | .uint16, v => BigEndian.encode 2 v.toNat
  | .int32, v => BigEndian.encode 4 v.toUInt32.toNat
  | .uint32, v => BigEndian.encode 4 v.toNat
  | .int64, v => BigEndian.encode 8 v.toUInt64.toNat
  | .uint64, v => BigEndian.encode 8 v.toNat
  | .boolean, v => [flag v]
  | .take _, v => v
  | .lengthUpTo width _, v => BigEndian.encode width v
  | .utf8 _, v => Utf8.encode v
  | .shortText, v => Remoting.counted Layout.nameLengthWidth (Utf8.encode v)
  | .text _, v => Remoting.counted Layout.textLengthWidth (Utf8.encode v)
  | .counted _, v => Remoting.counted Layout.payloadLengthWidth v

/-- The lengths and limits of the call hold for the value. -/
def Admits : (call : ReadCall) → call.Value → Prop
  | .take length, v => v.length = length
  | .lengthUpTo width limit, v => v ≤ limit ∧ v < capacity width
  | .utf8 length, v => v.utf8ByteSize = length
  | .shortText, v => v.utf8ByteSize < capacity Layout.nameLengthWidth
  | .text limit, v => v.utf8ByteSize ≤ limit ∧ v.utf8ByteSize < capacity Layout.textLengthWidth
  | .counted limit, v => v.length ≤ limit ∧ v.length < capacity Layout.payloadLengthWidth
  | _, _ => True

theorem reads (call : ReadCall) :
    Reads call.run fun v w => call.Admits v ∧ w = call.bytes v := by
  have hplain {α : Type} {step : Read α} {form : α → Bytes} (h : Reads step fun v w => w = form v) :
      Reads step fun v w => True ∧ w = form v := h.congr fun _ _ => by rw [true_and]
  cases call with
  | int8 => exact hplain .int8
  | uint8 => exact hplain .uint8
  | int16 => exact hplain .int16
  | uint16 => exact hplain .uint16
  | int32 => exact hplain .int32
  | uint32 => exact hplain .uint32
  | int64 => exact hplain .int64
  | uint64 => exact hplain .uint64
  | boolean => exact hplain .boolean
  | take length =>
    refine (Reads.take length).congr fun v w => ?_
    constructor
    · rintro ⟨rfl, hlength⟩
      exact ⟨hlength, rfl⟩
    · rintro ⟨hlength, rfl⟩
      exact ⟨rfl, hlength⟩
  | lengthUpTo width limit => exact Reads.lengthUpTo width limit
  | utf8 length =>
    refine (Reads.utf8 length).congr fun v w => ?_
    constructor
    · rintro ⟨rfl, hlength⟩
      exact ⟨(Utf8.length_encode v).symm.trans hlength, rfl⟩
    · rintro ⟨hlength, rfl⟩
      exact ⟨rfl, (Utf8.length_encode v).trans hlength⟩
  | shortText => exact .shortText
  | text limit => exact .text limit
  | counted limit => exact .counted limit

theorem careful (call : ReadCall) : Careful id some 0 0 call.run := by
  have hword (width : Nat) : Careful id some 0 0 (Read.word width) :=
    (Read.careful_word width).weaken (Nat.zero_le _)
  cases call with
  | int8 => exact ((hword 1).map _).map _
  | uint8 => exact (hword 1).map _
  | int16 => exact ((hword 2).map _).map _
  | uint16 => exact (hword 2).map _
  | int32 => exact ((hword 4).map _).map _
  | uint32 => exact (hword 4).map _
  | int64 => exact ((hword 8).map _).map _
  | uint64 => exact (hword 8).map _
  | boolean => exact Read.careful_boolean.weaken (Nat.zero_le _)
  | take length => exact (Read.careful_take length).weaken (Nat.zero_le _)
  | lengthUpTo width limit => exact (Read.careful_lengthUpTo width limit).weaken (Nat.zero_le _)
  | utf8 length => exact (Read.careful_utf8 length).weaken (Nat.zero_le _)
  | shortText => exact Read.careful_shortText.weaken (Nat.zero_le _)
  | text limit => exact (Read.careful_text limit).weaken (Nat.zero_le _)
  | counted limit => exact (Read.careful_counted limit).weaken (Nat.zero_le _)

theorem abandons (call : ReadCall) : Abandons id id call.run := by
  have hword (width : Nat) : Abandons id id (Read.word width) := Read.abandons_word width
  have hlength (width limit : Nat) : Abandons id id (Read.lengthUpTo width limit) :=
    .fromState (fun r => (hword width).bind) fun _ => rfl
  cases call with
  | int8 => exact ((hword 1).map _).map _
  | uint8 => exact (hword 1).map _
  | int16 => exact ((hword 2).map _).map _
  | uint16 => exact (hword 2).map _
  | int32 => exact ((hword 4).map _).map _
  | uint32 => exact (hword 4).map _
  | int64 => exact ((hword 8).map _).map _
  | uint64 => exact (hword 8).map _
  | boolean => exact .fromState (fun r => ((hword 1).map _).bind) fun _ => rfl
  | take length => exact Read.abandons_take length
  | lengthUpTo width limit => exact hlength width limit
  | utf8 length => exact .fromState (fun r => (Read.abandons_take length).bind) fun _ => rfl
  | shortText => exact (hword _).bind
  | text limit => exact (hlength _ limit).bind
  | counted limit => exact (hlength _ limit).bind

/-- A call on a sound reader is careful, and one on a poisoned reader is refused. -/
theorem run_cases (call : ReadCall) (r : Reader) :
    r.poisoned = false ∧
      r.Left 0 0 (finalState (call.run r)) ((raised? (call.run r)).bind some) ∨
    r.poisoned = true ∧ call.run r = .error ⟨r.offset, .abandoned⟩ r := by
  cases hr : r.poisoned with
  | false => exact .inl ⟨rfl, call.careful r hr (Nat.zero_le _)⟩
  | true => exact .inr ⟨rfl, call.abandons r hr⟩

end ReadCall

/-- What can be done with a reader: to read from it, or to give it up for some fault. -/
inductive Use where
  | read (call : ReadCall)
  | fail (fault : ByteFault)

namespace Reader

variable {buffer : Bytes} {r r' : Reader} {call : ReadCall}

def use (r : Reader) : Use → Reader
  | .read call => finalState (call.run r)
  | .fail fault => finalState ((Read.failAt fault.offset fault.cause : Read Empty) r)

def after (r : Reader) (uses : List Use) : Reader :=
  uses.foldl use r

/-- The reader has the rest of the buffer in front of it. -/
structure Over (buffer : Bytes) (r : Reader) : Prop where
  total : r.offset + r.remaining = buffer.length
  next : r.poisoned = false → r.rest = buffer.drop r.offset

/-- Nothing is read any more. -/
structure GivenUp (r : Reader) : Prop where
  poisoned : r.poisoned = true
  frozen : ∀ uses, r.after uses = r
  refuses : ∀ call : ReadCall, call.run r = .error ⟨r.offset, .abandoned⟩ r

theorem over_ofBytes (buffer : Bytes) : Over buffer (ofBytes buffer) :=
  ⟨Nat.zero_add _, fun _ => rfl⟩

theorem givenUp_of_poisoned (h : r.poisoned = true) : GivenUp r := by
  have hrefuses (call : ReadCall) : call.run r = .error ⟨r.offset, .abandoned⟩ r :=
    call.abandons r h
  refine ⟨h, fun uses => ?_, hrefuses⟩
  induction uses with
  | nil => rfl
  | cons first uses ih =>
    have hfirst : r.use first = r := by
      cases first with
      | read call => rw [use, hrefuses, finalState]
      | fail fault =>
        obtain ⟨offset, rest, poisoned⟩ := r
        cases h
        rfl
    rw [after, List.foldl_cons, hfirst]
    exact ih

theorem GivenUp.of_error {fault : ByteFault} (h : call.run r = .error fault r') : GivenUp r' := by
  apply givenUp_of_poisoned
  rcases call.run_cases r with ⟨_, hleft⟩ | ⟨hr, hrefused⟩
  · rw [h] at hleft
    exact hleft.poisoned
  · rw [h] at hrefused
    cases hrefused
    exact hr

theorem poisoned_of_ok {v : call.Value} (h : call.run r = .ok v r') :
    r.poisoned = false ∧ r'.poisoned = false := by
  rcases call.run_cases r with ⟨hr, hleft⟩ | ⟨_, hrefused⟩
  · rw [h] at hleft
    exact ⟨hr, hleft.poisoned⟩
  · rw [h] at hrefused
    cases hrefused

theorem ahead_use (r : Reader) (u : Use) : r.Ahead (r.use u) := by
  cases u with
  | fail fault => exact ⟨Nat.le_refl _, rfl⟩
  | read call =>
    rcases call.run_cases r with ⟨_, hleft⟩ | ⟨_, hrefused⟩
    · exact hleft.ahead
    · rw [use, hrefused]
      exact .refl r

namespace Over

theorem offset_le (h : Over buffer r) : r.offset ≤ buffer.length :=
  h.total ▸ Nat.le_add_right _ _

/-- What a call gives are the bytes that the reader has passed. -/
theorem passed (h : Over buffer r) {v : call.Value} (hrun : call.run r = .ok v r') :
    call.Admits v ∧ call.bytes v = buffer.extract r.offset r'.offset ∧
      r'.rest = buffer.drop r'.offset := by
  have hr := (poisoned_of_ok hrun).1
  obtain ⟨_, ⟨hadmits, rfl⟩, hpasses⟩ := (call.reads r hr v r').mp hrun
  have hrest := hpasses.rest
  rw [h.next hr] at hrest
  refine ⟨hadmits, ?_, ?_⟩
  · rw [List.extract_eq_take_drop, hpasses.offset, Nat.add_sub_cancel_left, hrest, List.take_left]
  · rw [hpasses.offset, ← List.drop_drop, hrest, List.drop_left]

/-- A value that stands next is given. -/
theorem exists_ok (h : Over buffer r) (hr : r.poisoned = false) {v : call.Value}
    (hadmits : call.Admits v) (hnext : call.bytes v <+: buffer.drop r.offset) :
    ∃ r', call.run r = .ok v r' := by
  rw [← h.next hr] at hnext
  exact ⟨_, (call.reads r hr v _).mpr ⟨_, ⟨hadmits, rfl⟩, passes_of_prefix hnext⟩⟩

theorem use (h : Over buffer r) (u : Use) : Over buffer (r.use u) where
  total := (ahead_use r u).total.trans h.total
  next := by
    cases u with
    | fail fault =>
      intro hsound
      cases hsound
    | read call =>
      rw [Reader.use]
      cases hrun : call.run r with
      | ok v r' => exact fun _ => (h.passed hrun).2.2
      | error fault r' =>
        intro hsound
        rw [finalState, (GivenUp.of_error hrun).poisoned] at hsound
        cases hsound

theorem after (h : Over buffer r) (uses : List Use) : Over buffer (r.after uses) := by
  induction uses generalizing r with
  | nil => exact h
  | cons first uses ih => exact ih (h.use first)

end Over

/-- Where a slice ends, by the arithmetic of 64-bit words, unless it is longer than what is left. -/
def sliceEnd? (size offset length : UInt64) : Option UInt64 :=
  let left := if offset ≤ size then size - offset else 0
  if length > left then none else some (offset + length)

theorem sliceEnd?_eq_some_iff {size offset length stop : UInt64} (h : offset ≤ size) :
    sliceEnd? size offset length = some stop ↔
      offset.toNat + length.toNat ≤ size.toNat ∧ stop.toNat = offset.toNat + length.toNat := by
  have hsize := size.toNat_lt
  have hleft : (size - offset).toNat = size.toNat - offset.toNat := UInt64.toNat_sub_of_le _ _ h
  have hoffset : offset.toNat ≤ size.toNat := UInt64.le_iff_toNat_le.mp h
  have hlong : length > size - offset ↔ ¬ offset.toNat + length.toNat ≤ size.toNat := by
    rw [gt_iff_lt, UInt64.lt_iff_toNat_lt, hleft]
    omega
  rw [sliceEnd?, if_pos h]
  by_cases hfits : offset.toNat + length.toNat ≤ size.toNat
  · have hend : (offset + length).toNat = offset.toNat + length.toNat := by
      rw [UInt64.toNat_add, Nat.mod_eq_of_lt (by omega)]
    rw [if_neg (by rwa [hlong, not_not]), Option.some_inj, ← UInt64.toNat_inj, hend, eq_comm,
      and_iff_right hfits]
  · rw [if_pos (hlong.mpr hfits)]
    constructor
    · intro hnone
      cases hnone
    · exact fun hend => absurd hend.1 hfits

theorem Over.take_eq (h : Over buffer r) (hr : r.poisoned = false) (length : Nat) :
    Read.take length r =
      if r.offset + length ≤ buffer.length then
        .ok (buffer.extract r.offset (r.offset + length))
          ⟨r.offset + length, buffer.drop (r.offset + length), false⟩
      else .error ⟨r.offset, .endOfInput⟩ { r with poisoned := true } := by
  have hle := h.offset_le
  have htaken : buffer.extract r.offset (r.offset + length) = r.rest.take length := by
    rw [List.extract_eq_take_drop, Nat.add_sub_cancel_left, h.next hr]
  have hdropped : buffer.drop (r.offset + length) = r.rest.drop length := by
    rw [← List.drop_drop, h.next hr]
  have hlength : (r.rest.take length).length < length ↔ ¬ r.offset + length ≤ buffer.length := by
    rw [List.length_take, h.next hr, List.length_drop]
    omega
  rw [Read.take, hr, if_neg Bool.false_ne_true, htaken, hdropped]
  by_cases hfits : r.offset + length ≤ buffer.length
  · rw [if_pos hfits, if_neg (by rwa [hlength, not_not])]
  · rw [if_neg hfits, if_pos (hlength.mpr hfits)]
    rfl

/-- Slices of any length are taken where the arithmetic of 64-bit words says: it does not overflow,
and does not lead out of the buffer. -/
structure SlicesByWords (buffer : Bytes) (r : Reader) : Prop where
  taken : ∀ length stop : UInt64,
    sliceEnd? (.ofNat buffer.length) (.ofNat r.offset) length = some stop →
    stop.toNat = r.offset + length.toNat ∧ stop.toNat ≤ buffer.length ∧
      Read.take length.toNat r = .ok (buffer.extract r.offset stop.toNat)
        ⟨stop.toNat, buffer.drop stop.toNat, false⟩
  refused : ∀ length : UInt64,
    sliceEnd? (.ofNat buffer.length) (.ofNat r.offset) length = none →
    Read.take length.toNat r = .error ⟨r.offset, .endOfInput⟩ { r with poisoned := true }

theorem Over.slicesByWords (h : Over buffer r) (hr : r.poisoned = false)
    (hsize : buffer.length < UInt64.size) : SlicesByWords buffer r := by
  have hbuffer : (UInt64.ofNat buffer.length).toNat = buffer.length :=
    UInt64.toNat_ofNat_of_lt' hsize
  have hoffset : (UInt64.ofNat r.offset).toNat = r.offset :=
    UInt64.toNat_ofNat_of_lt' (Nat.lt_of_le_of_lt h.offset_le hsize)
  have hinside : UInt64.ofNat r.offset ≤ UInt64.ofNat buffer.length := by
    rw [UInt64.le_iff_toNat_le, hoffset, hbuffer]
    exact h.offset_le
  have hend (length stop : UInt64) :
      sliceEnd? (.ofNat buffer.length) (.ofNat r.offset) length = some stop ↔
        r.offset + length.toNat ≤ buffer.length ∧ stop.toNat = r.offset + length.toNat := by
    rw [sliceEnd?_eq_some_iff hinside, hoffset, hbuffer]
  constructor
  · intro length stop hstop
    obtain ⟨hfits, heq⟩ := (hend length stop).mp hstop
    rw [h.take_eq hr, heq, if_pos hfits]
    exact ⟨rfl, hfits, rfl⟩
  · intro length hnone
    rw [h.take_eq hr, if_neg]
    intro hfits
    have hstop := (hend length (.ofNat (r.offset + length.toNat))).mpr
      ⟨hfits, UInt64.toNat_ofNat_of_lt' (Nat.lt_of_le_of_lt hfits hsize)⟩
    rw [hnone] at hstop
    cases hstop

/-- After any use, the reader is within its buffer, and goes on from there. It gives a value if its
bytes stand next, and it passes these. It is given up with the first fault. No slice is taken that
ends outside the buffer. -/
theorem stays_within (buffer : Bytes) (uses : List Use) {r : Reader}
    (hr : (ofBytes buffer).after uses = r) :
    (r.offset ≤ buffer.length ∧ r.offset + r.remaining = buffer.length) ∧
    (∀ u, r.offset ≤ (r.use u).offset) ∧
    (∀ (call : ReadCall) v r', call.run r = .ok v r' →
      r.poisoned = false ∧ r'.poisoned = false ∧ call.Admits v ∧
        call.bytes v = buffer.extract r.offset r'.offset) ∧
    (∀ (call : ReadCall) v, r.poisoned = false → call.Admits v →
      call.bytes v <+: buffer.drop r.offset → ∃ r', call.run r = .ok v r') ∧
    (∀ (call : ReadCall) fault r', call.run r = .error fault r' → GivenUp r') ∧
    (∀ fault, GivenUp (r.use (.fail fault))) ∧
    (r.poisoned = false → buffer.length < UInt64.size → SlicesByWords buffer r) := by
  have hover : Over buffer r := hr ▸ (over_ofBytes buffer).after uses
  refine ⟨⟨hover.offset_le, hover.total⟩, fun u => (ahead_use r u).offset_le, ?_, ?_, ?_, ?_, ?_⟩
  · intro call v r' hrun
    obtain ⟨hsound, hsound'⟩ := poisoned_of_ok hrun
    obtain ⟨hadmits, hbytes, _⟩ := hover.passed hrun
    exact ⟨hsound, hsound', hadmits, hbytes⟩
  · exact fun call v hsound hadmits hnext => hover.exists_ok hsound hadmits hnext
  · exact fun call fault r' hrun => .of_error hrun
  · exact fun fault => givenUp_of_poisoned rfl
  · exact fun hsound hsize => hover.slicesByWords hsound hsize

/-- The length of a payload was read before the payload turns out to be cut off. -/
theorem cutPayload_gives_up : ∃ r r' : Reader,
    (ofBytes [1, 0, 0, 0, 9, 7, 7]).after [.read .boolean] = r ∧
    (r.offset ≤ 7 ∧ r.offset + r.remaining = 7) ∧
    (ReadCall.counted 64).run r = .error ⟨5, .endOfInput⟩ r' ∧ r'.offset = 5 ∧
    r'.after [.fail ⟨0, .trailing 2⟩, .read .uint16] = r' ∧
    (ReadCall.take 0).run r' = .error ⟨5, .abandoned⟩ r' ∧
    Read.take 6 r = .ok [0, 0, 0, 9, 7, 7] ⟨7, [], false⟩ := by
  have hlength : Read.lengthUpTo 4 64 ⟨1, [0, 0, 0, 9, 7, 7], false⟩ =
      .ok 9 ⟨5, [7, 7], false⟩ :=
    (Reads.lengthUpTo 4 64 _ rfl _ _).mpr
      ⟨[0, 0, 0, 9], ⟨⟨by decide, by decide⟩, rfl⟩, rfl, rfl, rfl⟩
  have hcut : (ReadCall.counted 64).run ⟨1, [0, 0, 0, 9, 7, 7], false⟩ =
      .error ⟨5, .endOfInput⟩ ⟨5, [7, 7], true⟩ := by
    change (Read.lengthUpTo 4 64 >>= Read.take) _ = _
    rw [bind_of_ok hlength]
    rfl
  have hafter : (ofBytes [1, 0, 0, 0, 9, 7, 7]).after [.read .boolean] =
      ⟨1, [0, 0, 0, 9, 7, 7], false⟩ := rfl
  obtain ⟨hinside, _, _, _, hfault, _, hslice⟩ := stays_within _ _ hafter
  have hgiven := hfault (.counted 64) _ _ hcut
  obtain ⟨_, _, htaken⟩ := (hslice rfl (by decide)).taken 6 7 (by decide)
  exact ⟨_, _, hafter, hinside, hcut, rfl, hgiven.frozen _, hgiven.refuses (.take 0), htaken⟩

end Reader

end Remoting
