import Remoting.Proofs.ObjectRebuilding
import Remoting.Samples

/-!
# The language of the decoder

`Codec.Sentence` lists the byte strings that a codec takes for a value, tag by tag. Decoding ends
with something other than a fault of the stream exactly where a sentence stands next. There is at
most one; it alone decides the answer, and the reader stops behind it. Sentences of scalars are
just what encoding the scalar gives.
-/

namespace Remoting

open BigEndian (capacity)

variable {ω : Type} [Portable ω]

def IsText (bytes : Bytes) : Prop :=
  ∃ text, bytes = Utf8.encode text

/-- A length prefix: so many bytes that hold the number of bytes behind them. -/
def Counts (width : Nat) (length payload : Bytes) : Prop :=
  length.length = width ∧ BigEndian.decode length = payload.length

/-- The byte strings that the codec takes for a value. -/
inductive Codec.Sentence (c : Codec ω) : Bytes → Prop where
  | null : Sentence c [0]
  | boolean (value : UInt8) (canonical : value = 0 ∨ value = 1) : Sentence c [1, value]
  | word (tag : Tag) (payload : Bytes) (lower : 2 ≤ tag.ordinal) (upper : tag.ordinal ≤ 8)
      (size : tag.fixedSize? = some payload.length) : Sentence c (tag.ordinal :: payload)
  | text (length payload : Bytes) (counts : Counts 4 length payload)
      (within : payload.length ≤ c.settings.textLimit) (valid : IsText payload) :
      Sentence c (9 :: (length ++ payload))
  | object (nameLength : Bytes) (typeName : String) (custom : UInt8) (length payload : Bytes)
      (named : Counts 2 nameLength (Utf8.encode typeName))
      (canonical : custom = 0 ∨ custom = 1) (counts : Counts 4 length payload)
      (within : payload.length ≤ c.settings.payloadLimit)
      (readable : custom = 1 → (∃ entry, c.catalog.get? typeName = some entry) → IsText payload) :
      Sentence c (10 :: (nameLength ++ Utf8.encode typeName ++ custom :: (length ++ payload)))

theorem counts_iff {width : Nat} {length payload : Bytes} :
    Counts width length payload ↔
      payload.length < capacity width ∧ length = BigEndian.encode width payload.length := by
  constructor
  · rintro ⟨rfl, hcount⟩
    rw [← hcount]
    exact ⟨BigEndian.decode_lt length, (BigEndian.encode_decode length).symm⟩
  · rintro ⟨hfit, rfl⟩
    exact ⟨BigEndian.length_encode _ _, BigEndian.decode_encode hfit⟩

theorem exists_flag_iff {b : UInt8} : b = 0 ∨ b = 1 ↔ ∃ value, b = flag value := by
  simp [flag, Bool.exists_bool]

/-- All strings of the size of a word are the form of some scalar. -/
theorem exists_scalar_of_size {tag : Tag} {payload : Bytes} (lower : 2 ≤ tag.ordinal)
    (upper : tag.ordinal ≤ 8) (size : tag.fixedSize? = some payload.length) :
    ∃ s : Scalar, s.tag = tag ∧ s.Fits ∧ (∀ settings, s.Within settings) ∧ s.body = payload := by
  obtain ⟨n, hn, hpayload⟩ := BigEndian.exists_encode payload
  generalize payload.length = width at hn hpayload size
  subst hpayload
  cases tag with
  | null | boolean => exact absurd lower (by decide)
  | text | object => exact absurd upper (by decide)
  | byte =>
    cases size
    refine ⟨.byte (UInt8.ofNat n).toInt8, rfl, trivial, fun _ => trivial, ?_⟩
    exact congrArg (BigEndian.encode 1) (UInt8.toNat_ofNat_of_lt' hn)
  | short =>
    cases size
    refine ⟨.short (UInt16.ofNat n).toInt16, rfl, trivial, fun _ => trivial, ?_⟩
    exact congrArg (BigEndian.encode 2) (UInt16.toNat_ofNat_of_lt' hn)
  | int =>
    cases size
    refine ⟨.int (UInt32.ofNat n).toInt32, rfl, trivial, fun _ => trivial, ?_⟩
    exact congrArg (BigEndian.encode 4) (UInt32.toNat_ofNat_of_lt' hn)
  | long =>
    cases size
    refine ⟨.long (UInt64.ofNat n).toInt64, rfl, trivial, fun _ => trivial, ?_⟩
    exact congrArg (BigEndian.encode 8) (UInt64.toNat_ofNat_of_lt' hn)
  | float =>
    cases size
    refine ⟨.float (UInt32.ofNat n), rfl, trivial, fun _ => trivial, ?_⟩
    exact congrArg (BigEndian.encode 4) (UInt32.toNat_ofNat_of_lt' hn)
  | double =>
    cases size
    refine ⟨.double (UInt64.ofNat n), rfl, trivial, fun _ => trivial, ?_⟩
    exact congrArg (BigEndian.encode 8) (UInt64.toNat_ofNat_of_lt' hn)
  | char =>
    cases size
    refine ⟨.char (UInt16.ofNat n), rfl, trivial, fun _ => trivial, ?_⟩
    exact congrArg (BigEndian.encode 2) (UInt16.toNat_ofNat_of_lt' hn)

theorem Codec.sentence_of_scalar (c : Codec ω) {s : Scalar} (hfit : s.Fits)
    (hlimit : s.Within c.settings) : c.Sentence (Frame.scalar s).bytes := by
  have word (t : Tag) {width n : Nat} (lower : 2 ≤ t.ordinal) (upper : t.ordinal ≤ 8)
      (size : t.fixedSize? = some width) : c.Sentence (t.ordinal :: BigEndian.encode width n) :=
    Sentence.word t _ lower upper (by rw [BigEndian.length_encode, size])
  cases s with
  | null => exact Sentence.null
  | boolean value => exact Sentence.boolean (flag value) (exists_flag_iff.mpr ⟨value, rfl⟩)
  | byte => exact word .byte (by decide) (by decide) rfl
  | short => exact word .short (by decide) (by decide) rfl
  | int => exact word .int (by decide) (by decide) rfl
  | long => exact word .long (by decide) (by decide) rfl
  | float => exact word .float (by decide) (by decide) rfl
  | double => exact word .double (by decide) (by decide) rfl
  | char => exact word .char (by decide) (by decide) rfl
  | text text =>
    apply Sentence.text (BigEndian.encode 4 (Utf8.encode text).length) (Utf8.encode text)
    · exact counts_iff.mpr ⟨by rwa [Utf8.length_encode], rfl⟩
    · rwa [Utf8.length_encode]
    · exact ⟨text, rfl⟩

theorem Codec.sentence_iff (c : Codec ω) {w : Bytes} :
    c.Sentence w ↔ ∃ f : Frame, f.Fits ∧ f.Within c.settings ∧ c.Readable f ∧ w = f.bytes := by
  constructor
  · rintro (_ | ⟨_, canonical⟩ | ⟨tag, payload, lower, upper, size⟩ | ⟨_, _, counts, within, valid⟩ |
      ⟨_, typeName, _, _, payload, named, canonical, counts, within, readable⟩)
    · exact ⟨.scalar .null, trivial, trivial, trivial, rfl⟩
    · obtain ⟨value, rfl⟩ := exists_flag_iff.mp canonical
      exact ⟨.scalar (.boolean value), trivial, trivial, trivial, rfl⟩
    · obtain ⟨s, rfl, hfit, hlimit, rfl⟩ := exists_scalar_of_size lower upper size
      exact ⟨.scalar s, hfit, hlimit _, trivial, rfl⟩
    · obtain ⟨text, rfl⟩ := valid
      obtain ⟨hfit, rfl⟩ := counts_iff.mp counts
      rw [Utf8.length_encode] at hfit within
      exact ⟨.scalar (.text text), hfit, within, trivial, rfl⟩
    · obtain ⟨custom, rfl⟩ := exists_flag_iff.mp canonical
      obtain ⟨hname, rfl⟩ := counts_iff.mp named
      obtain ⟨hfit, rfl⟩ := counts_iff.mp counts
      rw [Utf8.length_encode] at hname
      refine ⟨.object typeName custom payload, ⟨hname, hfit⟩, within, ?_, rfl⟩
      rintro rfl hentry
      exact readable rfl (Option.ne_none_iff_exists'.mp hentry)
  · rintro ⟨f, hfit, hlimit, hreadable, rfl⟩
    cases f with
    | scalar s => exact c.sentence_of_scalar hfit hlimit
    | object typeName custom payload =>
      have hform : (Frame.object typeName custom payload).bytes =
          10 :: (BigEndian.encode 2 (Utf8.encode typeName).length ++ Utf8.encode typeName ++
            flag custom :: (BigEndian.encode 4 payload.length ++ payload)) := rfl
      rw [hform]
      apply Sentence.object
      · exact counts_iff.mpr ⟨by rw [Utf8.length_encode]; exact hfit.1, rfl⟩
      · exact exists_flag_iff.mpr ⟨custom, rfl⟩
      · exact counts_iff.mpr ⟨hfit.2, rfl⟩
      · exact hlimit
      · intro hflag hentry
        have hcustom : custom = true := by
          cases custom with
          | true => rfl
          | false => exact absurd hflag (by decide)
        exact hreadable hcustom (Option.ne_none_iff_exists'.mpr hentry)

/-- Where a frame stands next, the answer is sound exactly if the frame is a sentence. Where none
does, the stream is corrupt. -/
theorem Codec.corrupt_answer_iff (c : Codec ω) {input : Input} (fresh : input.poisoned = false) :
    corrupt (Decode.answer (c.decode input)) = false ↔ ∃ w, c.Sentence w ∧ w <+: input.rest := by
  by_cases hframe : ∃ f : Frame, f.Fits ∧ f.Within c.settings ∧ f.bytes <+: input.rest
  · obtain ⟨f, hfit, hlimit, hprefix⟩ := hframe
    rw [c.decode_eq_of_frame fresh hfit hlimit (Reader.passes_of_prefix hprefix),
      Decode.answer_conclude, c.corrupt_rebuild_eq_false_iff]
    constructor
    · intro hreadable
      exact ⟨f.bytes, c.sentence_iff.mpr ⟨f, hfit, hlimit, hreadable, rfl⟩, hprefix⟩
    · rintro ⟨w, hw, hwp⟩
      obtain ⟨g, hg, _, hreadable, rfl⟩ := c.sentence_iff.mp hw
      rwa [Frame.eq_of_prefix hfit hg hprefix hwp]
  · obtain ⟨fault, input', hdecode⟩ := c.decode_eq_of_no_frame fresh
      fun f hfit hlimit hprefix => hframe ⟨f, hfit, hlimit, hprefix⟩
    rw [hdecode]
    constructor
    · intro h
      cases h
    · rintro ⟨w, hw, hwp⟩
      obtain ⟨g, hg, hlimit, _, rfl⟩ := c.sentence_iff.mp hw
      exact absurd ⟨g, hg, hlimit, hwp⟩ hframe

theorem Codec.Sentence.unique {c : Codec ω} {w w' bytes : Bytes} (hw : c.Sentence w)
    (hw' : c.Sentence w') (hp : w <+: bytes) (hp' : w' <+: bytes) : w = w' := by
  obtain ⟨f, hf, _, _, rfl⟩ := c.sentence_iff.mp hw
  obtain ⟨g, hg, _, _, rfl⟩ := c.sentence_iff.mp hw'
  rw [Frame.eq_of_prefix hf hg hp hp']

/-- The answer to a sentence is the same wherever it stands. -/
theorem Codec.Sentence.exists_answer {c : Codec ω} {w : Bytes} (hw : c.Sentence w) :
    ∃ (answer : Except CodecError (Value ω)) (notices : List Notice),
      (∀ input : Input, input.poisoned = false → w <+: input.rest →
        c.decode input = Decode.conclude answer
          ⟨⟨input.offset + w.length, input.rest.drop w.length, false⟩,
            input.notices ++ notices⟩) ∧
      (w.head? ≠ some 10 → ∃ s, answer = .ok (.scalar s) ∧ c.toBytes (.scalar s) = .ok w) := by
  obtain ⟨f, hfit, hlimit, hreadable, rfl⟩ := c.sentence_iff.mp hw
  refine ⟨c.rebuild 0 f, c.notices f, ?_, ?_⟩
  · intro input fresh hprefix
    rw [c.decode_eq_of_readable fresh hfit hlimit hreadable (Reader.passes_of_prefix hprefix),
      fresh]
  · intro hhead
    cases f with
    | scalar s => exact ⟨s, rfl, c.toBytes_eq_ok_iff.mpr ⟨_, rfl, hfit, rfl⟩⟩
    | object => exact absurd rfl hhead

theorem Codec.decode_language (c : Codec ω) (input : Input) (fresh : input.poisoned = false) :
    (corrupt (Decode.answer (c.decode input)) = false ↔
      ∃ w, c.Sentence w ∧ w <+: input.rest) ∧
    (∀ w w', c.Sentence w → c.Sentence w' → w <+: input.rest → w' <+: input.rest → w = w') ∧
    ∀ w, c.Sentence w → w <+: input.rest →
      ∃ (answer : Except CodecError (Value ω)) (notices : List Notice),
        (∀ other : Input, other.poisoned = false → w <+: other.rest →
          c.decode other = Decode.conclude answer
            ⟨⟨other.offset + w.length, other.rest.drop w.length, false⟩,
              other.notices ++ notices⟩) ∧
        (w.head? ≠ some 10 → ∃ s, answer = .ok (.scalar s) ∧ c.toBytes (.scalar s) = .ok w) :=
  ⟨c.corrupt_answer_iff fresh, fun _ _ hw hw' hp hp' => hw.unique hw' hp hp',
    fun _ hw _ => hw.exists_answer⟩

/-- A payload that is no text is none of the concern of a codec that does not know the type. -/
theorem exists_sentence_of_foreign_type :
    (Input.ofBytes [10, 0, 1, 65, 1, 0, 0, 0, 1, 0xFF, 7]).poisoned = false ∧
    ∃ w, ({} : Codec Sample).Sentence w ∧ w <+: [10, 0, 1, 65, 1, 0, 0, 0, 1, 0xFF, 7] :=
  ⟨rfl, (Codec.decode_language {} (.ofBytes [10, 0, 1, 65, 1, 0, 0, 0, 1, 0xFF, 7]) rfl).1.mp rfl⟩

end Remoting
