import Remoting.Proofs.ObjectRebuilding
import Remoting.SampleHandlers

/-!
# Streams of values

Values that lead back to themselves one by one may be written one after the other, whatever was
written before, and are read back from there in the same order. Reading stops behind each value
where writing did.
-/

namespace Remoting

variable {ω : Type} [Portable ω]

/-- A reader in the midst of the bytes. -/
def Reader.into (bytes : Bytes) (offset : Nat) : Reader :=
  ⟨offset, bytes.drop offset, false⟩

theorem Reader.into_passes {bytes before w : Bytes} (h : before ++ w <+: bytes) :
    (Reader.into bytes before.length).Passes w (Reader.into bytes (before ++ w).length) := by
  obtain ⟨after, rfl⟩ := h
  refine ⟨?_, List.length_append, rfl⟩
  rw [into, into, List.drop_left, List.append_assoc, List.drop_left]

namespace Codec

variable (c : Codec ω)

/-- A value that its codec writes and then takes for the same value. An object has to be led back
to by the nearest handler, or else by the loader of its type. -/
inductive Sendable : Value ω → Prop where
  | scalar (s : Scalar) (plain : ∀ text, s ≠ .text text) : Sendable (.scalar s)
  | text (text : String) (within : text.utf8ByteSize ≤ c.settings.textLimit)
      (fits : text.utf8ByteSize < 2 ^ 32) : Sendable (.scalar (.text text))
  | generic (o : Object ω) (entry : Catalog.Entry ω) (document : String)
      (declared : c.catalog.get? o.typeName = some entry)
      (named : o.typeName.utf8ByteSize ≤ 65535)
      (unhandled : ∀ name ∈ entry.lineage, c.table.get? name = none)
      (written : o.document = .ok document)
      (loaded : entry.load? (Utf8.encode document) = some (some o))
      (within : document.utf8ByteSize ≤ c.settings.payloadLimit)
      (fits : document.utf8ByteSize < 2 ^ 32) : Sendable (.object o)
  | handled (o : Object ω) (entry : Catalog.Entry ω) (registered : String) (handler : Handler ω)
      (text : String)
      (declared : c.catalog.get? o.typeName = some entry)
      (named : o.typeName.utf8ByteSize ≤ 65535)
      (nearest : c.table.Nearest entry.lineage registered handler)
      (written : handler.encode o = .ok text)
      (read : handler.decode text = .ok (.object o))
      (within : text.utf8ByteSize ≤ c.settings.payloadLimit)
      (fits : text.utf8ByteSize < 2 ^ 32) : Sendable (.object o)

/-- The frame in which a value is sent and from which it is rebuilt. -/
structure Carries (f : Frame) (v : Value ω) : Prop where
  frame : c.frame v = .ok f
  fits : f.Fits
  within : f.Within c.settings
  readable : c.Readable f
  rebuild : c.rebuild 0 f = .ok v
  notices : c.notices f = []

variable {c} in
theorem Sendable.exists_carries {v : Value ω} (h : c.Sendable v) : ∃ f, c.Carries f v := by
  cases h with
  | scalar s plain =>
    refine ⟨.scalar s, rfl, ?_, ?_, trivial, rfl, rfl⟩
    · cases s with
      | text text => exact absurd rfl (plain text)
      | _ => exact trivial
    · cases s with
      | text text => exact absurd rfl (plain text)
      | _ => exact trivial
  | text text within fits => exact ⟨.scalar (.text text), rfl, fits, within, trivial, rfl, rfl⟩
  | generic o entry document declared named unhandled written loaded within fits =>
    have hnone := closest?_eq_none_iff.mpr unhandled
    refine ⟨.object o.typeName false (Utf8.encode document), ?_, ?_, ?_, nofun, ?_, rfl⟩
    · rw [frame, represent, c.catalog.searchOrder_of_declared declared, hnone, written]
      rfl
    · exact ⟨Nat.lt_succ_of_le named, by rwa [Utf8.length_encode]⟩
    · rwa [Frame.Within, Utf8.length_encode]
    · rw [Codec.rebuild, declared]
      dsimp only
      rw [if_neg Bool.false_ne_true, rebuildGeneric, loaded]
  | handled o entry registered handler text declared named nearest written read within fits =>
    have hsome := closest?_eq_some_iff.mpr nearest
    refine ⟨.object o.typeName true (Utf8.encode text), ?_, ?_, ?_, ?_, ?_, ?_⟩
    · rw [frame, represent, c.catalog.searchOrder_of_declared declared, hsome]
      dsimp only
      rw [written]
      rfl
    · exact ⟨Nat.lt_succ_of_le named, by rwa [Utf8.length_encode]⟩
    · rwa [Frame.Within, Utf8.length_encode]
    · exact fun _ _ => ⟨text, rfl⟩
    · rw [Codec.rebuild, declared]
      dsimp only
      rw [if_pos rfl, Utf8.decode_encode]
      dsimp only
      rw [rebuildText, hsome]
      dsimp only
      rw [read]
      rfl
    · rw [Codec.notices, declared, Utf8.decode_encode]
      dsimp only
      rw [textNotices, hsome]
      rfl

/-- Writes the values one after the other and tells where each ends. -/
def encodeEach : List (Value ω) → Encode (List Nat)
  | [] => return []
  | v :: values => do
    c.encode v
    let stop := (← get).offset
    return stop :: (← encodeEach values)

/-- Reads so many values one after the other, and with each gives the reader behind it. -/
def decodeEach : Nat → Decode (List (Value ω × Reader))
  | 0 => return []
  | n + 1 => do
    let v ← c.decode
    let reader := (← get).toReader
    return (v, reader) :: (← decodeEach n)

theorem encodeEach_cons {v : Value ω} {values : List (Value ω)} {out mid out' : Writer}
    {stops : List Nat} (hv : c.encode v out = .ok () mid)
    (hvalues : c.encodeEach values mid = .ok stops out') :
    c.encodeEach (v :: values) out = .ok (mid.offset :: stops) out' := by
  rw [encodeEach, bind_eq_ok_iff]
  refine ⟨(), mid, hv, ?_⟩
  rw [bind_eq_ok_iff]
  refine ⟨mid, mid, rfl, ?_⟩
  rw [bind_eq_ok_iff]
  exact ⟨stops, out', hvalues, rfl⟩

theorem decodeEach_succ {n : Nat} {v : Value ω} {values : List (Value ω × Reader)}
    {input mid input' : Input} (hv : c.decode input = .ok v mid)
    (hvalues : c.decodeEach n mid = .ok values input') :
    c.decodeEach (n + 1) input = .ok ((v, mid.toReader) :: values) input' := by
  rw [decodeEach, bind_eq_ok_iff]
  refine ⟨v, mid, hv, ?_⟩
  rw [bind_eq_ok_iff]
  refine ⟨mid, mid, rfl, ?_⟩
  rw [bind_eq_ok_iff]
  exact ⟨values, input', hvalues, rfl⟩

theorem exists_form (values : List (Value ω)) (sendable : ∀ v ∈ values, c.Sendable v)
    (out : Writer) : ∃ stops form, c.encodeEach values out = .ok stops (out.append form) ∧
      stops.length = values.length ∧
      ∀ bytes notices, out.bytes ++ form <+: bytes →
        c.decodeEach values.length ⟨.into bytes out.offset, notices⟩ =
          .ok (values.zip (stops.map (Reader.into bytes)))
            ⟨.into bytes (out.append form).offset, notices⟩ := by
  induction values generalizing out with
  | nil =>
    refine ⟨[], [], ?_, rfl, ?_⟩
    · rw [Writer.append_nil]; rfl
    · intro bytes notices _
      rw [Writer.append_nil]; rfl
  | cons v values ih =>
    obtain ⟨f, hf⟩ := (sendable v List.mem_cons_self).exists_carries
    obtain ⟨stops, form, hencode, hlength, hdecode⟩ :=
      ih (fun v hv => sendable v (List.mem_cons_of_mem _ hv)) (out.append f.bytes)
    have hv : c.encode v out = .ok () (out.append f.bytes) :=
      c.encode_eq_ok_iff.mpr ⟨f, hf.frame, hf.fits, rfl⟩
    rw [Writer.append_append] at hencode hdecode
    refine ⟨(out.append f.bytes).offset :: stops, f.bytes ++ form, ?_, ?_, ?_⟩
    · exact c.encodeEach_cons hv hencode
    · rw [List.length_cons, hlength, List.length_cons]
    · intro bytes notices hbytes
      have hprefix : out.bytes ++ f.bytes <+: bytes := by
        rw [← List.append_assoc] at hbytes
        exact (List.prefix_append _ _).trans hbytes
      have hread : c.decode ⟨.into bytes out.offset, notices⟩ =
          .ok v ⟨.into bytes (out.append f.bytes).offset, notices⟩ := by
        rw [c.decode_eq_of_readable rfl hf.fits hf.within hf.readable (Reader.into_passes hprefix),
          hf.rebuild, hf.notices, List.append_nil]
        rfl
      have hrest := hdecode bytes notices (by rwa [Writer.append, List.append_assoc])
      exact c.decodeEach_succ hread hrest

theorem decodeEach_encodeEach (values : List (Value ω)) (sendable : ∀ v ∈ values, c.Sendable v)
    (out : Writer) (notices : List Notice) :
    ∃ stops out', c.encodeEach values out = .ok stops out' ∧ out.bytes <+: out'.bytes ∧
      stops.length = values.length ∧
      c.decodeEach values.length ⟨.into out'.bytes out.offset, notices⟩ =
        .ok (values.zip (stops.map (Reader.into out'.bytes)))
          ⟨.into out'.bytes out'.offset, notices⟩ ∧
      (Reader.into out'.bytes out'.offset).atEnd = true := by
  obtain ⟨stops, form, hencode, hlength, hdecode⟩ := c.exists_form values sendable out
  refine ⟨stops, out.append form, hencode, List.prefix_append _ _, hlength, ?_, ?_⟩
  · exact hdecode _ notices (List.prefix_refl _)
  · rw [Reader.into, Reader.atEnd, Writer.offset, List.drop_length]
    rfl

end Codec

/-- Points go through their handler and the unit by its document. -/
def sampleCodec : Codec Sample where
  catalog := ⟨(Registry.empty.insert SampleType.point.name
      ⟨⟨.concrete SampleType.point.loader, none, []⟩, [SampleType.point.name, rootName]⟩).insert
    SampleType.unit.name
      ⟨⟨.concrete SampleType.unit.loader, none, []⟩, [SampleType.unit.name, rootName]⟩⟩
  table := .register .empty SampleType.point.name SampleHandlers.point

def mixedStream : List (Value Sample) :=
  [.scalar (.double 0x7FF8000000000001), .object (.application (.point 1 (-2))),
    .scalar (.text "größer"), .object (.application .unit)]

theorem sendable_of_mem_mixedStream : ∀ v ∈ mixedStream, sampleCodec.Sendable v := by
  have hpoint : sampleCodec.Sendable (.object (.application (.point 1 (-2)))) := by
    refine .handled _ _ SampleType.point.name SampleHandlers.point "1,-2" rfl (by decide)
      ⟨[], [rootName], rfl, nofun, rfl⟩ (by decide +kernel) ?_ (by decide) (by decide)
    have hread : SampleHandlers.decodePoint "1,-2" = .ok (1, -2) := by decide +kernel
    exact congrArg
      (Except.map fun p : Int32 × Int32 => Value.object (.application (Sample.point p.1 p.2))) hread
  have hunit : sampleCodec.Sendable (.object (.application .unit)) := by
    refine .generic _ _ "null" rfl (by decide) (by decide) rfl ?_ (by decide) (by decide)
    have hload : (Document.parse? (Utf8.encode "null")).bind (Sample.read .unit) = some .unit := by
      decide +kernel
    exact congrArg (fun s => some (s.map Object.application)) hload
  intro v hv
  simp only [mixedStream, List.mem_cons, List.not_mem_nil, or_false] at hv
  obtain rfl | rfl | rfl | rfl := hv
  · exact .scalar _ nofun
  · exact hpoint
  · exact .text _ (by decide) (by decide)
  · exact hunit

theorem mixedStream_reads_back :
    (∀ v ∈ mixedStream, sampleCodec.Sendable v) ∧
    ∃ stops out', sampleCodec.encodeEach mixedStream ⟨[7]⟩ = .ok stops out' ∧
      [7] <+: out'.bytes ∧ stops.length = 4 ∧
      sampleCodec.decodeEach 4 ⟨.into out'.bytes 1, []⟩ =
        .ok (mixedStream.zip (stops.map (Reader.into out'.bytes)))
          ⟨.into out'.bytes out'.offset, []⟩ ∧
      (Reader.into out'.bytes out'.offset).atEnd = true :=
  ⟨sendable_of_mem_mixedStream,
    sampleCodec.decodeEach_encodeEach mixedStream sendable_of_mem_mixedStream ⟨[7]⟩ []⟩

end Remoting
