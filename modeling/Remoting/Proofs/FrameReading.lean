import Mathlib.Tactic.SplitIfs
import Remoting.Proofs.FrameForm

/-!
# What a reader accepts

`Reads step Form` says of a reading step that, on a reader not yet poisoned, it succeeds exactly
where one of the forms of a value stands next, gives that value, and stops behind the form. The
property passes from the parts of a step to the whole, so that in the end the frames accepted
under some settings are those that fit and respect the limits, each in its one form.
-/

namespace Remoting

open BigEndian (capacity)

/-- The second reader stands behind the bytes that come next in the first. -/
structure Reader.Passes (r : Reader) (w : Bytes) (r' : Reader) : Prop where
  rest : r.rest = w ++ r'.rest
  offset : r'.offset = r.offset + w.length
  poisoned : r'.poisoned = r.poisoned

namespace Reader

variable {r r' s : Reader} {u v w : Bytes}

theorem Passes.trans (h : r.Passes u s) (h' : s.Passes v r') : r.Passes (u ++ v) r' where
  rest := by rw [h.rest, h'.rest, List.append_assoc]
  offset := by rw [h'.offset, h.offset, List.length_append, Nat.add_assoc]
  poisoned := h'.poisoned.trans h.poisoned

theorem Passes.split (h : r.Passes (u ++ v) r') : ∃ s, r.Passes u s ∧ s.Passes v r' := by
  refine ⟨⟨r.offset + u.length, v ++ r'.rest, r.poisoned⟩, ⟨?_, rfl, rfl⟩, ⟨rfl, ?_, h.poisoned⟩⟩
  · rw [h.rest, List.append_assoc]
  · rw [h.offset, List.length_append, Nat.add_assoc]

theorem passes_nil_iff : r.Passes [] r' ↔ r' = r := by
  constructor
  · rintro ⟨hrest, hoffset, hpoisoned⟩
    cases r
    cases r'
    simp_all
  · rintro rfl
    exact ⟨rfl, rfl, rfl⟩

theorem Passes.unique (h : r.Passes w r') (h' : r.Passes w s) : r' = s := by
  have hrest : r'.rest = s.rest := List.append_cancel_left (h.rest.symm.trans h'.rest)
  have hoffset : r'.offset = s.offset := h.offset.trans h'.offset.symm
  have hpoisoned : r'.poisoned = s.poisoned := h.poisoned.trans h'.poisoned.symm
  cases r'
  cases s
  simp_all

theorem passes_of_prefix (h : w <+: r.rest) :
    r.Passes w ⟨r.offset + w.length, r.rest.drop w.length, r.poisoned⟩ := by
  obtain ⟨s, hs⟩ := h
  refine ⟨?_, rfl, rfl⟩
  rw [← hs, List.drop_left]

end Reader

def Reads {α : Type} (step : Read α) (Form : α → Bytes → Prop) : Prop :=
  ∀ r : Reader, r.poisoned = false → ∀ a r', step r = .ok a r' ↔ ∃ w, Form a w ∧ r.Passes w r'

namespace Reads

variable {α β : Type} {step : Read α} {F G : α → Bytes → Prop}

theorem congr (h : Reads step F) (hFG : ∀ a w, F a w ↔ G a w) : Reads step G := by
  intro r hr a r'
  rw [h r hr]
  exact exists_congr fun w => and_congr_left fun _ => hFG a w

theorem pure (a : α) : Reads (Pure.pure a) fun b w => b = a ∧ w = [] := by
  intro r _ b r'
  constructor
  · rintro ⟨⟩
    exact ⟨[], ⟨rfl, rfl⟩, Reader.passes_nil_iff.mpr rfl⟩
  · rintro ⟨_, ⟨rfl, rfl⟩, hp⟩
    rw [Reader.passes_nil_iff.mp hp]
    rfl

theorem failAt (offset : Nat) (cause : ByteFault.Cause) :
    Reads (Read.failAt offset cause : Read α) fun _ _ => False := by
  intro r _ a r'
  constructor
  · intro h
    cases h
  · rintro ⟨_, h, _⟩
    exact h.elim

theorem bind {next : α → Read β} {H : α → β → Bytes → Prop} (h : Reads step F)
    (hnext : ∀ a, Reads (next a) (H a)) :
    Reads (step >>= next) fun b w => ∃ a u v, F a u ∧ H a b v ∧ w = u ++ v := by
  intro r hr b r'
  rw [bind_eq_ok_iff]
  constructor
  · rintro ⟨a, s, hs, hrun⟩
    obtain ⟨u, hu, hpass⟩ := (h r hr a s).mp hs
    obtain ⟨v, hv, hpass'⟩ := (hnext a s (hpass.poisoned.trans hr) b r').mp hrun
    exact ⟨u ++ v, ⟨a, u, v, hu, hv, rfl⟩, hpass.trans hpass'⟩
  · rintro ⟨_, ⟨a, u, v, hu, hv, rfl⟩, hp⟩
    obtain ⟨s, hpass, hpass'⟩ := hp.split
    exact ⟨a, s, (h r hr a s).mpr ⟨u, hu, hpass⟩,
      (hnext a s (hpass.poisoned.trans hr) b r').mpr ⟨v, hv, hpass'⟩⟩

theorem map (f : α → β) (h : Reads step F) :
    Reads (f <$> step) fun b w => ∃ a, F a w ∧ b = f a := by
  rw [map_eq_pure_bind]
  apply (h.bind fun a => Reads.pure (f a)).congr
  intro b w
  constructor
  · rintro ⟨a, u, _, hu, ⟨rfl, rfl⟩, rfl⟩
    exact ⟨a, by rwa [List.append_nil], rfl⟩
  · rintro ⟨a, ha, rfl⟩
    exact ⟨a, w, [], ha, ⟨rfl, rfl⟩, (List.append_nil w).symm⟩

/-- A step may look at where it starts, for the sake of the faults that it reports. -/
theorem fromOffset {step : Read α} {rest : Nat → Read α}
    (h : ∀ start, Reads (rest start) F) (hstep : ∀ r, step r = rest r.offset r) : Reads step F := by
  intro r hr a r'
  rw [hstep r]
  exact h r.offset r hr a r'

theorem take (n : Nat) : Reads (Read.take n) fun a w => a = w ∧ w.length = n := by
  intro r hr a r'
  unfold Read.take
  rw [hr, if_neg Bool.false_ne_true]
  by_cases hlen : (r.rest.take n).length < n
  · rw [if_pos hlen]
    constructor
    · intro h
      cases h
    · rintro ⟨w, ⟨rfl, hn⟩, hp⟩
      rw [hp.rest, ← hn, List.take_left] at hlen
      omega
  · rw [if_neg hlen]
    have hn : (r.rest.take n).length = n := by
      have := List.length_take_le n r.rest
      omega
    have hpass := Reader.passes_of_prefix (List.take_prefix n r.rest)
    rw [hn, hr] at hpass
    constructor
    · rintro ⟨⟩
      exact ⟨_, ⟨rfl, hn⟩, hpass⟩
    · rintro ⟨w, ⟨rfl, hw⟩, hp⟩
      have hw' : r.rest.take n = a := by rw [hp.rest, ← hw, List.take_left]
      rw [hw'] at hpass
      rw [hp.unique hpass, hw']

theorem word (width : Nat) :
    Reads (Read.word width) fun n w => n < capacity width ∧ w = BigEndian.encode width n := by
  apply ((take width).map BigEndian.decode).congr
  intro n w
  constructor
  · rintro ⟨_, ⟨rfl, rfl⟩, rfl⟩
    exact ⟨BigEndian.decode_lt _, (BigEndian.encode_decode _).symm⟩
  · rintro ⟨hn, rfl⟩
    exact ⟨_, ⟨rfl, BigEndian.length_encode _ _⟩, (BigEndian.decode_encode hn).symm⟩

/-- Values that are held in another type, with `hold` and `view` inverse to each other on those
that have a form. -/
theorem held {P : α → Prop} {form : α → Bytes} (hold : α → β) (view : β → α)
    (h : Reads step fun a w => P a ∧ w = form a) (hview : ∀ a, P a → view (hold a) = a)
    (hhold : ∀ b, P (view b) ∧ hold (view b) = b) :
    Reads (hold <$> step) fun b w => w = form (view b) := by
  apply (h.map hold).congr
  intro b w
  constructor
  · rintro ⟨a, ⟨ha, rfl⟩, rfl⟩
    rw [hview a ha]
  · rintro rfl
    exact ⟨view b, ⟨(hhold b).1, rfl⟩, (hhold b).2.symm⟩

theorem uint8 : Reads Read.uint8 fun v w => w = [v] := by
  have h := held UInt8.ofNat UInt8.toNat (word 1) (fun n hn => UInt8.toNat_ofNat_of_lt' hn)
    fun v => ⟨v.toNat_lt, UInt8.ofNat_toNat⟩
  exact h.congr fun v w => by rw [BigEndian.encode_one]

theorem uint16 : Reads Read.uint16 fun v w => w = BigEndian.encode 2 v.toNat :=
  held UInt16.ofNat UInt16.toNat (word 2) (fun _ hn => UInt16.toNat_ofNat_of_lt' hn)
    fun v => ⟨v.toNat_lt, UInt16.ofNat_toNat⟩

theorem uint32 : Reads Read.uint32 fun v w => w = BigEndian.encode 4 v.toNat :=
  held UInt32.ofNat UInt32.toNat (word 4) (fun _ hn => UInt32.toNat_ofNat_of_lt' hn)
    fun v => ⟨v.toNat_lt, UInt32.ofNat_toNat⟩

theorem uint64 : Reads Read.uint64 fun v w => w = BigEndian.encode 8 v.toNat :=
  held UInt64.ofNat UInt64.toNat (word 8) (fun _ hn => UInt64.toNat_ofNat_of_lt' hn)
    fun v => ⟨v.toNat_lt, UInt64.ofNat_toNat⟩

/-- A signed word has the form of the unsigned word with the same bits. -/
theorem signed {form : α → Bytes} (hold : α → β) (view : β → α)
    (h : Reads step fun a w => w = form a) (hview : ∀ a, view (hold a) = a)
    (hhold : ∀ b, hold (view b) = b) : Reads (hold <$> step) fun b w => w = form (view b) := by
  have htrue : Reads step fun a w => True ∧ w = form a := h.congr fun _ _ => by rw [true_and]
  exact held hold view htrue (fun a _ => hview a) fun b => ⟨trivial, hhold b⟩

theorem int8 : Reads Read.int8 fun v w => w = BigEndian.encode 1 v.toUInt8.toNat :=
  (signed UInt8.toInt8 Int8.toUInt8 uint8 (fun _ => rfl) fun _ => rfl).congr fun v w => by
    rw [BigEndian.encode_one]

theorem int16 : Reads Read.int16 fun v w => w = BigEndian.encode 2 v.toUInt16.toNat :=
  signed UInt16.toInt16 Int16.toUInt16 uint16 (fun _ => rfl) fun _ => rfl

theorem int32 : Reads Read.int32 fun v w => w = BigEndian.encode 4 v.toUInt32.toNat :=
  signed UInt32.toInt32 Int32.toUInt32 uint32 (fun _ => rfl) fun _ => rfl

theorem int64 : Reads Read.int64 fun v w => w = BigEndian.encode 8 v.toUInt64.toNat :=
  signed UInt64.toInt64 Int64.toUInt64 uint64 (fun _ => rfl) fun _ => rfl

theorem boolean : Reads Read.boolean fun b w => w = [flag b] := by
  have hbyte (start : Nat) (byte : UInt8) :
      Reads (if byte = 0 then return false
        else if byte = 1 then return true
        else Read.failAt start (.badBoolean byte)) fun b w => byte = flag b ∧ w = [] := by
    split_ifs with h0 h1
    · exact (pure false).congr fun b w => by cases b <;> simp [h0, flag]
    · exact (pure true).congr fun b w => by cases b <;> simp [h1, flag]
    · exact (failAt start _).congr fun b w => by cases b <;> simp [h0, h1, flag]
  refine fromOffset (fun start => (uint8.bind (hbyte start)).congr ?_) fun _ => rfl
  intro b w
  constructor
  · rintro ⟨_, _, _, rfl, ⟨rfl, rfl⟩, rfl⟩
    rfl
  · rintro rfl
    exact ⟨flag b, _, [], rfl, ⟨rfl, rfl⟩, rfl⟩

theorem lengthUpTo (width limit : Nat) :
    Reads (Read.lengthUpTo width limit) fun n w =>
      (n ≤ limit ∧ n < capacity width) ∧ w = BigEndian.encode width n := by
  have hlength (start n : Nat) :
      Reads (if n ≤ limit then return n else Read.failAt start (.overLimit n limit))
        fun m w => n ≤ limit ∧ m = n ∧ w = [] := by
    split_ifs with hn
    · exact (pure n).congr fun m w => by rw [and_iff_right hn]
    · exact (failAt start _).congr fun m w => by rw [false_iff]; exact fun h => hn h.1
  refine fromOffset (fun start => ((word width).bind (hlength start)).congr ?_) fun _ => rfl
  intro n w
  constructor
  · rintro ⟨_, _, _, ⟨hn, rfl⟩, ⟨hlimit, rfl, rfl⟩, rfl⟩
    exact ⟨⟨hlimit, hn⟩, List.append_nil _⟩
  · rintro ⟨⟨hlimit, hn⟩, rfl⟩
    exact ⟨n, _, [], ⟨hn, rfl⟩, ⟨hlimit, rfl, rfl⟩, (List.append_nil _).symm⟩

theorem decodedText (start : Nat) (bytes : Bytes) :
    Reads (match Utf8.decode bytes with
      | .ok text => return text
      | .error fault => Read.failAt start (.badText fault))
      fun text w => bytes = Utf8.encode text ∧ w = [] := by
  cases hd : Utf8.decode bytes with
  | ok text =>
    apply (pure text).congr
    intro t w
    have ht : t = text ↔ bytes = Utf8.encode t := by
      constructor
      · rintro rfl
        exact Utf8.eq_encode_of_decode hd
      · rintro rfl
        rw [Utf8.decode_encode] at hd
        exact Except.ok.inj hd
    rw [ht]
  | error fault =>
    apply (failAt start _).congr
    intro t w
    rw [false_iff]
    rintro ⟨rfl, -⟩
    rw [Utf8.decode_encode] at hd
    cases hd

theorem utf8 (length : Nat) :
    Reads (Read.utf8 length) fun text w => w = Utf8.encode text ∧ w.length = length := by
  refine fromOffset (fun start => ((take length).bind (decodedText start)).congr ?_) fun _ => rfl
  intro text w
  constructor
  · rintro ⟨_, _, _, ⟨rfl, hlen⟩, ⟨rfl, rfl⟩, rfl⟩
    rw [List.append_nil]
    exact ⟨rfl, hlen⟩
  · rintro ⟨rfl, hlen⟩
    exact ⟨_, _, [], ⟨rfl, hlen⟩, ⟨rfl, rfl⟩, (List.append_nil _).symm⟩

/-- Bytes behind their number: the number is read first and says how many bytes follow. -/
theorem behindLength {width : Nat} {P : Nat → Prop} {length : Read Nat} {next : Nat → Read α}
    (form : α → Bytes)
    (hlength : Reads length fun n w => P n ∧ w = BigEndian.encode width n)
    (hnext : ∀ n, Reads (next n) fun a w => w = form a ∧ w.length = n) :
    Reads (length >>= next) fun a w => P (form a).length ∧ w = counted width (form a) := by
  apply (hlength.bind hnext).congr
  intro a w
  constructor
  · rintro ⟨_, _, _, ⟨hn, rfl⟩, ⟨rfl, rfl⟩, rfl⟩
    exact ⟨hn, rfl⟩
  · rintro ⟨hn, rfl⟩
    exact ⟨_, _, _, ⟨hn, rfl⟩, ⟨rfl, rfl⟩, rfl⟩

theorem shortText : Reads Read.shortText fun text w =>
    text.utf8ByteSize < capacity Layout.nameLengthWidth ∧
      w = counted Layout.nameLengthWidth (Utf8.encode text) :=
  (behindLength Utf8.encode (word Layout.nameLengthWidth) utf8).congr fun text w => by
    rw [Utf8.length_encode]

theorem text (limit : Nat) : Reads (Read.text limit) fun text w =>
    (text.utf8ByteSize ≤ limit ∧ text.utf8ByteSize < capacity Layout.textLengthWidth) ∧
      w = counted Layout.textLengthWidth (Utf8.encode text) :=
  (behindLength Utf8.encode (lengthUpTo Layout.textLengthWidth limit) utf8).congr fun text w => by
    rw [Utf8.length_encode]

theorem counted (limit : Nat) : Reads (Read.counted limit) fun payload w =>
    (payload.length ≤ limit ∧ payload.length < capacity Layout.payloadLengthWidth) ∧
      w = Remoting.counted Layout.payloadLengthWidth payload :=
  behindLength id (lengthUpTo Layout.payloadLengthWidth limit) fun n =>
    (take n).congr fun _ _ => by rw [id_eq, eq_comm]

end Reads

theorem Tag.ordinal_inj {t t' : Tag} : t.ordinal = t'.ordinal ↔ t = t' := by
  constructor
  · intro h
    have ht := congrArg Tag.ofOrdinal? h
    rw [Tag.ofOrdinal?_ordinal, Tag.ofOrdinal?_ordinal] at ht
    exact Option.some.inj ht
  · exact congrArg Tag.ordinal

theorem Scalar.tag_ne_object (s : Scalar) : s.tag ≠ .object := by
  cases s <;> exact Tag.noConfusion

def Scalar.Within (settings : Settings) : Scalar → Prop
  | .text value => value.utf8ByteSize ≤ settings.textLimit
  | _ => True

def Frame.Within (settings : Settings) : Frame → Prop
  | .scalar value => value.Within settings
  | .object _ _ payload => payload.length ≤ settings.payloadLimit

namespace Reads

open Remoting.Frame (readTag readScalar readObject)

theorem tagOf (start : Nat) (byte : UInt8) :
    Reads (match Tag.ofOrdinal? byte with
      | some tag => return tag
      | none => Read.failAt start (.unknownTag byte)) fun t w => byte = t.ordinal ∧ w = [] := by
  cases ht : Tag.ofOrdinal? byte with
  | some tag =>
    apply (pure tag).congr
    intro t w
    have hbyte : t = tag ↔ byte = t.ordinal := by
      constructor
      · rintro rfl
        exact (Tag.ordinal_of_ofOrdinal? ht).symm
      · rintro rfl
        exact Option.some.inj ((Tag.ofOrdinal?_ordinal t).symm.trans ht)
    rw [hbyte]
  | none =>
    apply (failAt start _).congr
    intro t w
    rw [false_iff]
    rintro ⟨rfl, -⟩
    rw [Tag.ofOrdinal?_ordinal] at ht
    cases ht

theorem tag : Reads readTag fun t w => w = [t.ordinal] := by
  refine fromOffset (fun start => (uint8.bind (tagOf start)).congr ?_) fun _ => rfl
  intro t w
  constructor
  · rintro ⟨_, _, _, rfl, ⟨rfl, rfl⟩, rfl⟩
    rfl
  · rintro rfl
    exact ⟨_, _, [], rfl, ⟨rfl, rfl⟩, rfl⟩

theorem scalar (settings : Settings) (t : Tag) (ht : t ≠ .object) :
    Reads (readScalar settings t) fun s w =>
      s.tag = t ∧ (s.Fits ∧ s.Within settings) ∧ w = s.body := by
  cases t
  case object => exact absurd rfl ht
  case' null => apply (pure Scalar.null).congr
  case' boolean => apply (boolean.map Scalar.boolean).congr
  case' byte => apply (int8.map Scalar.byte).congr
  case' short => apply (int16.map Scalar.short).congr
  case' int => apply (int32.map Scalar.int).congr
  case' long => apply (int64.map Scalar.long).congr
  case' float => apply (uint32.map Scalar.float).congr
  case' double => apply (uint64.map Scalar.double).congr
  case' char => apply (uint16.map Scalar.char).congr
  case' text => apply ((text settings.textLimit).map Scalar.text).congr
  all_goals
    intro s w
    cases s <;> simp [Scalar.tag, Scalar.Fits, Scalar.Within, Scalar.body, and_comm]

theorem scalarFrame (settings : Settings) (t : Tag) (ht : t ≠ .object) :
    Reads (Frame.scalar <$> readScalar settings t) fun f w =>
      (f.Fits ∧ f.Within settings) ∧ [t.ordinal] ++ w = f.bytes := by
  apply ((scalar settings t ht).map Frame.scalar).congr
  intro f w
  constructor
  · rintro ⟨s, ⟨rfl, hok, rfl⟩, rfl⟩
    exact ⟨hok, rfl⟩
  · rintro ⟨hok, hw⟩
    cases f with
    | scalar s =>
      have hcons := List.cons.inj hw
      exact ⟨s, ⟨(Tag.ordinal_inj.mp hcons.1).symm, hok, hcons.2⟩, rfl⟩
    | object => exact absurd (Tag.ordinal_inj.mp (List.cons.inj hw).1) ht

theorem objectFrame (settings : Settings) : Reads (readObject settings) fun f w =>
    (f.Fits ∧ f.Within settings) ∧ [Tag.object.ordinal] ++ w = f.bytes := by
  have hpayload (typeName : String) (custom : Bool) :=
    (counted settings.payloadLimit).bind fun payload =>
      pure (Frame.object typeName custom payload)
  apply (shortText.bind fun typeName => boolean.bind (hpayload typeName)).congr
  intro f w
  constructor
  · rintro ⟨typeName, _, _, ⟨hname, rfl⟩, ⟨custom, _, _, rfl,
      ⟨payload, _, _, ⟨⟨hlimit, hfit⟩, rfl⟩, ⟨rfl, rfl⟩, rfl⟩, rfl⟩, rfl⟩
    refine ⟨⟨⟨hname, hfit⟩, hlimit⟩, ?_⟩
    rw [List.append_nil, Frame.bytes, Frame.objectBody]
  · rintro ⟨hok, hw⟩
    cases f with
    | scalar s => exact absurd (Tag.ordinal_inj.mp (List.cons.inj hw).1) s.tag_ne_object.symm
    | object typeName custom payload =>
      obtain ⟨⟨hname, hfit⟩, hlimit⟩ := hok
      refine ⟨typeName, _, _, ⟨hname, rfl⟩, ⟨custom, _, _, rfl,
        ⟨payload, _, [], ⟨⟨hlimit, hfit⟩, rfl⟩, ⟨rfl, rfl⟩, rfl⟩, rfl⟩, ?_⟩
      rw [List.append_nil, List.append_cancel_left hw, Frame.objectBody]

theorem frameBehind (settings : Settings) (t : Tag) :
    Reads (match t with
      | .object => readObject settings
      | t => .scalar <$> readScalar settings t) fun f w =>
      (f.Fits ∧ f.Within settings) ∧ [t.ordinal] ++ w = f.bytes := by
  by_cases ht : t = .object
  · subst ht
    exact objectFrame settings
  · cases t <;> first | exact scalarFrame settings _ ht | exact absurd rfl ht

/-- The frames that are read are those that fit and respect the limits, each in its one form. -/
theorem frame (settings : Settings) : Reads (Frame.read settings) fun f w =>
    (f.Fits ∧ f.Within settings) ∧ w = f.bytes := by
  apply (tag.bind (frameBehind settings)).congr
  intro f w
  constructor
  · rintro ⟨t, _, v, rfl, ⟨hok, hw⟩, rfl⟩
    exact ⟨hok, hw⟩
  · rintro ⟨hok, rfl⟩
    cases f with
    | scalar s => exact ⟨s.tag, _, s.body, rfl, ⟨hok, rfl⟩, rfl⟩
    | object typeName custom payload =>
      exact ⟨.object, _, Frame.objectBody typeName custom payload, rfl, ⟨hok, rfl⟩, rfl⟩

end Reads

/-- No form is the beginning of another. -/
theorem Frame.eq_of_prefix {f g : Frame} {bytes : Bytes} (hf : f.Fits) (hg : g.Fits)
    (hfp : f.bytes <+: bytes) (hgp : g.bytes <+: bytes) : f = g := by
  let settings : Settings := { textLimit := 2 ^ 32, payloadLimit := 2 ^ 32 }
  have within {f : Frame} (h : f.Fits) : f.Within settings := by
    cases f with
    | scalar s => cases s <;> first | exact trivial | exact le_of_lt h
    | object => exact le_of_lt h.2
  have read {f : Frame} (h : f.Fits) (hp : f.bytes <+: bytes) :
      ∃ r, Frame.read settings (.ofBytes bytes) = .ok f r :=
    ⟨_, (Reads.frame settings (.ofBytes bytes) rfl f _).mpr
      ⟨_, ⟨⟨h, within h⟩, rfl⟩, Reader.passes_of_prefix hp⟩⟩
  obtain ⟨_, hfr⟩ := read hf hfp
  obtain ⟨_, hgr⟩ := read hg hgp
  rw [hfr] at hgr
  cases hgr
  rfl

end Remoting
