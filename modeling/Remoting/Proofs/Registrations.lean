import Mathlib.Data.List.Induction
import Remoting.Proofs.AtomicWriting
import Remoting.Proofs.CatalogReopening

/-!
# Which types a registration reaches

Of all calls on a table only the last registration of each name behind the last clear counts. A
registration reaches the types in whose search order its name comes before all other registered
names: their objects go through its handler from then on, and so do texts that are read for those
of them that are declared. All other types are written and read as they were before.
-/

namespace Remoting

variable {ω : Type} [Portable ω]

inductive TableCall (ω : Type) where
  | register (name : String) (encode : Object ω → Except String String)
      (decode : String → Except String (Value ω))
  | registerSerializer (name : String) (serializer : Handler ω)
  | registerTyped {α : Type} (typeName : String) (view : Object ω → Option α)
      (inject : α → Object ω) (encode : α → Except String String)
      (decode : String → Except String α)
  | clear

namespace TableCall

def registration? : TableCall ω → Option (String × Handler ω)
  | .register name encode decode => some (name, ⟨encode, decode⟩)
  | .registerSerializer name serializer => some (name, serializer)
  | .registerTyped typeName view inject encode decode =>
    some (typeName, .typed typeName view inject encode decode)
  | .clear => none

def isClear (call : TableCall ω) : Bool :=
  call.registration?.isNone

/-- The handler that the call registers under the name. -/
def handler? (call : TableCall ω) (name : String) : Option (Handler ω) :=
  (call.registration?.filter (·.1 = name)).map (·.2)

/-- The calls behind the last clear, latest first. -/
def sinceClear (calls : List (TableCall ω)) : List (TableCall ω) :=
  calls.reverse.takeWhile (!·.isClear)

/-- What counts under a name after the calls: its last registration behind the last clear, or else
what the table held at first, if that was not cleared. -/
def standing (table : HandlerTable ω) (calls : List (TableCall ω)) (name : String) :
    Option (Handler ω) :=
  ((sinceClear calls).findSome? (·.handler? name)).or
    (if calls.any (·.isClear) then none else table.get? name)

end TableCall

namespace HandlerTable

variable {table : HandlerTable ω} {call : TableCall ω} {name other : String} {handler : Handler ω}
  {order : List String}

def apply (table : HandlerTable ω) : TableCall ω → HandlerTable ω
  | .register name encode decode => table.register name ⟨encode, decode⟩
  | .registerSerializer name serializer => table.register name serializer
  | .registerTyped typeName view inject encode decode =>
    table.register typeName (.typed typeName view inject encode decode)
  | .clear => table.clear

theorem get?_apply_of_registration (h : call.registration? = some (name, handler))
    (other : String) :
    (table.apply call).get? other = if other = name then some handler else table.get? other := by
  cases call with
  | register | registerSerializer | registerTyped =>
    cases h
    exact Registry.get?_insert ..
  | clear => cases h

theorem get?_apply (table : HandlerTable ω) (call : TableCall ω) (other : String) :
    (table.apply call).get? other =
      (call.handler? other).or (if call.isClear then none else table.get? other) := by
  cases hcall : call.registration? with
  | none =>
    obtain rfl : call = .clear := by
      cases call with
      | clear => rfl
      | register | registerSerializer | registerTyped => cases hcall
    rfl
  | some registration =>
    obtain ⟨name, handler⟩ := registration
    rw [get?_apply_of_registration hcall, TableCall.handler?, TableCall.isClear, hcall]
    by_cases hname : other = name
    · simp [Option.filter_some, hname]
    · simp [Option.filter_some, hname, Ne.symm hname]

/-- What counts is what the table holds. -/
theorem get?_foldl_apply (table : HandlerTable ω) (calls : List (TableCall ω)) (other : String) :
    (calls.foldl apply table).get? other = TableCall.standing table calls other := by
  induction calls using List.reverseRecOn with
  | nil => rfl
  | append_singleton calls call ih =>
    rw [List.foldl_append, List.foldl_cons, List.foldl_nil, get?_apply, ih]
    simp only [TableCall.standing, TableCall.sinceClear, List.reverse_append,
      List.reverse_singleton, List.singleton_append, List.takeWhile_cons, List.any_append,
      List.any_cons, List.any_nil, Bool.or_false]
    cases hclear : call.isClear with
    | true =>
      have hnothing : call.handler? other = none := by
        rw [TableCall.handler?, Option.isNone_iff_eq_none.mp hclear]
        rfl
      simp [hnothing]
    | false =>
      simp only [Bool.not_false, if_true, List.findSome?_cons, Bool.or_false]
      cases call.handler? other <;> rfl

/-- Nothing is registered in front of where the name first stands. -/
def Reaches (table : HandlerTable ω) (order : List String) (name : String) : Prop :=
  ∃ nearer farther, order = nearer ++ name :: farther ∧ name ∉ nearer ∧
    ∀ other ∈ nearer, table.get? other = none

theorem Reaches.nearest (h : table.Reaches order name)
    (hcall : call.registration? = some (name, handler)) :
    (table.apply call).Nearest order name handler := by
  obtain ⟨nearer, farther, horder, hfirst, hnearer⟩ := h
  refine ⟨nearer, farther, horder, fun other hother => ?_, ?_⟩
  · have hne : other ≠ name := fun heq => hfirst (heq ▸ hother)
    rw [get?_apply_of_registration hcall, if_neg hne]
    exact hnearer other hother
  · rw [get?_apply_of_registration hcall, if_pos rfl]

theorem closest?_apply_of_not_reaches (h : ¬ table.Reaches order name)
    (hcall : call.registration? = some (name, handler)) :
    closest? order (table.apply call) = closest? order table := by
  induction order with
  | nil => rfl
  | cons first order ih =>
    have hne : first ≠ name := by
      rintro rfl
      exact h ⟨[], order, rfl, List.not_mem_nil, List.forall_mem_nil _⟩
    rw [closest?, closest?, List.findSome?_cons, List.findSome?_cons,
      get?_apply_of_registration hcall, if_neg hne]
    cases hfirst : table.get? first with
    | some found => rfl
    | none =>
      refine ih fun hreaches => h ?_
      obtain ⟨nearer, farther, horder, hnearer, hfree⟩ := hreaches
      refine ⟨first :: nearer, farther, congrArg (first :: ·) horder, ?_, ?_⟩
      · exact List.not_mem_cons_of_ne_of_not_mem hne.symm hnearer
      · exact List.forall_mem_cons.mpr ⟨hfirst, hfree⟩

end HandlerTable

/-- What becomes of an object that is written by a handler registered under the name. -/
inductive Handler.Writes (handler : Handler ω) (registered : String) (o : Object ω)
    (out : Writer) : EStateM.Result CodecError Writer Unit → Prop where
  | written (text : String) (encoded : handler.encode o = .ok text)
      (fits : (Frame.object o.typeName true (Utf8.encode text)).Fits) :
      handler.Writes registered o out
        (.ok () (out.append (Frame.object o.typeName true (Utf8.encode text)).bytes))
  | refused (reason : String) (named : o.typeName.utf8ByteSize ≤ 65535)
      (encoded : handler.encode o = .error reason) :
      handler.Writes registered o out (.error (.custom registered reason) out)
  | longName (long : 65535 < o.typeName.utf8ByteSize) :
      handler.Writes registered o out
        (.error (.stream ⟨out.offset + 1, .textTooLong o.typeName.utf8ByteSize⟩) out)
  | longText (text : String) (named : o.typeName.utf8ByteSize ≤ 65535)
      (encoded : handler.encode o = .ok text) (long : 2 ^ 32 ≤ (Utf8.encode text).length) :
      handler.Writes registered o out
        (.error (.stream ⟨out.offset + 4 + o.typeName.utf8ByteSize,
          .payloadTooLong (Utf8.encode text).length⟩) out)

namespace Codec

variable {c c' : Codec ω} {typeName registered : String} {handler : Handler ω} {o : Object ω}
  {input : Input} {r : Reader} {custom : Bool} {payload : Bytes}

theorem writes_of_nearest
    (h : c.table.Nearest (c.catalog.searchOrder o.typeName) registered handler) (out : Writer) :
    handler.Writes registered o out (c.encode (.object o) out) := by
  rcases Nat.lt_or_ge 65535 o.typeName.utf8ByteSize with long | named
  · rw [c.encode_of_refuses (.longName o long)]
    exact .longName long
  cases encoded : handler.encode o with
  | error reason =>
    rw [c.encode_of_refuses (.handler o registered handler reason named h encoded)]
    exact .refused reason named encoded
  | ok text =>
    have hsends : c.Sends o true (Utf8.encode text) := .handled registered handler text h encoded
    rcases Nat.lt_or_ge (Utf8.encode text).length (2 ^ 32) with short | long
    · have fits : (Frame.object o.typeName true (Utf8.encode text)).Fits :=
        ⟨Nat.lt_succ_of_le named, short⟩
      have hframe : c.frame (.object o) = .ok (.object o.typeName true (Utf8.encode text)) :=
        c.frame_object_eq_ok_iff.mpr ⟨_, _, c.represent_of_sends hsends, rfl⟩
      have hwritten : c.encode (.object o) out =
          .ok () (out.append (Frame.object o.typeName true (Utf8.encode text)).bytes) :=
        c.encode_eq_ok_iff.mpr ⟨_, hframe, fits, rfl⟩
      rw [hwritten]
      exact .written text encoded fits
    · rw [c.encode_of_refuses (.longPayload o true _ named hsends long)]
      exact .longText text named encoded long

theorem decode_of_read_object
    (h : Frame.read c.settings input.toReader = .ok (.object typeName custom payload) r) :
    c.decode input = c.decodeObject typeName custom payload { input with toReader := r } := by
  have hlift : Decode.lift (Frame.read c.settings) input =
      .ok (.object typeName custom payload) { input with toReader := r } := by
    rw [Decode.lift, h]
  exact bind_of_ok hlift

theorem decode_of_nearest {entry : Catalog.Entry ω} {text : String}
    (hentry : c.catalog.get? typeName = some entry)
    (h : c.table.Nearest entry.lineage registered handler)
    (hread : Frame.read c.settings input.toReader =
      .ok (.object typeName true (Utf8.encode text)) r) :
    c.decode input = Decode.conclude ((handler.decode text).mapError (.custom registered))
      { input with toReader := r } := by
  have hclosest := closest?_eq_some_iff.mpr h
  rw [decode_of_read_object hread, decodeObject, hentry]
  dsimp only
  rw [if_pos rfl, decodeCustom_eq_of_text, rebuildText, textNotices, hclosest, Option.isSome_some,
    if_pos rfl, List.append_nil]

/-- Without the type, or without a text, no handler is asked. -/
theorem decode_eq_of_unasked (hcatalog : c'.catalog = c.catalog)
    (hsettings : c'.settings = c.settings)
    (hread : Frame.read c.settings input.toReader = .ok (.object typeName custom payload) r)
    (h : c.catalog.get? typeName = none ∨ custom = false ∨ ∀ text, payload ≠ Utf8.encode text) :
    c'.decode input = c.decode input := by
  have hread' :
      Frame.read c'.settings input.toReader = .ok (.object typeName custom payload) r := by
    rw [hsettings]
    exact hread
  rw [decode_of_read_object hread, decode_of_read_object hread', decodeObject, decodeObject,
    hcatalog]
  cases hentry : c.catalog.get? typeName with
  | none => rfl
  | some entry =>
    cases custom with
    | false => rfl
    | true =>
      dsimp only
      rw [if_pos rfl, if_pos rfl, decodeCustom, decodeCustom]
      cases hdecode : Utf8.decode payload with
      | error fault => rfl
      | ok text =>
        obtain hundeclared | hgeneric | htext := h
        · rw [hentry] at hundeclared
          cases hundeclared
        · cases hgeneric
        · exact absurd (Utf8.eq_encode_of_decode hdecode) (htext text)

/-- The codec after so many calls on its table. -/
def after (c : Codec ω) (calls : List (TableCall ω)) : Codec ω :=
  { c with table := calls.foldl HandlerTable.apply c.table }

theorem agreesOn_after {calls calls' : List (TableCall ω)}
    (h : ∀ name, TableCall.standing c.table calls name = TableCall.standing c.table calls' name)
    (typeName : String) : (c.after calls).AgreesOn (c.after calls') typeName where
  settings := rfl
  entry := rfl
  handler := by
    refine closest?_congr fun name _ => ?_
    rw [after, after, HandlerTable.get?_foldl_apply, HandlerTable.get?_foldl_apply, h]

theorem agreesOn_after_of_not_reaches {call : TableCall ω}
    (hcall : call.registration? = some (registered, handler))
    (h : ¬ c.table.Reaches (c.catalog.searchOrder typeName) registered) :
    c.AgreesOn (c.after [call]) typeName where
  settings := rfl
  entry := rfl
  handler := HandlerTable.closest?_apply_of_not_reaches h hcall

/-- Of the calls on a table only what stands in the end makes a difference. A registration serves
the types whose search order comes to its name first, and leaves all others as they were. -/
theorem registrations_reach_their_types (c : Codec ω) :
    (∀ calls calls' : List (TableCall ω),
      (∀ name, TableCall.standing c.table calls name = TableCall.standing c.table calls' name) →
      (∀ v, (c.after calls').encode v = (c.after calls).encode v) ∧
      ∀ input, (c.after calls').decode input = (c.after calls).decode input) ∧
    ∀ (call : TableCall ω) (registered : String) (handler : Handler ω),
      call.registration? = some (registered, handler) → ∀ typeName,
      (c.table.Reaches (c.catalog.searchOrder typeName) registered →
        (∀ (o : Object ω) (out : Writer), o.typeName = typeName →
          handler.Writes registered o out ((c.after [call]).encode (.object o) out)) ∧
        (∀ (input : Input) (text : String) (r : Reader), (c.catalog.get? typeName).isSome →
          Frame.read c.settings input.toReader =
            .ok (.object typeName true (Utf8.encode text)) r →
          (c.after [call]).decode input =
            Decode.conclude ((handler.decode text).mapError (.custom registered))
              { input with toReader := r }) ∧
        ∀ (input : Input) (custom : Bool) (payload : Bytes) (r : Reader),
          Frame.read c.settings input.toReader = .ok (.object typeName custom payload) r →
          (c.catalog.get? typeName = none ∨ custom = false ∨
            ∀ text, payload ≠ Utf8.encode text) →
          (c.after [call]).decode input = c.decode input) ∧
      (¬ c.table.Reaches (c.catalog.searchOrder typeName) registered →
        (∀ o : Object ω, o.typeName = typeName →
          (c.after [call]).encode (.object o) = c.encode (.object o)) ∧
        ∀ input : Input, input.NextTyped c.settings (· = typeName) →
          (c.after [call]).decode input = c.decode input) := by
  refine ⟨fun calls calls' h => ⟨fun v => ?_, fun input => ?_⟩, ?_⟩
  · cases v with
    | scalar s => rfl
    | object o => exact (agreesOn_after h o.typeName).encode_eq
  · have hsettings : (c.after calls').settings = (c.after calls).settings := rfl
    exact decode_eq_of_agrees hsettings fun _ _ typeName _ _ => agreesOn_after h typeName
  · intro call registered handler hcall typeName
    refine ⟨fun hreaches => ⟨?_, ?_, ?_⟩, fun hreaches => ⟨?_, ?_⟩⟩
    · rintro o out rfl
      exact writes_of_nearest (hreaches.nearest hcall) out
    · intro input text r hdeclared hread
      obtain ⟨entry, hentry⟩ := Option.isSome_iff_exists.mp hdeclared
      rw [Catalog.searchOrder_of_declared _ hentry] at hreaches
      exact decode_of_nearest hentry (hreaches.nearest hcall) hread
    · exact fun input custom payload r hread => decode_eq_of_unasked rfl rfl hread
    · rintro o rfl
      exact (agreesOn_after_of_not_reaches hcall hreaches).encode_eq
    · intro input htyped
      have hsettings : (c.after [call]).settings = c.settings := rfl
      refine decode_eq_of_agrees hsettings fun f r name hread hname => ?_
      obtain rfl := htyped f r name hread hname
      exact agreesOn_after_of_not_reaches hcall hreaches

/-- Knows the unit and has a handler for everything. -/
def unitNamingCodec : Codec Sample :=
  { unitCodec with table := namingCodec.table }

def shouting : Handler Sample where
  encode _ := .ok "U"
  decode text := .ok (.scalar (.text text))

/-- The unit as the shouting handler writes it. -/
def shoutedUnit : Bytes :=
  [10, 0, 9, 109, 105, 115, 99, 46, 85, 110, 105, 116, 1, 0, 0, 0, 1, 85]

theorem read_shoutedUnit : Frame.read {} (Input.ofBytes shoutedUnit).toReader =
    .ok (.object "misc.Unit" true (Utf8.encode "U")) ⟨18, [], false⟩ := by
  have htext : Utf8.encode "U" = [85] := rfl
  rw [htext]
  rfl

theorem unit_reached_by_its_name :
    let c := unitNamingCodec
    let call : TableCall Sample := .registerSerializer "misc.Unit" shouting
    let other : TableCall Sample := .register "object" shouting.encode shouting.decode
    c.table.Reaches (c.catalog.searchOrder "misc.Unit") "misc.Unit" ∧
    shouting.Writes "misc.Unit" (.application .unit) {}
      ((c.after [call]).encode (.object (.application .unit)) {}) ∧
    (c.after [call]).decode (.ofBytes shoutedUnit) =
      .ok (.scalar (.text "U")) ⟨⟨18, [], false⟩, []⟩ ∧
    ¬ c.table.Reaches (c.catalog.searchOrder "geo.Point") "misc.Unit" ∧
    (c.after [call]).encode (.object (.application (.point 1 2))) =
      c.encode (.object (.application (.point 1 2))) ∧
    ∀ v, (c.after [.clear, call, other]).encode v =
      (c.after [other, .clear, other, call, call]).encode v := by
  intro c call other
  obtain ⟨hcalls, hregistration⟩ := registrations_reach_their_types c
  have hunit : c.table.Reaches (c.catalog.searchOrder "misc.Unit") "misc.Unit" :=
    ⟨[], ["object"], rfl, nofun, nofun⟩
  have hpoint : ¬ c.table.Reaches (c.catalog.searchOrder "geo.Point") "misc.Unit" := by
    rintro ⟨nearer, farther, horder, _⟩
    have hmem : "misc.Unit" ∈ c.catalog.searchOrder "geo.Point" := by
      rw [horder]
      exact List.mem_append_right _ List.mem_cons_self
    exact absurd hmem (by decide)
  obtain ⟨hreached, _⟩ := hregistration call "misc.Unit" shouting rfl "misc.Unit"
  obtain ⟨_, hunreached⟩ := hregistration call "misc.Unit" shouting rfl "geo.Point"
  obtain ⟨hwrites, hreads, _⟩ := hreached hunit
  refine ⟨hunit, hwrites _ _ rfl, hreads _ "U" _ rfl read_shoutedUnit, hpoint,
    (hunreached hpoint).1 _ rfl, (hcalls _ _ fun name => ?_).1⟩
  by_cases hname : name = "misc.Unit"
  · rw [hname]
    rfl
  · by_cases hroot : name = "object"
    · rw [hroot]
      rfl
    · simp [TableCall.standing, TableCall.sinceClear, TableCall.handler?, Option.filter_some,
        TableCall.registration?, TableCall.isClear, call, other, Ne.symm hname, Ne.symm hroot]

end Codec

end Remoting
