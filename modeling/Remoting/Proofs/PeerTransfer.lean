import Remoting.Proofs.ObjectRebuilding
import Remoting.SampleHandlers

/-!
# Objects between two peers

Writer and reader of an object may differ in their types, catalogs, handlers and settings. What is
written says no more than the type's name, the payload, and whether the payload is a handler's
text. `Codec.Receives` is the table of what a reader makes of these three; it does not depend on
which ancestor's handler the writer used.
-/

namespace Remoting

variable {σ ρ : Type} [Portable σ] [Portable ρ]

/-- What the reader makes of the payload of an object of the named type. -/
inductive Codec.Receives (R : Codec ρ) (typeName : String) :
    Bool → Bytes → Except CodecError (Value ρ) → Prop where
  | unknown (custom : Bool) (payload : Bytes)
      (undeclared : R.catalog.get? typeName = none) :
      R.Receives typeName custom payload (.error (.unknownType typeName custom payload))
  | loaded (entry : Catalog.Entry ρ) (loader : Loader ρ) (payload : Bytes) (o : Object ρ)
      (declared : R.catalog.get? typeName = some entry)
      (concrete : entry.declaration.subject = .concrete loader)
      (loads : loader.load payload = some o) :
      R.Receives typeName false payload (.ok (.object o))
  | unreadable (entry : Catalog.Entry ρ) (loader : Loader ρ) (payload : Bytes)
      (declared : R.catalog.get? typeName = some entry)
      (concrete : entry.declaration.subject = .concrete loader)
      (loads : loader.load payload = none) :
      R.Receives typeName false payload (.error (.fallback typeName .unreadable))
  | notLoadable (entry : Catalog.Entry ρ) (payload : Bytes)
      (declared : R.catalog.get? typeName = some entry)
      (incomplete : ∃ name, entry.declaration.subject = .abstract name ∨
        entry.declaration.subject = .interface name) :
      R.Receives typeName false payload (.error (.notLoadable typeName))
  | decoded (entry : Catalog.Entry ρ) (registered : String) (handler : Handler ρ) (text : String)
      (v : Value ρ)
      (declared : R.catalog.get? typeName = some entry)
      (nearest : R.table.Nearest entry.lineage registered handler)
      (decodes : handler.decode text = .ok v) :
      R.Receives typeName true (Utf8.encode text) (.ok v)
  | refused (entry : Catalog.Entry ρ) (registered : String) (handler : Handler ρ)
      (text reason : String)
      (declared : R.catalog.get? typeName = some entry)
      (nearest : R.table.Nearest entry.lineage registered handler)
      (decodes : handler.decode text = .error reason) :
      R.Receives typeName true (Utf8.encode text) (.error (.custom registered reason))
  | missing (entry : Catalog.Entry ρ) (text : String)
      (declared : R.catalog.get? typeName = some entry)
      (unhandled : ∀ name ∈ entry.lineage, R.table.get? name = none)
      (policy : R.settings.missingDecoder = .fail) :
      R.Receives typeName true (Utf8.encode text) (.error (.missingDecoder typeName))
  | passed (entry : Catalog.Entry ρ) (text : String)
      (declared : R.catalog.get? typeName = some entry)
      (unhandled : ∀ name ∈ entry.lineage, R.table.get? name = none)
      (policy : R.settings.missingDecoder ≠ .fail) :
      R.Receives typeName true (Utf8.encode text) (.ok (.scalar (.text text)))

/-- What the writer makes of an object, and the handler that it uses, if any. -/
inductive Codec.Sends (S : Codec σ) (o : Object σ) : Bool → Bytes → Prop where
  | handled (registered : String) (handler : Handler σ) (text : String)
      (nearest : S.table.Nearest (S.catalog.searchOrder o.typeName) registered handler)
      (written : handler.encode o = .ok text) : S.Sends o true (Utf8.encode text)
  | generic (document : String)
      (unhandled : ∀ name ∈ S.catalog.searchOrder o.typeName, S.table.get? name = none)
      (written : o.document = .ok document) : S.Sends o false (Utf8.encode document)

namespace Codec

theorem sends_of_represent {S : Codec σ} {o : Object σ} {custom : Bool} {payload : Bytes}
    (h : S.represent o = .ok (custom, payload)) : S.Sends o custom payload := by
  rw [represent] at h
  cases hc : closest? (S.catalog.searchOrder o.typeName) S.table with
  | none =>
    rw [hc] at h
    cases hd : o.document with
    | error reason => rw [hd] at h; cases h
    | ok document =>
      rw [hd] at h
      cases h
      exact .generic document (closest?_eq_none_iff.mp hc) hd
  | some found =>
    obtain ⟨registered, handler⟩ := found
    rw [hc] at h
    dsimp only at h
    cases ht : handler.encode o with
    | error reason => rw [ht] at h; cases h
    | ok text =>
      rw [ht] at h
      cases h
      exact .handled registered handler text (closest?_eq_some_iff.mp hc) ht

theorem Sends.custom_iff {S : Codec σ} {o : Object σ} {custom : Bool} {payload : Bytes}
    (h : S.Sends o custom payload) :
    custom = true ↔ ∃ name ∈ S.catalog.searchOrder o.typeName, S.table.contains name = true := by
  cases h with
  | handled registered handler text nearest _ =>
    obtain ⟨nearer, farther, hlineage, _, hget⟩ := nearest
    refine iff_of_true rfl ⟨registered, ?_, ?_⟩
    · rw [hlineage]
      exact List.mem_append_right _ List.mem_cons_self
    · rw [Registry.contains, hget, Option.isSome_some]
  | generic document unhandled _ =>
    apply iff_of_false Bool.false_ne_true
    rintro ⟨name, hname, hcontains⟩
    rw [Registry.contains, unhandled name hname] at hcontains
    cases hcontains

theorem receives_rebuild (R : Codec ρ) {typeName : String} {custom : Bool} {payload : Bytes}
    (h : R.Readable (.object typeName custom payload)) :
    R.Receives typeName custom payload (R.rebuild 0 (.object typeName custom payload)) := by
  rw [rebuild]
  cases hentry : R.catalog.get? typeName with
  | none => exact .unknown custom payload hentry
  | some entry =>
    cases custom with
    | false =>
      dsimp only
      rw [if_neg Bool.false_ne_true, rebuildGeneric, Catalog.Entry.load?, Declaration.loader?]
      cases hsubject : entry.declaration.subject with
      | concrete loader =>
        dsimp only [Option.map_some]
        cases hload : loader.load payload with
        | none => exact .unreadable entry loader payload hentry hsubject hload
        | some o => exact .loaded entry loader payload o hentry hsubject hload
      | abstract name => exact .notLoadable entry payload hentry ⟨name, .inl hsubject⟩
      | interface name => exact .notLoadable entry payload hentry ⟨name, .inr hsubject⟩
    | true =>
      obtain ⟨text, rfl⟩ := h rfl (by rw [hentry]; exact Option.some_ne_none entry)
      dsimp only
      rw [if_pos rfl, Utf8.decode_encode]
      dsimp only
      rw [rebuildText]
      cases hc : closest? entry.lineage R.table with
      | none =>
        have unhandled := closest?_eq_none_iff.mp hc
        dsimp only
        split_ifs with hpolicy
        · exact .missing entry text hentry unhandled hpolicy
        · exact .passed entry text hentry unhandled hpolicy
      | some found =>
        obtain ⟨registered, handler⟩ := found
        have nearest := closest?_eq_some_iff.mp hc
        dsimp only
        cases hv : handler.decode text with
        | ok v => exact .decoded entry registered handler text v hentry nearest hv
        | error reason => exact .refused entry registered handler text reason hentry nearest hv

theorem Sends.readable {S : Codec σ} {o : Object σ} {custom : Bool} {payload : Bytes}
    (h : S.Sends o custom payload) (R : Codec ρ) :
    R.Readable (.object o.typeName custom payload) := by
  cases h with
  | handled registered handler text _ _ => exact fun _ _ => ⟨text, rfl⟩
  | generic => exact nofun

theorem receives_of_sent (S : Codec σ) (R : Codec ρ) (o : Object σ) (out out' : Writer)
    (sent : S.encode (.object o) out = .ok () out') :
    (S.catalog.get? o.typeName = none →
      S.catalog.searchOrder o.typeName = [o.typeName, "object"]) ∧
    ∃ custom payload form,
      S.Sends o custom payload ∧
      (custom = true ↔
        ∃ name ∈ S.catalog.searchOrder o.typeName, S.table.contains name = true) ∧
      form = (Frame.object o.typeName custom payload).bytes ∧ out'.bytes = out.bytes ++ form ∧
      ∀ (input : Input) (rest : Bytes), input.poisoned = false → input.rest = form ++ rest →
        (R.settings.payloadLimit < payload.length →
          corrupt (Decode.answer (R.decode input)) = true) ∧
        (payload.length ≤ R.settings.payloadLimit → ∃ answer notices,
          R.Receives o.typeName custom payload answer ∧
          R.decode input = Decode.conclude answer
            ⟨⟨input.offset + form.length, rest, false⟩, input.notices ++ notices⟩) := by
  refine ⟨?_, ?_⟩
  · intro hundeclared
    rw [Catalog.searchOrder, Catalog.lineage?, hundeclared]
    rfl
  obtain ⟨f, hf, hfit, rfl⟩ := S.encode_eq_ok_iff.mp sent
  obtain ⟨custom, payload, hr, rfl⟩ := S.frame_object_eq_ok_iff.mp hf
  have hsends := sends_of_represent hr
  refine ⟨custom, payload, _, hsends, hsends.custom_iff, rfl, rfl, ?_⟩
  intro input rest fresh hrest
  have hprefix : (Frame.object o.typeName custom payload).bytes <+: input.rest := ⟨rest, hrest.symm⟩
  constructor
  · intro hlong
    obtain ⟨fault, input', hdecode⟩ := R.decode_eq_of_no_frame fresh fun g hg hlimit hgp => by
      rw [Frame.eq_of_prefix hg hfit hgp hprefix] at hlimit
      exact absurd hlimit (Nat.not_le_of_lt hlong)
    rw [hdecode]
    rfl
  · intro hlimit
    have hreadable := hsends.readable R
    refine ⟨_, R.notices (.object o.typeName custom payload), R.receives_rebuild hreadable, ?_⟩
    rw [R.decode_eq_of_readable fresh hfit hlimit hreadable (Reader.passes_of_prefix hprefix),
      fresh, hrest, List.drop_left]

end Codec

/-- Knows no types but has a handler for all of them. -/
def namingCodec : Codec Sample where
  table := .register .empty rootName
    { encode := fun o => .ok o.typeName, decode := fun text => .ok (.scalar (.text text)) }

/-- Knows the unit but has no handlers. -/
def unitCodec : Codec Sample where
  catalog := ⟨Registry.empty.insert SampleType.unit.name
    ⟨⟨.concrete SampleType.unit.loader, none, []⟩, [SampleType.unit.name, rootName]⟩⟩

theorem unit_received_from_namingCodec :
    let bytes : Bytes := [10, 0, 9, 109, 105, 115, 99, 46, 85, 110, 105, 116, 1,
      0, 0, 0, 9, 109, 105, 115, 99, 46, 85, 110, 105, 116]
    namingCodec.encode (.object (.application .unit)) {} = .ok () ⟨bytes⟩ ∧
    ∃ custom payload, namingCodec.Sends (.application .unit) custom payload ∧
      (payload.length ≤ 64 * 1024 * 1024 → ∃ answer notices,
        unitCodec.Receives "misc.Unit" custom payload answer ∧
        unitCodec.decode (.ofBytes bytes) =
          Decode.conclude answer ⟨⟨bytes.length, [], false⟩, notices⟩) := by
  intro bytes
  have sent : namingCodec.encode (.object (.application .unit)) {} = .ok () ⟨bytes⟩ := rfl
  obtain ⟨_, custom, payload, form, hsends, _, _, hform, hread⟩ :=
    Codec.receives_of_sent namingCodec unitCodec (.application .unit) {} ⟨bytes⟩ sent
  obtain rfl : bytes = form := hform
  refine ⟨sent, custom, payload, hsends, fun hlimit => ?_⟩
  obtain ⟨answer, notices, hreceives, hdecode⟩ :=
    (hread (.ofBytes bytes) [] rfl (List.append_nil _).symm).2 hlimit
  refine ⟨answer, notices, hreceives, ?_⟩
  rw [hdecode]
  rfl

end Remoting
