import Remoting.Proofs.CatalogReopening
import Remoting.Proofs.CompletionRelay

/-!
# Values that are passed on

A codec bounds what it reads and not what it writes. So a value that it has read may be refused
when it is written and read again, though all its loaders and handlers are faithful: a text that was
passed through is written as a text, with a limit of its own, and a document is written in another
form than it was read in. Nothing else stands in the way, unless a handler makes objects of types
that the codec does not know.
-/

namespace Remoting

variable {ω : Type} [Portable ω]

namespace Codec

/-- Loaders and handlers give back the objects that were written for them. -/
structure Faithful (c : Codec ω) : Prop where
  loads : ∀ o document entry loader, o.document = .ok document →
    c.catalog.get? o.typeName = some entry → entry.declaration.subject = .concrete loader →
    loader.load (Utf8.encode document) = some o
  decodes : ∀ name handler o text, c.table.get? name = some handler →
    handler.encode o = .ok text → handler.decode text = .ok (.object o)

/-- What is written for the value is within the limits for reading. -/
def RespectsLimits (c : Codec ω) : Value ω → Prop
  | .scalar s => s.Within c.settings
  | .object o => ∀ custom payload, c.represent o = .ok (custom, payload) →
      payload.length ≤ c.settings.payloadLimit

/-- Objects of this type can be read: it is declared, and it has a handler or a loader. -/
def Knows (c : Codec ω) : Value ω → Prop
  | .scalar _ => True
  | .object o => ∃ entry, c.catalog.get? o.typeName = some entry ∧
      ((∃ name ∈ entry.lineage, c.table.contains name = true) ∨
        ∃ loader, entry.declaration.subject = .concrete loader)

/-- Read from the bytes, the value is written and then not read again. -/
def FailsToRelay (c : Codec ω) (b : Bytes) (v : Value ω) : Prop :=
  c.fromBytes b = .ok v ∧ ∃ b', c.toBytes v = .ok b' ∧ c.fromBytes b' ≠ .ok v

variable {c : Codec ω} {v : Value ω} {o : Object ω} {f : Frame} {typeName : String}
  {entry : Catalog.Entry ω} {payload b b' : Bytes}

theorem readable_of_frame (hf : c.frame v = .ok f) : c.Readable f := by
  cases v with
  | scalar s =>
    cases hf
    trivial
  | object o =>
    obtain ⟨custom, payload, hrepresent, rfl⟩ := c.frame_object_eq_ok_iff.mp hf
    exact (sends_of_represent hrepresent).readable c

theorem within_iff_of_frame (hf : c.frame v = .ok f) :
    f.Within c.settings ↔ c.RespectsLimits v := by
  cases v with
  | scalar s =>
    cases hf
    rfl
  | object o =>
    obtain ⟨custom, payload, hrepresent, rfl⟩ := c.frame_object_eq_ok_iff.mp hf
    constructor
    · intro hwithin custom' payload' hrepresent'
      rw [hrepresent] at hrepresent'
      cases hrepresent'
      exact hwithin
    · exact fun hlimits => hlimits custom payload hrepresent

theorem rebuild_of_loads {loader : Loader ω} (hentry : c.catalog.get? typeName = some entry)
    (hconcrete : entry.declaration.subject = .concrete loader)
    (hload : loader.load payload = some o) :
    c.rebuild 0 (.object typeName false payload) = .ok (.object o) := by
  have hloader : entry.load? payload = some (some o) := by
    rw [Catalog.Entry.load?, Declaration.loader?, hconcrete, Option.map_some, hload]
  rw [rebuild, hentry]
  dsimp only
  rw [if_neg Bool.false_ne_true, rebuildGeneric, hloader]

namespace Faithful

variable (faithful : c.Faithful)
include faithful

/-- What a faithful codec writes it rebuilds, if it can read objects of the type at all. -/
theorem rebuild_eq_ok_iff (hf : c.frame v = .ok f) : c.rebuild 0 f = .ok v ↔ c.Knows v := by
  cases v with
  | scalar s =>
    cases hf
    exact iff_of_true rfl trivial
  | object o =>
    obtain ⟨custom, payload, hrepresent, rfl⟩ := c.frame_object_eq_ok_iff.mp hf
    have hsends := sends_of_represent hrepresent
    constructor
    · intro hrebuild
      have hreceives := c.receives_rebuild (hsends.readable c)
      rw [hrebuild] at hreceives
      cases hreceives with
      | loaded entry loader _ _ declared concrete _ =>
        exact ⟨entry, declared, .inr ⟨loader, concrete⟩⟩
      | decoded entry registered handler text _ declared nearest _ =>
        have hserved := hsends.custom_iff.mp rfl
        rw [c.catalog.searchOrder_of_declared declared] at hserved
        exact ⟨entry, declared, .inl hserved⟩
    · rintro ⟨entry, hentry, hserved⟩
      have hcustom := hsends.custom_iff
      rw [c.catalog.searchOrder_of_declared hentry] at hcustom
      cases hsends with
      | handled registered handler text nearest written =>
        rw [c.catalog.searchOrder_of_declared hentry] at nearest
        rw [c.rebuild_of_takes hentry nearest, faithful.decodes _ _ _ _ nearest.get?_eq written]
        rfl
      | generic document unhandled written =>
        obtain ⟨loader, hconcrete⟩ :=
          hserved.resolve_left fun hhandler => Bool.false_ne_true (hcustom.mpr hhandler)
        exact rebuild_of_loads hentry hconcrete
          (faithful.loads o document entry loader written hentry hconcrete)

theorem fromBytes_toBytes_iff (sent : c.toBytes v = .ok b') :
    c.fromBytes b' = .ok v ↔ c.RespectsLimits v ∧ c.Knows v := by
  obtain ⟨f, hf, hfits, rfl⟩ := c.toBytes_eq_ok_iff.mp sent
  rw [c.fromBytes_form_eq_ok_iff hfits, and_iff_right (readable_of_frame hf),
    within_iff_of_frame hf, faithful.rebuild_eq_ok_iff hf]

theorem failsToRelay (received : c.fromBytes b = .ok v) (sent : c.toBytes v = .ok b')
    (h : ¬ (c.RespectsLimits v ∧ c.Knows v)) : c.FailsToRelay b v :=
  ⟨received, b', sent, fun hread => h ((faithful.fromBytes_toBytes_iff sent).mp hread)⟩

end Faithful

/-- What a codec reads it knows, unless it is what a handler made of some text. -/
theorem knows_or_made {ds : List (Declaration ω)} (built : Catalog.Built ds c.catalog)
    (hreadable : c.Readable f) (hrebuild : c.rebuild 0 f = .ok v) :
    c.Knows v ∨ ∃ name handler text,
      c.table.get? name = some handler ∧ handler.decode text = .ok v := by
  cases f with
  | scalar s =>
    cases hrebuild
    exact .inl trivial
  | object typeName custom payload =>
    have hreceives := c.receives_rebuild hreadable
    rw [hrebuild] at hreceives
    cases hreceives with
    | loaded entry loader _ o declared concrete loads =>
      obtain ⟨decls, hentered⟩ := built.exists_entered
      have hname := ((hentered.get?_iff typeName entry).mp declared).2.1
      have htype : o.typeName = typeName := by
        rw [loader.typeName_load _ _ loads, ← hname, Declaration.name, concrete]
      exact .inl ⟨entry, htype ▸ declared, .inr ⟨loader, concrete⟩⟩
    | decoded entry registered handler text _ _ nearest decodes =>
      exact .inr ⟨registered, handler, text, nearest.get?_eq, decodes⟩
    | passed => exact .inl trivial

/-- What was not sent as an object is written as it was read. -/
theorem toBytes_of_scalar (received : c.fromBytes b = .ok v)
    (sent : c.toBytes v = .ok b') (hhead : b.head? ≠ some Tag.object.ordinal) : b' = b := by
  obtain ⟨f, _, _, _, rfl, hrebuild⟩ := c.fromBytes_eq_ok_iff.mp received
  cases f with
  | object => exact absurd rfl hhead
  | scalar s =>
    cases hrebuild
    obtain ⟨_, ⟨⟩, _, rfl⟩ := c.toBytes_eq_ok_iff.mp sent
    rfl

/-- A value that was read and written is read again exactly if it respects the limits and its type
is known, and only what a handler made can be of a type that is not. What was not sent as an object
is always read again. -/
theorem relays_within_limits {ds : List (Declaration ω)} (built : Catalog.Built ds c.catalog)
    (faithful : c.Faithful) (received : c.fromBytes b = .ok v)
    (sent : c.toBytes v = .ok b') :
    (c.fromBytes b' = .ok v ↔ c.RespectsLimits v ∧ c.Knows v) ∧
    (c.Knows v ∨ ∃ name handler text,
      c.table.get? name = some handler ∧ handler.decode text = .ok v) ∧
    (b.head? ≠ some Tag.object.ordinal → b' = b ∧ c.fromBytes b' = .ok v) := by
  refine ⟨faithful.fromBytes_toBytes_iff sent, ?_, fun hhead => ?_⟩
  · obtain ⟨f, _, _, hreadable, _, hrebuild⟩ := c.fromBytes_eq_ok_iff.mp received
    exact knows_or_made built hreadable hrebuild
  · obtain rfl := toBytes_of_scalar received sent hhead
    exact ⟨rfl, received⟩

end Codec

def unitDeclaration : Declaration Sample :=
  { subject := .concrete SampleType.unit.loader }

def unitEntry : Catalog.Entry Sample :=
  ⟨unitDeclaration, [SampleType.unit.name, rootName]⟩

/-- Passes texts through, up to some limit for texts. -/
def passingCodec (textLimit : Nat) : Codec Sample :=
  { unitCodec with settings := { textLimit, missingDecoder := .passThrough } }

/-- Writes units at some length and reads all other texts as labels, which are not declared. -/
def labeller : Handler Sample where
  encode
    | .application .unit => .ok "the unit"
    | _ => .error "not a unit"
  decode text := .ok (.object (.application (if text = "the unit" then .unit else .label text)))

def labellingCodec (payloadLimit : Nat) : Codec Sample :=
  { unitCodec with
    table := .register .empty SampleType.unit.name labeller
    settings := { payloadLimit } }

theorem built_unitCodec : Catalog.Built [unitDeclaration] unitCodec.catalog := by
  let decls : Declarations Sample := Registry.empty.insert SampleType.unit.name unitDeclaration
  have hcollect : Catalog.collect [unitDeclaration] = .ok decls := rfl
  have hlineage : lineage decls unitDeclaration.name = .ok ["misc.Unit", "object"] := by
    decide +kernel
  have hentered : [unitDeclaration].foldlM (Catalog.enter decls) .empty =
      .ok unitCodec.catalog.entries := by
    rw [List.foldlM_cons, Catalog.enter, hlineage]
    rfl
  refine ⟨[unitDeclaration], .refl _, ?_⟩
  rw [Catalog.buildInOrder, hcollect]
  change ([unitDeclaration].foldlM (Catalog.enter decls) .empty >>= fun entries =>
    pure (⟨entries⟩ : Catalog Sample)) = _
  rw [hentered]
  rfl

theorem repeated_ne_unit {n : Nat} {letter : Char} (hn : n ≠ 9) :
    Numbered.repeated n letter ≠ SampleType.unit.name := by
  intro h
  have hlength := congrArg (fun text => text.toList.length) h
  rw [Numbered.repeated] at hlength
  simp only [String.toList_ofList, List.length_replicate] at hlength
  exact hn hlength

theorem eq_unit_of_typeName {o : Object Sample} (h : o.typeName = SampleType.unit.name) :
    o = .application .unit := by
  cases o with
  | placeholder => exact absurd h (by decide : placeholderName ≠ SampleType.unit.name)
  | application s =>
    change s.type.name = SampleType.unit.name at h
    cases htype : s.type with
    | unit =>
      cases s with
      | unit => rfl
      | _ => cases htype
    | numbered kind =>
      rw [htype] at h
      cases kind with
      | long255 | long65535 | long65536 => exact absurd h (repeated_ne_unit (by decide))
      | _ => exact absurd h (by decide)
    | _ =>
      rw [htype] at h
      exact absurd h (by decide)

theorem get?_unitCodec {name : String} {entry : Catalog.Entry Sample}
    (h : unitCodec.catalog.get? name = some entry) :
    name = SampleType.unit.name ∧ entry = unitEntry := by
  have hget : unitCodec.catalog.get? name = _ := Registry.get?_insert _ _ _ _
  rw [hget] at h
  split at h
  · cases h
    exact ⟨by assumption, rfl⟩
  · cases h

theorem load_unit :
    SampleType.unit.loader.load (Utf8.encode "null") = some (.application .unit) := by
  have hread : (Document.parse? (Utf8.encode "null")).bind (Sample.read .unit) = some .unit := by
    decide +kernel
  exact congrArg (Option.map Object.application) hread

theorem faithful_of_unitCatalog {c : Codec Sample} (hcatalog : c.catalog = unitCodec.catalog)
    (decodes : ∀ name handler o text, c.table.get? name = some handler →
      handler.encode o = .ok text → handler.decode text = .ok (.object o)) : c.Faithful where
  loads := by
    intro o document entry loader hdocument hentry hconcrete
    rw [hcatalog] at hentry
    obtain ⟨htype, rfl⟩ := get?_unitCodec hentry
    cases hconcrete
    obtain rfl := eq_unit_of_typeName htype
    cases hdocument
    exact load_unit
  decodes := decodes

theorem faithful_passingCodec (textLimit : Nat) : (passingCodec textLimit).Faithful :=
  faithful_of_unitCatalog rfl nofun

theorem faithful_labellingCodec (payloadLimit : Nat) : (labellingCodec payloadLimit).Faithful := by
  refine faithful_of_unitCatalog rfl fun name handler o text hget hencode => ?_
  have hhandler : (labellingCodec payloadLimit).table.get? name = _ := Registry.get?_insert _ _ _ _
  rw [hhandler] at hget
  split at hget
  · cases hget
    cases o with
    | placeholder => cases hencode
    | application s =>
      cases s with
      | unit =>
        cases hencode
        rfl
      | _ => cases hencode
  · cases hget

/-- A unit as some handler wrote it. -/
def customUnit : Bytes :=
  [10, 0, 9, 109, 105, 115, 99, 46, 85, 110, 105, 116, 1, 0, 0, 0, 2, 97, 98]

/-- A unit as its document. -/
def genericUnit : Bytes :=
  [10, 0, 9, 109, 105, 115, 99, 46, 85, 110, 105, 116, 0, 0, 0, 0, 4, 110, 117, 108, 108]

section UnitCatalog

variable {c : Codec Sample} {v : Value Sample} (hcatalog : c.catalog = unitCodec.catalog)
include hcatalog

theorem get?_unit : c.catalog.get? SampleType.unit.name = some unitEntry :=
  hcatalog ▸ rfl

variable (hlimit : 4 ≤ c.settings.payloadLimit)
include hlimit

theorem fromBytes_customUnit
    (hrebuild : c.rebuildText unitEntry SampleType.unit.name "ab" = .ok v) :
    c.fromBytes customUnit = .ok v := by
  have hform : customUnit =
      (Frame.object SampleType.unit.name true (Utf8.encode "ab")).bytes := rfl
  have hfits : (Frame.object SampleType.unit.name true (Utf8.encode "ab")).Fits :=
    ⟨by decide, by decide⟩
  have hwithin : 2 ≤ c.settings.payloadLimit := Nat.le_trans (by decide) hlimit
  rw [hform, c.fromBytes_form_eq_ok_iff hfits]
  exact ⟨hwithin, fun _ _ => ⟨"ab", rfl⟩, (c.rebuild_text (get?_unit hcatalog)).trans hrebuild⟩

theorem fromBytes_genericUnit :
    c.fromBytes genericUnit = .ok (.object (.application .unit)) := by
  have hform : genericUnit =
      (Frame.object SampleType.unit.name false (Utf8.encode "null")).bytes := rfl
  have hfits : (Frame.object SampleType.unit.name false (Utf8.encode "null")).Fits :=
    ⟨by decide, by decide⟩
  rw [hform, c.fromBytes_form_eq_ok_iff hfits]
  exact ⟨hlimit, nofun, Codec.rebuild_of_loads (get?_unit hcatalog) rfl load_unit⟩

end UnitCatalog

/-- A text that was passed through may be too long for a text, and the text of a handler longer than
the document was. What a handler makes may be of a type that is not declared. -/
theorem relay_fails :
    Catalog.Built [unitDeclaration] unitCodec.catalog ∧
    ((passingCodec 1).settings.validate = .ok () ∧ (passingCodec 1).Faithful ∧
      (passingCodec 1).FailsToRelay customUnit (.scalar (.text "ab"))) ∧
    (labellingCodec 4).settings.validate = .ok () ∧ (labellingCodec 4).Faithful ∧
    (labellingCodec 4).FailsToRelay genericUnit (.object (.application .unit)) ∧
    (labellingCodec 4).FailsToRelay customUnit (.object (.application (.label "ab"))) := by
  have hlabelling := faithful_labellingCodec 4
  refine ⟨built_unitCodec, ⟨rfl, faithful_passingCodec 1, ?_⟩, rfl, hlabelling, ?_, ?_⟩
  · have sent : (passingCodec 1).toBytes (.scalar (.text "ab")) = .ok [9, 0, 0, 0, 2, 97, 98] := rfl
    refine (faithful_passingCodec 1).failsToRelay
      (fromBytes_customUnit rfl (by decide) rfl) sent ?_
    rintro ⟨hlimit, _⟩
    exact absurd (show "ab".utf8ByteSize ≤ 1 from hlimit) (by decide)
  · refine hlabelling.failsToRelay (fromBytes_genericUnit rfl (by decide)) rfl ?_
    rintro ⟨hlimit, _⟩
    exact absurd (hlimit true (Utf8.encode "the unit") rfl) (by decide)
  · refine hlabelling.failsToRelay (fromBytes_customUnit rfl (by decide) rfl) rfl ?_
    rintro ⟨_, entry, hentry, _⟩
    exact absurd (get?_unitCodec hentry).1 (by decide)

/-- With room for the handler's text, a unit that was read as its document is passed on. -/
theorem rewrittenUnit_relayed :
    Catalog.Built [unitDeclaration] (labellingCodec 8).catalog ∧ (labellingCodec 8).Faithful ∧
    (labellingCodec 8).fromBytes genericUnit = .ok (.object (.application .unit)) ∧
    ∃ b', (labellingCodec 8).toBytes (.object (.application .unit)) = .ok b' ∧ b' ≠ genericUnit ∧
      (labellingCodec 8).fromBytes b' = .ok (.object (.application .unit)) := by
  have built : Catalog.Built [unitDeclaration] (labellingCodec 8).catalog := built_unitCodec
  have faithful := faithful_labellingCodec 8
  have received := fromBytes_genericUnit (c := labellingCodec 8) rfl (by decide)
  have sent : (labellingCodec 8).toBytes (.object (.application .unit)) =
      .ok [10, 0, 9, 109, 105, 115, 99, 46, 85, 110, 105, 116, 1, 0, 0, 0, 8,
        116, 104, 101, 32, 117, 110, 105, 116] := rfl
  have hlimits : (labellingCodec 8).RespectsLimits (.object (.application .unit)) := by
    intro custom payload hrepresent
    cases hrepresent
    exact (by decide : (Utf8.encode "the unit").length ≤ 8)
  have hknown : (labellingCodec 8).Knows (.object (.application .unit)) :=
    ⟨unitEntry, get?_unit rfl, .inr ⟨SampleType.unit.loader, rfl⟩⟩
  obtain ⟨hread, _⟩ := Codec.relays_within_limits built faithful received sent
  exact ⟨built, faithful, received, _, sent, by decide, hread.mpr ⟨hlimits, hknown⟩⟩

end Remoting
