import Remoting.Proofs.ObjectRebuilding

/-!
# Codecs that agree about a type

What a codec does with an object hangs on the type's entry in its catalog, on the handler nearest
along the type's search order, and on its settings. Codecs that have these in common write the
objects of the type alike, and read alike every input whose next value is of the type.
-/

namespace Remoting

variable {ω : Type} [Portable ω] {α : Type}

theorem closest?_congr {lineage : List String} {registry registry' : Registry String α}
    (h : ∀ name ∈ lineage, registry'.get? name = registry.get? name) :
    closest? lineage registry' = closest? lineage registry := by
  induction lineage with
  | nil => rfl
  | cons name lineage ih =>
    obtain ⟨hname, hrest⟩ := List.forall_mem_cons.mp h
    simp only [closest?, List.findSome?_cons, hname] at ih ⊢
    rw [ih hrest]

/-- The type whose name stands in a frame. -/
def Frame.typeName? : Frame → Option String
  | .scalar _ => none
  | .object typeName _ _ => some typeName

/-- If an object stands next in the input, its type has the property. -/
def Input.NextTyped (settings : Settings) (input : Input) (P : String → Prop) : Prop :=
  ∀ f r typeName, Frame.read settings input.toReader = .ok f r → f.typeName? = some typeName →
    P typeName

namespace Codec

/-- Nothing that the codecs go by for objects of the type is different. -/
structure AgreesOn (c c' : Codec ω) (typeName : String) : Prop where
  settings : c'.settings = c.settings
  entry : c'.catalog.get? typeName = c.catalog.get? typeName
  handler : closest? (c.catalog.searchOrder typeName) c'.table =
    closest? (c.catalog.searchOrder typeName) c.table

variable {c c' : Codec ω} {typeName : String}

theorem AgreesOn.searchOrder (h : c.AgreesOn c' typeName) :
    c'.catalog.searchOrder typeName = c.catalog.searchOrder typeName := by
  rw [Catalog.searchOrder, Catalog.lineage?, h.entry]
  rfl

theorem encode_eq_of_represent {o : Object ω} (h : c'.represent o = c.represent o) :
    c'.encode (.object o) = c.encode (.object o) := by
  have hobject : c'.encodeObject o = c.encodeObject o := by
    rw [encodeObject, encodeObject, h]
  rw [encode, encode, encodeUnguarded, encodeUnguarded, hobject]

theorem AgreesOn.encode_eq {o : Object ω} (h : c.AgreesOn c' o.typeName) :
    c'.encode (.object o) = c.encode (.object o) := by
  apply encode_eq_of_represent
  rw [represent, h.searchOrder, h.handler, represent]

theorem AgreesOn.decodeObject_eq (h : c.AgreesOn c' typeName) (custom : Bool) (payload : Bytes) :
    c'.decodeObject typeName custom payload = c.decodeObject typeName custom payload := by
  rw [decodeObject, decodeObject, h.entry]
  cases hentry : c.catalog.get? typeName with
  | none => rfl
  | some entry =>
    have hhandler := h.handler
    rw [Catalog.searchOrder_of_declared _ hentry] at hhandler
    have hmissing : c'.withoutDecoder = c.withoutDecoder := by
      unfold withoutDecoder
      rw [h.settings]
    have hcustom :
        c'.decodeCustom entry typeName payload = c.decodeCustom entry typeName payload := by
      unfold decodeCustom
      rw [hhandler, hmissing]
    dsimp only
    rw [hcustom]

theorem decode_eq_of_agrees (hsettings : c'.settings = c.settings) {input : Input}
    (h : input.NextTyped c.settings (c.AgreesOn c')) : c'.decode input = c.decode input := by
  unfold decode
  rw [hsettings]
  cases hread : Frame.read c.settings input.toReader with
  | error fault r =>
    have hlift : Decode.lift (Frame.read c.settings) input =
        .error (.stream fault) { input with toReader := r } := by
      rw [Decode.lift, hread]
    rw [bind_of_error hlift, bind_of_error hlift]
  | ok f r =>
    have hlift : Decode.lift (Frame.read c.settings) input =
        .ok f { input with toReader := r } := by
      rw [Decode.lift, hread]
    rw [bind_of_ok hlift, bind_of_ok hlift]
    cases f with
    | scalar s => rfl
    | object typeName custom payload =>
      exact congrFun ((h _ r typeName hread rfl).decodeObject_eq custom payload) _

end Codec

end Remoting
