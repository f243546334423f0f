import Remoting.Proofs.CatalogAcceptance
import Remoting.Proofs.CodecAgreement
import Remoting.Proofs.PeerTransfer

/-!
# Reopening a catalog

A catalog holds its declarations, but not the order in which they were listed. When it is opened
again they come in any order, and further ones behind them. The declarations of a catalog refer to
nothing outside of it, and what is declared once cannot be declared anew, so that its entries stand
as they were in the larger catalog, and codecs do not tell the two apart by objects of its types.
-/

namespace Remoting

variable {ω : Type} [Portable ω]

namespace Catalog

/-- The catalog is what the declarations make, with the later passes in one order or another. -/
def Built (ds : List (Declaration ω)) (cat : Catalog ω) : Prop :=
  ∃ order : List (Declaration ω), order.Perm ds ∧ buildInOrder ds order = .ok cat

/-- The new catalog is made of the declarations of the old one, in one order or another, and of
further ones behind them. -/
def Reopens (old : Catalog ω) (further : List (Declaration ω)) (new : Catalog ω) : Prop :=
  ∃ listing : List (Declaration ω), listing.Perm old.declarations ∧ Built (listing ++ further) new

variable {ds further : List (Declaration ω)} {decls : Declarations ω} {old new : Catalog ω}

theorem built_of_build (h : build ds = .ok old) : Built ds old := by
  rw [build_eq_buildInOrder] at h
  exact ⟨ds, .refl ds, h⟩

theorem reopens_of_extend (h : old.extend further = .ok new) : old.Reopens further new :=
  ⟨old.declarations, .refl _, built_of_build h⟩

theorem Built.exists_entered (h : Built ds old) : ∃ decls, Entered ds decls old := by
  obtain ⟨order, hperm, hbuild⟩ := h
  exact exists_entered_of_build hperm hbuild

theorem Entered.get?_of_reopens (hold : Entered ds decls old) (h : old.Reopens further new)
    {name : String} {entry : Entry ω} (hget : old.get? name = some entry) :
    new.get? name = some entry := by
  obtain ⟨listing, hlisting, hbuilt⟩ := h
  obtain ⟨decls', hnew⟩ := hbuilt.exists_entered
  have hsubset : ds ⊆ listing ++ further := by
    intro d hd
    have hmem : d ∈ listing := hlisting.mem_iff.mpr (hold.declarations_perm.mem_iff.mpr hd)
    exact List.mem_append_left _ hmem
  exact hold.get?_of_subset hnew hsubset hget

/-- With nothing further a catalog opens again as it was, whatever the order. -/
theorem Entered.exists_reopened (hold : Entered ds decls old) {listing order : List (Declaration ω)}
    (hlisting : listing.Perm old.declarations) (horder : order.Perm listing) :
    ∃ new, buildInOrder listing order = .ok new ∧ ∀ name, new.get? name = old.get? name := by
  have hperm : listing.Perm ds := hlisting.trans hold.declarations_perm
  obtain ⟨new, hbuild⟩ := (hold.acceptable.perm hperm).exists_build horder
  obtain ⟨decls', hnew⟩ := exists_entered_of_build horder hbuild
  exact ⟨new, hbuild, hold.get?_of_perm hnew hperm⟩

theorem agreesOn_of_conserved {c : Codec ω} (h : ∀ name entry, c.catalog.get? name = some entry →
    new.get? name = some entry) {typeName : String} (declared : (c.catalog.get? typeName).isSome) :
    c.AgreesOn { c with catalog := new } typeName := by
  obtain ⟨entry, hentry⟩ := Option.isSome_iff_exists.mp declared
  have hsame : new.get? typeName = c.catalog.get? typeName := by
    rw [h typeName entry hentry, hentry]
  exact ⟨rfl, hsame, rfl⟩

/-- A catalog opened again is the same, and with further declarations it has all its entries as they
were. A codec writes and reads objects of its types as before. -/
theorem reopening_conserves (ds : List (Declaration ω)) (old : Catalog ω) (built : Built ds old) :
    (∃ new, old.extend [] = .ok new ∧ ∀ name, new.get? name = old.get? name) ∧
    (∀ listing order : List (Declaration ω), listing.Perm old.declarations → order.Perm listing →
      ∃ new, buildInOrder listing order = .ok new ∧ ∀ name, new.get? name = old.get? name) ∧
    (∀ further new, old.extend further = .ok new → old.Reopens further new) ∧
    ∀ further new, old.Reopens further new →
      (∀ name entry, old.get? name = some entry → new.get? name = some entry) ∧
      ∀ c : Codec ω, c.catalog = old →
        (∀ o : Object ω, (old.get? o.typeName).isSome →
          Codec.encode { c with catalog := new } (.object o) = c.encode (.object o)) ∧
        ∀ input : Input, input.NextTyped c.settings (fun name => (old.get? name).isSome) →
          Codec.decode { c with catalog := new } input = c.decode input := by
  obtain ⟨decls, hold⟩ := built.exists_entered
  refine ⟨?_, fun _ _ => hold.exists_reopened, fun _ _ => reopens_of_extend, ?_⟩
  · obtain ⟨new, hbuild, hsame⟩ := hold.exists_reopened (.refl old.declarations) (.refl _)
    refine ⟨new, ?_, hsame⟩
    rw [extend, List.append_nil]
    exact hbuild
  · intro further new hreopens
    have hconserved (name : String) (entry : Entry ω) (hget : old.get? name = some entry) :
        new.get? name = some entry := hold.get?_of_reopens hreopens hget
    refine ⟨hconserved, ?_⟩
    rintro c rfl
    refine ⟨fun o declared => (agreesOn_of_conserved hconserved declared).encode_eq, ?_⟩
    intro input htyped
    have hagrees : input.NextTyped c.settings (c.AgreesOn { c with catalog := new }) := by
      intro f r typeName hread hname
      exact agreesOn_of_conserved hconserved (htyped f r typeName hread hname)
    have hsettings : Codec.settings { c with catalog := new } = c.settings := rfl
    exact Codec.decode_eq_of_agrees hsettings hagrees

/-- The unit below an abstract type that has an interface. -/
def unitDeclarations : List (Declaration Sample) :=
  [{ subject := .concrete SampleType.unit.loader, superclass := some "Base" },
    { subject := .abstract "Base", interfaces := ["Printable"] },
    { subject := .interface "Printable" }]

def pointDeclarations : List (Declaration Sample) :=
  [{ subject := .concrete SampleType.point.loader, superclass := some "Base",
     interfaces := ["Drawable"] },
    { subject := .interface "Drawable", interfaces := ["Drawable", "Printable"] }]

theorem unitDeclarations_conserved : ∃ old new : Catalog Sample,
    build unitDeclarations = .ok old ∧ old.extend pointDeclarations = .ok new ∧
    old.size = 3 ∧ new.size = 5 ∧ (old.get? "misc.Unit").isSome ∧
    (∀ name entry, old.get? name = some entry → new.get? name = some entry) ∧
    (Codec.encode { catalog := new, table := namingCodec.table } (.object (.application .unit)) =
      Codec.encode { catalog := old, table := namingCodec.table } (.object (.application .unit))) ∧
    let input := Input.ofBytes [10, 0, 9, 109, 105, 115, 99, 46, 85, 110, 105, 116, 1,
      0, 0, 0, 1, 33]
    Codec.decode { catalog := new, table := namingCodec.table } input =
      Codec.decode { catalog := old, table := namingCodec.table } input := by
  have hbuilt : ((build unitDeclarations).toOption.bind fun old =>
      (old.extend pointDeclarations).toOption.map fun new =>
        (old.size, new.size, (old.get? "misc.Unit").isSome)) = some (3, 5, true) := by
    decide +kernel
  obtain ⟨old, hold, h⟩ := Option.bind_eq_some_iff.mp hbuilt
  obtain ⟨new, hnew, h⟩ := Option.map_eq_some_iff.mp h
  simp only [Prod.mk.injEq] at h
  obtain ⟨hsize, hsize', hdeclared⟩ := h
  have hbuild := eq_ok_of_toOption hold
  have hextend := eq_ok_of_toOption hnew
  obtain ⟨_, _, hreopens, hconserves⟩ :=
    reopening_conserves unitDeclarations old (built_of_build hbuild)
  obtain ⟨hentries, hcodecs⟩ := hconserves _ new (hreopens _ new hextend)
  obtain ⟨hencode, hdecode⟩ := hcodecs { catalog := old, table := namingCodec.table } rfl
  refine ⟨old, new, hbuild, hextend, hsize, hsize', hdeclared, hentries,
    hencode (.application .unit) hdeclared, hdecode _ fun f r typeName hread hname => ?_⟩
  cases hread
  cases hname
  exact hdeclared

end Catalog

end Remoting
