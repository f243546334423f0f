import Remoting.Proofs.CatalogBuilding
import Remoting.Proofs.LineageLevels
import Remoting.Proofs.ObjectRebuilding
import Remoting.Samples

/-!
# The nearest handler

In a catalog that was built, superclasses are classes and what is implemented are interfaces, so
that no name stands twice in a lineage. The search for a handler prefers the nearest superclass,
then the interface at the least distance, and then the root.
-/

namespace Remoting

variable {ω α : Type} [Portable ω]

open Lineage (ancestor? level interfacesOf AtDistance)

/-- What the search for the nearest registered ancestor has to find. -/
inductive Selects (decls : Declarations ω) (registry : Registry String α) (name : String) :
    Option (String × α) → Prop where
  | superclass (k : Nat) (ancestor : String) (found : α)
      (chained : ancestor? decls name k = some ancestor)
      (registered : registry.get? ancestor = some found)
      (nearest : ∀ j < k, ∀ other, ancestor? decls name j = some other →
        registry.get? other = none) :
      Selects decls registry name (some (ancestor, found))
  | interface (k : Nat) (earlier later : List String) (interface : String) (found : α)
      (unextended : ∀ j other, ancestor? decls name j = some other → registry.get? other = none)
      (distance : AtDistance decls name k interface)
      (registered : registry.get? interface = some found)
      (nearest : ∀ j < k, ∀ other, AtDistance decls name j other → registry.get? other = none)
      (discovered : level decls name k = earlier ++ interface :: later)
      (first : ∀ other ∈ earlier, registry.get? other = none) :
      Selects decls registry name (some (interface, found))
  | root (found : α)
      (unextended : ∀ j other, ancestor? decls name j = some other → registry.get? other = none)
      (unimplemented : ∀ k other, AtDistance decls name k other → registry.get? other = none)
      (registered : registry.get? rootName = some found) :
      Selects decls registry name (some (rootName, found))
  | nothing
      (unextended : ∀ j other, ancestor? decls name j = some other → registry.get? other = none)
      (unimplemented : ∀ k other, AtDistance decls name k other → registry.get? other = none)
      (unregistered : registry.get? rootName = none) :
      Selects decls registry name none

namespace Lineage

variable {decls : Declarations ω} {name : String} {lineage : List String}

theorem exists_chain_of_lineage (h : Remoting.lineage decls name = .ok lineage) :
    ∃ names depth, chain decls [] name name = .ok names ∧
      walk decls name [name] [name] = .ok (upTo decls name depth) ∧
      (∀ k, depth ≤ k → level decls name (k + 1) = []) ∧
      lineage = names ++ (List.range depth).flatMap (fun k => level decls name (k + 1)) ++
        [rootName] := by
  obtain ⟨names, hchain, h⟩ := exists_of_bind_eq_ok h
  obtain ⟨visited, hwalk, h⟩ := exists_of_bind_eq_ok h
  cases h
  obtain ⟨depth, hdepth, rfl⟩ := exists_upTo_of_walk hwalk
  refine ⟨names, depth, hchain, hwalk, hdepth, ?_⟩
  rw [upTo_eq]
  rfl

end Lineage

section Search

variable {decls : Declarations ω} {registry : Registry String α} {name : String}

theorem closest?_append (nearer farther : List String) (registry : Registry String α) :
    closest? (nearer ++ farther) registry =
      (closest? nearer registry).or (closest? farther registry) :=
  List.findSome?_append

theorem exists_of_closest?_flatMap {lists : Nat → List String} {depth : Nat} {found : String × α}
    (h : closest? ((List.range depth).flatMap lists) registry = some found) :
    ∃ k < depth, closest? (lists k) registry = some found ∧
      ∀ j < k, closest? (lists j) registry = none := by
  induction depth with
  | zero => cases h
  | succ depth ih =>
    rw [List.range_succ, List.flatMap_append, List.flatMap_singleton, closest?_append] at h
    cases hbefore : closest? ((List.range depth).flatMap lists) registry with
    | some other =>
      rw [hbefore, Option.some_or] at h
      obtain ⟨k, hk, hfound⟩ := ih (hbefore.trans h)
      exact ⟨k, Nat.lt_succ_of_lt hk, hfound⟩
    | none =>
      rw [hbefore, Option.none_or] at h
      refine ⟨depth, Nat.lt_succ_self _, h, fun j hj => ?_⟩
      rw [closest?_eq_none_iff] at hbefore ⊢
      exact fun n hn => hbefore n (List.mem_flatMap.mpr ⟨j, List.mem_range.mpr hj, hn⟩)

/-- The type itself is the only name on level zero. -/
theorem unregistered_of_levels {bound : Nat} (hname : registry.get? name = none)
    (hlevels : ∀ j < bound, closest? (level decls name (j + 1)) registry = none) :
    ∀ k ≤ bound, ∀ other, AtDistance decls name k other → registry.get? other = none := by
  intro k hk other hother
  rw [← Lineage.mem_level_iff] at hother
  cases k with
  | zero => rwa [List.mem_singleton.mp hother]
  | succ j => exact closest?_eq_none_iff.mp (hlevels j hk) other hother

theorem selects_closest? {names : List String} {depth : Nat}
    (hnames : ∀ k, names[k]? = ancestor? decls name k)
    (hdepth : ∀ k, depth ≤ k → level decls name (k + 1) = []) :
    Selects decls registry name (closest?
      (names ++ (List.range depth).flatMap (fun k => level decls name (k + 1)) ++ [rootName])
      registry) := by
  rw [closest?_append, closest?_append]
  cases hchain : closest? names registry with
  | some found =>
    obtain ⟨ancestor, found⟩ := found
    obtain ⟨nearer, farther, rfl, hnearer, hfound⟩ := closest?_eq_some_iff_split.mp hchain
    refine .superclass nearer.length ancestor found ?_ hfound fun j hj other hother => ?_
    · rw [← hnames, List.getElem?_append_right (Nat.le_refl _), Nat.sub_self]
      rfl
    · rw [← hnames, List.getElem?_append_left hj] at hother
      exact hnearer other (List.mem_of_getElem? hother)
  | none =>
    have hunextended (j : Nat) (other : String) (hother : ancestor? decls name j = some other) :
        registry.get? other = none := by
      rw [← hnames] at hother
      exact closest?_eq_none_iff.mp hchain other (List.mem_of_getElem? hother)
    have hname := hunextended 0 name rfl
    rw [Option.none_or]
    cases hlevels : closest? ((List.range depth).flatMap fun k => level decls name (k + 1))
        registry with
    | some found =>
      obtain ⟨interface, found⟩ := found
      obtain ⟨k, _, hlevel, hnearer⟩ := exists_of_closest?_flatMap hlevels
      obtain ⟨earlier, later, hsplit, hearlier, hfound⟩ := closest?_eq_some_iff_split.mp hlevel
      have hmem : interface ∈ level decls name (k + 1) := by
        rw [hsplit]
        exact List.mem_append_right _ List.mem_cons_self
      exact .interface (k + 1) earlier later interface found hunextended
        (Lineage.mem_level_iff.mp hmem) hfound
        (fun j hj => unregistered_of_levels hname hnearer j (Nat.le_of_lt_succ hj)) hsplit hearlier
    | none =>
      have hempty (k : Nat) : closest? (level decls name (k + 1)) registry = none := by
        rw [closest?_eq_none_iff] at hlevels ⊢
        intro other hother
        rcases Nat.lt_or_ge k depth with hk | hk
        · exact hlevels other (List.mem_flatMap.mpr ⟨k, List.mem_range.mpr hk, hother⟩)
        · rw [hdepth k hk] at hother
          cases hother
      have hunimplemented (k : Nat) :=
        unregistered_of_levels hname (fun j _ => hempty j) k (Nat.le_refl k)
      rw [Option.none_or]
      cases hroot : registry.get? rootName with
      | some found =>
        have hfound : closest? [rootName] registry = some (rootName, found) := by
          simp [closest?, hroot]
        rw [hfound]
        exact .root found hunextended hunimplemented hroot
      | none =>
        have hnothing : closest? [rootName] registry = none := by
          simp [closest?, hroot]
        rw [hnothing]
        exact .nothing hunextended hunimplemented hroot

end Search

namespace Catalog

variable {ds : List (Declaration ω)} {decls : Declarations ω} {cat : Catalog ω}

/-- What a catalog asks of its declarations. -/
structure Shaped (decls : Declarations ω) : Prop where
  named : ∀ n d, decls.get? n = some d → n ≠ rootName
  superclass : ∀ n d superclass, decls.get? n = some d → d.superclass = some superclass →
    declaredAsInterface decls superclass = false
  interface : ∀ n d interface, decls.get? n = some d → interface ∈ d.interfaces →
    declaredAsClass decls interface = false

theorem exists_collect_of_build (h : build ds = .ok cat) :
    ∃ decls, collect ds = .ok decls ∧ Shaped decls ∧
      ∀ name entry, cat.get? name = some entry → lineage decls name = .ok entry.lineage := by
  obtain ⟨decls, hentered⟩ := exists_entered_of_build (.refl ds) h
  have hunreserved := (exists_collect_iff.mp ⟨decls, hentered.collected⟩).1
  have hget := get?_collect_iff hentered.collected
  have hshape (n : String) (d : Declaration ω) (hd : decls.get? n = some d) :=
    checkShape_eq_ok_iff.mp (hentered.shaped d ((hget n d).mp hd).1)
  refine ⟨decls, hentered.collected, ⟨fun n d hd => ?_, ?_, ?_⟩,
    fun name entry hentry => ((hentered.get?_iff name entry).mp hentry).2.2⟩
  · obtain ⟨hmem, rfl⟩ := (hget n d).mp hd
    exact hunreserved d hmem
  · exact fun n d superclass hd hsuper => ((hshape n d hd).1 superclass hsuper).2
  · exact fun n d interface hd => (hshape n d hd).2 interface

/-- By its kind, no declared name is both implemented and extended. -/
theorem Shaped.not_extended (hshaped : Shaped decls) {name superclass interface : String}
    {k : Nat} {d : Declaration ω} {referrer : String} (hd : decls.get? referrer = some d)
    (hsuper : d.superclass = some superclass) (hlevel : interface ∈ level decls name (k + 1))
    (hdeclared : (decls.get? interface).isSome) : superclass ≠ interface := by
  rintro rfl
  obtain ⟨d', hd'⟩ := Option.isSome_iff_exists.mp hdeclared
  obtain ⟨implementor, _, himplemented⟩ := (Lineage.mem_level_succ.mp hlevel).1
  rw [interfacesOf] at himplemented
  cases himplementor : decls.get? implementor with
  | none =>
    rw [himplementor] at himplemented
    cases himplemented
  | some e =>
    rw [himplementor] at himplemented
    have hnotClass := hshaped.interface implementor e superclass himplementor himplemented
    have hnotInterface := hshaped.superclass referrer d superclass hd hsuper
    rw [declaredAsClass, hd', Option.any_some] at hnotClass
    rw [declaredAsInterface, hd', Option.any_some] at hnotInterface
    rw [hnotInterface] at hnotClass
    cases hnotClass

theorem Shaped.nodup_lineage (hshaped : Shaped decls) {name : String} {l : List String}
    (h : lineage decls name = .ok l) : l.Nodup := by
  obtain ⟨names, depth, hchain, hwalk, _, rfl⟩ := Lineage.exists_chain_of_lineage h
  have hlevels : (name :: (List.range depth).flatMap fun k =>
      level decls name (k + 1)).Nodup := by
    rw [← Lineage.upTo_eq]
    exact Lineage.nodup_upTo decls name depth
  obtain ⟨hname, hlevels⟩ := List.nodup_cons.mp hlevels
  have hdeclared {n : String} (hn : n ∈ (List.range depth).flatMap fun k =>
      level decls name (k + 1)) : (decls.get? n).isSome := by
    obtain ⟨k, _, hk⟩ := List.mem_flatMap.mp hn
    exact Lineage.declared_of_mem_level hwalk hk
  have hroot {n : String} (hn : (decls.get? n).isSome) : n ≠ rootName := by
    obtain ⟨d, hd⟩ := Option.isSome_iff_exists.mp hn
    exact hshaped.named n d hd
  have hdisjoint : ∀ n ∈ names, n ∉ (List.range depth).flatMap fun k =>
      level decls name (k + 1) := by
    intro n hn hlevel
    obtain ⟨hsome, rfl | ⟨referrer, d, hd, hsuper⟩⟩ := Lineage.mem_chain hchain hn
    · exact hname hlevel
    · obtain ⟨k, _, hk⟩ := List.mem_flatMap.mp hlevel
      exact hshaped.not_extended hd hsuper hk hsome rfl
  refine List.Nodup.append ?_ (List.nodup_singleton rootName) ?_
  · exact List.Nodup.append (Lineage.nodup_chain hchain).1 hlevels fun n hn => hdisjoint n hn
  · intro n hn hrootName
    rw [List.mem_singleton] at hrootName
    rcases List.mem_append.mp hn with hn | hn
    · exact hroot (Lineage.mem_chain hchain hn).1 hrootName
    · exact hroot (hdeclared hn) hrootName

end Catalog

/-- The search order of a type is its superclasses, then its interfaces level by level, then the
root. In a catalog no name stands twice in it, and searching it finds the nearest ancestor. -/
theorem lineage_nearest_first :
    (∀ (decls : Declarations ω) (name : String) (l : List String), lineage decls name = .ok l →
      ∃ names depth, (∀ k, names[k]? = ancestor? decls name k) ∧
        (∀ k, depth ≤ k → level decls name (k + 1) = []) ∧
        l = names ++ (List.range depth).flatMap (fun k => level decls name (k + 1)) ++
          [rootName]) ∧
    ∀ (ds : List (Declaration ω)) (cat : Catalog ω), Catalog.build ds = .ok cat →
      ∃ decls, Catalog.collect ds = .ok decls ∧
        ∀ name entry, cat.get? name = some entry →
          lineage decls name = .ok entry.lineage ∧ entry.lineage.Nodup ∧
            ∀ {α : Type} (registry : Registry String α),
              Selects decls registry name (closest? entry.lineage registry) := by
  constructor
  · intro decls name l h
    obtain ⟨names, depth, hchain, _, hdepth, rfl⟩ := Lineage.exists_chain_of_lineage h
    exact ⟨names, depth, Lineage.getElem?_chain hchain, hdepth, rfl⟩
  · intro ds cat hbuild
    obtain ⟨decls, hcollect, hshaped, hlineage⟩ := Catalog.exists_collect_of_build hbuild
    refine ⟨decls, hcollect, fun name entry hget => ?_⟩
    have h := hlineage name entry hget
    refine ⟨h, hshaped.nodup_lineage h, fun registry => ?_⟩
    obtain ⟨names, depth, hchain, _, hdepth, hsplit⟩ := Lineage.exists_chain_of_lineage h
    rw [hsplit]
    exact selects_closest? (Lineage.getElem?_chain hchain) hdepth

/-- Two interfaces of a leaf lead on to a third, and one of them to itself. -/
def leafDeclarations : List (Declaration Sample) :=
  [{ subject := .interface "Drawable" },
    { subject := .interface "Shape", interfaces := ["Drawable"] },
    { subject := .interface "Visitable", interfaces := ["Drawable", "Visitable"] },
    { subject := .abstract "Base", interfaces := ["Printable"] },
    { subject := .interface "Printable" },
    { subject := .abstract "Node", superclass := some "Base", interfaces := ["Drawable"] },
    { subject := .abstract "Leaf", superclass := some "Node",
      interfaces := ["Visitable", "Shape"] }]

def leafHandlers : Registry String Nat :=
  ((Registry.empty.insert "Drawable" 0).insert "Shape" 1).insert "Printable" 2

theorem leaf_selects_shape : ∃ decls cat entry,
    Catalog.collect leafDeclarations = .ok decls ∧ Catalog.build leafDeclarations = .ok cat ∧
    cat.get? "Leaf" = some entry ∧
    entry.lineage = ["Leaf", "Node", "Base", "Visitable", "Shape", "Drawable", "object"] ∧
    entry.lineage.Nodup ∧ Selects decls leafHandlers "Leaf" (some ("Shape", 1)) ∧
    ∃ names depth, (∀ k, names[k]? = ancestor? decls "Leaf" k) ∧
      (∀ k, depth ≤ k → level decls "Leaf" (k + 1) = []) ∧
      entry.lineage = names ++ (List.range depth).flatMap (fun k => level decls "Leaf" (k + 1)) ++
        [rootName] := by
  have hbuilt : ((Catalog.build leafDeclarations).toOption.bind (·.lineage? "Leaf")) =
      some ["Leaf", "Node", "Base", "Visitable", "Shape", "Drawable", "object"] := by
    decide +kernel
  obtain ⟨cat, hcat, hlineage⟩ := Option.bind_eq_some_iff.mp hbuilt
  obtain ⟨entry, hentry, hnames⟩ := Option.map_eq_some_iff.mp hlineage
  have hbuild : Catalog.build leafDeclarations = .ok cat := by
    cases hb : Catalog.build leafDeclarations with
    | error e =>
      rw [hb] at hcat
      cases hcat
    | ok built =>
      rw [hb] at hcat
      cases hcat
      rfl
  obtain ⟨hlevels, hcatalogs⟩ := lineage_nearest_first (ω := Sample)
  obtain ⟨decls, hcollect, hentries⟩ := hcatalogs leafDeclarations cat hbuild
  obtain ⟨horder, hnodup, hselects⟩ := hentries "Leaf" entry hentry
  have hshape : closest? entry.lineage leafHandlers = some ("Shape", 1) := by
    rw [hnames]
    rfl
  refine ⟨decls, cat, entry, hcollect, hbuild, hentry, hnames, hnodup, ?_,
    hlevels decls "Leaf" _ horder⟩
  rw [← hshape]
  exact hselects leafHandlers

end Remoting
