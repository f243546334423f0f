import Mathlib.Logic.Relation
import Remoting.Proofs.NearestHandler

/-!
# Which declarations make a catalog

A list of declarations is accepted exactly if its names are distinct and none is the root's, every
reference is to a declared type of the right kind, and no chain of superclasses comes back to
itself. References are found wanting only when lineages are looked up: that of a type comes past
its superclass and past each of its interfaces. What a lineage is depends on the declarations that
it comes past, so the order of the list does not matter, nor do further declarations.
-/

namespace Remoting

variable {ω : Type} [Portable ω]

namespace Lineage

variable {decls decls' : Declarations ω} {d : Declaration ω} {name superclass start next : String}
  {seen names visited queue result : List String} {referrer : String}

def Extends (decls : Declarations ω) (name superclass : String) : Prop :=
  ∃ d, decls.get? name = some d ∧ d.superclass = some superclass

/-- All that is declared in the one place is so in the other. -/
def Within (decls decls' : Declarations ω) : Prop :=
  ∀ n d, decls.get? n = some d → decls'.get? n = some d

/-- Every reference is to a declared name. -/
structure Closed (decls : Declarations ω) : Prop where
  superclass : ∀ {n superclass}, Extends decls n superclass → (decls.get? superclass).isSome
  interface : ∀ {n d interface}, decls.get? n = some d → interface ∈ d.interfaces →
    (decls.get? interface).isSome

theorem Closed.of_interfacesOf (hclosed : Closed decls) {interface : String}
    (hlisted : interface ∈ interfacesOf decls name) : (decls.get? interface).isSome := by
  cases hdecl : decls.get? name with
  | none =>
    rw [interfacesOf, hdecl] at hlisted
    cases hlisted
  | some d =>
    rw [interfacesOf_of_declared hdecl] at hlisted
    exact hclosed.interface hdecl hlisted

section Success

theorem chain_of_declared (hseen : name ∉ seen) (hdecl : decls.get? name = some d) :
    chain decls seen referrer name = d.superclass.elim (.ok [name]) fun superclass =>
      (name :: ·) <$> chain decls (name :: seen) name superclass := by
  rw [chain, dif_neg hseen]
  split
  · rename_i hnone
    rw [hdecl] at hnone
    cases hnone
  · rename_i d' hsome
    rw [hdecl] at hsome
    cases hsome
    cases d.superclass <;> rfl

theorem walk_of_declared (hdecl : decls.get? next = some d)
    (hall : ∀ interface ∈ fresh visited d.interfaces, (decls.get? interface).isSome) :
    walk decls start visited (next :: queue) =
      walk decls start (visited ++ fresh visited d.interfaces)
        (queue ++ fresh visited d.interfaces) := by
  rw [walk]
  split
  · rename_i hnone
    rw [hdecl] at hnone
    cases hnone
  · rename_i d' hsome
    rw [hdecl] at hsome
    cases hsome
    split
    · rename_i missing hmissing
      have hnot : missing ∉ decls.keys := by simpa using List.find?_some hmissing
      rw [Registry.mem_keys_iff, ← Option.isSome_iff_exists] at hnot
      exact absurd (hall missing (List.mem_of_find?_eq_some hmissing)) hnot
    · rfl

theorem exists_chain (hclosed : Closed decls)
    (acyclic : ∀ n, ¬ Relation.TransGen (Extends decls) n n) (declared : (decls.get? name).isSome)
    (below : ∀ n ∈ seen, Relation.TransGen (Extends decls) n name) :
    ∃ names, chain decls seen referrer name = .ok names := by
  fun_induction chain decls seen referrer name with
  | case1 seen referrer name hseen => exact absurd (below name hseen) (acyclic name)
  | case2 seen referrer name hseen hdecl =>
    rw [hdecl] at declared
    cases declared
  | case3 seen referrer name hseen d hdecl htop => exact ⟨_, rfl⟩
  | case4 seen referrer name hseen d hdecl superclass hsuper ih =>
    have hextends : Extends decls name superclass := ⟨d, hdecl, hsuper⟩
    obtain ⟨above, habove⟩ := ih (hclosed.superclass hextends) fun n hn => by
      rcases List.mem_cons.mp hn with rfl | hn
      · exact .single hextends
      · exact (below n hn).tail hextends
    exact ⟨name :: above, by rw [habove]; rfl⟩

/-- The walk comes to its end among declared names that list none but such names. -/
theorem exists_walk {P : String → Prop} (declared : ∀ n, P n → (decls.get? n).isSome)
    (kept : ∀ n, P n → ∀ interface ∈ interfacesOf decls n, P interface)
    (hqueue : ∀ n ∈ queue, P n) : ∃ result, walk decls start visited queue = .ok result := by
  fun_induction walk decls start visited queue with
  | case1 visited => exact ⟨visited, rfl⟩
  | case2 visited next queue hdecl =>
    have hnext := declared next (hqueue next List.mem_cons_self)
    rw [hdecl] at hnext
    cases hnext
  | case3 visited next queue d hdecl missing hmissing =>
    have hlisted := (mem_fresh.mp (List.mem_of_find?_eq_some hmissing)).1
    rw [← interfacesOf_of_declared hdecl] at hlisted
    have hnot : missing ∉ decls.keys := by simpa using List.find?_some hmissing
    rw [Registry.mem_keys_iff, ← Option.isSome_iff_exists] at hnot
    exact absurd (declared missing (kept next (hqueue next List.mem_cons_self) missing hlisted)) hnot
  | case4 visited next queue d hdecl hmissing ih =>
    refine ih fun n hn => ?_
    rcases List.mem_append.mp hn with hn | hn
    · exact hqueue n (List.mem_cons_of_mem _ hn)
    · have hlisted := (mem_fresh.mp hn).1
      rw [← interfacesOf_of_declared hdecl] at hlisted
      exact kept next (hqueue next List.mem_cons_self) n hlisted

theorem exists_lineage (hclosed : Closed decls)
    (acyclic : ∀ n, ¬ Relation.TransGen (Extends decls) n n)
    (declared : (decls.get? name).isSome) : ∃ l, lineage decls name = .ok l := by
  obtain ⟨names, hchain⟩ : ∃ names, chain decls [] name name = .ok names :=
    exists_chain hclosed acyclic declared nofun
  obtain ⟨visited, hwalk⟩ : ∃ visited, walk decls name [name] [name] = .ok visited :=
    exists_walk (P := fun n => (decls.get? n).isSome = true) (fun _ hn => hn)
      (fun _ _ _ hlisted => hclosed.of_interfacesOf hlisted)
      fun n hn => by rwa [List.mem_singleton.mp hn]
  refine ⟨names ++ visited.drop 1 ++ [rootName], ?_⟩
  rw [lineage, hchain, hwalk]
  rfl

end Success

section Necessity

theorem exists_ancestor?_of_transGen (h : Relation.TransGen (Extends decls) name superclass) :
    ∃ k, ancestor? decls name (k + 1) = some superclass := by
  induction h using Relation.TransGen.head_induction_on with
  | single h =>
    obtain ⟨d, hdecl, hsuper⟩ := h
    exact ⟨0, by rw [ancestor?, hdecl, Option.bind_some, hsuper]; rfl⟩
  | head h _ ih =>
    obtain ⟨d, hdecl, hsuper⟩ := h
    obtain ⟨k, hk⟩ := ih
    exact ⟨k + 1, by rw [ancestor?, hdecl, Option.bind_some, hsuper]; exact hk⟩

/-- A chain that ends comes past no name twice. -/
theorem not_transGen_of_chain (h : chain decls seen referrer name = .ok names) :
    ¬ Relation.TransGen (Extends decls) name name := by
  intro hcycle
  obtain ⟨k, hk⟩ := exists_ancestor?_of_transGen hcycle
  have hfirst : names[0]? = some name := getElem?_chain h 0
  have hagain : names[k + 1]? = some name := (getElem?_chain h (k + 1)).trans hk
  obtain ⟨hlength, _⟩ := List.getElem?_eq_some_iff.mp hfirst
  have heq := (List.getElem?_inj hlength (nodup_chain h).1).mp (hfirst.trans hagain.symm)
  exact absurd heq (Nat.succ_ne_zero k).symm

theorem declared_of_chain (h : chain decls seen referrer name = .ok names)
    (hextends : Extends decls name superclass) : (decls.get? superclass).isSome := by
  obtain ⟨d, hdecl, hsuper⟩ := hextends
  obtain ⟨_, d', hdecl', ⟨htop, _⟩ | ⟨superclass', above, hsuper', habove, _⟩⟩ := chain_eq_ok h
  · rw [hdecl] at hdecl'
    cases hdecl'
    rw [hsuper] at htop
    cases htop
  · rw [hdecl] at hdecl'
    cases hdecl'
    rw [hsuper] at hsuper'
    cases hsuper'
    obtain ⟨_, e, he, _⟩ := chain_eq_ok habove
    rw [he]
    rfl

theorem declared_of_walk (h : walk decls name [name] [name] = .ok result)
    (hdecl : decls.get? name = some d) {interface : String} (hlisted : interface ∈ d.interfaces) :
    (decls.get? interface).isSome := by
  by_cases hself : interface = name
  · rw [hself, hdecl]
    rfl
  · have himplements : interface ∈ interfacesOf decls name := by
      rwa [interfacesOf_of_declared hdecl]
    have hlevel : interface ∈ level decls name 1 :=
      mem_level_succ.mpr ⟨⟨name, List.mem_singleton_self name, himplements⟩,
        fun hmem => hself (List.mem_singleton.mp hmem)⟩
    exact declared_of_mem_level h hlevel

end Necessity

section Locality

theorem chain_within (hwithin : Within decls decls')
    (h : chain decls seen referrer name = .ok names) :
    chain decls' seen referrer name = .ok names := by
  induction names generalizing seen referrer name with
  | nil =>
    obtain ⟨_, _, _, ⟨_, ⟨⟩⟩ | ⟨_, _, _, _, ⟨⟩⟩⟩ := chain_eq_ok h
  | cons n above ih =>
    obtain ⟨hseen, d, hdecl, hcases⟩ := chain_eq_ok h
    rw [chain_of_declared hseen (hwithin _ _ hdecl)]
    obtain ⟨htop, heq⟩ | ⟨superclass, _, hsuper, habove, heq⟩ := hcases
    · rw [htop, heq, Option.elim_none]
    · cases heq
      rw [hsuper, Option.elim_some, ih habove]
      rfl

theorem walk_within (hwithin : Within decls decls')
    (h : walk decls start visited queue = .ok result) :
    walk decls' start visited queue = .ok result := by
  fun_induction walk decls start visited queue with
  | case1 visited =>
    rw [walk]
    exact h
  | case2 | case3 => cases h
  | case4 visited next queue d hdecl hmissing ih =>
    have hall (interface : String) (hfresh : interface ∈ fresh visited d.interfaces) :
        (decls'.get? interface).isSome := by
      have hkey : interface ∈ decls.keys := by
        simpa using List.find?_eq_none.mp hmissing interface hfresh
      obtain ⟨e, he⟩ := Registry.mem_keys_iff.mp hkey
      rw [hwithin _ _ he]
      rfl
    rw [walk_of_declared (hwithin _ _ hdecl) hall]
    exact ih h

theorem lineage_within (hwithin : Within decls decls') {l : List String}
    (h : lineage decls name = .ok l) : lineage decls' name = .ok l := by
  obtain ⟨names, hchain, h⟩ := exists_of_bind_eq_ok h
  obtain ⟨visited, hwalk, h⟩ := exists_of_bind_eq_ok h
  rw [lineage, chain_within hwithin hchain, walk_within hwithin hwalk]
  exact h

end Locality

end Lineage

namespace Catalog

open Lineage (Extends Within Closed)

variable {ds ds' order : List (Declaration ω)} {decls decls' : Declarations ω}
  {cat cat' : Catalog ω}

/-- One of the declarations gives the named type this superclass. -/
def DeclaredUnder (ds : List (Declaration ω)) (name superclass : String) : Prop :=
  ∃ d ∈ ds, d.name = name ∧ d.superclass = some superclass

structure Acceptable (ds : List (Declaration ω)) : Prop where
  unreserved : ∀ d ∈ ds, d.name ≠ rootName
  distinct : (ds.map (·.name)).Nodup
  topmost : ∀ d ∈ ds, d.isInterface = true → d.superclass = none
  superclass : ∀ d ∈ ds, ∀ superclass, d.superclass = some superclass →
    ∃ e ∈ ds, e.name = superclass ∧ e.isInterface = false
  interface : ∀ d ∈ ds, ∀ interface ∈ d.interfaces,
    ∃ e ∈ ds, e.name = interface ∧ e.isInterface = true
  acyclic : ∀ name, ¬ Relation.TransGen (DeclaredUnder ds) name name

theorem extends_eq (h : collect ds = .ok decls) : Extends decls = DeclaredUnder ds := by
  funext name superclass
  simp only [Extends, DeclaredUnder, get?_collect_iff h, and_assoc]

theorem Acceptable.closed (hds : Acceptable ds) (h : collect ds = .ok decls) : Closed decls where
  superclass := by
    intro n superclass hextends
    rw [extends_eq h] at hextends
    obtain ⟨d, hd, _, hsuper⟩ := hextends
    obtain ⟨e, he, hname, _⟩ := hds.superclass d hd superclass hsuper
    rw [(get?_collect_iff h superclass e).mpr ⟨he, hname⟩]
    rfl
  interface := by
    intro n d interface hdecl hlisted
    obtain ⟨hd, _⟩ := (get?_collect_iff h n d).mp hdecl
    obtain ⟨e, he, hname, _⟩ := hds.interface d hd interface hlisted
    rw [(get?_collect_iff h interface e).mpr ⟨he, hname⟩]
    rfl

theorem Acceptable.checkShape (hds : Acceptable ds) (h : collect ds = .ok decls)
    {d : Declaration ω} (hd : d ∈ ds) : Catalog.checkShape decls d = .ok () := by
  refine checkShape_eq_ok_iff.mpr ⟨fun superclass hsuper => ⟨?_, ?_⟩, fun interface hlisted => ?_⟩
  · cases hkind : d.isInterface with
    | false => rfl
    | true =>
      rw [hds.topmost d hd hkind] at hsuper
      cases hsuper
  · obtain ⟨e, he, hname, hclass⟩ := hds.superclass d hd superclass hsuper
    rw [declaredAsInterface, (get?_collect_iff h superclass e).mpr ⟨he, hname⟩, Option.any_some,
      hclass]
  · obtain ⟨e, he, hname, hkind⟩ := hds.interface d hd interface hlisted
    rw [declaredAsClass, (get?_collect_iff h interface e).mpr ⟨he, hname⟩, Option.any_some, hkind]
    rfl

theorem Acceptable.exists_build (hds : Acceptable ds) (hperm : order.Perm ds) :
    ∃ cat, buildInOrder ds order = .ok cat := by
  obtain ⟨decls, h⟩ := exists_collect_iff.mpr ⟨hds.unreserved, hds.distinct⟩
  refine (exists_build_iff hperm).mpr ⟨decls, h, fun d hd => hds.checkShape h hd, fun d hd => ?_⟩
  refine Lineage.exists_lineage (hds.closed h) ?_ ?_
  · rw [extends_eq h]
    exact hds.acyclic
  · rw [(get?_collect_iff h d.name d).mpr ⟨hd, rfl⟩]
    rfl

theorem Entered.acceptable (hcat : Entered ds decls cat) : Acceptable ds := by
  have hget := get?_collect_iff hcat.collected
  obtain ⟨hunreserved, hdistinct⟩ := exists_collect_iff.mp ⟨decls, hcat.collected⟩
  have hshape (d : Declaration ω) (hd : d ∈ ds) := checkShape_eq_ok_iff.mp (hcat.shaped d hd)
  refine ⟨hunreserved, hdistinct, fun d hd hkind => ?_, fun d hd superclass hsuper => ?_,
    fun d hd interface hlisted => ?_, fun name hcycle => ?_⟩
  · cases hsuper : d.superclass with
    | none => rfl
    | some superclass =>
      rw [((hshape d hd).1 superclass hsuper).1] at hkind
      cases hkind
  · obtain ⟨l, hlineage⟩ := hcat.lineages d hd
    obtain ⟨names, _, hchain, _⟩ := Lineage.exists_chain_of_lineage hlineage
    have hextends : Extends decls d.name superclass := ⟨d, (hget _ _).mpr ⟨hd, rfl⟩, hsuper⟩
    obtain ⟨e, he⟩ := Option.isSome_iff_exists.mp (Lineage.declared_of_chain hchain hextends)
    obtain ⟨hmem, hname⟩ := (hget _ _).mp he
    have hclass := ((hshape d hd).1 superclass hsuper).2
    rw [declaredAsInterface, he, Option.any_some] at hclass
    exact ⟨e, hmem, hname, hclass⟩
  · obtain ⟨l, hlineage⟩ := hcat.lineages d hd
    obtain ⟨_, _, _, hwalk, _⟩ := Lineage.exists_chain_of_lineage hlineage
    have hdecl : decls.get? d.name = some d := (hget _ _).mpr ⟨hd, rfl⟩
    obtain ⟨e, he⟩ :=
      Option.isSome_iff_exists.mp (Lineage.declared_of_walk hwalk hdecl hlisted)
    obtain ⟨hmem, hname⟩ := (hget _ _).mp he
    have hkind := (hshape d hd).2 interface hlisted
    rw [declaredAsClass, he, Option.any_some, Bool.not_eq_false'] at hkind
    exact ⟨e, hmem, hname, hkind⟩
  · obtain ⟨superclass, ⟨d, hd, rfl, _⟩, _⟩ := Relation.TransGen.head'_iff.mp hcycle
    obtain ⟨l, hlineage⟩ := hcat.lineages d hd
    obtain ⟨names, _, hchain, _⟩ := Lineage.exists_chain_of_lineage hlineage
    rw [← extends_eq hcat.collected] at hcycle
    exact Lineage.not_transGen_of_chain hchain hcycle

theorem exists_build_iff_acceptable (hperm : order.Perm ds) :
    (∃ cat, buildInOrder ds order = .ok cat) ↔ Acceptable ds := by
  refine ⟨fun ⟨cat, h⟩ => ?_, fun hds => hds.exists_build hperm⟩
  obtain ⟨decls, hcat⟩ := exists_entered_of_build hperm h
  exact hcat.acceptable

theorem Acceptable.perm (hds : Acceptable ds) (hperm : ds'.Perm ds) : Acceptable ds' := by
  have hmem (d : Declaration ω) : d ∈ ds' ↔ d ∈ ds := hperm.mem_iff
  have hunder : DeclaredUnder ds' = DeclaredUnder ds := by
    funext name superclass
    simp only [DeclaredUnder, hmem]
  refine ⟨?_, (hperm.map _).nodup_iff.mpr hds.distinct, ?_, ?_, ?_, ?_⟩
  · simpa only [hmem] using hds.unreserved
  · simpa only [hmem] using hds.topmost
  · simpa only [hmem] using hds.superclass
  · simpa only [hmem] using hds.interface
  · rw [hunder]
    exact hds.acyclic

/-- What is entered stays so when there are further declarations. -/
theorem Entered.get?_of_subset (hcat : Entered ds decls cat) (hcat' : Entered ds' decls' cat')
    (hsubset : ds ⊆ ds') {name : String} {entry : Entry ω} (h : cat.get? name = some entry) :
    cat'.get? name = some entry := by
  obtain ⟨hmem, hname, hlineage⟩ := (hcat.get?_iff name entry).mp h
  refine (hcat'.get?_iff name entry).mpr ⟨hsubset hmem, hname, ?_⟩
  refine Lineage.lineage_within (fun n d hd => ?_) hlineage
  obtain ⟨hd, hname⟩ := (get?_collect_iff hcat.collected n d).mp hd
  exact (get?_collect_iff hcat'.collected n d).mpr ⟨hsubset hd, hname⟩

theorem Entered.get?_of_perm (hcat : Entered ds decls cat) (hcat' : Entered ds' decls' cat')
    (hperm : ds'.Perm ds) (name : String) : cat'.get? name = cat.get? name := by
  refine Option.ext fun entry => ⟨fun h => ?_, fun h => ?_⟩
  · exact hcat'.get?_of_subset hcat hperm.subset h
  · exact hcat.get?_of_subset hcat' hperm.symm.subset h

theorem mem_declarations_iff {cat : Catalog ω} {d : Declaration ω} :
    d ∈ cat.declarations ↔ ∃ name entry, cat.get? name = some entry ∧ entry.declaration = d := by
  constructor
  · intro h
    obtain ⟨entry, hentry, rfl⟩ := List.mem_map.mp h
    obtain ⟨e, he, rfl⟩ := List.mem_map.mp hentry
    exact ⟨e.1, e.2, Registry.get?_of_mem he, rfl⟩
  · rintro ⟨name, entry, hget, rfl⟩
    have he : (name, entry) ∈ cat.entries.entries := Registry.mem_entries_iff.mpr hget
    exact List.mem_map_of_mem (List.mem_map_of_mem he)

theorem Entered.declarations_perm (hcat : Entered ds decls cat) : cat.declarations.Perm ds := by
  have hnames : cat.declarations.map (·.name) = cat.entries.keys := by
    rw [declarations, Registry.values, Registry.keys, List.map_map, List.map_map]
    refine List.map_congr_left fun e he => ?_
    exact ((hcat.get?_iff e.1 e.2).mp (Registry.get?_of_mem he)).2.1
  have hnodup : cat.declarations.Nodup :=
    .of_map (·.name) (by rw [hnames]; exact cat.entries.nodup_keys)
  have hds : ds.Nodup := .of_map (·.name) (exists_collect_iff.mp ⟨decls, hcat.collected⟩).2
  refine (List.perm_ext_iff_of_nodup hnodup hds).mpr fun d => ?_
  rw [mem_declarations_iff]
  constructor
  · rintro ⟨name, entry, hget, rfl⟩
    exact ((hcat.get?_iff name entry).mp hget).1
  · intro hd
    obtain ⟨l, hl⟩ := hcat.lineages d hd
    exact ⟨d.name, ⟨d, l⟩, (hcat.get?_iff _ _).mpr ⟨hd, rfl, hl⟩, rfl⟩

/-- The list of declarations is accepted by what it says alone, and so is what is entered: neither
the order of the list nor that of the later passes makes a difference. -/
theorem accepts_in_any_order (ds : List (Declaration ω)) :
    ((∃ cat, build ds = .ok cat) ↔ Acceptable ds) ∧
    (∀ order : List (Declaration ω), order.Perm ds →
      ((∃ cat, buildInOrder ds order = .ok cat) ↔ Acceptable ds)) ∧
    ∀ cat : Catalog ω, build ds = .ok cat →
      cat.declarations.Perm ds ∧
      (∀ name entry, cat.get? name = some entry → entry.declaration.name = name) ∧
      ∀ ds' : List (Declaration ω), ds'.Perm ds →
        (∃ cat', build ds' = .ok cat' ∧ ∀ name, cat'.get? name = cat.get? name) ∧
        ∀ order : List (Declaration ω), order.Perm ds' →
          ∃ cat', buildInOrder ds' order = .ok cat' ∧ ∀ name, cat'.get? name = cat.get? name := by
  refine ⟨exists_build_iff_acceptable (.refl ds), fun _ => exists_build_iff_acceptable, ?_⟩
  intro cat hbuild
  obtain ⟨decls, hcat⟩ := exists_entered_of_build (.refl ds) hbuild
  have hagain (ds' order : List (Declaration ω)) (hds' : ds'.Perm ds) (horder : order.Perm ds') :
      ∃ cat', buildInOrder ds' order = .ok cat' ∧ ∀ name, cat'.get? name = cat.get? name := by
    obtain ⟨cat', hbuild'⟩ := (hcat.acceptable.perm hds').exists_build horder
    obtain ⟨decls', hcat'⟩ := exists_entered_of_build horder hbuild'
    exact ⟨cat', hbuild', hcat.get?_of_perm hcat' hds'⟩
  refine ⟨hcat.declarations_perm, fun name entry hget => ?_, fun ds' hds' => ?_⟩
  · exact ((hcat.get?_iff name entry).mp hget).2.1
  · exact ⟨hagain ds' ds' hds' (.refl ds'), fun order => hagain ds' order hds'⟩

theorem leafDeclarations_accepted_backwards : ∃ cat cat' : Catalog Sample,
    build leafDeclarations = .ok cat ∧ build leafDeclarations.reverse = .ok cat' ∧
    (∀ name, cat'.get? name = cat.get? name) ∧ cat.declarations.Perm leafDeclarations ∧
    Acceptable leafDeclarations := by
  obtain ⟨haccepted, _, hentries⟩ := accepts_in_any_order leafDeclarations
  have hbuilt : (build leafDeclarations).toOption.isSome = true := by decide +kernel
  cases hcat : build leafDeclarations with
  | error e =>
    rw [hcat] at hbuilt
    cases hbuilt
  | ok cat =>
    obtain ⟨hperm, _, hagain⟩ := hentries cat hcat
    obtain ⟨⟨cat', hcat', hsame⟩, _⟩ := hagain _ (List.reverse_perm leafDeclarations)
    exact ⟨cat, cat', rfl, hcat', hsame, hperm, haccepted.mp ⟨cat, hcat⟩⟩

end Catalog

end Remoting
