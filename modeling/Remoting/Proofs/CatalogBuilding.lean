import Mathlib.Data.List.Perm.Basic
import Remoting.Catalog

/-!
# Building a catalog

A catalog is built in three passes: the declarations are collected by name, their shapes are
checked, and each is entered with its lineage. Each pass is described here by when it succeeds and
what it leaves. The second and the third may come to the declarations in any order.
-/

namespace Remoting

variable {ω : Type} [Portable ω]

theorem exists_of_bind_eq_ok {ε β γ : Type} {x : Except ε β} {next : β → Except ε γ} {c : γ}
    (h : x >>= next = .ok c) : ∃ b, x = .ok b ∧ next b = .ok c := by
  cases x with
  | error e => cases h
  | ok b => exact ⟨b, rfl, h⟩

theorem eq_ok_of_toOption {ε β : Type} {x : Except ε β} {b : β} (h : x.toOption = some b) :
    x = .ok b := by
  cases x with
  | error e => cases h
  | ok b' =>
    cases h
    rfl

theorem forM_eq_ok_iff {ε α : Type} {check : α → Except ε Unit} {l : List α} :
    l.forM check = .ok () ↔ ∀ a ∈ l, check a = .ok () := by
  induction l with
  | nil => exact ⟨fun _ => nofun, fun _ => rfl⟩
  | cons a l ih =>
    rw [List.forall_mem_cons, ← ih]
    constructor
    · intro h
      obtain ⟨_, ha, hl⟩ := exists_of_bind_eq_ok h
      exact ⟨ha, hl⟩
    · rintro ⟨ha, hl⟩
      change (check a >>= fun _ => l.forM check) = .ok ()
      rw [ha]
      exact hl

namespace Catalog

variable {ds order : List (Declaration ω)} {d : Declaration ω} {decls decls' : Declarations ω}
  {entries entries' : Registry String (Entry ω)} {name : String}

theorem add_eq_ok_iff : add decls d = .ok decls' ↔
    d.name ≠ rootName ∧ decls.get? d.name = none ∧ decls' = decls.insert d.name d := by
  rw [add]
  by_cases hroot : d.name = rootName
  · rw [if_pos hroot]
    exact ⟨nofun, fun h => absurd hroot h.1⟩
  rw [if_neg hroot]
  cases hget : decls.get? d.name with
  | some e =>
    rw [if_pos (by rw [Registry.contains, hget]; rfl)]
    exact ⟨nofun, fun h => nomatch h.2.1⟩
  | none =>
    rw [if_neg (by rw [Registry.contains, hget]; exact Bool.false_ne_true)]
    constructor
    · rintro ⟨⟩
      exact ⟨hroot, rfl, rfl⟩
    · rintro ⟨_, _, rfl⟩
      rfl

/-- What is collected behind other declarations is new to them, and all of it is there. -/
theorem collected_behind (h : ds.foldlM add decls = .ok decls') :
    (∀ d ∈ ds, d.name ≠ rootName ∧ decls.get? d.name = none) ∧ (ds.map (·.name)).Nodup ∧
      ∀ n d, decls'.get? n = some d ↔ decls.get? n = some d ∨ d ∈ ds ∧ d.name = n := by
  induction ds generalizing decls with
  | nil =>
    cases h
    exact ⟨nofun, List.nodup_nil, fun n d => (or_iff_left fun h => nomatch h.1).symm⟩
  | cons d ds ih =>
    obtain ⟨between, hadd, hrest⟩ := exists_of_bind_eq_ok h
    obtain ⟨hroot, hnew, rfl⟩ := add_eq_ok_iff.mp hadd
    obtain ⟨hall, hnodup, hget⟩ := ih hrest
    have hother (e : Declaration ω) (he : e ∈ ds) : e.name ≠ d.name := by
      intro heq
      have hfree := (hall e he).2
      rw [Registry.get?_insert, if_pos heq] at hfree
      cases hfree
    refine ⟨List.forall_mem_cons.mpr ⟨⟨hroot, hnew⟩, fun e he => ?_⟩, ?_, fun n e => ?_⟩
    · obtain ⟨hunreserved, hfree⟩ := hall e he
      rw [Registry.get?_insert, if_neg (hother e he)] at hfree
      exact ⟨hunreserved, hfree⟩
    · refine List.nodup_cons.mpr ⟨fun hmem => ?_, hnodup⟩
      obtain ⟨e, he, heq⟩ := List.mem_map.mp hmem
      exact hother e he heq
    · rw [hget, Registry.get?_insert, List.mem_cons]
      by_cases hn : n = d.name
      · rw [if_pos hn, hn, hnew]
        constructor
        · rintro (⟨⟨⟩⟩ | ⟨he, heq⟩)
          · exact .inr ⟨.inl rfl, rfl⟩
          · exact absurd heq (hother e he)
        · rintro (⟨⟨⟩⟩ | ⟨rfl | he, heq⟩)
          · exact .inl rfl
          · exact absurd heq (hother e he)
      · rw [if_neg hn]
        refine or_congr_right (and_congr_left fun heq => ?_)
        rw [or_iff_right]
        rintro rfl
        exact hn heq.symm

theorem exists_collected_behind (hall : ∀ d ∈ ds, d.name ≠ rootName ∧ decls.get? d.name = none)
    (hnodup : (ds.map (·.name)).Nodup) : ∃ decls', ds.foldlM add decls = .ok decls' := by
  induction ds generalizing decls with
  | nil => exact ⟨decls, rfl⟩
  | cons d ds ih =>
    obtain ⟨⟨hroot, hnew⟩, hall⟩ := List.forall_mem_cons.mp hall
    obtain ⟨hother, hnodup⟩ := List.nodup_cons.mp hnodup
    have hfree (e : Declaration ω) (he : e ∈ ds) :
        e.name ≠ rootName ∧ (decls.insert d.name d).get? e.name = none := by
      refine ⟨(hall e he).1, ?_⟩
      rw [Registry.get?_insert, if_neg fun heq => hother (List.mem_map.mpr ⟨e, he, heq⟩)]
      exact (hall e he).2
    obtain ⟨decls', hrest⟩ := ih hfree hnodup
    refine ⟨decls', ?_⟩
    rw [List.foldlM_cons, add_eq_ok_iff.mpr ⟨hroot, hnew, rfl⟩]
    exact hrest

theorem get?_collect_iff (h : collect ds = .ok decls) (n : String) (d : Declaration ω) :
    decls.get? n = some d ↔ d ∈ ds ∧ d.name = n := by
  rw [(collected_behind h).2.2, Registry.get?_empty]
  exact or_iff_right nofun

theorem exists_collect_iff : (∃ decls, collect ds = .ok decls) ↔
    (∀ d ∈ ds, d.name ≠ rootName) ∧ (ds.map (·.name)).Nodup := by
  constructor
  · rintro ⟨decls, h⟩
    obtain ⟨hall, hnodup, _⟩ := collected_behind h
    exact ⟨fun d hd => (hall d hd).1, hnodup⟩
  · rintro ⟨hroot, hnodup⟩
    exact exists_collected_behind (fun d hd => ⟨hroot d hd, rfl⟩) hnodup

theorem checkShape_eq_ok_iff : checkShape decls d = .ok () ↔
    (∀ superclass, d.superclass = some superclass →
      d.isInterface = false ∧ declaredAsInterface decls superclass = false) ∧
      ∀ interface ∈ d.interfaces, declaredAsClass decls interface = false := by
  unfold checkShape
  cases hfind : d.interfaces.find? (declaredAsClass decls) with
  | some found =>
    refine iff_of_false (fun h => ?_) fun h => ?_
    · cases hsuper : d.superclass with
      | none =>
        rw [hsuper] at h
        cases h
      | some superclass =>
        rw [hsuper] at h
        cases hkind : d.isInterface || declaredAsInterface decls superclass <;>
        · simp only [hkind] at h
          cases h
    · have hclass := List.find?_some hfind
      rw [h.2 found (List.mem_of_find?_eq_some hfind)] at hclass
      cases hclass
  | none =>
    have hlisted : ∀ interface ∈ d.interfaces, declaredAsClass decls interface = false := by
      simpa using hfind
    rw [and_iff_left hlisted]
    cases hsuper : d.superclass with
    | none =>
      refine iff_of_true rfl ?_
      rintro _ ⟨⟩
    | some superclass =>
      cases hkind : d.isInterface || declaredAsInterface decls superclass with
      | true =>
        simp only [hkind]
        refine iff_of_false (fun h => ?_) fun h => ?_
        · cases h
        · obtain ⟨hclass, hextended⟩ := h superclass rfl
          rw [hclass, hextended] at hkind
          cases hkind
      | false =>
        simp only [hkind]
        refine iff_of_true rfl ?_
        rintro _ ⟨⟩
        exact Bool.or_eq_false_iff.mp hkind

theorem enter_eq_ok_iff : enter decls entries d = .ok entries' ↔
    ∃ l, lineage decls d.name = .ok l ∧ entries' = entries.insert d.name ⟨d, l⟩ := by
  rw [enter]
  constructor
  · intro h
    obtain ⟨l, hl, h⟩ := exists_of_bind_eq_ok h
    cases h
    exact ⟨l, hl, rfl⟩
  · rintro ⟨l, hl, rfl⟩
    rw [hl]
    rfl

theorem exists_entered_iff : (∃ entries', order.foldlM (enter decls) entries = .ok entries') ↔
    ∀ d ∈ order, ∃ l, lineage decls d.name = .ok l := by
  induction order generalizing entries with
  | nil => exact ⟨fun _ => nofun, fun _ => ⟨entries, rfl⟩⟩
  | cons d order ih =>
    rw [List.forall_mem_cons]
    constructor
    · rintro ⟨entries', h⟩
      obtain ⟨between, henter, hrest⟩ := exists_of_bind_eq_ok h
      obtain ⟨l, hl, _⟩ := enter_eq_ok_iff.mp henter
      exact ⟨⟨l, hl⟩, ih.mp ⟨entries', hrest⟩⟩
    · rintro ⟨⟨l, hl⟩, hall⟩
      obtain ⟨entries', hrest⟩ := ih.mpr hall
      refine ⟨entries', ?_⟩
      rw [List.foldlM_cons, enter_eq_ok_iff.mpr ⟨l, hl, rfl⟩]
      exact hrest

theorem get?_entered_iff (h : order.foldlM (enter decls) entries = .ok entries')
    (hnodup : (order.map (·.name)).Nodup) (hnew : ∀ d ∈ order, entries.get? d.name = none)
    (name : String) (entry : Entry ω) :
    entries'.get? name = some entry ↔ entries.get? name = some entry ∨
      entry.declaration ∈ order ∧ entry.declaration.name = name ∧
        lineage decls name = .ok entry.lineage := by
  induction order generalizing entries with
  | nil =>
    cases h
    exact (or_iff_left fun h => nomatch h.1).symm
  | cons d order ih =>
    obtain ⟨between, henter, hrest⟩ := exists_of_bind_eq_ok h
    obtain ⟨l, hl, rfl⟩ := enter_eq_ok_iff.mp henter
    obtain ⟨hother, hnodup⟩ := List.nodup_cons.mp hnodup
    obtain ⟨hfree, hnew⟩ := List.forall_mem_cons.mp hnew
    have hne (e : Declaration ω) (he : e ∈ order) : e.name ≠ d.name :=
      fun heq => hother (List.mem_map.mpr ⟨e, he, heq⟩)
    rw [ih hrest hnodup fun e he => by
      rw [Registry.get?_insert, if_neg (hne e he)]
      exact hnew e he]
    rw [Registry.get?_insert, List.mem_cons]
    by_cases hname : name = d.name
    · rw [if_pos hname, hname, hfree, hl]
      constructor
      · rintro (⟨⟨⟩⟩ | ⟨he, heq, _⟩)
        · exact .inr ⟨.inl rfl, rfl, rfl⟩
        · exact absurd heq (hne _ he)
      · rintro (⟨⟨⟩⟩ | ⟨hd | he, heq, hlineage⟩)
        · cases entry
          cases hd
          cases hlineage
          exact .inl rfl
        · exact absurd heq (hne _ he)
    · rw [if_neg hname]
      refine or_congr_right (and_congr_left fun hentry => ?_)
      rw [or_iff_right]
      intro hd
      exact hname (hd ▸ hentry.1.symm)

/-- The catalog of the declarations, when they are come to in the given order once they are
collected. -/
def buildInOrder (ds order : List (Declaration ω)) : Except HierarchyFault (Catalog ω) := do
  let decls ← collect ds
  order.forM (checkShape decls)
  return ⟨← order.foldlM (enter decls) .empty⟩

theorem build_eq_buildInOrder (ds : List (Declaration ω)) : build ds = buildInOrder ds ds := rfl

/-- All passes went well, and each declaration is entered under its name with its lineage. -/
structure Entered (ds : List (Declaration ω)) (decls : Declarations ω) (cat : Catalog ω) :
    Prop where
  collected : collect ds = .ok decls
  shaped : ∀ d ∈ ds, checkShape decls d = .ok ()
  lineages : ∀ d ∈ ds, ∃ l, lineage decls d.name = .ok l
  get?_iff : ∀ name entry, cat.get? name = some entry ↔
    entry.declaration ∈ ds ∧ entry.declaration.name = name ∧
      lineage decls name = .ok entry.lineage

theorem exists_entered_of_build {cat : Catalog ω} (hperm : order.Perm ds)
    (h : buildInOrder ds order = .ok cat) : ∃ decls, Entered ds decls cat := by
  obtain ⟨decls, hcollect, h⟩ := exists_of_bind_eq_ok h
  obtain ⟨_, hforM, h⟩ := exists_of_bind_eq_ok h
  obtain ⟨entries, hfold, h⟩ := exists_of_bind_eq_ok h
  cases h
  have hnodup : (order.map (·.name)).Nodup :=
    (hperm.map _).nodup_iff.mpr (exists_collect_iff.mp ⟨decls, hcollect⟩).2
  refine ⟨decls, hcollect, fun d hd => ?_, fun d hd => ?_, fun name entry => ?_⟩
  · exact forM_eq_ok_iff.mp hforM d (hperm.mem_iff.mpr hd)
  · exact exists_entered_iff.mp ⟨entries, hfold⟩ d (hperm.mem_iff.mpr hd)
  · rw [get?, get?_entered_iff hfold hnodup (fun _ _ => rfl), Registry.get?_empty,
      hperm.mem_iff]
    exact or_iff_right nofun

theorem exists_build_iff (hperm : order.Perm ds) :
    (∃ cat, buildInOrder ds order = .ok cat) ↔ ∃ decls, collect ds = .ok decls ∧
      (∀ d ∈ ds, checkShape decls d = .ok ()) ∧ ∀ d ∈ ds, ∃ l, lineage decls d.name = .ok l := by
  constructor
  · rintro ⟨cat, h⟩
    obtain ⟨decls, hentered⟩ := exists_entered_of_build hperm h
    exact ⟨decls, hentered.collected, hentered.shaped, hentered.lineages⟩
  · rintro ⟨decls, hcollect, hshaped, hlineage⟩
    have hforM : order.forM (checkShape decls) = .ok () :=
      forM_eq_ok_iff.mpr fun d hd => hshaped d (hperm.mem_iff.mp hd)
    obtain ⟨entries, hfold⟩ : ∃ entries, order.foldlM (enter decls) .empty = .ok entries :=
      exists_entered_iff.mpr fun d hd => hlineage d (hperm.mem_iff.mp hd)
    refine ⟨⟨entries⟩, ?_⟩
    simp only [buildInOrder, hcollect, hforM, hfold, bind, Except.bind]
    rfl

end Catalog

end Remoting
