import Mathlib.Data.List.Perm.Subperm
import Remoting.Proofs.CatalogAcceptance

/-!
# What is wrong with a hierarchy

Declarations may refer to anything, themselves and undeclared names included. Then a type has a
lineage unless its superclasses close into a cycle, or run out into an undeclared name, or they do
neither and an interface that comes next is not declared. `Blames` names the fault by following the
superclasses one by one and the interfaces level by level. Both loops end, as each round uses up a
declared name, and a name that was put in the queue of the second one is declared.
-/

namespace Remoting

variable {ω : Type} [Portable ω]

namespace Lineage

variable {decls : Declarations ω} {d : Declaration ω} {name n : String}
  {seen names visited queue front back before after : List String}
  {referrer current superclass missing start next : String} {i j k m taken : Nat}
  {fault : HierarchyFault}

/-- No name comes twice among the type and its first `k` superclasses. -/
def DistinctTo (decls : Declarations ω) (name : String) (k : Nat) : Prop :=
  ∀ i j, i < j → j ≤ k → ancestor? decls name i ≠ ancestor? decls name j

/-- The superclasses are declared, all of them, and come to an end. -/
def TopsOut (decls : Declarations ω) (name : String) : Prop :=
  ∃ k top d, ancestor? decls name k = some top ∧ decls.get? top = some d ∧ d.superclass = none

/-- All interfaces that a type lists are declared. -/
def Resolves (decls : Declarations ω) (name : String) : Prop :=
  ∀ interface ∈ interfacesOf decls name, (decls.get? interface).isSome

/-- Level by level, and in the order of each level, this interface is the first to be listed that
is not declared. -/
inductive Misses (decls : Declarations ω) (name : String) : String → String → Prop
  | first (k : Nat) (earlier later before after : List String) (referrer missing : String)
      (nearer : ∀ j < k, ∀ n ∈ level decls name j, Resolves decls n)
      (discovered : level decls name k = earlier ++ referrer :: later)
      (passed : ∀ n ∈ earlier, Resolves decls n)
      (listed : interfacesOf decls referrer = before ++ missing :: after)
      (declared : ∀ n ∈ before, (decls.get? n).isSome) (undeclared : decls.get? missing = none) :
      Misses decls name referrer missing

/-- The fault for which a declared type has no lineage. -/
inductive Blames (decls : Declarations ω) (name : String) : HierarchyFault → Prop
  | cycle (k : Nat) (again : String) (distinct : DistinctTo decls name k)
      (reached : ancestor? decls name (k + 1) = some again)
      (earlier : ∃ j ≤ k, ancestor? decls name j = some again) :
      Blames decls name (.cycle again)
  | superclass (k : Nat) (referrer missing : String) (distinct : DistinctTo decls name k)
      (reached : ancestor? decls name k = some referrer)
      (extended : Extends decls referrer missing) (undeclared : decls.get? missing = none) :
      Blames decls name (.undeclared missing referrer)
  | interface (referrer missing : String) (topped : TopsOut decls name)
      (misses : Misses decls name referrer missing) :
      Blames decls name (.undeclared missing referrer)

section Ancestors

theorem ancestor?_succ (decls : Declarations ω) (name : String) (k : Nat) :
    ancestor? decls name (k + 1) =
      (ancestor? decls name k).bind fun n => (decls.get? n).bind (·.superclass) := by
  induction k generalizing name with
  | zero => exact Option.bind_fun_some _
  | succ k ih =>
    rw [ancestor?, ancestor?]
    cases (decls.get? name).bind (·.superclass) with
    | none => rfl
    | some superclass => exact ih superclass

theorem ancestor?_succ_eq_some_iff :
    ancestor? decls name (k + 1) = some superclass ↔
      ∃ n, ancestor? decls name k = some n ∧ Extends decls n superclass := by
  simp only [ancestor?_succ, Option.bind_eq_some_iff, Extends]

theorem exists_ancestor?_of_le (h : ancestor? decls name k = some n) (hj : j ≤ k) :
    ∃ m, ancestor? decls name j = some m := by
  induction k generalizing n with
  | zero => exact ⟨n, Nat.le_zero.mp hj ▸ h⟩
  | succ k ih =>
    rcases Nat.le_succ_iff.mp hj with hj | rfl
    · obtain ⟨m, hm, _⟩ := ancestor?_succ_eq_some_iff.mp h
      exact ih hm hj
    · exact ⟨n, h⟩

/-- From a name that comes again on, the superclasses repeat themselves. -/
theorem ancestor?_add (h : ancestor? decls name i = ancestor? decls name j) (m : Nat) :
    ancestor? decls name (i + m) = ancestor? decls name (j + m) := by
  induction m with
  | zero => exact h
  | succ m ih => rw [← Nat.add_assoc, ← Nat.add_assoc, ancestor?_succ, ancestor?_succ, ih]

/-- Superclasses that come to an end do not repeat themselves. -/
theorem distinctTo_of_top (hk : ancestor? decls name k = some n)
    (htop : ancestor? decls name (k + 1) = none) : DistinctTo decls name k := by
  intro i j hij hj heq
  have hrepeat := ancestor?_add heq (k + 1 - j)
  rw [Nat.add_sub_cancel' (Nat.le_succ_of_le hj), htop] at hrepeat
  obtain ⟨m, hm⟩ := exists_ancestor?_of_le (j := i + (k + 1 - j)) hk (by omega)
  rw [hrepeat] at hm
  cases hm

end Ancestors

section Chain

/-- The loop along the superclasses comes to `current`, named as such by `referrer`, with the names
before it in `seen`, last first. -/
inductive Climbs (decls : Declarations ω) (name : String) : List String → String → String → Prop
  | start : Climbs decls name [] name name
  | step {seen : List String} {referrer current superclass : String} {d : Declaration ω} :
      Climbs decls name seen referrer current → current ∉ seen →
      decls.get? current = some d → d.superclass = some superclass →
      Climbs decls name (current :: seen) current superclass

namespace Climbs

theorem chain_eq (h : Climbs decls name seen referrer current) :
    chain decls [] name name = (seen.reverse ++ ·) <$> chain decls seen referrer current := by
  induction h with
  | start =>
    rw [List.reverse_nil]
    exact (id_map _).symm
  | step _ hseen hdecl hsuper ih =>
    rw [ih, chain_of_declared hseen hdecl, hsuper, Option.elim_some, Functor.map_map]
    congr 1
    funext above
    rw [List.reverse_cons, List.append_assoc, List.singleton_append]

theorem reached (h : Climbs decls name seen referrer current) :
    ancestor? decls name seen.length = some current := by
  induction h with
  | start => rfl
  | step _ _ hdecl hsuper ih => exact ancestor?_succ_eq_some_iff.mpr ⟨_, ih, _, hdecl, hsuper⟩

theorem getElem?_seen (h : Climbs decls name seen referrer current) (hj : j < seen.length) :
    seen.reverse[j]? = ancestor? decls name j := by
  induction h with
  | start => cases hj
  | @step seen referrer current superclass d h _ _ _ ih =>
    rw [List.reverse_cons]
    rcases Nat.lt_succ_iff_lt_or_eq.mp hj with hj | rfl
    · rw [List.getElem?_append_left (by rwa [List.length_reverse]), ih hj]
    · rw [List.getElem?_append_right (Nat.le_of_eq (List.length_reverse ..)), List.length_reverse,
        Nat.sub_self, h.reached]
      rfl

theorem mem_seen_iff (h : Climbs decls name seen referrer current) :
    n ∈ seen ↔ ∃ j < seen.length, ancestor? decls name j = some n := by
  rw [← List.mem_reverse, List.mem_iff_getElem?]
  constructor
  · rintro ⟨j, hj⟩
    have hlt : j < seen.length := by
      obtain ⟨hlt, _⟩ := List.getElem?_eq_some_iff.mp hj
      rwa [List.length_reverse] at hlt
    exact ⟨j, hlt, (h.getElem?_seen hlt).symm.trans hj⟩
  · rintro ⟨j, hlt, hj⟩
    exact ⟨j, (h.getElem?_seen hlt).trans hj⟩

theorem nodup_seen (h : Climbs decls name seen referrer current) : seen.Nodup := by
  induction h with
  | start => exact List.nodup_nil
  | step _ hseen _ _ ih => exact List.nodup_cons.mpr ⟨hseen, ih⟩

theorem seen_subset (h : Climbs decls name seen referrer current) : seen ⊆ decls.keys := by
  induction h with
  | start => exact List.nil_subset _
  | step _ _ hdecl _ ih =>
    exact List.cons_subset.mpr ⟨Registry.mem_keys_of_get? hdecl, ih⟩

theorem distinctTo (h : Climbs decls name seen referrer current) (hk : k < seen.length) :
    DistinctTo decls name k := by
  intro i j hij hj heq
  have hlt : i < seen.reverse.length := by
    rw [List.length_reverse]
    omega
  rw [← h.getElem?_seen (by omega), ← h.getElem?_seen (by omega),
    List.getElem?_inj hlt (List.nodup_reverse.mpr h.nodup_seen)] at heq
  exact Nat.ne_of_lt hij heq

/-- Beyond the type itself, a name is reached from the one that it is the superclass of. -/
theorem extended (h : Climbs decls name seen referrer current) (hne : seen ≠ []) :
    ∃ k, k + 1 = seen.length ∧ ancestor? decls name k = some referrer ∧
      Extends decls referrer current := by
  cases h with
  | start => exact absurd rfl hne
  | step h _ hdecl hsuper => exact ⟨_, rfl, h.reached, _, hdecl, hsuper⟩

/-- No round but the last sees a name that it has seen before. -/
theorem rounds_le (h : Climbs decls name seen referrer current) : seen.length ≤ decls.size := by
  have hle := (h.nodup_seen.subperm h.seen_subset).length_le
  rwa [Registry.keys, List.length_map] at hle

end Climbs

/-- The loop goes on as long as no name comes again. -/
theorem exists_climbs (hdistinct : DistinctTo decls name k)
    (hk : ancestor? decls name k = some current) :
    ∃ seen referrer, Climbs decls name seen referrer current ∧ seen.length = k ∧
      current ∉ seen := by
  have hnew {seen : List String} {referrer current : String} {k : Nat}
      (hdistinct : DistinctTo decls name k) (hk : ancestor? decls name k = some current)
      (h : Climbs decls name seen referrer current) (hlength : seen.length = k) :
      current ∉ seen := by
    intro hmem
    obtain ⟨j, hj, hagain⟩ := h.mem_seen_iff.mp hmem
    exact hdistinct j k (hlength ▸ hj) (Nat.le_refl k) (hagain.trans hk.symm)
  induction k generalizing current with
  | zero =>
    cases hk
    exact ⟨[], name, .start, rfl, List.not_mem_nil⟩
  | succ k ih =>
    obtain ⟨below, hbelow, d, hdecl, hsuper⟩ := ancestor?_succ_eq_some_iff.mp hk
    obtain ⟨seen, referrer, h, hlength, hseen⟩ :=
      ih (fun i j hij hj => hdistinct i j hij (Nat.le_succ_of_le hj)) hbelow
    have h' := h.step hseen hdecl hsuper
    have hlength' : (below :: seen).length = k + 1 := by rw [List.length_cons, hlength]
    exact ⟨_, _, h', hlength', hnew hdistinct hk h' hlength'⟩

/-- The superclasses go wrong before any interface is looked at. -/
theorem blames_of_chain (declared : (decls.get? name).isSome)
    (hclimbs : Climbs decls name seen referrer current)
    (h : chain decls seen referrer current = .error fault) : Blames decls name fault := by
  fun_induction chain decls seen referrer current with
  | case1 seen referrer current hseen =>
    cases h
    have hne : seen ≠ [] := List.ne_nil_of_mem hseen
    obtain ⟨k, hk, _⟩ := hclimbs.extended hne
    obtain ⟨j, hj, hagain⟩ := hclimbs.mem_seen_iff.mp hseen
    refine .cycle k current (hclimbs.distinctTo (by omega)) ?_ ⟨j, by omega, hagain⟩
    rw [hk]
    exact hclimbs.reached
  | case2 seen referrer current hseen hdecl =>
    cases h
    have hne : seen ≠ [] := by
      rintro rfl
      cases hclimbs
      rw [hdecl] at declared
      cases declared
    obtain ⟨k, hk, hreferrer, hextends⟩ := hclimbs.extended hne
    exact .superclass k referrer current (hclimbs.distinctTo (by omega)) hreferrer hextends hdecl
  | case3 => cases h
  | case4 seen referrer current hseen d hdecl superclass hsuper ih =>
    refine ih (hclimbs.step hseen hdecl hsuper) ?_
    cases habove : chain decls (current :: seen) current superclass with
    | error e =>
      rw [habove] at h
      cases h
      rfl
    | ok above =>
      rw [habove] at h
      cases h

theorem chain_of_repeated (hdistinct : DistinctTo decls name k)
    (hreached : ancestor? decls name (k + 1) = some n)
    (hearlier : ∃ j ≤ k, ancestor? decls name j = some n) :
    chain decls [] name name = .error (.cycle n) := by
  obtain ⟨below, hbelow, d, hdecl, hsuper⟩ := ancestor?_succ_eq_some_iff.mp hreached
  obtain ⟨seen, referrer, h, hlength, hseen⟩ := exists_climbs hdistinct hbelow
  have h' := h.step hseen hdecl hsuper
  have hagain : n ∈ below :: seen := by
    obtain ⟨j, hj, hn⟩ := hearlier
    exact h'.mem_seen_iff.mpr ⟨j, by rw [List.length_cons]; omega, hn⟩
  rw [h'.chain_eq, chain, dif_pos hagain]
  rfl

theorem chain_of_undeclared (hdistinct : DistinctTo decls name k)
    (hreached : ancestor? decls name k = some referrer) (hextends : Extends decls referrer missing)
    (undeclared : decls.get? missing = none) :
    chain decls [] name name = .error (.undeclared missing referrer) := by
  obtain ⟨d, hdecl, hsuper⟩ := hextends
  obtain ⟨seen, _, h, hlength, hseen⟩ := exists_climbs hdistinct hreached
  have h' := h.step hseen hdecl hsuper
  have hnew : missing ∉ referrer :: seen := by
    intro hmem
    obtain ⟨d', hd'⟩ := Registry.mem_keys_iff.mp (h'.seen_subset hmem)
    rw [undeclared] at hd'
    cases hd'
  rw [h'.chain_eq, chain, dif_neg hnew]
  split
  · rfl
  · rename_i d' hd'
    rw [undeclared] at hd'
    cases hd'

theorem exists_chain_iff_topsOut :
    (∃ names, chain decls [] name name = .ok names) ↔ TopsOut decls name := by
  constructor
  · rintro ⟨names, h⟩
    rcases names.eq_nil_or_concat' with rfl | ⟨below, top, rfl⟩
    · cases getElem?_chain h 0
    · have hk := getElem?_chain h below.length
      have hend := getElem?_chain h (below.length + 1)
      have hmem : top ∈ below ++ [top] := List.mem_append_right _ (List.mem_singleton_self top)
      obtain ⟨d, hdecl⟩ := Option.isSome_iff_exists.mp (mem_chain h hmem).1
      rw [List.getElem?_append_right (Nat.le_refl _), Nat.sub_self] at hk
      rw [List.getElem?_eq_none (by rw [List.length_append]; rfl), ancestor?_succ, ← hk] at hend
      refine ⟨below.length, top, d, hk.symm, hdecl, ?_⟩
      rw [List.getElem?_cons_zero, Option.bind_some, hdecl, Option.bind_some] at hend
      exact hend.symm
  · rintro ⟨k, top, d, hk, hdecl, htop⟩
    have hend : ancestor? decls name (k + 1) = none := by
      rw [ancestor?_succ, hk, Option.bind_some, hdecl, Option.bind_some, htop]
    obtain ⟨seen, referrer, h, _, hseen⟩ := exists_climbs (distinctTo_of_top hk hend) hk
    refine ⟨seen.reverse ++ [top], ?_⟩
    rw [h.chain_eq, chain_of_declared hseen hdecl, htop]
    rfl

end Chain

section Walk

/-- The loop along the interfaces has taken so many names from its queue. -/
inductive Walks (decls : Declarations ω) (name : String) : Nat → List String → List String → Prop
  | start : Walks decls name 0 [name] [name]
  | step {taken : Nat} {visited queue : List String} {next : String} {d : Declaration ω} :
      Walks decls name taken visited (next :: queue) → decls.get? next = some d →
      (∀ interface ∈ fresh visited d.interfaces, (decls.get? interface).isSome) →
      Walks decls name (taken + 1) (visited ++ fresh visited d.interfaces)
        (queue ++ fresh visited d.interfaces)

namespace Walks

theorem walk_eq (h : Walks decls name taken visited queue) :
    walk decls name [name] [name] = walk decls name visited queue := by
  induction h with
  | start => rfl
  | step _ hdecl hall ih => rw [ih, walk_of_declared hdecl hall]

theorem queue_subset (h : Walks decls name taken visited queue) : queue ⊆ visited := by
  induction h with
  | start => exact List.Subset.refl _
  | step _ _ _ ih =>
    refine List.append_subset.mpr ⟨?_, List.subset_append_right _ _⟩
    exact fun n hn => List.mem_append_left _ (ih (List.mem_cons_of_mem _ hn))

theorem nodup_visited (h : Walks decls name taken visited queue) : visited.Nodup := by
  induction h with
  | start => exact List.nodup_singleton name
  | step _ _ _ ih =>
    exact ih.append (nodup_fresh _ _) fun n hn hfresh => (mem_fresh.mp hfresh).2 hn

theorem length_visited (h : Walks decls name taken visited queue) :
    visited.length = taken + queue.length := by
  induction h with
  | start => rfl
  | step _ _ _ ih =>
    rw [List.length_append, List.length_append, ih, List.length_cons]
    omega

theorem visited_subset (h : Walks decls name taken visited queue)
    (declared : (decls.get? name).isSome) : visited ⊆ decls.keys := by
  have hkey {n : String} (hn : (decls.get? n).isSome) : n ∈ decls.keys :=
    Registry.mem_keys_iff.mpr (Option.isSome_iff_exists.mp hn)
  induction h with
  | start => exact List.cons_subset.mpr ⟨hkey declared, List.nil_subset _⟩
  | step _ _ hall ih => exact List.append_subset.mpr ⟨ih, fun n hn => hkey (hall n hn)⟩

/-- What is taken from the queue next is declared. -/
theorem declared_of_mem_queue (h : Walks decls name taken visited queue)
    (declared : (decls.get? name).isSome) (hn : n ∈ queue) : (decls.get? n).isSome :=
  Option.isSome_iff_exists.mpr (Registry.mem_keys_iff.mp (h.visited_subset declared
    (h.queue_subset hn)))

theorem rounds_le (h : Walks decls name taken visited queue)
    (declared : (decls.get? name).isSome) : taken + queue.length ≤ decls.size := by
  have hle := (h.nodup_visited.subperm (h.visited_subset declared)).length_le
  rwa [h.length_visited, Registry.keys, List.length_map] at hle

end Walks

theorem walk_through (hfront : ∀ n ∈ front, (decls.get? n).isSome ∧ Resolves decls n) :
    walk decls start visited (front ++ back) =
      walk decls start (visited ++ fresh visited (front.flatMap (interfacesOf decls)))
        (back ++ fresh visited (front.flatMap (interfacesOf decls))) := by
  induction front generalizing visited back with
  | nil =>
    rw [List.flatMap_nil, fresh, List.append_nil, List.append_nil]
    rfl
  | cons next front ih =>
    obtain ⟨⟨hnext, hresolves⟩, hfront⟩ := List.forall_mem_cons.mp hfront
    obtain ⟨d, hdecl⟩ := Option.isSome_iff_exists.mp hnext
    rw [Resolves, interfacesOf_of_declared hdecl] at hresolves
    rw [List.cons_append, walk_of_declared hdecl fun n hn => hresolves n (mem_fresh.mp hn).1,
      List.append_assoc, ih hfront, List.flatMap_cons, interfacesOf_of_declared hdecl,
      fresh_append, List.append_assoc, List.append_assoc]

/-- Up to the first level with a type that lists undeclared interfaces, all goes well. -/
theorem walk_upTo (declared : (decls.get? name).isSome)
    (hnearer : ∀ j < k, ∀ n ∈ level decls name j, Resolves decls n) :
    (∀ n ∈ upTo decls name k, (decls.get? n).isSome) ∧
      walk decls name [name] [name] = walk decls name (upTo decls name k) (level decls name k) := by
  induction k with
  | zero => exact ⟨fun n hn => by rwa [List.mem_singleton.mp hn], rfl⟩
  | succ k ih =>
    obtain ⟨hupTo, hwalk⟩ := ih fun j hj => hnearer j (Nat.lt_succ_of_lt hj)
    have hlevel (n : String) (hn : n ∈ level decls name k) :
        (decls.get? n).isSome ∧ Resolves decls n :=
      ⟨hupTo n (List.mem_append_right _ hn), hnearer k (Nat.lt_succ_self k) n hn⟩
    constructor
    · intro n hn
      rw [upTo_succ, List.mem_append] at hn
      rcases hn with hn | hn
      · exact hupTo n hn
      · obtain ⟨referrer, hreferrer, hlisted⟩ := (mem_level_succ.mp hn).1
        exact (hlevel referrer hreferrer).2 n hlisted
    · rw [hwalk, ← List.append_nil (level decls name k), walk_through hlevel, ← level_succ,
        ← upTo_succ, List.nil_append]

theorem find?_fresh (after : List String) (hvisited : ∀ n ∈ visited, (decls.get? n).isSome)
    (hbefore : ∀ n ∈ before, (decls.get? n).isSome) (undeclared : decls.get? missing = none) :
    (fresh visited (before ++ missing :: after)).find? (· ∉ decls.keys) = some missing := by
  have hkey {n : String} (hn : (decls.get? n).isSome) : n ∈ decls.keys :=
    Registry.mem_keys_iff.mpr (Option.isSome_iff_exists.mp hn)
  have hmissing : missing ∉ decls.keys := by
    rw [Registry.mem_keys_iff, undeclared]
    rintro ⟨_, ⟨⟩⟩
  have hnew : missing ∉ visited ++ fresh visited before := by
    rw [List.mem_append, mem_fresh]
    rintro (hmem | ⟨hmem, _⟩)
    · exact hmissing (hkey (hvisited missing hmem))
    · exact hmissing (hkey (hbefore missing hmem))
  have hfront : (fresh visited before).find? (· ∉ decls.keys) = none := by
    rw [List.find?_eq_none]
    intro n hn
    simpa using hkey (hbefore n (mem_fresh.mp hn).1)
  rw [fresh_append, List.find?_append, hfront, Option.none_or, fresh, if_neg hnew]
  exact List.find?_cons_of_pos (by simpa using hmissing)

theorem walk_of_missing (hdecl : decls.get? next = some d)
    (hvisited : ∀ n ∈ visited, (decls.get? n).isSome)
    (hlisted : interfacesOf decls next = before ++ missing :: after)
    (hbefore : ∀ n ∈ before, (decls.get? n).isSome) (undeclared : decls.get? missing = none) :
    walk decls start visited (next :: queue) = .error (.undeclared missing next) := by
  have hfind := find?_fresh after hvisited hbefore undeclared
  rw [← hlisted, interfacesOf_of_declared hdecl] at hfind
  rw [walk]
  split
  · rename_i hnone
    rw [hdecl] at hnone
    cases hnone
  · rename_i d' hsome
    rw [hdecl] at hsome
    cases hsome
    split
    · rename_i other hother
      rw [hfind] at hother
      cases hother
      rfl
    · rename_i hnone
      rw [hfind] at hnone
      cases hnone

theorem walk_of_misses (declared : (decls.get? name).isSome)
    (h : Misses decls name referrer missing) :
    walk decls name [name] [name] = .error (.undeclared missing referrer) := by
  obtain ⟨k, earlier, later, before, after, _, _, nearer, discovered, passed, listed, hbefore,
    undeclared⟩ := h
  obtain ⟨hupTo, hwalk⟩ := walk_upTo declared nearer
  have hlevel (n : String) (hn : n ∈ level decls name k) : (decls.get? n).isSome :=
    hupTo n (List.mem_append_right _ hn)
  have hmem : ∀ n ∈ earlier, n ∈ level decls name k := by
    rw [discovered]
    exact fun n hn => List.mem_append_left _ hn
  have hreferrer : referrer ∈ level decls name k := by
    rw [discovered]
    exact List.mem_append_right _ List.mem_cons_self
  obtain ⟨d, hdecl⟩ := Option.isSome_iff_exists.mp (hlevel referrer hreferrer)
  have hearlier (n : String) (hn : n ∈ earlier) : (decls.get? n).isSome ∧ Resolves decls n :=
    ⟨hlevel n (hmem n hn), passed n hn⟩
  rw [hwalk, discovered, walk_through hearlier, List.cons_append]
  refine walk_of_missing hdecl (fun n hn => ?_) listed hbefore undeclared
  rcases List.mem_append.mp hn with hn | hn
  · exact hupTo n hn
  · obtain ⟨listing, hlisting, hn⟩ := List.mem_flatMap.mp (mem_fresh.mp hn).1
    exact passed listing hlisting n hn

/-- Of the members of a list that lack a property, one is the first. -/
theorem exists_first_not {α : Type} {P : α → Prop} {l : List α} (h : ∃ a ∈ l, ¬ P a) :
    ∃ front a back, l = front ++ a :: back ∧ (∀ b ∈ front, P b) ∧ ¬ P a := by
  classical
  obtain ⟨a, ha, hnot⟩ := h
  have hfind : (l.find? fun a => ¬ P a).isSome := by
    rw [List.find?_isSome]
    exact ⟨a, ha, decide_eq_true hnot⟩
  obtain ⟨first, hfirst⟩ := Option.isSome_iff_exists.mp hfind
  obtain ⟨hnot, front, back, hsplit, hfront⟩ := List.find?_eq_some_iff_append.mp hfirst
  refine ⟨front, first, back, hsplit, fun b hb => ?_, of_decide_eq_true hnot⟩
  simpa using hfront b hb

theorem exists_misses (h : ∃ k, ∃ n ∈ level decls name k, ¬ Resolves decls n) :
    ∃ referrer missing, Misses decls name referrer missing := by
  classical
  have hleast := Nat.find_spec h
  obtain ⟨earlier, referrer, later, hlevel, hearlier, hnot⟩ := exists_first_not hleast
  obtain ⟨before, missing, after, hlisted, hbefore, hmissing⟩ :=
    exists_first_not (P := fun n => (decls.get? n).isSome = true)
      (by simpa only [Resolves, not_forall, exists_prop] using hnot)
  refine ⟨referrer, missing, .first (Nat.find h) earlier later before after referrer missing ?_
    hlevel hearlier hlisted hbefore (Option.not_isSome_iff_eq_none.mp hmissing)⟩
  intro j hj n hn
  by_contra hres
  exact Nat.find_min h hj ⟨n, hn, hres⟩

/-- By its levels the walk comes past no names but those that some way leads to. -/
theorem exists_walk_of_resolves (declared : (decls.get? name).isSome)
    (hall : ∀ k, ∀ n ∈ level decls name k, Resolves decls n) :
    ∃ result, walk decls name [name] [name] = .ok result := by
  have hresolves (n : String) (hn : ∃ k, Reaches decls name k n) : Resolves decls n := by
    obtain ⟨k, hk⟩ := hn
    obtain ⟨j, _, hj⟩ := mem_upTo.mp (mem_upTo_of_reaches hk)
    exact hall j n hj
  refine exists_walk (P := fun n => ∃ k, Reaches decls name k n) ?_ ?_ ?_
  · rintro n ⟨_ | k, hk⟩
    · cases hk
      exact declared
    · cases hk with
      | step hreferrer hlisted => exact hresolves _ ⟨k, hreferrer⟩ n hlisted
  · rintro n ⟨k, hk⟩ interface hlisted
    exact ⟨k + 1, .step hk hlisted⟩
  · intro n hn
    rw [List.mem_singleton.mp hn]
    exact ⟨0, .start⟩

end Walk

theorem blames_of_walk (declared : (decls.get? name).isSome) (topped : TopsOut decls name)
    (h : walk decls name [name] [name] = .error fault) : Blames decls name fault := by
  by_cases hall : ∀ k, ∀ n ∈ level decls name k, Resolves decls n
  · obtain ⟨result, hresult⟩ := exists_walk_of_resolves declared hall
    rw [hresult] at h
    cases h
  · simp only [not_forall, exists_prop] at hall
    obtain ⟨referrer, missing, hmisses⟩ := exists_misses hall
    rw [walk_of_misses declared hmisses] at h
    cases h
    exact .interface referrer missing topped hmisses

theorem lineage_of_chain_error (h : chain decls [] name name = .error fault) :
    lineage decls name = .error fault := by
  rw [lineage, h]
  rfl

theorem lineage_of_walk_error (hchain : chain decls [] name name = .ok names)
    (h : walk decls name [name] [name] = .error fault) : lineage decls name = .error fault := by
  rw [lineage, hchain, h]
  rfl

theorem lineage_eq_error_iff (declared : (decls.get? name).isSome) :
    lineage decls name = .error fault ↔ Blames decls name fault := by
  constructor
  · intro h
    cases hchain : chain decls [] name name with
    | error e =>
      rw [lineage_of_chain_error hchain] at h
      cases h
      exact blames_of_chain declared .start hchain
    | ok names =>
      have topped := exists_chain_iff_topsOut.mp ⟨names, hchain⟩
      cases hwalk : walk decls name [name] [name] with
      | error e =>
        rw [lineage_of_walk_error hchain hwalk] at h
        cases h
        exact blames_of_walk declared topped hwalk
      | ok visited =>
        rw [lineage, hchain, hwalk] at h
        cases h
  · intro h
    cases h with
    | cycle k again distinct reached earlier =>
      exact lineage_of_chain_error (chain_of_repeated distinct reached earlier)
    | superclass k referrer missing distinct reached extended undeclared =>
      exact lineage_of_chain_error (chain_of_undeclared distinct reached extended undeclared)
    | interface referrer missing topped misses =>
      obtain ⟨names, hchain⟩ := exists_chain_iff_topsOut.mpr topped
      exact lineage_of_walk_error hchain (walk_of_misses declared misses)

/-- A declared type has a lineage unless it is to blame for one of the faults, and this one is
reported. Neither loop takes more rounds than there are declared names, and the second takes
declared names from its queue only. -/
theorem fails_exactly_where_blamed (decls : Declarations ω) (name : String)
    (declared : (decls.get? name).isSome) :
    (∀ fault, lineage decls name = .error fault ↔ Blames decls name fault) ∧
    ((∀ fault, ¬ Blames decls name fault) → ∃ l, lineage decls name = .ok l) ∧
    (∀ seen referrer current, Climbs decls name seen referrer current →
      chain decls [] name name = (seen.reverse ++ ·) <$> chain decls seen referrer current ∧
      seen.length ≤ decls.size) ∧
    ∀ taken visited queue, Walks decls name taken visited queue →
      walk decls name [name] [name] = walk decls name visited queue ∧
      taken + queue.length ≤ decls.size ∧ ∀ next ∈ queue, (decls.get? next).isSome := by
  refine ⟨fun fault => lineage_eq_error_iff declared, ?_, ?_, ?_⟩
  · intro hblameless
    cases h : lineage decls name with
    | error fault => exact absurd ((lineage_eq_error_iff declared).mp h) (hblameless fault)
    | ok l => exact ⟨l, rfl⟩
  · exact fun seen referrer current h => ⟨h.chain_eq, h.rounds_le⟩
  · exact fun taken visited queue h =>
      ⟨h.walk_eq, h.rounds_le declared, fun next => h.declared_of_mem_queue declared⟩

/-- Both `Ghost` and `Phantom` are not declared, and `Ghost` is the nearer to the leaf. -/
def hauntedDeclarations : Declarations Sample :=
  ((((Registry.empty.insert "Drawable"
      { subject := .interface "Drawable", interfaces := ["Visitable", "Phantom"] }).insert "Shape"
      { subject := .interface "Shape", interfaces := ["Drawable", "Ghost"] }).insert "Visitable"
      { subject := .interface "Visitable", interfaces := ["Drawable", "Visitable"] }).insert "Node"
      { subject := .abstract "Node" }).insert "Leaf"
      { subject := .abstract "Leaf", superclass := some "Node",
        interfaces := ["Visitable", "Shape"] }

theorem hauntedLeaf_blames_shape :
    (hauntedDeclarations.get? "Leaf").isSome ∧
    Blames hauntedDeclarations "Leaf" (.undeclared "Ghost" "Shape") ∧
    ¬ Blames hauntedDeclarations "Leaf" (.undeclared "Phantom" "Drawable") := by
  have declared : (hauntedDeclarations.get? "Leaf").isSome := by decide +kernel
  obtain ⟨hfault, _⟩ := fails_exactly_where_blamed hauntedDeclarations "Leaf" declared
  have hlineage : lineage hauntedDeclarations "Leaf" = .error (.undeclared "Ghost" "Shape") := by
    decide +kernel
  refine ⟨declared, (hfault _).mp hlineage, fun hother => ?_⟩
  rw [(hfault _).mpr hother] at hlineage
  exact absurd hlineage (by decide)

end Lineage

end Remoting
