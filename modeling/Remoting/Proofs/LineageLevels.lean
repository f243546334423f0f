import Mathlib.Data.List.Nodup
import Remoting.Lineage

/-!
# Lineages by levels

A level holds the interfaces that are declared on the level before and stand on no earlier level.
So a name stands on the level whose number is its distance from the type. The walk along the queue
finds one level after the other, whatever cycles and diamonds the interfaces form.
-/

namespace Remoting.Lineage

variable {ω : Type} [Portable ω]

def ancestor? (decls : Declarations ω) : String → Nat → Option String
  | name, 0 => some name
  | name, k + 1 =>
    ((decls.get? name).bind (·.superclass)).bind fun superclass => ancestor? decls superclass k

def interfacesOf (decls : Declarations ω) (name : String) : List String :=
  ((decls.get? name).map (·.interfaces)).getD []

theorem interfacesOf_of_declared {decls : Declarations ω} {n : String} {d : Declaration ω}
    (hdecl : decls.get? n = some d) : interfacesOf decls n = d.interfaces := by
  rw [interfacesOf, hdecl]
  rfl

/-- The names on the levels before, and those on this one. -/
def levels (decls : Declarations ω) (name : String) : Nat → List String × List String
  | 0 => ([], [name])
  | k + 1 =>
    let (before, level) := levels decls name k
    (before ++ level,
      ((level.flatMap (interfacesOf decls)).filter (· ∉ before ++ level)).eraseDups)

def level (decls : Declarations ω) (name : String) (k : Nat) : List String :=
  (levels decls name k).2

/-- A way of so many steps leads from the type to the name, each to an interface declared there. -/
inductive Reaches (decls : Declarations ω) (name : String) : Nat → String → Prop
  | start : Reaches decls name 0 name
  | step {k : Nat} {referrer interface : String} : Reaches decls name k referrer →
      interface ∈ interfacesOf decls referrer → Reaches decls name (k + 1) interface

def AtDistance (decls : Declarations ω) (name : String) (k : Nat) (other : String) : Prop :=
  Reaches decls name k other ∧ ∀ j < k, ¬ Reaches decls name j other

section Fresh

variable {visited names : List String} {n : String}

theorem fresh_eq (visited names : List String) :
    fresh visited names = (names.filter (· ∉ visited)).eraseDups := by
  induction names generalizing visited with
  | nil => rfl
  | cons n names ih =>
    rw [fresh]
    split_ifs with hn
    · rw [ih, List.filter_cons_of_neg (by simpa using hn)]
    · rw [ih, List.filter_cons_of_pos (by simpa using hn), List.eraseDups_cons, List.filter_filter]
      congr 3
      funext m
      by_cases hm : m = n <;> simp [hm]

theorem mem_fresh : n ∈ fresh visited names ↔ n ∈ names ∧ n ∉ visited := by
  rw [fresh_eq, List.mem_eraseDups, List.mem_filter, decide_eq_true_iff]

theorem nodup_fresh (visited names : List String) : (fresh visited names).Nodup := by
  induction names generalizing visited with
  | nil => exact List.nodup_nil
  | cons n names ih =>
    rw [fresh]
    split_ifs
    · exact ih visited
    · refine List.nodup_cons.mpr ⟨fun hn => ?_, ih _⟩
      exact (mem_fresh.mp hn).2 List.mem_cons_self

/-- What a longer list brings that is new is what its parts bring, one after the other. -/
theorem fresh_append (visited names more : List String) :
    fresh visited (names ++ more) =
      fresh visited names ++ fresh (visited ++ fresh visited names) more := by
  rw [fresh_eq visited, List.filter_append, List.eraseDups_append, ← fresh_eq, fresh_eq _ more,
    List.removeAll, List.filter_filter]
  congr 3
  funext m
  by_cases hm : m ∈ visited <;> simp [hm, mem_fresh]

end Fresh

section Levels

variable {decls : Declarations ω} {name n : String} {k : Nat}

/-- The names up to a level, in the order of discovery. -/
def upTo (decls : Declarations ω) (name : String) (k : Nat) : List String :=
  (levels decls name k).1 ++ (levels decls name k).2

theorem upTo_succ (decls : Declarations ω) (name : String) (k : Nat) :
    upTo decls name (k + 1) = upTo decls name k ++ level decls name (k + 1) := rfl

theorem level_succ (decls : Declarations ω) (name : String) (k : Nat) :
    level decls name (k + 1) =
      fresh (upTo decls name k) ((level decls name k).flatMap (interfacesOf decls)) :=
  (fresh_eq _ _).symm

theorem upTo_eq (decls : Declarations ω) (name : String) (k : Nat) :
    upTo decls name k = name :: (List.range k).flatMap fun j => level decls name (j + 1) := by
  induction k with
  | zero => rfl
  | succ k ih => rw [upTo_succ, ih, List.range_succ, List.flatMap_append, List.flatMap_singleton,
      List.cons_append]

theorem mem_upTo : n ∈ upTo decls name k ↔ ∃ j ≤ k, n ∈ level decls name j := by
  induction k with
  | zero => simp [upTo, levels, level]
  | succ k ih =>
    rw [upTo_succ, List.mem_append, ih]
    constructor
    · rintro (⟨j, hj, hn⟩ | hn)
      · exact ⟨j, Nat.le_succ_of_le hj, hn⟩
      · exact ⟨k + 1, Nat.le_refl _, hn⟩
    · rintro ⟨j, hj, hn⟩
      rcases Nat.le_succ_iff.mp hj with hj | rfl
      · exact .inl ⟨j, hj, hn⟩
      · exact .inr hn

theorem mem_level_succ : n ∈ level decls name (k + 1) ↔
    (∃ referrer ∈ level decls name k, n ∈ interfacesOf decls referrer) ∧
      n ∉ upTo decls name k := by
  rw [level_succ, mem_fresh, List.mem_flatMap]

theorem nodup_upTo (decls : Declarations ω) (name : String) (k : Nat) :
    (upTo decls name k).Nodup := by
  induction k with
  | zero => exact List.nodup_singleton name
  | succ k ih =>
    have hnew : (level decls name (k + 1)).Nodup := by
      rw [level_succ]
      exact nodup_fresh _ _
    refine List.Nodup.append ih hnew fun n hn hlevel => ?_
    exact (mem_level_succ.mp hlevel).2 hn

theorem reaches_of_mem_level (h : n ∈ level decls name k) : Reaches decls name k n := by
  induction k generalizing n with
  | zero =>
    obtain rfl := List.mem_singleton.mp h
    exact .start
  | succ k ih =>
    obtain ⟨referrer, hreferrer, hn⟩ := (mem_level_succ.mp h).1
    exact .step (ih hreferrer) hn

/-- A way may be longer than it need be. -/
theorem mem_upTo_of_reaches (h : Reaches decls name k n) : n ∈ upTo decls name k := by
  induction h with
  | start => exact List.mem_singleton_self name
  | @step k referrer interface _ hinterface ih =>
    obtain ⟨j, hj, hreferrer⟩ := mem_upTo.mp ih
    by_cases hseen : interface ∈ upTo decls name j
    · obtain ⟨i, hi, hlevel⟩ := mem_upTo.mp hseen
      exact mem_upTo.mpr ⟨i, by omega, hlevel⟩
    · have hlevel := mem_level_succ.mpr ⟨⟨referrer, hreferrer, hinterface⟩, hseen⟩
      exact mem_upTo.mpr ⟨j + 1, Nat.succ_le_succ hj, hlevel⟩

/-- The number of a level is the distance of the names that stand there. -/
theorem mem_level_iff : n ∈ level decls name k ↔ AtDistance decls name k n := by
  constructor
  · intro h
    refine ⟨reaches_of_mem_level h, fun j hj hreaches => ?_⟩
    obtain ⟨k, rfl⟩ := Nat.exists_eq_succ_of_ne_zero (Nat.ne_zero_of_lt hj)
    obtain ⟨i, hi, hn⟩ := mem_upTo.mp (mem_upTo_of_reaches hreaches)
    exact (mem_level_succ.mp h).2 (mem_upTo.mpr ⟨i, by omega, hn⟩)
  · rintro ⟨hreaches, hnearer⟩
    obtain ⟨j, hj, hn⟩ := mem_upTo.mp (mem_upTo_of_reaches hreaches)
    rcases Nat.lt_or_eq_of_le hj with hlt | rfl
    · exact absurd (reaches_of_mem_level hn) (hnearer j hlt)
    · exact hn

end Levels

section Walk

variable {decls : Declarations ω} {start name next : String}
  {visited queue front back result : List String}

theorem walk_cons (h : walk decls start visited (next :: queue) = .ok result) :
    (decls.get? next).isSome ∧
      walk decls start (visited ++ fresh visited (interfacesOf decls next))
        (queue ++ fresh visited (interfacesOf decls next)) = .ok result := by
  rw [walk] at h
  cases hdecl : decls.get? next with
  | none =>
    rw [hdecl] at h
    cases h
  | some d =>
    rw [interfacesOf_of_declared hdecl]
    simp only [hdecl] at h
    split at h
    · cases h
    · exact ⟨rfl, h⟩

/-- The names in the front of the queue give way to the interfaces that they declare. -/
theorem walk_append (h : walk decls start visited (front ++ back) = .ok result) :
    (∀ n ∈ front, (decls.get? n).isSome) ∧
      walk decls start (visited ++ fresh visited (front.flatMap (interfacesOf decls)))
        (back ++ fresh visited (front.flatMap (interfacesOf decls))) = .ok result := by
  induction front generalizing visited back with
  | nil =>
    refine ⟨nofun, ?_⟩
    rw [List.flatMap_nil, fresh, List.append_nil, List.append_nil]
    exact h
  | cons next front ih =>
    rw [List.cons_append] at h
    obtain ⟨hnext, hwalk⟩ := walk_cons h
    rw [List.append_assoc] at hwalk
    obtain ⟨hfront, hwalk⟩ := ih hwalk
    refine ⟨List.forall_mem_cons.mpr ⟨hnext, hfront⟩, ?_⟩
    rw [List.flatMap_cons, fresh_append, ← List.append_assoc, ← List.append_assoc]
    exact hwalk

/-- By induction on the levels: the walk comes past each of them. -/
theorem walk_level (h : walk decls name [name] [name] = .ok result) (k : Nat) :
    walk decls name (upTo decls name k) (level decls name k) = .ok result := by
  induction k with
  | zero => exact h
  | succ k ih =>
    rw [← List.append_nil (level decls name k)] at ih
    obtain ⟨_, hwalk⟩ := walk_append ih
    rw [← level_succ, ← upTo_succ, List.nil_append] at hwalk
    exact hwalk

theorem declared_of_mem_level (h : walk decls name [name] [name] = .ok result) {k : Nat}
    {n : String} (hn : n ∈ level decls name k) : (decls.get? n).isSome := by
  have hwalk := walk_level h k
  rw [← List.append_nil (level decls name k)] at hwalk
  exact (walk_append hwalk).1 n hn

theorem prefix_of_walk (h : walk decls start visited queue = .ok result) : visited <+: result := by
  fun_induction walk decls start visited queue with
  | case1 visited =>
    cases h
    exact List.prefix_rfl
  | case2 | case3 => cases h
  | case4 visited next queue d hdecl hmissing ih => exact (List.prefix_append _ _).trans (ih h)

/-- A walk that ends has found all there is. -/
theorem exists_upTo_of_walk (h : walk decls name [name] [name] = .ok result) :
    ∃ depth, (∀ k, depth ≤ k → level decls name (k + 1) = []) ∧ result = upTo decls name depth := by
  obtain ⟨depth, hempty⟩ : ∃ depth, level decls name (depth + 1) = [] := by
    by_contra hnot
    have hgrows (k : Nat) : k < (upTo decls name k).length := by
      induction k with
      | zero => exact Nat.zero_lt_one
      | succ k ih =>
        have hlevel : level decls name (k + 1) ≠ [] := fun hk => hnot ⟨k, hk⟩
        have hpos := List.length_pos_iff.mpr hlevel
        rw [upTo_succ, List.length_append]
        omega
    have hbound := (prefix_of_walk (walk_level h result.length)).length_le
    exact absurd (hgrows result.length) (Nat.not_lt_of_le hbound)
  refine ⟨depth, fun k hk => ?_, ?_⟩
  · obtain ⟨j, rfl⟩ := Nat.exists_eq_add_of_le hk
    induction j with
    | zero => exact hempty
    | succ j ih =>
      rw [← Nat.add_assoc, level_succ, ih (Nat.le_add_right _ _)]
      rfl
  · have hwalk := walk_level h (depth + 1)
    rw [hempty, upTo_succ, hempty, List.append_nil, walk] at hwalk
    cases hwalk
    rfl

end Walk

section Chain

variable {decls : Declarations ω} {seen names : List String} {referrer name : String}

theorem chain_eq_ok (h : chain decls seen referrer name = .ok names) :
    name ∉ seen ∧ ∃ d, decls.get? name = some d ∧
      (d.superclass = none ∧ names = [name] ∨
        ∃ superclass above, d.superclass = some superclass ∧
          chain decls (name :: seen) name superclass = .ok above ∧ names = name :: above) := by
  rw [chain] at h
  split_ifs at h with hseen
  refine ⟨hseen, ?_⟩
  split at h
  · cases h
  next d hdecl =>
    refine ⟨d, hdecl, ?_⟩
    split at h
    next hnone =>
      cases h
      exact .inl ⟨hnone, rfl⟩
    next superclass hsuper =>
      cases habove : chain decls (name :: seen) name superclass with
      | error e =>
        rw [habove] at h
        cases h
      | ok above =>
        rw [habove] at h
        cases h
        exact .inr ⟨superclass, above, hsuper, habove, rfl⟩

theorem getElem?_chain (h : chain decls seen referrer name = .ok names) (k : Nat) :
    names[k]? = ancestor? decls name k := by
  induction k generalizing seen referrer name names with
  | zero =>
    obtain ⟨_, d, _, ⟨_, rfl⟩ | ⟨_, _, _, _, rfl⟩⟩ := chain_eq_ok h <;> rfl
  | succ k ih =>
    obtain ⟨_, d, hdecl, ⟨hsuper, rfl⟩ | ⟨superclass, above, hsuper, habove, rfl⟩⟩ := chain_eq_ok h
    · simp [ancestor?, hdecl, hsuper]
    · rw [List.getElem?_cons_succ, ih habove]
      simp [ancestor?, hdecl, hsuper]

theorem nodup_chain (h : chain decls seen referrer name = .ok names) :
    names.Nodup ∧ ∀ n ∈ names, n ∉ seen := by
  induction names generalizing seen referrer name with
  | nil => exact ⟨List.nodup_nil, nofun⟩
  | cons n above ih =>
    obtain ⟨hseen, d, _, ⟨_, heq⟩ | ⟨superclass, _, _, habove, heq⟩⟩ := chain_eq_ok h
    · cases heq
      exact ⟨List.nodup_singleton _, fun m hm => by rwa [List.mem_singleton.mp hm]⟩
    · cases heq
      obtain ⟨hnodup, hnew⟩ := ih habove
      refine ⟨List.nodup_cons.mpr ⟨fun hmem => hnew _ hmem List.mem_cons_self, hnodup⟩, ?_⟩
      refine List.forall_mem_cons.mpr ⟨hseen, fun m hm hmseen => ?_⟩
      exact hnew m hm (List.mem_cons_of_mem _ hmseen)

/-- Behind the type itself stand superclasses only. -/
theorem mem_chain (h : chain decls seen referrer name = .ok names) {n : String} (hn : n ∈ names) :
    (decls.get? n).isSome ∧
      (n = name ∨ ∃ m d, decls.get? m = some d ∧ d.superclass = some n) := by
  induction names generalizing seen referrer name with
  | nil => cases hn
  | cons m above ih =>
    obtain ⟨_, d, hdecl, ⟨_, heq⟩ | ⟨superclass, _, hsuper, habove, heq⟩⟩ := chain_eq_ok h
    · cases heq
      rw [List.mem_singleton] at hn
      exact ⟨by rw [hn, hdecl]; rfl, .inl hn⟩
    · cases heq
      rcases List.mem_cons.mp hn with rfl | hn
      · exact ⟨by rw [hdecl]; rfl, .inl rfl⟩
      · obtain ⟨hdeclared, rfl | hsuperclass⟩ := ih habove hn
        · exact ⟨hdeclared, .inr ⟨_, d, hdecl, hsuper⟩⟩
        · exact ⟨hdeclared, .inr hsuperclass⟩

end Chain

end Remoting.Lineage
