/-!
# Registries

A registry holds at most one value for each key. Entering a key again replaces its value, and
look-up after an entry or a removal is the expected one.
-/

namespace Remoting

structure Registry (κ α : Type) [DecidableEq κ] where
  entries : List (κ × α)
  nodup_keys : (entries.map (·.1)).Nodup

namespace Registry

variable {κ α β : Type} [DecidableEq κ]

def empty : Registry κ α :=
  ⟨[], List.nodup_nil⟩

instance : Inhabited (Registry κ α) := ⟨empty⟩

def keys (r : Registry κ α) : List κ :=
  r.entries.map (·.1)

def values (r : Registry κ α) : List α :=
  r.entries.map (·.2)

def size (r : Registry κ α) : Nat :=
  r.entries.length

def isEmpty (r : Registry κ α) : Bool :=
  r.entries.isEmpty

def get? (r : Registry κ α) (key : κ) : Option α :=
  (r.entries.find? (·.1 = key)).map (·.2)

def contains (r : Registry κ α) (key : κ) : Bool :=
  (r.get? key).isSome

def erase (r : Registry κ α) (key : κ) : Registry κ α :=
  ⟨r.entries.filter (·.1 ≠ key), r.nodup_keys.sublist (List.filter_sublist.map _)⟩

def insert (r : Registry κ α) (key : κ) (value : α) : Registry κ α :=
  ⟨(key, value) :: (r.erase key).entries, by
    simp only [List.map_cons, List.nodup_cons]
    exact ⟨by simp [erase], (r.erase key).nodup_keys⟩⟩

@[simp] theorem get?_empty (key : κ) : (empty : Registry κ α).get? key = none := rfl

theorem get?_erase (r : Registry κ α) (key other : κ) :
    (r.erase key).get? other = if other = key then none else r.get? other := by
  by_cases h : other = key
  · simp [get?, erase, h]
  · simp only [get?, erase, h, if_false, List.find?_filter]
    congr 2
    funext e
    by_cases he : e.1 = other <;> simp [he, h]

theorem get?_insert (r : Registry κ α) (key other : κ) (value : α) :
    (r.insert key value).get? other = if other = key then some value else r.get? other := by
  by_cases h : other = key
  · simp [get?, insert, h]
  · have hk : ¬ key = other := fun he => h he.symm
    have herase := get?_erase r key other
    rw [if_neg h] at herase
    simp only [get?, insert, h, if_false, List.find?_cons, hk, decide_false] at herase ⊢
    exact herase

theorem mem_keys_of_get? {r : Registry κ α} {key : κ} {value : α} (h : r.get? key = some value) :
    key ∈ r.keys := by
  obtain ⟨e, he, _⟩ := Option.map_eq_some_iff.mp h
  have hk : e.1 = key := by simpa using List.find?_some he
  exact List.mem_map.mpr ⟨e, List.mem_of_find?_eq_some he, hk⟩

theorem get?_of_mem {r : Registry κ α} {e : κ × α} (h : e ∈ r.entries) :
    r.get? e.1 = some e.2 := by
  obtain ⟨front, back, hsplit⟩ := List.append_of_mem h
  have hnodup := r.nodup_keys
  rw [hsplit, List.map_append, List.map_cons, List.nodup_append] at hnodup
  have hfront : front.find? (·.1 = e.1) = none := by
    rw [List.find?_eq_none]
    intro e' he' hkey
    have hne := hnodup.2.2 e'.1 (List.mem_map_of_mem he') e.1 List.mem_cons_self
    exact hne (by simpa using hkey)
  rw [get?, hsplit, List.find?_append, hfront, List.find?_cons_of_pos (by simp)]
  rfl

theorem mem_entries_iff {r : Registry κ α} {e : κ × α} :
    e ∈ r.entries ↔ r.get? e.1 = some e.2 := by
  refine ⟨get?_of_mem, fun h => ?_⟩
  obtain ⟨e', hfind, heq⟩ := Option.map_eq_some_iff.mp h
  have hkey : e'.1 = e.1 := by simpa using List.find?_some hfind
  have he : e' = e := Prod.ext hkey heq
  exact he ▸ List.mem_of_find?_eq_some hfind

theorem nodup_entries (r : Registry κ α) : r.entries.Nodup :=
  (List.pairwise_map.mp r.nodup_keys).imp fun hne heq => hne (congrArg Prod.fst heq)

theorem mem_keys_iff {r : Registry κ α} {key : κ} :
    key ∈ r.keys ↔ ∃ value, r.get? key = some value := by
  refine ⟨fun h => ?_, fun ⟨_, h⟩ => mem_keys_of_get? h⟩
  obtain ⟨e, he, rfl⟩ := List.mem_map.mp h
  exact ⟨e.2, get?_of_mem he⟩

end Registry

end Remoting
