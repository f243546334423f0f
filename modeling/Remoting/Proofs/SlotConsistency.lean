import Remoting.SlotTable

/-!
# Slots are kept apart

An id is bound to at most one slot, by its live entry or by the history. A table is sound if no two
ids share a slot and every live entry tells whether its slot is filled; it is consistent if, beyond
that, the history names filled slots only. Each operation is described by what it binds and what
it writes, and what is sound stays so.
-/

namespace Remoting

namespace Live

def ticket : Live → Ticket
  | .awaiting ticket => ticket
  | .settled ticket => ticket

def filled : Live → Bool
  | .awaiting _ => false
  | .settled _ => true

/-- The entry under which a slot is planted. -/
def of {α : Type} : Option α → Ticket → Live
  | none => .awaiting
  | some _ => .settled

@[simp] theorem ticket_of {α : Type} (outcome : Option α) (k : Ticket) :
    (Live.of outcome k).ticket = k := by
  cases outcome <;> rfl

@[simp] theorem filled_of {α : Type} (outcome : Option α) (k : Ticket) :
    (Live.of outcome k).filled = outcome.isSome := by
  cases outcome <;> rfl

end Live

namespace SlotTable

variable {α : Type} {t : SlotTable α} {id : UInt32} {k : Ticket}

/-- The slot an id is bound to. -/
def ticket? (t : SlotTable α) (id : UInt32) : Option Ticket :=
  (t.retired.get? id).or ((t.live.get? id).map Live.ticket)

/-- The id that a full history forgets for the next slot that is moved there. -/
def outgoing? (t : SlotTable α) : Option UInt32 :=
  match t.order with
  | [] => none
  | (id, ticket) :: _ =>
    if t.order.length = t.history ∧ t.retired.get? id = some ticket then some id else none

/-- Binds an id to a fresh slot. -/
def enter (t : SlotTable α) (id : UInt32) (outcome : Option α) : SlotTable α :=
  { (t.plant outcome).1 with live := t.live.insert id (.of outcome t.slots.size) }

theorem ticket?_eq_none_iff :
    t.ticket? id = none ↔ t.live.get? id = none ∧ t.retired.get? id = none := by
  rw [ticket?, Option.or_eq_none_iff, Option.map_eq_none_iff, and_comm]

theorem ticket?_of_retired (h : t.retired.get? id = some k) : t.ticket? id = some k := by
  rw [ticket?, h, Option.some_or]

theorem isSome_ticket? (t : SlotTable α) (id : UInt32) :
    (t.ticket? id).isSome = (t.live.contains id || t.retired.contains id) := by
  rw [ticket?, Option.isSome_or, Option.isSome_map, Bool.or_comm]
  rfl

theorem outgoing?_eq_some_iff :
    t.outgoing? = some id ↔ ∃ k order, t.order = (id, k) :: order ∧
      t.order.length = t.history ∧ t.retired.get? id = some k := by
  rw [outgoing?]
  split
  · rename_i horder
    rw [horder]
    constructor
    · nofun
    · rintro ⟨k, order, h, _⟩
      cases h
  · rename_i first j order horder
    constructor
    · intro h
      split at h
      · cases h
        exact ⟨j, order, horder, by assumption⟩
      · cases h
    · rintro ⟨k, order', h, hcurrent⟩
      rw [horder] at h
      cases h
      rw [if_pos hcurrent]

theorem history_ne_zero_of_outgoing? (h : t.outgoing? = some id) : t.history ≠ 0 := by
  obtain ⟨k, order, horder, hfull, _⟩ := outgoing?_eq_some_iff.mp h
  rw [← hfull, horder]
  exact Nat.succ_ne_zero _

theorem evict_retired_get? (t : SlotTable α) (id : UInt32) :
    t.evict.retired.get? id = if t.outgoing? = some id then none else t.retired.get? id := by
  cases horder : t.order with
  | nil => simp [evict, outgoing?, horder]
  | cons e order =>
    simp only [evict, outgoing?, horder]
    by_cases hfull : (e :: order).length = t.history
    · simp only [hfull, if_true, true_and]
      by_cases hcurrent : t.retired.get? e.1 = some e.2
      · rw [if_pos hcurrent, if_pos hcurrent, Registry.get?_erase]
        simp only [Option.some.injEq, eq_comm]
      · rw [if_neg hcurrent, if_neg hcurrent, if_neg (Option.some_ne_none id).symm]
    · simp only [hfull, if_false, false_and, reduceCtorEq]

@[simp] theorem evict_live (t : SlotTable α) : t.evict.live = t.live := by
  unfold evict
  repeat' split
  all_goals rfl

@[simp] theorem evict_slots (t : SlotTable α) : t.evict.slots = t.slots := by
  unfold evict
  repeat' split
  all_goals rfl

@[simp] theorem evict_history (t : SlotTable α) : t.evict.history = t.history := by
  unfold evict
  repeat' split
  all_goals rfl

theorem evict_order_length_le (t : SlotTable α) : t.evict.order.length ≤ t.order.length := by
  unfold evict
  split
  · split
    · exact Nat.le_refl _
    · rename_i horder
      rw [horder]
      exact Nat.le_succ _
  · exact Nat.le_refl _

theorem outgoing?_eq_none (h : t.order.length < t.history) : t.outgoing? = none := by
  cases hout : t.outgoing? with
  | none => rfl
  | some id =>
    obtain ⟨k, order, horder, hfull, _⟩ := outgoing?_eq_some_iff.mp hout
    omega

section TakeOut

variable (t : SlotTable α) (id other : UInt32) (k : Ticket)

theorem takeOut_live_get? :
    (t.takeOut id k).live.get? other = if other = id then none else t.live.get? other := by
  rw [← Registry.get?_erase]
  unfold takeOut retire
  split
  · rfl
  · exact congrArg (·.get? other) (evict_live _)

theorem takeOut_retired_get? :
    (t.takeOut id k).retired.get? other =
      if t.history = 0 then t.retired.get? other
      else if other = id then some k
      else if t.outgoing? = some other then none
      else t.retired.get? other := by
  unfold takeOut retire
  split
  · rfl
  · rw [Registry.get?_insert, evict_retired_get?]
    rfl

/-- What the history names after a slot was taken out, it named before, or it is that slot. -/
theorem retired_of_takeOut {t : SlotTable α} {id other : UInt32} {k j : Ticket}
    (h : (t.takeOut id k).retired.get? other = some j) :
    j = k ∨ t.retired.get? other = some j := by
  rw [takeOut_retired_get?] at h
  split at h
  · exact .inr h
  · split at h
    · cases h
      exact .inl rfl
    · split at h
      · cases h
      · exact .inr h

@[simp] theorem takeOut_slots : (t.takeOut id k).slots = t.slots := by
  unfold takeOut retire
  split
  · rfl
  · exact evict_slots _

@[simp] theorem takeOut_history : (t.takeOut id k).history = t.history := by
  unfold takeOut retire
  split
  · rfl
  · exact evict_history _

theorem takeOut_order_length_le : (t.takeOut id k).order.length ≤ t.order.length + 1 := by
  unfold takeOut retire
  split
  · exact Nat.le_succ _
  · have hle := evict_order_length_le { t with live := t.live.erase id }
    simpa using hle

@[simp] theorem takeOut_outcome? (j : Ticket) : (t.takeOut id k).outcome? j = t.outcome? j := by
  rw [outcome?, takeOut_slots, outcome?]

end TakeOut

section Fill

variable (t : SlotTable α) (k : Ticket) (x : α)

@[simp] theorem fill_live : (t.fill k x).1.live = t.live := by
  unfold fill
  split <;> rfl

@[simp] theorem fill_retired : (t.fill k x).1.retired = t.retired := by
  unfold fill
  split <;> rfl

@[simp] theorem fill_history : (t.fill k x).1.history = t.history := by
  unfold fill
  split <;> rfl

@[simp] theorem fill_order : (t.fill k x).1.order = t.order := by
  unfold fill
  split <;> rfl

@[simp] theorem fill_size : (t.fill k x).1.slots.size = t.slots.size := by
  unfold fill
  split
  · exact Array.size_setIfInBounds
  · rfl

@[simp] theorem fill_ticket? (id : UInt32) : (t.fill k x).1.ticket? id = t.ticket? id := by
  rw [ticket?, fill_live, fill_retired, ticket?]

theorem fill_of_filled {t : SlotTable α} {k : Ticket} {y : α} (h : t.outcome? k = some y) :
    t.fill k x = (t, none) := by
  unfold fill
  split
  · rename_i hs
    rw [outcome?, hs] at h
    cases h
  · rfl

theorem fill_of_empty {t : SlotTable α} {k : Ticket} (hk : k < t.slots.size)
    (h : t.outcome? k = none) :
    (t.fill k x).2.isSome = true ∧
      ∀ j, (t.fill k x).1.outcome? j = if j = k then some x else t.outcome? j := by
  obtain ⟨waiting, hs⟩ : ∃ waiting, t.slots[k]? = some ⟨none, waiting⟩ := by
    have hs := Array.getElem?_eq_getElem hk
    rw [outcome?, hs, Option.bind_some] at h
    exact ⟨t.slots[k].waiting, hs.trans (congrArg some (by rw [← h]))⟩
  simp only [fill, hs]
  refine ⟨rfl, fun j => ?_⟩
  simp only [outcome?, Array.getElem?_setIfInBounds]
  by_cases hj : j = k
  · rw [if_pos hj.symm, if_pos hj, if_pos hk]
    rfl
  · rw [if_neg (Ne.symm hj), if_neg hj]

theorem fill_outcome? {t : SlotTable α} {k : Ticket} (hk : k < t.slots.size) (j : Ticket) :
    (t.fill k x).1.outcome? j = if j = k then (t.outcome? k).or (some x) else t.outcome? j := by
  cases hout : t.outcome? k with
  | none =>
    rw [(fill_of_empty x hk hout).2, Option.none_or]
  | some y =>
    rw [fill_of_filled x hout]
    split
    · rename_i hj
      rw [hj, hout]
      rfl
    · rfl

theorem fill_answer {t : SlotTable α} {k : Ticket} (hk : k < t.slots.size) :
    (t.fill k x).2.isSome = (t.outcome? k).isNone := by
  cases hout : t.outcome? k with
  | none => exact (fill_of_empty x hk hout).1
  | some y =>
    rw [fill_of_filled x hout]
    rfl

end Fill

section Enter

variable (t : SlotTable α) (id other : UInt32) (o : Option α)

@[simp] theorem enter_size : (t.enter id o).slots.size = t.slots.size + 1 :=
  Array.size_push _

theorem enter_live_get? :
    (t.enter id o).live.get? other =
      if other = id then some (.of o t.slots.size) else t.live.get? other :=
  Registry.get?_insert _ _ _ _

theorem enter_outcome? (k : Ticket) :
    (t.enter id o).outcome? k = if k = t.slots.size then o else t.outcome? k := by
  change ((t.slots.push { outcome := o })[k]?).bind (·.outcome) = _
  rw [Array.getElem?_push]
  split <;> rfl

theorem enter_ticket? {t : SlotTable α} {id : UInt32} (h : t.ticket? id = none) :
    (t.enter id o).ticket? other =
      if other = id then some t.slots.size else t.ticket? other := by
  have hretired : (t.enter id o).retired = t.retired := rfl
  rw [ticket?, enter_live_get?, hretired]
  by_cases hid : other = id
  · rw [hid, if_pos rfl, (ticket?_eq_none_iff.mp h).2, Option.none_or, if_pos rfl,
      Option.map_some, Live.ticket_of]
  · rw [if_neg hid, if_neg hid, ticket?]

end Enter

section Release

variable (t : SlotTable α) (id other : UInt32)

theorem release_live_get? :
    (t.release id).1.live.get? other = if other = id then none else t.live.get? other :=
  Registry.get?_erase _ _ _

theorem release_retired_get? :
    (t.release id).1.retired.get? other = if other = id then none else t.retired.get? other :=
  Registry.get?_erase _ _ _

theorem release_ticket? :
    (t.release id).1.ticket? other = if other = id then none else t.ticket? other := by
  rw [ticket?, release_live_get?, release_retired_get?]
  split <;> rfl

end Release

/-- No id is bound twice, no slot is shared, and live entries tell which slots are filled. -/
structure Sound (t : SlotTable α) : Prop where
  apart : ∀ {id l}, t.live.get? id = some l → t.retired.get? id = none
  allotted : ∀ {id k}, t.ticket? id = some k → k < t.slots.size
  unshared : ∀ {id other k}, t.ticket? id = some k → t.ticket? other = some k → id = other
  told : ∀ {id l}, t.live.get? id = some l → l.filled = (t.outcome? l.ticket).isSome

structure Consistent (t : SlotTable α) : Prop extends Sound t where
  retired : ∀ {id k}, t.retired.get? id = some k → (t.outcome? k).isSome = true

namespace Sound

theorem ticket?_of_live (ht : Sound t) {l : Live} (h : t.live.get? id = some l) :
    t.ticket? id = some l.ticket := by
  rw [ticket?, ht.apart h, h]
  rfl

theorem lt_size_of_live (ht : Sound t) {l : Live} (h : t.live.get? id = some l) :
    l.ticket < t.slots.size :=
  ht.allotted (ht.ticket?_of_live h)

theorem empty_of_awaiting (ht : Sound t) (h : t.live.get? id = some (.awaiting k)) :
    t.outcome? k = none :=
  Option.not_isSome_iff_eq_none.mp (Bool.eq_false_iff.mp (ht.told h).symm)

theorem takeOut_ticket? (ht : Sound t) {l : Live} (h : t.live.get? id = some l) (other : UInt32) :
    (t.takeOut id l.ticket).ticket? other =
      if other = id then (if t.history = 0 then none else some l.ticket)
      else if t.outgoing? = some other then none
      else t.ticket? other := by
  rw [ticket?, takeOut_live_get?, takeOut_retired_get?]
  by_cases hid : other = id
  · subst hid
    rw [if_pos rfl, if_pos rfl, if_pos rfl, ht.apart h]
    split <;> rfl
  · rw [if_neg hid, if_neg hid, if_neg hid]
    by_cases hout : t.outgoing? = some other
    · obtain ⟨j, _, _, _, hretired⟩ := outgoing?_eq_some_iff.mp hout
      have hlive : t.live.get? other = none := by
        cases hl : t.live.get? other with
        | none => rfl
        | some l' => exact absurd (ht.apart hl) (by rw [hretired]; nofun)
      rw [if_neg (history_ne_zero_of_outgoing? hout), if_pos hout, if_pos hout, hlive]
      rfl
    · rw [if_neg hout, if_neg hout, ite_self, ticket?]

/-- What is bound after a slot was taken out was bound before, to the same slot. -/
theorem ticket?_of_takeOut (ht : Sound t) {l : Live} (h : t.live.get? id = some l)
    {other : UInt32} {k : Ticket} (hk : (t.takeOut id l.ticket).ticket? other = some k) :
    t.ticket? other = some k := by
  rw [ht.takeOut_ticket? h] at hk
  split at hk
  · rename_i hid
    subst hid
    rw [ht.ticket?_of_live h]
    split at hk
    · cases hk
    · exact hk
  · split at hk
    · cases hk
    · exact hk

theorem takeOut_fill_outcome? (ht : Sound t) (h : t.live.get? id = some (.awaiting k)) (x : α)
    (j : Ticket) :
    ((t.takeOut id k).fill k x).1.outcome? j = if j = k then some x else t.outcome? j := by
  have hk : k < (t.takeOut id k).slots.size := by
    rw [takeOut_slots]
    exact ht.lt_size_of_live h
  rw [fill_outcome? x hk, takeOut_outcome?, takeOut_outcome?, ht.empty_of_awaiting h,
    Option.none_or]

theorem takeOut (ht : Sound t) {l : Live} (h : t.live.get? id = some l) :
    Sound (t.takeOut id l.ticket) where
  apart := by
    intro other l' hl
    rw [takeOut_live_get?] at hl
    split at hl
    · cases hl
    · rename_i hid
      rw [takeOut_retired_get?, if_neg hid, ht.apart hl]
      simp only [ite_self]
  allotted := by
    intro other k hk
    rw [takeOut_slots]
    exact ht.allotted (ht.ticket?_of_takeOut h hk)
  unshared := fun hk hj => ht.unshared (ht.ticket?_of_takeOut h hk) (ht.ticket?_of_takeOut h hj)
  told := by
    intro other l' hl
    rw [takeOut_live_get?] at hl
    split at hl
    · cases hl
    · rw [takeOut_outcome?]
      exact ht.told hl

/-- A slot that no live entry names may be filled. -/
theorem fill (ht : Sound t) (hk : k < t.slots.size)
    (hfree : ∀ {id l}, t.live.get? id = some l → l.ticket ≠ k) (x : α) :
    Sound (t.fill k x).1 where
  apart := by
    intro id l h
    rw [fill_live] at h
    rw [fill_retired]
    exact ht.apart h
  allotted := by
    intro id j hj
    rw [fill_ticket?] at hj
    rw [fill_size]
    exact ht.allotted hj
  unshared := by
    intro id other j hj hj'
    rw [fill_ticket?] at hj hj'
    exact ht.unshared hj hj'
  told := by
    intro id l h
    rw [fill_live] at h
    rw [fill_outcome? x hk, if_neg (hfree h)]
    exact ht.told h

theorem enter (ht : Sound t) (h : t.ticket? id = none) (o : Option α) :
    Sound (t.enter id o) where
  apart := by
    intro other l hl
    change t.retired.get? other = none
    rw [enter_live_get?] at hl
    split at hl
    · rename_i hid
      rw [hid]
      exact (ticket?_eq_none_iff.mp h).2
    · exact ht.apart hl
  allotted := by
    intro other k hk
    rw [enter_ticket? _ _ h] at hk
    rw [enter_size]
    split at hk
    · cases hk
      exact Nat.lt_succ_self _
    · exact Nat.lt_succ_of_lt (ht.allotted hk)
  unshared := by
    intro first second k hfirst hsecond
    rw [enter_ticket? _ _ h] at hfirst hsecond
    split at hfirst <;> split at hsecond
    · rename_i h₁ h₂
      rw [h₁, h₂]
    · cases hfirst
      exact absurd (ht.allotted hsecond) (Nat.lt_irrefl _)
    · cases hsecond
      exact absurd (ht.allotted hfirst) (Nat.lt_irrefl _)
    · exact ht.unshared hfirst hsecond
  told := by
    intro other l hl
    rw [enter_live_get?] at hl
    split at hl
    · cases hl
      rw [Live.filled_of, Live.ticket_of, enter_outcome?, if_pos rfl]
    · rw [enter_outcome?, if_neg (Nat.ne_of_lt (ht.lt_size_of_live hl))]
      exact ht.told hl

theorem release (ht : Sound t) (id : UInt32) : Sound (t.release id).1 where
  apart := by
    intro other l hl
    rw [release_live_get?] at hl
    rw [release_retired_get?]
    split at hl
    · cases hl
    · rename_i hid
      rw [if_neg hid]
      exact ht.apart hl
  allotted := by
    intro other k hk
    rw [release_ticket?] at hk
    split at hk
    · cases hk
    · exact ht.allotted hk
  unshared := by
    intro first second k hfirst hsecond
    rw [release_ticket?] at hfirst hsecond
    split at hfirst
    · cases hfirst
    · split at hsecond
      · cases hsecond
      · exact ht.unshared hfirst hsecond
  told := by
    intro other l hl
    rw [release_live_get?] at hl
    split at hl
    · cases hl
    · exact ht.told hl

end Sound

section Arrive

variable (x : α)

theorem arrive_of_retired (h : t.retired.get? id = some k) :
    t.arrive id x = (t, .reached k) := by
  simp only [arrive, h]

theorem arrive_of_unknown (h : t.ticket? id = none) :
    t.arrive id x = (t.enter id (some x), .planted) := by
  obtain ⟨hlive, hretired⟩ := ticket?_eq_none_iff.mp h
  simp only [arrive, hretired, hlive]
  rfl

theorem Sound.arrive_of_settled (ht : Sound t) (h : t.live.get? id = some (.settled k)) :
    t.arrive id x = (t, .refused) := by
  simp only [arrive, ht.apart h, h]

theorem Sound.arrive_of_awaiting (ht : Sound t) (h : t.live.get? id = some (.awaiting k)) :
    t.arrive id x = (t.takeOut id k, .reached k) := by
  simp only [arrive, ht.apart h, h]

end Arrive

namespace Consistent

theorem enter (ht : Consistent t) (h : t.ticket? id = none) (o : Option α) :
    Consistent (t.enter id o) where
  toSound := ht.toSound.enter h o
  retired := by
    intro other k hk
    change t.retired.get? other = some k at hk
    rw [enter_outcome?, if_neg (Nat.ne_of_lt (ht.allotted (ticket?_of_retired hk)))]
    exact ht.retired hk

theorem release (ht : Consistent t) (id : UInt32) : Consistent (t.release id).1 where
  toSound := ht.toSound.release id
  retired := by
    intro other k hk
    rw [release_retired_get?] at hk
    split at hk
    · cases hk
    · exact ht.retired hk

theorem filled_of_takeOut (ht : Consistent t) {other : UInt32} {j : Ticket}
    (h : (t.takeOut id k).retired.get? other = some j) :
    j = k ∨ (t.outcome? j).isSome = true :=
  (retired_of_takeOut h).imp_right ht.retired

theorem takeOut (ht : Consistent t) (h : t.live.get? id = some (.settled k)) :
    Consistent (t.takeOut id k) where
  toSound := ht.toSound.takeOut h
  retired := by
    intro other j hj
    rw [takeOut_outcome?]
    rcases ht.filled_of_takeOut hj with rfl | hfilled
    · exact (ht.told h).symm
    · exact hfilled

theorem takeOut_fill (ht : Consistent t) (h : t.live.get? id = some (.awaiting k)) (x : α) :
    Consistent ((t.takeOut id k).fill k x).1 := by
  have hk : k < (t.takeOut id k).slots.size := by
    rw [takeOut_slots]
    exact ht.lt_size_of_live h
  have hfree : ∀ {other l}, (t.takeOut id k).live.get? other = some l → l.ticket ≠ k := by
    intro other l hl heq
    rw [takeOut_live_get?] at hl
    split at hl
    · cases hl
    · rename_i hid
      exact hid (ht.unshared (ht.ticket?_of_live hl) (heq ▸ ht.ticket?_of_live h))
  refine ⟨(ht.toSound.takeOut h).fill hk hfree x, ?_⟩
  intro other j hj
  rw [fill_retired] at hj
  rw [ht.takeOut_fill_outcome? h]
  split
  · rfl
  · rename_i hne
    exact (ht.filled_of_takeOut hj).resolve_left hne

theorem empty (n : Nat) : Consistent (withHistory n : SlotTable α) :=
  ⟨⟨nofun, nofun, nofun, nofun⟩, nofun⟩

end Consistent

end SlotTable

end Remoting
