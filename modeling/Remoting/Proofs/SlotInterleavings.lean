import Mathlib.Data.List.Induction
import Remoting.Proofs.SlotRuns

/-!
# Interleaved calls at a slot table

Many callers use a table at once. A settling call makes one move at the table and, if it found a
slot there, a second move at the slot; between the two any other calls may move. An exchange is a
table together with what became of the calls so far: the settling calls under way, those that were
answered, and the handles that were given out. `Advance` lists what a move can do, and a run of any
moves keeps the exchange coherent.
-/

namespace Remoting

/-- A settling call, with the slot that it came to. -/
structure Settling (α : Type) where
  id : UInt32
  outcome : α
  ticket : Ticket
deriving DecidableEq

/-- One indivisible step of a call. A settling call that has found a slot waits, in its place among
those under way, for the move by which it fills the slot. -/
inductive Move (α : Type) where
  | arrive (id : UInt32) (outcome : α)
  | fill (place : Nat)
  | await (id : UInt32)
  | release (id : UInt32)
  | read (handle : Handle)
deriving DecidableEq

structure Exchange (α : Type) where
  table : SlotTable α
  underWay : List (Settling α) := []
  answered : List (Settling α × Bool) := []
  handles : List Handle := []

open SlotTable

namespace Exchange

variable {α : Type} {s s' : Exchange α} {m : Move α} {id : UInt32} {k : Ticket}

/-- A call that is refused came to the slot of its id, and one that plants came to a new one. -/
def step (s : Exchange α) : Move α → Exchange α
  | .arrive id outcome =>
    let own := (s.table.ticket? id).getD s.table.slots.size
    match s.table.arrive id outcome with
    | (table, .planted) => { s with table, answered := s.answered ++ [(⟨id, outcome, own⟩, true)] }
    | (table, .refused) => { s with table, answered := s.answered ++ [(⟨id, outcome, own⟩, false)] }
    | (table, .reached ticket) =>
      { s with table, underWay := s.underWay ++ [⟨id, outcome, ticket⟩] }
  | .fill place =>
    match s.underWay[place]? with
    | none => s
    | some c =>
      let (table, woken) := s.table.fill c.ticket c.outcome
      { s with
        table
        underWay := s.underWay.eraseIdx place
        answered := s.answered ++ [(c, woken.isSome)] }
  | .await id =>
    let (table, handle) := s.table.awaitOrCreate id
    { s with table, handles := s.handles ++ [handle] }
  | .release id => { s with table := (s.table.release id).1 }
  | .read _ => s

def opened (history : Nat) : Exchange α :=
  { table := withHistory history }

/-- The exchange after some moves at an empty table with the given history. -/
def after (history : Nat) (moves : List (Move α)) : Exchange α :=
  moves.foldl step (opened history)

theorem after_append_singleton (n : Nat) (moves : List (Move α)) (m : Move α) :
    after n (moves ++ [m]) = (after n moves).step m :=
  List.foldl_append

/-- The settling calls that were answered with yes. -/
def accepted (s : Exchange α) : List (Settling α) :=
  (s.answered.filter (·.2)).map (·.1)

def settlings (s : Exchange α) : List (Settling α) :=
  s.underWay ++ s.answered.map (·.1)

/-- Two moves without another one between them do what a settling call does as one step. -/
theorem settle_eq_arrive_fill (s : Exchange α) (id : UInt32) (x : α) :
    let s' := (s.step (.arrive id x)).step (.fill s.underWay.length)
    s'.table = (s.table.settle id x).1 ∧ s'.underWay = s.underWay ∧
      s'.answered.map (·.2) = s.answered.map (·.2) ++ [(s.table.settle id x).2] := by
  cases h : s.table.arrive id x with
  | mk t arrival =>
    cases arrival <;> simp [step, h, settle, record, List.eraseIdx_append_of_length_le]

inductive Advance (s : Exchange α) : Move α → Exchange α → Prop
  | plantFilled {id : UInt32} {x : α} : s.table.ticket? id = none →
      Advance s (.arrive id x) { s with
        table := s.table.enter id (some x)
        answered := s.answered ++ [(⟨id, x, s.table.slots.size⟩, true)] }
  | refused {id : UInt32} {x : α} {k : Ticket} : s.table.live.get? id = some (.settled k) →
      Advance s (.arrive id x) { s with answered := s.answered ++ [(⟨id, x, k⟩, false)] }
  | takeWaiting {id : UInt32} {x : α} {k : Ticket} : s.table.live.get? id = some (.awaiting k) →
      Advance s (.arrive id x) { s with
        table := s.table.takeOut id k
        underWay := s.underWay ++ [⟨id, x, k⟩] }
  | rejoin {id : UInt32} {x : α} {k : Ticket} : s.table.retired.get? id = some k →
      Advance s (.arrive id x) { s with underWay := s.underWay ++ [⟨id, x, k⟩] }
  | fill {place : Nat} {c : Settling α} : s.underWay[place]? = some c →
      Advance s (.fill place) { s with
        table := (s.table.fill c.ticket c.outcome).1
        underWay := s.underWay.eraseIdx place
        answered := s.answered ++ [(c, (s.table.fill c.ticket c.outcome).2.isSome)] }
  | idle {place : Nat} : Advance s (.fill place) s
  | await {id : UInt32} {h : Handle} {t : SlotTable α} : Step s.table (.await id) (.handle h) t →
      Advance s (.await id) { s with table := t, handles := s.handles ++ [h] }
  | release {id : UInt32} : Advance s (.release id) { s with table := (s.table.release id).1 }
  | read {h : Handle} : Advance s (.read h) s

theorem advance_arrive (ht : Sound s.table) (id : UInt32) (x : α) :
    Advance s (.arrive id x) (s.step (.arrive id x)) := by
  cases hretired : s.table.retired.get? id with
  | some k =>
    have hstep : s.step (.arrive id x) =
        { s with underWay := s.underWay ++ [⟨id, x, k⟩] } := by
      simp only [step, arrive_of_retired x hretired]
    rw [hstep]
    exact .rejoin hretired
  | none =>
    cases hlive : s.table.live.get? id with
    | none =>
      have hid : s.table.ticket? id = none := ticket?_eq_none_iff.mpr ⟨hlive, hretired⟩
      have hstep : s.step (.arrive id x) =
          { s with
            table := s.table.enter id (some x)
            answered := s.answered ++ [(⟨id, x, s.table.slots.size⟩, true)] } := by
        simp only [step, arrive_of_unknown x hid, hid, Option.getD_none]
      rw [hstep]
      exact .plantFilled hid
    | some l =>
      cases l with
      | settled k =>
        have hid : s.table.ticket? id = some k := ht.ticket?_of_live hlive
        have hstep : s.step (.arrive id x) =
            { s with answered := s.answered ++ [(⟨id, x, k⟩, false)] } := by
          simp only [step, ht.arrive_of_settled x hlive, hid, Option.getD_some]
        rw [hstep]
        exact .refused hlive
      | awaiting k =>
        have hstep : s.step (.arrive id x) =
            { s with
              table := s.table.takeOut id k
              underWay := s.underWay ++ [⟨id, x, k⟩] } := by
          simp only [step, ht.arrive_of_awaiting x hlive]
        rw [hstep]
        exact .takeWaiting hlive

theorem advance (ht : Sound s.table) (m : Move α) : Advance s m (s.step m) := by
  cases m with
  | arrive id x => exact advance_arrive ht id x
  | fill place =>
    cases hplace : s.underWay[place]? with
    | none =>
      have hstep : s.step (.fill place) = s := by simp only [step, hplace]
      rw [hstep]
      exact .idle
    | some c =>
      simp only [step, hplace]
      exact .fill hplace
  | await id => exact .await (ht.await_step id)
  | release id => exact .release
  | read h => exact .read

/-- What a later table binds is bound already, or to a slot that is new. -/
structure Later (t t' : SlotTable α) : Prop where
  size_le : t.slots.size ≤ t'.slots.size
  bound : ∀ {id k}, t'.ticket? id = some k → t.ticket? id = some k ∨ t.slots.size ≤ k
  live : ∀ {id l}, t'.live.get? id = some l → t.live.get? id = some l ∨ t.slots.size ≤ l.ticket

section Later

variable {t t' : SlotTable α}

theorem Later.refl (t : SlotTable α) : Later t t :=
  ⟨Nat.le_refl _, .inl, .inl⟩

theorem later_enter (h : t.ticket? id = none) (o : Option α) : Later t (t.enter id o) where
  size_le := by
    rw [enter_size]
    omega
  bound := by
    intro other k hk
    rw [enter_ticket? _ _ h] at hk
    split at hk
    · cases hk
      exact .inr (Nat.le_refl _)
    · exact .inl hk
  live := by
    intro other l hl
    rw [enter_live_get?] at hl
    split at hl
    · cases hl
      exact .inr (Nat.le_of_eq (Live.ticket_of o _).symm)
    · exact .inl hl

theorem later_takeOut (ht : Sound t) {l : Live} (h : t.live.get? id = some l) :
    Later t (t.takeOut id l.ticket) where
  size_le := Nat.le_of_eq (by rw [takeOut_slots])
  bound := fun hk => .inl (ht.ticket?_of_takeOut h hk)
  live := by
    intro other l' hl
    rw [takeOut_live_get?] at hl
    split at hl
    · cases hl
    · exact .inl hl

theorem later_fill (t : SlotTable α) (k : Ticket) (x : α) : Later t (t.fill k x).1 where
  size_le := Nat.le_of_eq (by rw [fill_size])
  bound := by
    intro other j hj
    rw [fill_ticket?] at hj
    exact .inl hj
  live := by
    intro other l hl
    rw [fill_live] at hl
    exact .inl hl

theorem later_release (t : SlotTable α) (id : UInt32) : Later t (t.release id).1 where
  size_le := Nat.le_refl _
  bound := by
    intro other k hk
    rw [release_ticket?] at hk
    split at hk
    · cases hk
    · exact .inl hk
  live := by
    intro other l hl
    rw [release_live_get?] at hl
    split at hl
    · cases hl
    · exact .inl hl

theorem later_await (ht : Sound t) {a : Answer α} (h : Step t (.await id) a t') : Later t t' := by
  cases h with
  | plantEmpty hid => exact later_enter hid none
  | fetchSettled hlive => exact later_takeOut ht hlive
  | found _ _ => exact .refl t

theorem Advance.later (ht : Sound s.table) (h : Advance s m s') : Later s.table s'.table := by
  cases h with
  | plantFilled hid => exact later_enter hid _
  | takeWaiting hlive => exact later_takeOut ht hlive
  | fill _ => exact later_fill _ _ _
  | await h => exact later_await ht h
  | release => exact later_release _ _
  | refused _ | rejoin _ | idle | read => exact .refl _

end Later

/-- The slot of the call is there, and no other id is bound to it. -/
structure Holds (c : Settling α) (t : SlotTable α) : Prop where
  allotted : c.ticket < t.slots.size
  own : ∀ {id}, t.ticket? id = some c.ticket → id = c.id

theorem Holds.later {c : Settling α} {t t' : SlotTable α} (hc : Holds c t) (h : Later t t') :
    Holds c t' where
  allotted := Nat.lt_of_lt_of_le hc.allotted h.size_le
  own := by
    intro id hid
    rcases h.bound hid with hbound | hnew
    · exact hc.own hbound
    · exact absurd hc.allotted (Nat.not_lt_of_le hnew)

theorem holds_of_bound {t : SlotTable α} (ht : Sound t) (h : t.ticket? id = some k) (x : α) :
    Holds ⟨id, x, k⟩ t :=
  ⟨ht.allotted h, fun hother => ht.unshared hother h⟩

/-- The slots of the settling calls are apart, no live entry names a slot that is yet to be filled,
and a slot is filled exactly if a call was accepted for it. What the history names is filled, or a
call is on its way to fill it. -/
structure Coherent (s : Exchange α) : Prop where
  sound : Sound s.table
  holds : ∀ c ∈ s.settlings, Holds c s.table
  takenOut : ∀ c ∈ s.underWay, ∀ {id l}, s.table.live.get? id = some l → l.ticket ≠ c.ticket
  won : ∀ k, (s.accepted.filter (·.ticket = k)).map (·.outcome) = (s.table.outcome? k).toList
  filled : ∀ c ∈ s.answered, (s.table.outcome? c.1.ticket).isSome = true
  retired : ∀ {id k}, s.table.retired.get? id = some k → s.table.outcome? k = none →
    ∃ c ∈ s.underWay, c.ticket = k

theorem mem_settlings {c : Settling α} :
    c ∈ s.settlings ↔ c ∈ s.underWay ∨ ∃ b, (c, b) ∈ s.answered := by
  simp [settlings]

theorem outcome?_of_size_le {t : SlotTable α} (h : t.slots.size ≤ k) : t.outcome? k = none := by
  rw [outcome?, Array.getElem?_eq_none h]
  rfl

theorem lt_size_of_outcome? {t : SlotTable α} {x : α} (h : t.outcome? k = some x) :
    k < t.slots.size := by
  by_contra hk
  rw [outcome?_of_size_le (Nat.le_of_not_lt hk)] at h
  cases h

theorem await_outcome? {t t' : SlotTable α} {a : Answer α} (h : Step t (.await id) a t') :
    t'.outcome? k = t.outcome? k := by
  cases h with
  | plantEmpty hid =>
    rw [enter_outcome?]
    split
    · rename_i hk
      rw [hk, outcome?_of_size_le (Nat.le_refl _)]
    · rfl
  | fetchSettled _ => exact takeOut_outcome? _ _ _ _
  | found _ _ => rfl

namespace Advance

theorem sound (hs : Coherent s) (h : Advance s m s') : Sound s'.table := by
  cases h with
  | plantFilled hid => exact hs.sound.enter hid _
  | takeWaiting hlive => exact hs.sound.takeOut hlive
  | @fill place c hplace =>
    have hc : c ∈ s.underWay := List.mem_of_getElem? hplace
    have hholds := hs.holds c (mem_settlings.mpr (.inl hc))
    exact hs.sound.fill hholds.allotted (hs.takenOut c hc) _
  | await h =>
    cases h with
    | plantEmpty hid => exact hs.sound.enter hid _
    | fetchSettled hlive => exact hs.sound.takeOut hlive
    | found _ _ => exact hs.sound
  | release => exact hs.sound.release _
  | refused _ | rejoin _ | idle | read => exact hs.sound

/-- A call is known from before, or it arrives with the move at the slot of its id. -/
theorem known_or_new (hs : Coherent s) (h : Advance s m s') {c : Settling α}
    (hc : c ∈ s'.settlings) :
    c ∈ s.settlings ∨ s.table.ticket? c.id = some c.ticket ∨
      s'.table.ticket? c.id = some c.ticket := by
  cases h with
  | @plantFilled id x hid =>
    have hnew : c ∈ s.settlings ∨ c = ⟨id, x, s.table.slots.size⟩ := by
      simpa [settlings, or_assoc] using hc
    rcases hnew with hold | rfl
    · exact .inl hold
    · exact .inr (.inr (by rw [enter_ticket? _ _ hid, if_pos rfl]))
  | @refused id x k hlive =>
    have hnew : c ∈ s.settlings ∨ c = ⟨id, x, k⟩ := by
      simpa [settlings, or_assoc] using hc
    rcases hnew with hold | rfl
    · exact .inl hold
    · exact .inr (.inl (hs.sound.ticket?_of_live hlive))
  | @takeWaiting id x k hlive =>
    have hnew : c ∈ s.settlings ∨ c = ⟨id, x, k⟩ := by
      simp [settlings] at hc ⊢
      tauto
    rcases hnew with hold | rfl
    · exact .inl hold
    · exact .inr (.inl (hs.sound.ticket?_of_live hlive))
  | @rejoin id x k hretired =>
    have hnew : c ∈ s.settlings ∨ c = ⟨id, x, k⟩ := by
      simp [settlings] at hc ⊢
      tauto
    rcases hnew with hold | rfl
    · exact .inl hold
    · exact .inr (.inl (ticket?_of_retired hretired))
  | @fill place c' hplace =>
    rw [mem_settlings] at hc ⊢
    have hc' : c' ∈ s.underWay := List.mem_of_getElem? hplace
    rcases hc with hway | ⟨b, hdone⟩
    · exact .inl (.inl (List.mem_of_mem_eraseIdx hway))
    · rcases List.mem_append.mp hdone with hold | hlast
      · exact .inl (.inr ⟨b, hold⟩)
      · cases List.mem_singleton.mp hlast
        exact .inl (.inl hc')
  | idle | await _ | release | read => exact .inl hc

theorem holds (hs : Coherent s) (h : Advance s m s') : ∀ c ∈ s'.settlings, Holds c s'.table := by
  intro c hc
  have hlater := h.later hs.sound
  rcases h.known_or_new hs hc with hold | hbound | hbound
  · exact (hs.holds c hold).later hlater
  · exact (holds_of_bound hs.sound hbound c.outcome).later hlater
  · exact holds_of_bound (h.sound hs) hbound c.outcome

theorem takenOut (hs : Coherent s) (h : Advance s m s') :
    ∀ c ∈ s'.underWay, ∀ {id l}, s'.table.live.get? id = some l → l.ticket ≠ c.ticket := by
  have hold : ∀ c ∈ s.underWay, ∀ {id l}, s'.table.live.get? id = some l →
      l.ticket ≠ c.ticket := by
    intro c hc id l hl
    have hallotted := (hs.holds c (mem_settlings.mpr (.inl hc))).allotted
    rcases (h.later hs.sound).live hl with hlive | hnew
    · exact hs.takenOut c hc hlive
    · exact Nat.ne_of_gt (Nat.lt_of_lt_of_le hallotted hnew)
  cases h with
  | @takeWaiting id x k hlive =>
    intro c hc other l hl heq
    rcases List.mem_append.mp hc with hway | hlast
    · exact hold c hway hl heq
    · cases List.mem_singleton.mp hlast
      rw [takeOut_live_get?] at hl
      split at hl
      · cases hl
      · rename_i hid
        have hother := hs.sound.ticket?_of_live hl
        rw [heq] at hother
        exact hid (hs.sound.unshared hother (hs.sound.ticket?_of_live hlive))
  | @rejoin id x k hretired =>
    intro c hc other l hl heq
    rcases List.mem_append.mp hc with hway | hlast
    · exact hold c hway hl heq
    · cases List.mem_singleton.mp hlast
      have hother := hs.sound.ticket?_of_live hl
      rw [heq] at hother
      cases hs.sound.unshared hother (ticket?_of_retired hretired)
      have hnone := hs.sound.apart hl
      rw [hretired] at hnone
      cases hnone
  | fill hplace => exact fun c hc => hold c (List.mem_of_mem_eraseIdx hc)
  | plantFilled _ | refused _ | idle | await _ | release | read => exact hold

theorem outcome?_mono (hs : Coherent s) (h : Advance s m s') {x : α}
    (hx : s.table.outcome? k = some x) : s'.table.outcome? k = some x := by
  have hk := lt_size_of_outcome? hx
  cases h with
  | @fill place c hplace =>
    have hc := hs.holds c (mem_settlings.mpr (.inl (List.mem_of_getElem? hplace)))
    rw [fill_outcome? _ hc.allotted]
    split
    · rename_i heq
      rw [← heq, hx, Option.some_or]
    · exact hx
  | plantFilled hid => rw [enter_outcome?, if_neg (Nat.ne_of_lt hk), hx]
  | takeWaiting _ => rw [takeOut_outcome?, hx]
  | await hstep => rw [await_outcome? hstep, hx]
  | refused _ | rejoin _ | idle | release | read => exact hx

end Advance

theorem accepted_of_answered {c : Settling α} {b : Bool}
    (h : s'.answered = s.answered ++ [(c, b)]) :
    s'.accepted = s.accepted ++ if b then [c] else [] := by
  cases b <;> simp [accepted, h]

namespace Advance

theorem won (hs : Coherent s) (h : Advance s m s') (k : Ticket) :
    (s'.accepted.filter (·.ticket = k)).map (·.outcome) = (s'.table.outcome? k).toList := by
  have hwon := hs.won k
  cases h with
  | @plantFilled id x hid =>
    rw [accepted_of_answered (s := s) rfl, enter_outcome?, List.filter_append, List.map_append,
      hwon]
    by_cases hk : k = s.table.slots.size
    · rw [if_pos hk, hk, outcome?_of_size_le (Nat.le_refl _)]
      simp
    · rw [if_neg hk]
      simp [Ne.symm hk]
  | @refused id x k' hlive =>
    rw [accepted_of_answered (s := s) rfl]
    simpa using hwon
  | @fill place c hplace =>
    have hc := hs.holds c (mem_settlings.mpr (.inl (List.mem_of_getElem? hplace)))
    rw [accepted_of_answered (s := s) rfl, List.filter_append, List.map_append, hwon,
      fill_outcome? _ hc.allotted, fill_answer _ hc.allotted]
    by_cases hk : k = c.ticket
    · rw [if_pos hk, hk]
      cases s.table.outcome? c.ticket <;> simp
    · rw [if_neg hk]
      cases s.table.outcome? c.ticket <;> simp [Ne.symm hk]
  | takeWaiting hlive =>
    rw [takeOut_outcome?, ← hwon]
    rfl
  | await hstep =>
    rw [await_outcome? hstep, ← hwon]
    rfl
  | rejoin _ | idle | release | read => exact hwon

theorem filled (hs : Coherent s) (h : Advance s m s') :
    ∀ c ∈ s'.answered, (s'.table.outcome? c.1.ticket).isSome = true := by
  have hold : ∀ c ∈ s.answered, (s'.table.outcome? c.1.ticket).isSome = true := by
    intro c hc
    obtain ⟨x, hx⟩ := Option.isSome_iff_exists.mp (hs.filled c hc)
    rw [h.outcome?_mono hs hx]
    rfl
  cases h with
  | @plantFilled id x hid =>
    intro c hc
    rcases List.mem_append.mp hc with hbefore | hlast
    · exact hold c hbefore
    · cases List.mem_singleton.mp hlast
      rw [enter_outcome?, if_pos rfl]
      rfl
  | @refused id x k hlive =>
    intro c hc
    rcases List.mem_append.mp hc with hbefore | hlast
    · exact hold c hbefore
    · cases List.mem_singleton.mp hlast
      exact (hs.sound.told hlive).symm
  | @fill place c' hplace =>
    intro c hc
    rcases List.mem_append.mp hc with hbefore | hlast
    · exact hold c hbefore
    · cases List.mem_singleton.mp hlast
      have hc' := hs.holds c' (mem_settlings.mpr (.inl (List.mem_of_getElem? hplace)))
      rw [fill_outcome? _ hc'.allotted, if_pos rfl]
      cases s.table.outcome? c'.ticket <;> rfl
  | takeWaiting _ | rejoin _ | idle | await _ | release | read => exact hold

/-- A settling call is under way until its slot is filled. -/
theorem underWay (hs : Coherent s) (h : Advance s m s') {c : Settling α} (hc : c ∈ s.underWay) :
    c ∈ s'.underWay ∨ (s'.table.outcome? c.ticket).isSome = true := by
  cases h with
  | @fill place c' hplace =>
    by_cases hcc : c = c'
    · subst hcc
      have hholds := hs.holds c (mem_settlings.mpr (.inl hc))
      rw [fill_outcome? _ hholds.allotted, if_pos rfl]
      cases s.table.outcome? c.ticket <;> exact .inr rfl
    · obtain ⟨i, hi⟩ := List.mem_iff_getElem?.mp hc
      refine .inl (List.mem_eraseIdx_iff_getElem?.mpr ⟨i, ?_, hi⟩)
      rintro rfl
      exact hcc (Option.some.inj (hi.symm.trans hplace))
  | takeWaiting _ | rejoin _ => exact .inl (List.mem_append_left _ hc)
  | plantFilled _ | refused _ | idle | await _ | release | read => exact .inl hc

theorem retired (hs : Coherent s) (h : Advance s m s') {id : UInt32} {k : Ticket}
    (hk : s'.table.retired.get? id = some k) (hempty : s'.table.outcome? k = none) :
    ∃ c ∈ s'.underWay, c.ticket = k := by
  have hold : s.table.retired.get? id = some k → ∃ c ∈ s'.underWay, c.ticket = k := by
    intro hretired
    have hbefore : s.table.outcome? k = none := by
      cases hx : s.table.outcome? k with
      | none => rfl
      | some x =>
        rw [h.outcome?_mono hs hx] at hempty
        cases hempty
    obtain ⟨c, hc, rfl⟩ := hs.retired hretired hbefore
    rcases h.underWay hs hc with hway | hfilled
    · exact ⟨c, hway, rfl⟩
    · rw [hempty] at hfilled
      cases hfilled
  cases h with
  | @takeWaiting id' x k' hlive =>
    rcases retired_of_takeOut hk with rfl | hretired
    · exact ⟨⟨id', x, k⟩, List.mem_append_right _ List.mem_cons_self, rfl⟩
    · exact hold hretired
  | fill _ =>
    rw [fill_retired] at hk
    exact hold hk
  | await hstep =>
    cases hstep with
    | plantEmpty _ | found _ _ => exact hold hk
    | @fetchSettled _ k' hlive =>
      rcases retired_of_takeOut hk with rfl | hretired
      · have htold := hs.sound.told hlive
        rw [takeOut_outcome?] at hempty
        rw [Live.ticket, hempty] at htold
        cases htold
      · exact hold hretired
  | release =>
    rw [release_retired_get?] at hk
    split at hk
    · cases hk
    · exact hold hk
  | plantFilled _ | refused _ | rejoin _ | idle | read => exact hold hk

end Advance

namespace Coherent

theorem advance (hs : Coherent s) (h : Advance s m s') : Coherent s' :=
  ⟨h.sound hs, h.holds hs, h.takenOut hs, h.won hs, h.filled hs, h.retired hs⟩

theorem opened (n : Nat) : Coherent (opened n : Exchange α) where
  sound := (Consistent.empty n).toSound
  holds := nofun
  takenOut := nofun
  won := fun _ => rfl
  filled := nofun
  retired := nofun

theorem after (n : Nat) (moves : List (Move α)) : Coherent (after n moves) := by
  induction moves using List.reverseRecOn with
  | nil => exact .opened n
  | append_singleton moves m ih =>
    rw [after_append_singleton]
    exact ih.advance (Exchange.advance ih.sound m)

end Coherent

end Exchange

end Remoting
