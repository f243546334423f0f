import Remoting.Proofs.SlotMemory
import Remoting.Proofs.SlotWakeups

/-!
# Futures of a table

A table keeps in each slot the list of those who wait for it. Without these lists its calls do the
same and answer the same; the lists are the bells of a hall. A desk is a table in use, with the
handles it gave out and the futures made of them. It shows at any time what the hall with the same
visits shows. So no wake-up is lost at a desk, nor in any hall whose bells do as documented.
-/

namespace Remoting

namespace SlotTable

variable {α : Type} {t : SlotTable α} {k : Ticket} {i : Nat} {f : SlotFuture}

/-- The table without what its slots know of futures. -/
def plain (t : SlotTable α) : SlotTable α :=
  { t with slots := t.slots.map fun slot => { slot with waiting := [] } }

/-- The wakers that are woken by a settling call. -/
def wakes (t : SlotTable α) (id : UInt32) (x : α) : List Waker :=
  (t.record id x).2.getD []

theorem exists_record_of_accepted {id : UInt32} {x : α} (h : (t.settle id x).2 = true) :
    ∃ woken, t.record id x = ((t.settle id x).1, some woken) := by
  have hsome : (t.record id x).2.isSome = true := h
  obtain ⟨woken, hwoken⟩ := Option.isSome_iff_exists.mp hsome
  exact ⟨woken, Prod.ext rfl hwoken⟩

theorem record_of_refused {id : UInt32} {x : α} (h : (t.settle id x).2 = false) :
    t.record id x = ((t.settle id x).1, none) := by
  have hnone : (t.record id x).2.isSome = false := h
  exact Prod.ext rfl (Option.isNone_iff_eq_none.mp (Option.isSome_eq_false_iff.mp hnone))

section Plain

variable (t) (id : UInt32) (x : α) (k)

@[simp] theorem plain_live : t.plain.live = t.live :=
  rfl

@[simp] theorem plain_retired : t.plain.retired = t.retired :=
  rfl

@[simp] theorem plain_outcome? : t.plain.outcome? k = t.outcome? k := by
  simp only [outcome?, plain, Array.getElem?_map, Option.bind_map]
  rfl

theorem plain_evict : t.plain.evict = t.evict.plain := by
  unfold evict plain
  dsimp only
  split
  · split <;> rfl
  · rfl

@[simp] theorem plain_takeOut : t.plain.takeOut id k = (t.takeOut id k).plain := by
  have hevict := plain_evict { t with live := t.live.erase id }
  unfold takeOut retire
  by_cases hhistory : t.history = 0
  · simp [hhistory, plain]
  · simp only [plain, hhistory, if_false] at hevict ⊢
    simp only [hevict]

theorem plain_awaitOrCreate :
    t.plain.awaitOrCreate id = ((t.awaitOrCreate id).1.plain, (t.awaitOrCreate id).2) := by
  cases hretired : t.retired.get? id with
  | some k => simp [awaitOrCreate, hretired]
  | none =>
    cases hlive : t.live.get? id with
    | none => simp [awaitOrCreate, hretired, hlive, plant, plain]
    | some l => cases l <;> simp [awaitOrCreate, hretired, hlive]

theorem plain_arrive : t.plain.arrive id x = ((t.arrive id x).1.plain, (t.arrive id x).2) := by
  cases hretired : t.retired.get? id with
  | some k => simp [arrive, hretired]
  | none =>
    cases hlive : t.live.get? id with
    | none => simp [arrive, hretired, hlive, plant, plain]
    | some l => cases l <;> simp [arrive, hretired, hlive]

theorem plain_fill :
    t.plain.fill k x = ((t.fill k x).1.plain, (t.fill k x).2.map fun _ => []) := by
  cases hslot : t.slots[k]? with
  | none => simp [fill, plain, hslot]
  | some slot =>
    obtain ⟨outcome, waiting⟩ := slot
    cases outcome with
    | none => simp [fill, plain, hslot]
    | some y => simp [fill, plain, hslot]

theorem plain_record :
    t.plain.record id x = ((t.record id x).1.plain, (t.record id x).2.map fun _ => []) := by
  unfold record
  rw [plain_arrive]
  cases harrive : t.arrive id x with
  | mk t' arrival => cases arrival <;> simp [plain_fill]

theorem plain_settle : t.plain.settle id x = ((t.settle id x).1.plain, (t.settle id x).2) := by
  simp [settle, plain_record]

theorem consistent_of_plain {t : SlotTable α} (h : Consistent t.plain) : Consistent t where
  apart := h.apart
  allotted := by
    intro id k hk
    have hallotted := h.allotted hk
    rwa [plain, Array.size_map] at hallotted
  unshared := h.unshared
  told := by
    intro id l hl
    rw [← plain_outcome?]
    exact h.told hl
  retired := by
    intro id k hk
    rw [← plain_outcome?]
    exact h.retired hk

theorem plain_step (c : Call α) : t.plain.step c = ((t.step c).1.plain, (t.step c).2) := by
  cases c with
  | settle id x => simp [step, plain_settle]
  | await id => simp [step, plain_awaitOrCreate]
  | release id => rfl
  | read h => simp [step, read]

end Plain

section Waiting

variable (t) (id : UInt32) (x : α) (k)

theorem waiting_eq_of_slots {t t' : SlotTable α} (h : t'.slots = t.slots) :
    t'.waiting = t.waiting := by
  funext k
  rw [waiting, h, waiting]

theorem plant_waiting (o : Option α) : (t.plant o).1.waiting = t.waiting := by
  funext k
  by_cases hk : k = t.slots.size
  · subst hk
    simp [waiting, plant]
  · simp [waiting, plant, Array.getElem?_push, hk]

theorem awaitOrCreate_waiting : (t.awaitOrCreate id).1.waiting = t.waiting := by
  cases hretired : t.retired.get? id with
  | some k => simp only [awaitOrCreate, hretired]
  | none =>
    cases hlive : t.live.get? id with
    | none =>
      simp only [awaitOrCreate, hretired, hlive]
      exact plant_waiting t none
    | some l =>
      cases l with
      | awaiting k => simp only [awaitOrCreate, hretired, hlive]
      | settled k =>
        simp only [awaitOrCreate, hretired, hlive]
        exact waiting_eq_of_slots (takeOut_slots t id k)

theorem arrive_waiting : (t.arrive id x).1.waiting = t.waiting := by
  cases hretired : t.retired.get? id with
  | some k => simp only [arrive, hretired]
  | none =>
    cases hlive : t.live.get? id with
    | none =>
      simp only [arrive, hretired, hlive]
      exact plant_waiting t (some x)
    | some l =>
      cases l with
      | awaiting k =>
        simp only [arrive, hretired, hlive]
        exact waiting_eq_of_slots (takeOut_slots t id k)
      | settled k => simp only [arrive, hretired, hlive]

/-- Who fills a slot wakes all who wait for it. -/
theorem fill_cases : t.fill k x = (t, none) ∨
    ∃ t', t.fill k x = (t', some ((t.waiting k).filterMap (·.waker))) ∧
      t'.waiting = Function.update t.waiting k [] := by
  cases hslot : t.slots[k]? with
  | none => simp [fill, hslot]
  | some slot =>
    obtain ⟨outcome, waiters⟩ := slot
    cases outcome with
    | some y => simp [fill, hslot]
    | none =>
      have hk := (Array.getElem?_eq_some_iff.mp hslot).1
      refine .inr ⟨{ t with slots := t.slots.setIfInBounds k ⟨some x, []⟩ }, ?_, ?_⟩
      · simp [fill, waiting, hslot]
      · funext j
        by_cases hj : j = k
        · subst hj
          simp [waiting, hk]
        · simp [waiting, hj, Ne.symm hj]

theorem setWaiting_waiting {k : Ticket} (hk : k < t.slots.size) (waiters : List Waiter) :
    (t.setWaiting k waiters).waiting = Function.update t.waiting k waiters := by
  funext j
  simp only [waiting, setWaiting, Array.getElem?_modify]
  by_cases hj : j = k
  · subst hj
    simp [hk]
  · simp [waiting, hj, Ne.symm hj]

theorem plain_setWaiting (waiters : List Waiter) : (t.setWaiting k waiters).plain = t.plain := by
  simp only [plain, setWaiting, mk.injEq, true_and]
  ext1
  · simp
  · rename_i j _ _
    by_cases hj : k = j
    · simp [Array.getElem_modify, hj]
    · simp [Array.getElem_modify, hj]

theorem setWaiting_outcome? (waiters : List Waiter) (j : Ticket) :
    (t.setWaiting k waiters).outcome? j = t.outcome? j := by
  rw [← plain_outcome?, plain_setWaiting, plain_outcome?]

end Waiting

/-- Only a settling call that is answered with yes fills a slot. -/
theorem Step.settle_of_filled {t' : SlotTable α} {c : Call α} {a : Answer α} {x : α}
    (ht : Consistent t) (h : Step t c a t') (hempty : t.outcome? k = none)
    (hx : t'.outcome? k = some x) : ∃ id, c = .settle id x ∧ a = .flag true := by
  cases h with
  | @plantFilled id y hid =>
    rw [enter_outcome?] at hx
    split at hx
    · cases hx
      exact ⟨id, rfl, rfl⟩
    · rw [hempty] at hx
      cases hx
  | @fillWaiting id y j hlive =>
    rw [ht.takeOut_fill_outcome? hlive] at hx
    split at hx
    · cases hx
      exact ⟨id, rfl, rfl⟩
    · rw [hempty] at hx
      cases hx
  | plantEmpty _ =>
    rw [enter_outcome?, hempty] at hx
    split at hx <;> cases hx
  | fetchSettled _ =>
    rw [takeOut_outcome?, hempty] at hx
    cases hx
  | late _ _ | found _ _ | release | read =>
    cases hempty.symm.trans hx

end SlotTable

theorem Exchange.settle_handles {α : Type} (s : Exchange α) (id : UInt32) (x : α) :
    ((s.step (.arrive id x)).step (.fill 0)).handles = s.handles := by
  have hfill (s : Exchange α) : (s.step (.fill 0)).handles = s.handles := by
    simp only [Exchange.step]
    split <;> rfl
  rw [hfill]
  simp only [Exchange.step]
  split <;> rfl

/-- A table with the handles that it gave out and the futures that were made of them. -/
structure Desk (α : Type) where
  table : SlotTable α
  handles : List Handle := []
  futures : List SlotFuture := []

namespace Desk

open SlotTable

variable {α : Type} {D : Desk α} {H : Hall α (List Waiter)} {wakers : Nat → Option Waker}
  {i : Nat} {f : SlotFuture} {n : Nat} {visits : List (Visit α)}

def visit (D : Desk α) : Visit α → Desk α
  | .call c =>
    match D.table.step c with
    | (table, .handle handle) => { D with table, handles := D.handles ++ [handle] }
    | (table, _) => { D with table }
  | .start handle =>
    if handle ∈ D.handles then
      { D with futures := D.futures ++ [{ ticket := handle.ticket }] }
    else D
  | .poll i waker =>
    match D.futures[i]? with
    | none => D
    | some f =>
      let (table, f', _) := D.table.poll i f waker
      { D with table, futures := D.futures.set i f' }

/-- What a future would answer to a poll. -/
def answer? (D : Desk α) (i : Nat) (waker : Waker) : Option (Poll α) :=
  D.futures[i]?.map fun f => (D.table.poll i f waker).2.2

def after (history : Nat) (visits : List (Visit α)) : Desk α :=
  visits.foldl visit { table := withHistory history }

/-- The desk shows what the hall does, with the lists in its slots for bells. -/
structure Shows (D : Desk α) (H : Hall α (List Waiter)) : Prop where
  table : H.exchange.table = D.table.plain
  bells : H.bells = D.table.waiting
  handles : H.exchange.handles = D.handles
  futures : H.futures = D.futures

theorem Shows.opened (n : Nat) : Shows (after n []) (Hall.opened waitingList n : Hall α _) where
  table := by simp [Hall.opened, Exchange.opened, after, plain, withHistory]
  bells := rfl
  handles := rfl
  futures := rfl

theorem Shows.outcome?_eq (h : Shows D H) (k : Ticket) : H.outcome? k = D.table.outcome? k := by
  rw [Hall.outcome?, h.table, plain_outcome?]

theorem Shows.polled (h : Shows D H) (i : Nat) (waker : Waker) (f : SlotFuture) :
    H.polled waitingList i waker f =
      f.poll waitingList i waker (D.table.waiting f.ticket) (D.table.outcome? f.ticket) := by
  rw [Hall.polled, h.bells, h.outcome?_eq]

theorem Shows.answer?_eq (h : Shows D H) (i : Nat) (waker : Waker) :
    H.answer? waitingList i waker = D.answer? i waker := by
  rw [Hall.answer?, h.futures, answer?]
  simp only [h.polled]
  rfl

/-- Where the hall has yet to ring, the table strikes out the list of the slot. -/
theorem Shows.rings (h : Shows D H) (hquiet : H.Quiet) (id : UInt32) (x : α) :
    (H.settling waitingList id x).ringing = [] ∧ D.table.wakes id x = [] ∧
        (D.table.settle id x).1.waiting = D.table.waiting ∨
      ∃ c, (H.settling waitingList id x).ringing = [c] ∧
        D.table.wakes id x = (D.table.waiting c.ticket).filterMap (·.waker) ∧
        (D.table.settle id x).1.waiting = Function.update D.table.waiting c.ticket [] := by
  have hwaiting := arrive_waiting D.table id x
  have harrived := plain_arrive D.table id x
  rw [← h.table] at harrived
  rw [Hall.ringing_settling hquiet.ringing]
  cases harrive : D.table.arrive id x with
  | mk t arrival =>
    rw [harrive] at hwaiting harrived
    cases arrival with
    | planted | refused =>
      left
      simpa [Exchange.step, Exchange.filler?, harrived, hquiet.underWay, wakes, settle, record,
        harrive]
        using hwaiting
    | reached k =>
      have hplain := plain_fill t k x
      rcases fill_cases t k x with hfill | ⟨t', hfill, hwoken⟩
      · left
        rw [hfill] at hplain
        simpa [Exchange.step, Exchange.filler?, harrived, hquiet.underWay, wakes, settle, record,
        harrive,
          hfill, hplain] using hwaiting
      · right
        rw [hfill] at hplain
        rw [hwaiting] at hwoken hfill
        refine ⟨⟨id, x, k⟩, ?_, ?_, ?_⟩
        · simp [Exchange.step, Exchange.filler?, harrived, hquiet.underWay, hplain]
        · simp [wakes, record, harrive, hfill]
        · simpa [settle, record, harrive, hfill] using hwoken

theorem Shows.visit_settle (h : Shows D H) (hquiet : H.Quiet) (id : UInt32) (x : α) :
    let H' := H.visit waitingList (.call (.settle id x))
    H'.bells = (D.table.settle id x).1.waiting ∧ H'.exchange.handles = D.handles ∧
      H'.futures = D.futures ∧
      H.wokenBy waitingList (Visit.moves (.call (.settle id x))) = D.table.wakes id x := by
  have hhandles := Exchange.settle_handles H.exchange id x
  rw [h.handles] at hhandles
  rw [Hall.visit_settle, Hall.wokenBy_settle, Hall.step, Hall.woken]
  rcases h.rings hquiet id x with ⟨hringing, hwakes, hwaiting⟩ | ⟨c, hringing, hwakes, hwaiting⟩
  · rw [hringing, hwakes, hwaiting]
    exact ⟨h.bells, hhandles, h.futures, rfl⟩
  · rw [hringing, hwakes, hwaiting, ← h.bells]
    exact ⟨rfl, hhandles, h.futures, rfl⟩

theorem Shows.visit (h : Shows D H) (hH : Hall.Attended waitingList wakers H)
    (hquiet : H.Quiet) (v : Visit α) : Shows (D.visit v) (H.visit waitingList v) := by
  have htable := (hquiet.visit (B := waitingList) v).2
  cases v with
  | call c =>
    have hcalled : (H.visit waitingList (.call c)).exchange.table = (D.table.step c).1.plain := by
      rw [htable, h.table]
      exact congrArg Prod.fst (plain_step D.table c)
    cases c with
    | settle id x =>
      obtain ⟨hbells, hhandles, hfutures, _⟩ := h.visit_settle hquiet id x
      exact ⟨hcalled, hbells, hhandles, hfutures⟩
    | await id =>
      refine ⟨hcalled, h.bells.trans (awaitOrCreate_waiting D.table id).symm, ?_, h.futures⟩
      change H.exchange.handles ++ [(H.exchange.table.awaitOrCreate id).2] = _
      rw [h.handles, h.table, plain_awaitOrCreate]
      rfl
    | release id => exact ⟨hcalled, h.bells, h.handles, h.futures⟩
    | read handle => exact ⟨hcalled, h.bells, h.handles, h.futures⟩
  | start handle =>
    change Shows _ (H.step waitingList (.start handle))
    rw [Hall.step, Desk.visit, h.handles, h.futures]
    split
    · exact ⟨h.table, h.bells, h.handles, rfl⟩
    · exact h
  | poll i waker =>
    change Shows _ (H.step waitingList (.poll i waker))
    cases hf : D.futures[i]? with
    | none =>
      simp only [Hall.step, Desk.visit, h.futures, hf]
      exact h
    | some f =>
      have hallotted := hH.allotted i f (by rw [h.futures]; exact hf)
      have hsize : f.ticket < D.table.slots.size := by simpa [h.table, plain] using hallotted
      simp only [Hall.step, Desk.visit, h.futures, hf, h.polled]
      refine ⟨?_, ?_, h.handles, rfl⟩
      · exact h.table.trans (plain_setWaiting ..).symm
      · rw [h.bells]
        exact (setWaiting_waiting D.table hsize _).symm

theorem after_concat (n : Nat) (visits : List (Visit α)) (v : Visit α) :
    after n (visits ++ [v]) = (after n visits).visit v :=
  List.foldl_append

theorem shows_visited (n : Nat) (visits : List (Visit α)) :
    Shows (after n visits) (Hall.visited waitingList n visits) := by
  induction visits using List.reverseRecOn with
  | nil => exact .opened n
  | append_singleton visits v ih =>
    rw [Hall.visited_concat, after_concat]
    exact ih.visit (.after documented_waitingList n _) (Hall.quiet_visited waitingList n visits).1 v

theorem plain_after (n : Nat) (visits : List (Visit α)) :
    (after n visits).table.plain = SlotTable.after n (visits.filterMap Visit.call?) :=
  (shows_visited n visits).table.symm.trans (Hall.quiet_visited waitingList n visits).2

theorem consistent_after (n : Nat) (visits : List (Visit α)) :
    Consistent (after n visits).table := by
  apply consistent_of_plain
  rw [plain_after]
  exact .after n _

theorem visit_call_table (D : Desk α) (c : Call α) :
    (D.visit (.call c)).table = (D.table.step c).1 := by
  cases c <;> rfl

/-- What is done with futures fills no slot. -/
theorem visit_outcome? (D : Desk α) {v : Visit α} (hv : v.call? = none) (k : Ticket) :
    (D.visit v).table.outcome? k = D.table.outcome? k := by
  cases v with
  | call c => cases hv
  | start handle =>
    rw [visit]
    split <;> rfl
  | poll i waker =>
    rw [visit]
    split
    · rfl
    · exact setWaiting_outcome? D.table _ _ k

/-- A slot is filled once, by a settling call that is answered with yes. -/
theorem outcome?_visit_iff (hD : Consistent D.table) (v : Visit α) (k : Ticket) (x : α) :
    (D.visit v).table.outcome? k = some x ↔ D.table.outcome? k = some x ∨
      ∃ id, v = .call (.settle id x) ∧ D.table.outcome? k = none ∧
        (D.table.settle id x).2 = true ∧ (D.table.settle id x).1.outcome? k = some x := by
  cases v with
  | start | poll =>
    rw [visit_outcome? D rfl]
    simp
  | call c =>
    rw [visit_call_table]
    have hstep := hD.step c
    cases hk : D.table.outcome? k with
    | some y =>
      rw [hstep.outcome?_of_filled hD hk]
      simp
    | none =>
      constructor
      · intro hx
        obtain ⟨id, rfl, hyes⟩ := hstep.settle_of_filled hD hk hx
        exact .inr ⟨id, rfl, rfl, Answer.flag.inj hyes, hx⟩
      · rintro (hx | ⟨id, hv, _, _, hx⟩)
        · cases hx
        · cases hv
          exact hx

/-- The outcome in a slot is that of the settling call that found it empty and was answered with
yes. -/
theorem outcome?_after_iff (n : Nat) (visits : List (Visit α)) (k : Ticket) (x : α) :
    (after n visits).table.outcome? k = some x ↔ ∃ earlier id later,
      visits = earlier ++ .call (.settle id x) :: later ∧
        (after n earlier).table.outcome? k = none ∧
        ((after n earlier).table.settle id x).2 = true ∧
        ((after n earlier).table.settle id x).1.outcome? k = some x := by
  refine exists_split_iff (P := fun visits => (after n visits).table.outcome? k = some x)
    (fun id => .call (.settle id x)) ?_ (fun visits v => ?_) visits
  · simp [after, outcome?, withHistory]
  · rw [after_concat]
    exact outcome?_visit_iff (consistent_after n visits) v k x

/-- What holds at a desk between any two visits, with the visits so far. A future is pending while
its slot is empty and then completes with the first outcome that was accepted for it. The settling
call that is answered with yes wakes all futures that were found pending before, each by the waker
of its last poll; one that is refused wakes nobody and changes nothing. -/
structure WakesInTime (n : Nat) (visits : List (Visit α)) (D : Desk α) : Prop where
  pending : ∀ (i : Nat) (f : SlotFuture), D.futures[i]? = some f →
    D.table.outcome? f.ticket = none → ∀ waker, D.answer? i waker = some .pending
  ready : ∀ (i : Nat) (f : SlotFuture) (x : α), D.futures[i]? = some f →
    D.table.outcome? f.ticket = some x → f.stage ≠ .answered →
    ∀ waker, D.answer? i waker = some (.ready x)
  answered : ∀ (i : Nat) (f : SlotFuture), D.futures[i]? = some f →
    (f.stage = .answered ↔ ∃ earlier waker later, visits = earlier ++ .poll i waker :: later ∧
      ∃ x, (after n earlier).answer? i waker = some (.ready x))
  settled : ∀ (k : Ticket) (x : α), D.table.outcome? k = some x ↔ ∃ earlier id later,
    visits = earlier ++ .call (.settle id x) :: later ∧
      (after n earlier).table.outcome? k = none ∧
      ((after n earlier).table.settle id x).2 = true ∧
      ((after n earlier).table.settle id x).1.outcome? k = some x
  woken : ∀ (v : Visit α) (i : Nat) (f : SlotFuture), D.futures[i]? = some f →
    D.table.outcome? f.ticket = none → (D.visit v).table.outcome? f.ticket ≠ none →
    ∃ id x woken, v = .call (.settle id x) ∧
      D.table.settle id x = ((D.visit v).table, true) ∧
      D.table.record id x = ((D.visit v).table, some woken) ∧
      (D.visit v).table.outcome? f.ticket = some x ∧
      ∀ earlier waker later, visits = earlier ++ .poll i waker :: later →
        (after n earlier).answer? i waker = some .pending →
        ∃ last, Visit.lastWaker? i visits = some last ∧ last ∈ woken
  refused : ∀ (id : UInt32) (x : α), (D.table.settle id x).2 = false →
    D.table.record id x = (D.table, none) ∧ D.visit (.call (.settle id x)) = D

theorem wakesInTime (n : Nat) (visits : List (Visit α)) :
    WakesInTime n visits (after n visits) := by
  have hshows := shows_visited n visits
  have hwakes := Hall.wakesBetweenCalls documented_waitingList n visits
  obtain ⟨hquiet, _⟩ := Hall.quiet_visited waitingList n visits
  refine ⟨fun i f hf hx waker => ?_, fun i f x hf hx hopen waker => ?_, fun i f hf => ?_,
    outcome?_after_iff n visits, fun v i f hf hempty hfilled => ?_, fun id x hrefused => ?_⟩
  · rw [← hshows.futures] at hf
    rw [← hshows.outcome?_eq] at hx
    rw [← hshows.answer?_eq]
    exact hwakes.pending i f hf hx waker
  · rw [← hshows.futures] at hf
    rw [← hshows.outcome?_eq] at hx
    rw [← hshows.answer?_eq]
    exact hwakes.ready i f x hf hx hopen waker
  · rw [← hshows.futures] at hf
    simp only [← (shows_visited n _).answer?_eq]
    exact hwakes.answered i f hf
  · have hnext := hshows.visit (.after documented_waitingList n _) hquiet v
    rw [← hshows.futures] at hf
    rw [← hshows.outcome?_eq] at hempty
    rw [← hnext.outcome?_eq] at hfilled
    obtain ⟨id, x, rfl, hyes, hx, hwoken⟩ := hwakes.woken v i f hf hempty hfilled
    rw [hshows.table, plain_settle] at hyes
    obtain ⟨woken, hrecord⟩ := exists_record_of_accepted hyes
    rw [hnext.outcome?_eq] at hx
    refine ⟨id, x, woken, rfl, Prod.ext rfl hyes, hrecord, hx, ?_⟩
    intro earlier waker later hsplit hpending
    rw [← (shows_visited n earlier).answer?_eq] at hpending
    obtain ⟨last, hlast, hmem⟩ := hwoken earlier waker later hsplit hpending
    rw [(hshows.visit_settle hquiet id x).2.2.2, wakes, hrecord] at hmem
    exact ⟨last, hlast, hmem⟩
  · have htable := Hall.table_of_refused (consistent_after n visits) hrefused
    have hrecord := record_of_refused hrefused
    rw [htable] at hrecord
    exact ⟨hrecord, congrArg (fun table => { after n visits with table }) htable⟩

/-- No wake-up is lost at a desk, whose futures wait on the lists of its table. Nor is one in a hall,
whatever its bells are that do as documented, be its calls made in one go or a move at a time. -/
theorem no_wakeup_is_lost {β : Type} (B : Bell β) (hB : B.Documented) (n : Nat) :
    (∀ visits : List (Visit α), WakesInTime n visits (after n visits)) ∧
      (∀ visits : List (Visit α), Hall.WakesBetweenCalls B n visits (Hall.visited B n visits)) ∧
      ∀ moves : List (HallMove α), Hall.WakesBetweenMoves B n moves (Hall.after B n moves) :=
  ⟨wakesInTime n, Hall.wakesBetweenCalls hB n, Hall.wakesBetweenMoves hB n⟩

/-- Two futures of one slot, of which the first has been polled, and then again with another
waker. -/
def doorbell : List (Visit Nat) :=
  [.call (.await 7), .start ⟨7, 0⟩, .start ⟨7, 0⟩, .poll 0 10, .poll 0 11]

theorem doorbell_wakes_first :
    let D := after 4 doorbell
    let D' := after 4 (doorbell ++ [.call (.settle 7 5)])
    let H := Hall.visited waitingList 4 doorbell
    let moves := doorbell.flatMap Visit.moves ++ [.call (.arrive 7 5), .call (.fill 0)]
    waitingList.Documented ∧ D.answer? 0 12 = some .pending ∧
    (∃ woken, D.table.record 7 5 = (D'.table, some woken) ∧ 11 ∈ woken) ∧
    D'.answer? 0 12 = some (.ready 5) ∧ D'.answer? 1 12 = some (.ready 5) ∧
    D'.table.record 7 6 = (D'.table, none) ∧
    11 ∈ H.wokenBy waitingList (Visit.moves (.call (.settle 7 5))) ∧
    11 ∈ (Hall.after waitingList 4 moves).woken waitingList (.ring 0) := by
  intro D D' H moves
  obtain ⟨hdesk, hcalls, hmoves⟩ :=
    no_wakeup_is_lost (α := Nat) waitingList documented_waitingList 4
  let earlier : List (Visit Nat) := [.call (.await 7), .start ⟨7, 0⟩, .start ⟨7, 0⟩, .poll 0 10]
  have hlast : Visit.lastWaker? 0 doorbell = some 11 := rfl
  have hlast' : HallMove.lastWaker? 0 moves = some 11 := rfl
  refine ⟨documented_waitingList, ?_, ?_, ?_, ?_, ?_, ?_, ?_⟩
  · exact (hdesk doorbell).pending 0 ⟨0, .suspended⟩ (by decide) (by decide) 12
  · obtain ⟨id, x, woken, hv, _, hrecord, _, hwoken⟩ := (hdesk doorbell).woken
      (.call (.settle 7 5)) 0 ⟨0, .suspended⟩ (by decide) (by decide) (by decide)
    cases hv
    obtain ⟨last, heq, hmem⟩ := hwoken earlier 11 [] rfl (by decide)
    rw [hlast] at heq
    cases heq
    exact ⟨woken, hrecord, hmem⟩
  · exact (hdesk _).ready 0 ⟨0, .suspended⟩ 5 (by decide) (by decide) (by decide) 12
  · exact (hdesk _).ready 1 ⟨0, .untouched⟩ 5 (by decide) (by decide) (by decide) 12
  · exact ((hdesk _).refused 7 6 (by decide)).1
  · obtain ⟨_, _, _, _, _, hwoken⟩ := (hcalls doorbell).woken (.call (.settle 7 5)) 0
      ⟨0, .suspended⟩ (by decide) (by decide) (by decide)
    obtain ⟨last, heq, hmem⟩ := hwoken earlier 11 [] rfl (by decide)
    rw [hlast] at heq
    cases heq
    exact hmem
  · obtain ⟨last, heq, hmem⟩ := (hmoves moves).woken 0 ⟨7, 5, 0⟩ (earlier.flatMap Visit.moves)
      [.call (.arrive 7 5), .call (.fill 0)] 0 11 ⟨0, .suspended⟩ (by decide) rfl (by decide)
      (by decide) rfl
    rw [hlast'] at heq
    cases heq
    exact hmem

end Desk

end Remoting
