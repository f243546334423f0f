import Remoting.Proofs.SlotHall

/-!
# Waking the futures of a slot

A future is pending while its slot is empty, and completes with the outcome once the call that
filled the slot has rung. This call wakes all futures that were found pending before, each by the
waker of its last poll, in whatever order the moves come, and calls that are refused wake nobody.
Calls that are made in one go leave no time between filling and ringing.
-/

namespace Remoting

open SlotTable

/-- A call that is made in one go, or what is done with futures. -/
inductive Visit (α : Type) where
  | call (c : Call α)
  | start (handle : Handle)
  | poll (future : Nat) (waker : Waker)
deriving DecidableEq

namespace Visit

variable {α : Type}

/-- The moves of a settling call follow each other; there are no other calls under way. -/
def moves : Visit α → List (HallMove α)
  | .call (.settle id outcome) => [.call (.arrive id outcome), .call (.fill 0), .ring 0]
  | .call (.await id) => [.call (.await id)]
  | .call (.release id) => [.call (.release id)]
  | .call (.read handle) => [.call (.read handle)]
  | .start handle => [.start handle]
  | .poll future waker => [.poll future waker]

def call? : Visit α → Option (Call α)
  | .call c => some c
  | _ => none

/-- The waker that the visit brings to the future. -/
def waker? (i : Nat) : Visit α → Option Waker
  | .poll j waker => if j = i then some waker else none
  | _ => none

/-- The waker that the future was last polled with. -/
def lastWaker? (i : Nat) (visits : List (Visit α)) : Option Waker :=
  visits.reverse.findSome? (waker? i)

theorem lastWaker?_moves (i : Nat) (v : Visit α) : HallMove.lastWaker? i v.moves = v.waker? i := by
  cases v with
  | call c => cases c <;> rfl
  | start => rfl
  | poll j waker =>
    by_cases hj : j = i <;> simp [moves, HallMove.lastWaker?, HallMove.waker?, waker?, hj]

theorem lastWaker?_flatMap_moves (i : Nat) (visits : List (Visit α)) :
    HallMove.lastWaker? i (visits.flatMap moves) = lastWaker? i visits := by
  induction visits using List.reverseRecOn with
  | nil => rfl
  | append_singleton visits v ih =>
    rw [List.flatMap_append, List.flatMap_singleton, HallMove.lastWaker?_append, lastWaker?_moves,
      ih, lastWaker?, lastWaker?, List.reverse_concat, List.findSome?_cons]
    cases v.waker? i <;> rfl

end Visit

namespace Exchange

variable {α : Type} {s : Exchange α}

/-- A settling call in one go fills a slot only if it is answered with yes. -/
theorem settle_of_filler (hs : s.underWay = []) {id : UInt32} {x : α} {c : Settling α}
    (hc : (s.step (.arrive id x)).filler? (.fill 0) = some c) :
    c.outcome = x ∧ (s.table.settle id x).2 = true := by
  cases h : s.table.arrive id x with
  | mk t arrival =>
    cases arrival with
    | planted | refused => simp [step, h, hs, filler?] at hc
    | reached k =>
      simp only [step, h, hs, filler?, List.nil_append, List.getElem?_cons_zero,
        Option.filter_eq_some_iff, Option.some.injEq] at hc
      obtain ⟨rfl, hfills⟩ := hc
      refine ⟨rfl, ?_⟩
      simpa only [settle, record, h] using hfills

end Exchange

namespace Hall

variable {α β : Type} {B : Bell β} {wakers : Nat → Option Waker} {H : Hall α β} {c : Settling α}
  {k : Ticket} {i : Nat} {f : SlotFuture} {place : Nat}

theorem Attended.answer_of_empty (hB : B.Documented) (hH : Attended B wakers H)
    (hf : H.futures[i]? = some f) (hempty : H.outcome? f.ticket = none) (waker : Waker) :
    H.answer? B i waker = some .pending := by
  obtain ⟨calls, more, f', answer, _, hpolls, hanswer, _⟩ := hH.exists_polls hB hf waker
  rw [hanswer]
  cases hpolls with
  | starts | waits | restarts => rfl
  | finds x _ filled | finishes x _ _ filled =>
    rw [hempty] at filled
    cases filled
  | spent answered =>
    have hfilled := hH.answered i f hf answered
    rw [hempty] at hfilled
    cases hfilled

theorem Attended.answer_of_filled (hB : B.Documented) (hH : Attended B wakers H)
    (hf : H.futures[i]? = some f) {x : α} (hx : H.outcome? f.ticket = some x)
    (hopen : f.stage ≠ .answered) (hrung : f.stage = .suspended → H.Rung f.ticket)
    (waker : Waker) : H.answer? B i waker = some (.ready x) := by
  obtain ⟨calls, more, f', answer, hwaits, hpolls, hanswer, _⟩ := hH.exists_polls hB hf waker
  rw [hanswer]
  cases hpolls with
  | starts _ empty | restarts _ _ empty =>
    rw [hx] at empty
    cases empty
  | finds y _ filled | finishes y _ _ filled =>
    rw [hx] at filled
    cases filled
    rfl
  | waits suspended unrung =>
    obtain ⟨_, _, hstill⟩ := hwaits i f hf rfl suspended
    exact absurd (hstill.rung_iff.mpr (hrung suspended)) unrung
  | spent answered => exact absurd answered hopen

theorem Attended.answer_of_unrung (hB : B.Documented) (hH : Attended B wakers H)
    (hf : H.futures[i]? = some f) (hsuspended : f.stage = .suspended)
    (hunrung : ¬ H.Rung f.ticket) (waker : Waker) : H.answer? B i waker = some .pending := by
  obtain ⟨calls, more, f', answer, hwaits, hpolls, hanswer, _⟩ := hH.exists_polls hB hf waker
  obtain ⟨_, _, hstill⟩ := hwaits i f hf rfl hsuspended
  rw [hanswer]
  cases hpolls with
  | starts | waits | restarts => rfl
  | finds _ untouched _ =>
    rw [hsuspended] at untouched
    cases untouched
  | finishes _ _ rung _ => exact absurd (hstill.rung_iff.mp rung) hunrung
  | spent answered =>
    rw [hsuspended] at answered
    cases answered

/-- The future has been polled, and it is not completed before its bell has rung. -/
def Awaits (H : Hall α β) (i : Nat) (k : Ticket) : Prop :=
  ∃ f, H.futures[i]? = some f ∧ f.ticket = k ∧ f.stage ≠ .untouched ∧
    (f.stage = .answered → H.Rung k)

theorem Attended.awaits_of_pending (hB : B.Documented) (hH : Attended B wakers H) {waker : Waker}
    (h : H.answer? B i waker = some .pending) :
    ∃ f, H.futures[i]? = some f ∧ (H.step B (.poll i waker)).Awaits i f.ticket := by
  obtain ⟨f, hf, _⟩ := Option.map_eq_some_iff.mp h
  obtain ⟨calls, more, f', answer, _, hpolls, hanswer, hstep⟩ := hH.exists_polls hB hf waker
  rw [hanswer] at h
  cases h
  have hlength := (List.getElem?_eq_some_iff.mp hf).1
  have hsuspended : f'.stage = .suspended := by
    cases hpolls with
    | starts | restarts => rfl
    | waits suspended _ => exact suspended
  rw [hstep]
  refine ⟨f, hf, f', List.getElem?_set_self hlength, hpolls.ticket_eq, ?_, ?_⟩
  · rw [hsuspended]
    rintro ⟨⟩
  · rw [hsuspended]
    rintro ⟨⟩

theorem Attended.awaits_step (hB : B.Documented) (hH : Attended B wakers H) (m : HallMove α)
    (h : H.Awaits i k) : (H.step B m).Awaits i k := by
  obtain ⟨f, hf, rfl, htouched, hanswered⟩ := h
  cases m with
  | call m =>
    have hrung := hH.rung_call_iff m (hH.allotted i f hf)
    exact ⟨f, hf, rfl, htouched, fun h => hrung.mpr (hanswered h)⟩
  | ring place =>
    cases hplace : H.ringing[place]? with
    | none =>
      rw [step_ring_of_none hplace]
      exact ⟨f, hf, rfl, htouched, hanswered⟩
    | some c =>
      have hrung := hH.rung_ring_iff (k := f.ticket) hplace
      rw [step_ring hplace] at hrung ⊢
      exact ⟨f, hf, rfl, htouched, fun h => hrung.mpr (.inl (hanswered h))⟩
  | start handle =>
    rw [Hall.step]
    split
    · have hlength := (List.getElem?_eq_some_iff.mp hf).1
      exact ⟨f, (List.getElem?_append_left hlength).trans hf, rfl, htouched, hanswered⟩
    · exact ⟨f, hf, rfl, htouched, hanswered⟩
  | poll j waker =>
    cases hg : H.futures[j]? with
    | none =>
      rw [step_poll_of_none hg]
      exact ⟨f, hf, rfl, htouched, hanswered⟩
    | some g =>
      obtain ⟨calls, more, g', answer, hwaits, hpolls, _, hstep⟩ := hH.exists_polls hB hg waker
      rw [hstep]
      by_cases hj : j = i
      · subst hj
        rw [hf] at hg
        cases hg
        have hlength := (List.getElem?_eq_some_iff.mp hf).1
        refine ⟨g', List.getElem?_set_self hlength, hpolls.ticket_eq, ?_⟩
        cases hpolls with
        | starts untouched | finds _ untouched => exact absurd untouched htouched
        | waits | spent => exact ⟨htouched, hanswered⟩
        | restarts => exact ⟨by rintro ⟨⟩, by rintro ⟨⟩⟩
        | finishes _ suspended rung _ =>
          obtain ⟨_, _, hstill⟩ := hwaits j f hf rfl suspended
          exact ⟨by rintro ⟨⟩, fun _ => hstill.rung_iff.mp rung⟩
      · exact ⟨f, (List.getElem?_set_ne hj).trans hf, rfl, htouched, hanswered⟩

theorem Attended.awaits_run (hB : B.Documented) (hH : Attended B wakers H) (moves : List (HallMove α))
    (h : H.Awaits i k) : (moves.foldl (Hall.step B) H).Awaits i k := by
  induction moves generalizing H wakers with
  | nil => exact h
  | cons m moves ih => exact ih (hH.step hB m) (hH.awaits_step hB m h)

/-- Whoever awaits the slot is woken by the waker of its last poll. -/
theorem Attended.mem_woken (hB : B.Documented) (hH : Attended B wakers H)
    (hplace : H.ringing[place]? = some c) (h : H.Awaits i c.ticket) :
    ∃ last, wakers i = some last ∧ last ∈ H.woken B (.ring place) := by
  obtain ⟨f, hf, hticket, htouched, hanswered⟩ := h
  have hunrung : ¬ H.Rung c.ticket := fun hrung =>
    hrung.2 c (List.mem_of_getElem? hplace) rfl
  have hsuspended : f.stage = .suspended := by
    cases hstage : f.stage with
    | untouched => exact absurd hstage htouched
    | suspended => rfl
    | answered => exact absurd (hanswered hstage) hunrung
  obtain ⟨calls, hbell, hwaits⟩ := hH.heard c.ticket
  obtain ⟨last, hlast, hstill⟩ := hwaits i f hf hticket hsuspended
  have hwoken := hB.wakes calls i last hstill.enlisted (mt hstill.rung_iff.mp hunrung) hstill.asked
  rw [← hbell] at hwoken
  refine ⟨last, hlast, ?_⟩
  simpa only [woken, hplace] using hwoken

/-- What holds between any two moves, with the moves so far. A future that was suspended while its
slot was empty hears of the outcome once the call that filled the slot has rung. -/
structure WakesBetweenMoves (B : Bell β) (n : Nat) (moves : List (HallMove α)) (H : Hall α β) :
    Prop where
  pending : ∀ (i : Nat) (f : SlotFuture), H.futures[i]? = some f → H.outcome? f.ticket = none →
    ∀ waker, H.answer? B i waker = some .pending
  settled : ∀ (i : Nat) (f : SlotFuture) (x : α), H.futures[i]? = some f →
    H.outcome? f.ticket = some x →
    (H.exchange.accepted.filter (·.ticket = f.ticket)).map (·.outcome) = [x]
  ready : ∀ (i : Nat) (f : SlotFuture) (x : α), H.futures[i]? = some f →
    H.outcome? f.ticket = some x → f.stage ≠ .answered →
    (f.stage = .suspended → H.Rung f.ticket) → ∀ waker, H.answer? B i waker = some (.ready x)
  unrung : ∀ (i : Nat) (f : SlotFuture), H.futures[i]? = some f → f.stage = .suspended →
    ¬ H.Rung f.ticket → ∀ waker, H.answer? B i waker = some .pending
  answered : ∀ (i : Nat) (f : SlotFuture), H.futures[i]? = some f →
    (f.stage = .answered ↔ ∃ earlier waker later, moves = earlier ++ .poll i waker :: later ∧
      ∃ x, (after B n earlier).answer? B i waker = some (.ready x))
  accepted : ∀ c ∈ H.ringing, c ∈ H.exchange.accepted
  woken : ∀ (place : Nat) (c : Settling α) (earlier later : List (HallMove α)) (i : Nat)
    (waker : Waker) (f : SlotFuture), H.ringing[place]? = some c →
    moves = earlier ++ .poll i waker :: later →
    (after B n earlier).answer? B i waker = some .pending → H.futures[i]? = some f →
    f.ticket = c.ticket →
    ∃ last, HallMove.lastWaker? i moves = some last ∧ last ∈ H.woken B (.ring place)
  aside : ∀ m : Move α, (H.step B (.call m)).futures = H.futures ∧
    (H.step B (.call m)).bells = H.bells ∧ H.woken B (.call m) = []
  refused : ∀ (m : Move α) (c : Settling α),
    (H.step B (.call m)).exchange.answered = H.exchange.answered ++ [(c, false)] →
    (H.step B (.call m)).ringing = H.ringing ∧
      ∀ k, (H.step B (.call m)).outcome? k = H.outcome? k

theorem Attended.refused (hH : Attended B wakers H) {m : Move α}
    (hc : (H.step B (.call m)).exchange.answered = H.exchange.answered ++ [(c, false)]) :
    (H.step B (.call m)).ringing = H.ringing ∧
      ∀ k, (H.step B (.call m)).outcome? k = H.outcome? k := by
  have haccepted : (H.exchange.step m).accepted = H.exchange.accepted :=
    (Exchange.accepted_of_answered hc).trans (List.append_nil _)
  refine ⟨?_, fun k => ?_⟩
  · cases hfiller : H.exchange.filler? m with
    | none => rw [Hall.step, hfiller, Option.toList_none, List.append_nil]
    | some c' =>
      obtain ⟨hempty, _, hc'⟩ := hH.coherent.filler?_eq_some hfiller
      rw [haccepted] at hc'
      have hfilled := hH.coherent.isSome_of_accepted hc'
      rw [hempty] at hfilled
      cases hfilled
  · have hwon := (hH.coherent.step m).won k
    rw [haccepted, hH.coherent.won k] at hwon
    have hhead := congrArg List.head? hwon
    rw [Option.head?_toList, Option.head?_toList] at hhead
    exact hhead.symm

theorem awaits_of_polled (hB : B.Documented) (n : Nat) {earlier later : List (HallMove α)}
    {waker : Waker} (hpending : (after B n earlier).answer? B i waker = some .pending)
    (hf : (after B n (earlier ++ .poll i waker :: later)).futures[i]? = some f) :
    (after B n (earlier ++ .poll i waker :: later)).Awaits i f.ticket := by
  have hearlier := Attended.after hB n earlier
  obtain ⟨g, _, hawaits⟩ := hearlier.awaits_of_pending hB hpending
  have hnow := (hearlier.step hB (.poll i waker)).awaits_run hB later hawaits
  rw [after_append, List.foldl_cons] at hf ⊢
  obtain ⟨f', hf', hticket, _⟩ := id hnow
  rw [hf] at hf'
  cases hf'
  rwa [hticket]

theorem wakesBetweenMoves (hB : B.Documented) (n : Nat) (moves : List (HallMove α)) :
    WakesBetweenMoves B n moves (after B n moves) := by
  have hH := Attended.after hB n moves
  refine ⟨fun i f hf => hH.answer_of_empty hB hf, fun i f x hf hx => ?_,
    fun i f x hf => hH.answer_of_filled hB hf, fun i f hf => hH.answer_of_unrung hB hf,
    fun i f hf => ?_, hH.accepted, ?_, fun m => ⟨rfl, rfl, rfl⟩, fun m c => hH.refused⟩
  · have hwon := hH.coherent.won f.ticket
    rw [← outcome?, hx] at hwon
    exact hwon
  · rw [← SlotFuture.answered_iff hf]
    exact answered_after_iff B n moves i
  · rintro place c earlier later i waker f hplace rfl hpending hf hticket
    have hawaits := awaits_of_polled hB n hpending hf
    rw [hticket] at hawaits
    exact hH.mem_woken hB hplace hawaits

section Visits

variable {v : Visit α}

def visit (B : Bell β) (H : Hall α β) (v : Visit α) : Hall α β :=
  v.moves.foldl (step B) H

/-- All wakers that are woken by some moves. -/
def wokenBy (B : Bell β) : Hall α β → List (HallMove α) → List Waker
  | _, [] => []
  | H, m :: moves => H.woken B m ++ wokenBy B (H.step B m) moves

def visited (B : Bell β) (history : Nat) (visits : List (Visit α)) : Hall α β :=
  after B history (visits.flatMap Visit.moves)

theorem visited_append (B : Bell β) (n : Nat) (visits more : List (Visit α)) :
    visited B n (visits ++ more) =
      (more.flatMap Visit.moves).foldl (step B) (visited B n visits) := by
  rw [visited, List.flatMap_append, after_append, visited]

theorem visited_concat (B : Bell β) (n : Nat) (visits : List (Visit α)) (v : Visit α) :
    visited B n (visits ++ [v]) = (visited B n visits).visit B v := by
  rw [visited_append, List.flatMap_singleton, visit]

theorem answered_visit_iff (B : Bell β) (H : Hall α β) (v : Visit α) (i : Nat) :
    SlotFuture.Answered (H.visit B v).futures i ↔ SlotFuture.Answered H.futures i ∨
      ∃ waker, v = .poll i waker ∧ ∃ x, H.answer? B i waker = some (.ready x) := by
  cases v with
  | call c => cases c <;> simp [visit, Visit.moves, answered_step_iff]
  | start handle => simp [visit, Visit.moves, answered_step_iff]
  | poll j waker => simp [visit, Visit.moves, answered_step_iff]

theorem answered_visited_iff (B : Bell β) (n : Nat) (visits : List (Visit α)) (i : Nat) :
    SlotFuture.Answered (visited B n visits).futures i ↔ ∃ earlier waker later,
      visits = earlier ++ .poll i waker :: later ∧
        ∃ x, (visited B n earlier).answer? B i waker = some (.ready x) := by
  refine exists_split_iff (P := fun visits => SlotFuture.Answered (visited B n visits).futures i)
    (.poll i) ?_ (fun visits v => ?_) visits
  · simp [visited, after, opened, SlotFuture.Answered]
  · rw [visited_concat]
    exact answered_visit_iff B (visited B n visits) v i

/-- The hall of a settling call that has arrived and moved on to its slot, but has not rung. -/
def settling (B : Bell β) (H : Hall α β) (id : UInt32) (x : α) : Hall α β :=
  (H.step B (.call (.arrive id x))).step B (.call (.fill 0))

theorem ringing_settling (hringing : H.ringing = []) (id : UInt32) (x : α) :
    (H.settling B id x).ringing =
      ((H.exchange.step (.arrive id x)).filler? (.fill 0)).toList := by
  simp only [settling, step, hringing]
  rfl

theorem visit_settle (B : Bell β) (H : Hall α β) (id : UInt32) (x : α) :
    H.visit B (.call (.settle id x)) = (H.settling B id x).step B (.ring 0) :=
  rfl

theorem wokenBy_settle (B : Bell β) (H : Hall α β) (id : UInt32) (x : α) :
    H.wokenBy B (Visit.moves (.call (.settle id x))) = (H.settling B id x).woken B (.ring 0) := by
  simp only [Visit.moves, wokenBy, List.append_nil]
  rfl

theorem exchange_step_ring (B : Bell β) (H : Hall α β) (place : Nat) :
    (H.step B (.ring place)).exchange = H.exchange := by
  rw [step]
  split <;> rfl

/-- Between calls that are made in one go nothing is under way. -/
structure Quiet (H : Hall α β) : Prop where
  underWay : H.exchange.underWay = []
  ringing : H.ringing = []

theorem ringing_visit_settle (hringing : H.ringing = []) (id : UInt32) (x : α) :
    (H.visit B (.call (.settle id x))).ringing = [] := by
  have hsettling := H.ringing_settling (B := B) hringing id x
  rw [visit_settle, step]
  cases hfiller : (H.exchange.step (.arrive id x)).filler? (.fill 0) with
  | none =>
    rw [hfiller, Option.toList_none] at hsettling
    simp only [hsettling, List.getElem?_nil]
  | some c =>
    rw [hfiller, Option.toList_some] at hsettling
    simp only [hsettling, List.getElem?_cons_zero, List.eraseIdx_cons_zero]

theorem Quiet.visit (h : H.Quiet) (v : Visit α) : (H.visit B v).Quiet ∧
    (H.visit B v).exchange.table =
      v.call?.elim H.exchange.table fun c => (H.exchange.table.step c).1 := by
  have hringing (m : Move α) (hm : H.exchange.filler? m = none) :
      (H.step B (.call m)).ringing = [] := by
    rw [step, hm, h.ringing]
    rfl
  cases v with
  | call c =>
    cases c with
    | settle id x =>
      obtain ⟨htable, hunderWay, _⟩ := H.exchange.settle_eq_arrive_fill id x
      rw [h.underWay] at htable hunderWay
      have hexchange := exchange_step_ring B (H.settling B id x) 0
      refine ⟨⟨?_, ringing_visit_settle h.ringing id x⟩, ?_⟩
      · rw [visit_settle, hexchange]
        exact hunderWay
      · rw [visit_settle, hexchange]
        exact htable
    | await id => exact ⟨⟨h.underWay, hringing _ rfl⟩, rfl⟩
    | release id => exact ⟨⟨h.underWay, hringing _ rfl⟩, rfl⟩
    | read handle => exact ⟨⟨h.underWay, hringing _ rfl⟩, rfl⟩
  | start handle =>
    change (H.step B (.start handle)).Quiet ∧ (H.step B (.start handle)).exchange.table = _
    rw [step]
    split
    · exact ⟨⟨h.underWay, h.ringing⟩, rfl⟩
    · exact ⟨h, rfl⟩
  | poll i waker =>
    change (H.step B (.poll i waker)).Quiet ∧ (H.step B (.poll i waker)).exchange.table = _
    rw [step]
    split
    · exact ⟨h, rfl⟩
    · exact ⟨⟨h.underWay, h.ringing⟩, rfl⟩

theorem quiet_visited (B : Bell β) (n : Nat) (visits : List (Visit α)) :
    (visited B n visits).Quiet ∧
      (visited B n visits).exchange.table = SlotTable.after n (visits.filterMap Visit.call?) := by
  induction visits using List.reverseRecOn with
  | nil => exact ⟨⟨rfl, rfl⟩, rfl⟩
  | append_singleton visits v ih =>
    obtain ⟨hquiet, htable⟩ := ih
    obtain ⟨hquiet', htable'⟩ := hquiet.visit (B := B) v
    rw [visited_concat]
    refine ⟨hquiet', htable'.trans ?_⟩
    rw [List.filterMap_append, SlotTable.after_append, htable]
    cases v <;> rfl

/-- A slot is filled by a settling call only, which is then answered with yes. -/
theorem exists_settle_of_filled (hH : Attended B wakers H) (hquiet : H.Quiet)
    (hk : k < H.exchange.table.slots.size) (hempty : H.outcome? k = none)
    (hfilled : (H.visit B v).outcome? k ≠ none) :
    ∃ id x c, v = .call (.settle id x) ∧ (H.exchange.table.settle id x).2 = true ∧
      (H.visit B v).outcome? k = some x ∧ c.ticket = k ∧
      (H.settling B id x).ringing[0]? = some c := by
  have hsame (m : Move α) (hm : H.exchange.filler? m = none) :
      (H.exchange.step m).table.outcome? k = none := by
    rw [(Exchange.advance hH.coherent.sound m).outcome?_of_unfilled hH.coherent hk
      (by rw [hm]; nofun)]
    exact hempty
  cases v with
  | start | poll =>
    rw [outcome?, (hquiet.visit _).2] at hfilled
    exact absurd hempty hfilled
  | call c =>
    cases c with
    | await | release | read => exact absurd (hsame _ rfl) hfilled
    | settle id x =>
      have harrived := hH.coherent.step (.arrive id x)
      have hlater := (Exchange.advance hH.coherent.sound (.arrive id x)).later hH.coherent.sound
      obtain ⟨c, hfiller, hck⟩ :
          ∃ c, (H.exchange.step (.arrive id x)).filler? (.fill 0) = some c ∧ c.ticket = k := by
        by_contra hnone
        push Not at hnone
        have hunfilled := (Exchange.advance harrived.sound (.fill 0)).outcome?_of_unfilled harrived
          (Nat.lt_of_lt_of_le hk hlater.size_le) hnone
        rw [visit_settle, outcome?, exchange_step_ring] at hfilled
        exact hfilled (hunfilled.trans (hsame _ rfl))
      obtain ⟨hx, hyes⟩ := Exchange.settle_of_filler hquiet.underWay hfiller
      refine ⟨id, x, c, rfl, hyes, ?_, hck, ?_⟩
      · rw [visit_settle, outcome?, exchange_step_ring, ← hck]
        exact (harrived.filler?_eq_some hfiller).2.1.trans (congrArg some hx)
      · rw [ringing_settling hquiet.ringing, hfiller]
        rfl

theorem table_of_refused {t : SlotTable α} (ht : Consistent t) {id : UInt32} {x : α}
    (hrefused : (t.settle id x).2 = false) : (t.settle id x).1 = t := by
  have hstep := ht.settle_step id x
  rw [hrefused] at hstep
  generalize (t.settle id x).1 = t' at hstep ⊢
  cases hstep with
  | late _ _ => rfl

theorem visit_of_refused (hquiet : H.Quiet) (htable : Consistent H.exchange.table) {id : UInt32}
    {x : α} (hrefused : (H.exchange.table.settle id x).2 = false) :
    (H.visit B (.call (.settle id x))).futures = H.futures ∧
      (H.visit B (.call (.settle id x))).bells = H.bells ∧
      (H.visit B (.call (.settle id x))).exchange.table = H.exchange.table ∧
      H.wokenBy B (Visit.moves (.call (.settle id x))) = [] := by
  have hringing : (H.settling B id x).ringing = [] := by
    rw [ringing_settling hquiet.ringing]
    cases hfiller : (H.exchange.step (.arrive id x)).filler? (.fill 0) with
    | none => rfl
    | some c =>
      have hyes := (Exchange.settle_of_filler hquiet.underWay hfiller).2
      rw [hrefused] at hyes
      cases hyes
  have hstep : H.visit B (.call (.settle id x)) = H.settling B id x := by
    rw [visit_settle, step]
    simp only [hringing, List.getElem?_nil]
  have hsettled := (hquiet.visit (B := B) (.call (.settle id x))).2.trans
    (table_of_refused htable hrefused)
  refine ⟨by rw [hstep]; rfl, by rw [hstep]; rfl, hsettled, ?_⟩
  rw [wokenBy_settle, woken, hringing]
  rfl

end Visits

/-- What holds between any two calls that are made in one go, with the visits so far. -/
structure WakesBetweenCalls (B : Bell β) (n : Nat) (visits : List (Visit α)) (H : Hall α β) :
    Prop where
  table : H.exchange.table = SlotTable.after n (visits.filterMap Visit.call?)
  pending : ∀ (i : Nat) (f : SlotFuture), H.futures[i]? = some f → H.outcome? f.ticket = none →
    ∀ waker, H.answer? B i waker = some .pending
  settled : ∀ (i : Nat) (f : SlotFuture) (x : α), H.futures[i]? = some f →
    H.outcome? f.ticket = some x →
    (H.exchange.accepted.filter (·.ticket = f.ticket)).map (·.outcome) = [x]
  ready : ∀ (i : Nat) (f : SlotFuture) (x : α), H.futures[i]? = some f →
    H.outcome? f.ticket = some x → f.stage ≠ .answered →
    ∀ waker, H.answer? B i waker = some (.ready x)
  answered : ∀ (i : Nat) (f : SlotFuture), H.futures[i]? = some f →
    (f.stage = .answered ↔ ∃ earlier waker later, visits = earlier ++ .poll i waker :: later ∧
      ∃ x, (visited B n earlier).answer? B i waker = some (.ready x))
  woken : ∀ (v : Visit α) (i : Nat) (f : SlotFuture), H.futures[i]? = some f →
    H.outcome? f.ticket = none → (H.visit B v).outcome? f.ticket ≠ none →
    ∃ id x, v = .call (.settle id x) ∧ (H.exchange.table.settle id x).2 = true ∧
      (H.visit B v).outcome? f.ticket = some x ∧
      ∀ earlier waker later, visits = earlier ++ .poll i waker :: later →
        (visited B n earlier).answer? B i waker = some .pending →
        ∃ last, Visit.lastWaker? i visits = some last ∧ last ∈ H.wokenBy B v.moves
  refused : ∀ (id : UInt32) (x : α), (H.exchange.table.settle id x).2 = false →
    (H.visit B (.call (.settle id x))).futures = H.futures ∧
      (H.visit B (.call (.settle id x))).bells = H.bells ∧
      (H.visit B (.call (.settle id x))).exchange.table = H.exchange.table ∧
      H.wokenBy B (Visit.moves (.call (.settle id x))) = []

theorem wakesBetweenCalls (hB : B.Documented) (n : Nat) (visits : List (Visit α)) :
    WakesBetweenCalls B n visits (visited B n visits) := by
  have hH : Attended B _ (visited B n visits) := Attended.after hB n _
  have hmoves := wakesBetweenMoves hB n (visits.flatMap Visit.moves)
  obtain ⟨hquiet, htable⟩ := quiet_visited B n visits
  refine ⟨htable, hmoves.pending, hmoves.settled, fun i f x hf hx hopen => ?_, fun i f hf => ?_,
    fun v i f hf hempty hfilled => ?_, fun id x => ?_⟩
  · have hrung : (visited B n visits).Rung f.ticket := by
      rw [Rung, hx, hquiet.ringing]
      exact ⟨rfl, List.forall_mem_nil _⟩
    exact hmoves.ready i f x hf hx hopen fun _ => hrung
  · rw [← SlotFuture.answered_iff hf]
    exact answered_visited_iff B n visits i
  · obtain ⟨id, x, c, rfl, hyes, hx, hck, hring⟩ :=
      exists_settle_of_filled hH hquiet (hH.allotted i f hf) hempty hfilled
    refine ⟨id, x, rfl, hyes, hx, fun earlier waker later hsplit hpending => ?_⟩
    -- the moves of the call before it rings bring no waker
    let arriving : List (HallMove α) := [.call (.arrive id x), .call (.fill 0)]
    have hsettling : (visited B n visits).settling B id x =
        after B n (visits.flatMap Visit.moves ++ arriving) := by
      rw [after_append]
      rfl
    have hlast : HallMove.lastWaker? i (visits.flatMap Visit.moves ++ arriving) =
        Visit.lastWaker? i visits := by
      rw [HallMove.lastWaker?_append, Visit.lastWaker?_flatMap_moves]
      rfl
    have hall : visits.flatMap Visit.moves ++ arriving = earlier.flatMap Visit.moves ++
        .poll i waker :: (later.flatMap Visit.moves ++ arriving) := by
      rw [hsplit, List.flatMap_append, List.flatMap_cons, List.append_assoc]
      rfl
    have hf' : ((visited B n visits).settling B id x).futures[i]? = some f := hf
    rw [wokenBy_settle, ← hlast]
    rw [hsettling] at hring hf' ⊢
    exact (wakesBetweenMoves hB n _).woken 0 c _ _ i waker f hring hall hpending hf' hck.symm
  · have hconsistent : Consistent (visited B n visits).exchange.table := by
      rw [htable]
      exact Consistent.after n _
    exact visit_of_refused hquiet hconsistent

end Hall

end Remoting
