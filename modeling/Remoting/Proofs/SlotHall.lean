import Mathlib.Data.List.Nodup
import Mathlib.Logic.Function.Basic
import Remoting.Proofs.FuturePolling
import Remoting.Proofs.SlotInterleavings

/-!
# Futures between the moves of calls

Next to each slot of an exchange hangs a bell. A settling call that has filled its slot makes one
more move, by which it rings the bell; futures may be created and polled between any two moves. A
hall is an exchange with the bells, the futures, and the calls that have yet to ring. In every hall
that moves lead to, the bells of suspended futures have heard of the ring exactly if the call that
filled the slot is through, and hold the wakers that these futures were last polled with.
-/

namespace Remoting

open SlotTable
open BellCall (Waits)

namespace Exchange

variable {α : Type} {s s' : Exchange α} {m : Move α} {c : Settling α} {k : Ticket}

/-- The settling call that fills its slot by the move, if there is one. -/
def filler? (s : Exchange α) : Move α → Option (Settling α)
  | .fill place => s.underWay[place]?.filter fun c => (s.table.fill c.ticket c.outcome).2.isSome
  | _ => none

theorem mem_accepted : c ∈ s.accepted ↔ (c, true) ∈ s.answered := by
  simp [accepted]

theorem Advance.accepted_subset (h : Advance s m s') : s.accepted ⊆ s'.accepted := by
  have hanswered : s.answered ⊆ s'.answered := by
    cases h with
    | plantFilled | refused | fill => exact List.subset_append_left _ _
    | takeWaiting | rejoin | idle | await | release | read => exact List.Subset.refl _
  exact fun c hc => mem_accepted.mpr (hanswered (mem_accepted.mp hc))

/-- Only the call that fills a slot changes it. -/
theorem Advance.outcome?_of_unfilled (hs : Coherent s) (h : Advance s m s')
    (hk : k < s.table.slots.size) (hother : ∀ c, s.filler? m = some c → c.ticket ≠ k) :
    s'.table.outcome? k = s.table.outcome? k := by
  cases h with
  | plantFilled hid => rw [enter_outcome?, if_neg (Nat.ne_of_lt hk)]
  | takeWaiting hlive => exact takeOut_outcome? ..
  | @fill place c hplace =>
    have hc := hs.holds c (mem_settlings.mpr (.inl (List.mem_of_getElem? hplace)))
    rw [fill_outcome? _ hc.allotted]
    split
    · rename_i heq
      subst heq
      cases hx : s.table.outcome? c.ticket with
      | some x => rfl
      | none =>
        have hfiller : s.filler? (.fill place) = some c := by
          simp [filler?, hplace, Option.filter_some, fill_answer _ hc.allotted, hx]
        exact absurd rfl (hother c hfiller)
    · rfl
  | await hstep => exact await_outcome? hstep
  | refused | rejoin | idle | release | read => rfl

/-- The slots of all handles are there. -/
def Known (s : Exchange α) : Prop :=
  ∀ h ∈ s.handles, h.ticket < s.table.slots.size

theorem Advance.known (hs : Coherent s) (h : Advance s m s') (hknown : s.Known) : s'.Known := by
  have hsize := (h.later hs.sound).size_le
  have hold : ∀ handle ∈ s.handles, handle.ticket < s'.table.slots.size :=
    fun handle hhandle => Nat.lt_of_lt_of_le (hknown handle hhandle) hsize
  cases h with
  | @await id handle t hstep =>
    intro other hother
    rcases List.mem_append.mp hother with hbefore | hlast
    · exact hold other hbefore
    · cases List.mem_singleton.mp hlast
      cases hstep with
      | plantEmpty hid => exact Nat.lt_of_lt_of_eq (Nat.lt_succ_self _) (enter_size ..).symm
      | fetchSettled hlive =>
        exact Nat.lt_of_lt_of_le (hs.sound.lt_size_of_live hlive) hsize
      | found hid _ => exact hs.sound.allotted hid
  | plantFilled | refused | takeWaiting | rejoin | fill | idle | release | read => exact hold

namespace Coherent

theorem step (hs : Coherent s) (m : Move α) : Coherent (s.step m) :=
  hs.advance (Exchange.advance hs.sound m)

theorem isSome_of_accepted (hs : Coherent s) (hc : c ∈ s.accepted) :
    (s.table.outcome? c.ticket).isSome :=
  hs.filled _ (mem_accepted.mp hc)

theorem filler?_eq_some (hs : Coherent s) (h : s.filler? m = some c) :
    s.table.outcome? c.ticket = none ∧ (s.step m).table.outcome? c.ticket = some c.outcome ∧
      c ∈ (s.step m).accepted := by
  cases m with
  | arrive | await | release | read => cases h
  | fill place =>
    obtain ⟨hplace, hfills⟩ := Option.filter_eq_some_iff.mp h
    have hc := hs.holds c (mem_settlings.mpr (.inl (List.mem_of_getElem? hplace)))
    rw [fill_answer _ hc.allotted, Option.isNone_iff_eq_none] at hfills
    have hfill := fill_of_empty c.outcome hc.allotted hfills
    refine ⟨hfills, ?_, ?_⟩
    · simp only [Exchange.step, hplace, hfill.2, if_pos]
    · refine mem_accepted.mpr ?_
      simp only [Exchange.step, hplace, hfill.1]
      exact List.mem_append_right _ List.mem_cons_self

end Coherent

end Exchange

/-- What only steps of one form bring about, and no step undoes, goes back to such a step. -/
theorem exists_split_iff {ε γ : Type} {P : List ε → Prop} {Q : List ε → γ → Prop} (form : γ → ε)
    (hnil : ¬ P []) (hstep : ∀ run e, P (run ++ [e]) ↔ P run ∨ ∃ c, e = form c ∧ Q run c)
    (run : List ε) : P run ↔ ∃ earlier c later, run = earlier ++ form c :: later ∧ Q earlier c := by
  induction run using List.reverseRecOn with
  | nil => simp [hnil]
  | append_singleton run e ih =>
    rw [hstep, ih]
    constructor
    · rintro (⟨earlier, c, later, rfl, h⟩ | ⟨c, rfl, h⟩)
      · exact ⟨earlier, c, later ++ [e], by simp, h⟩
      · exact ⟨run, c, [], rfl, h⟩
    · rintro ⟨earlier, c, later, hsplit, h⟩
      rcases List.eq_nil_or_concat later with rfl | ⟨later, last, rfl⟩
      · obtain ⟨rfl, hlast⟩ := List.append_inj' hsplit rfl
        exact .inr ⟨c, (List.singleton_inj.mp hlast), h⟩
      · have hsplit' : run ++ [e] = (earlier ++ form c :: later) ++ [last] := by
          simpa using hsplit
        obtain ⟨rfl, _⟩ := List.append_inj' hsplit' rfl
        exact .inl ⟨earlier, c, later, rfl, h⟩

namespace SlotFuture

variable {futures : List SlotFuture} {f : SlotFuture} {i j : Nat}

/-- The future with the given number has been answered. -/
def Answered (futures : List SlotFuture) (i : Nat) : Prop :=
  ∃ f, futures[i]? = some f ∧ f.stage = .answered

theorem answered_iff (hf : futures[i]? = some f) : Answered futures i ↔ f.stage = .answered := by
  simp [Answered, hf]

theorem answered_append (futures : List SlotFuture) (ticket : Ticket) (i : Nat) :
    Answered (futures ++ [{ ticket := ticket }]) i ↔ Answered futures i := by
  rcases Nat.lt_trichotomy i futures.length with hi | rfl | hi
  · rw [Answered, List.getElem?_append_left hi, Answered]
  · simp [Answered]
  · have hlength (f : SlotFuture) : (futures ++ [f]).length ≤ i := by
      rw [List.length_append]
      exact hi
    have hshort := Nat.le_of_lt hi
    rw [Answered, List.getElem?_eq_none (hlength _), Answered, List.getElem?_eq_none hshort]

theorem getElem?_set_cases {f' g : SlotFuture} (hf : futures[i]? = some f)
    (hg : (futures.set i f')[j]? = some g) : j = i ∧ g = f' ∨ j ≠ i ∧ futures[j]? = some g := by
  obtain ⟨hlength, _⟩ := List.getElem?_eq_some_iff.mp hf
  by_cases hj : j = i
  · subst hj
    rw [List.getElem?_set_self hlength] at hg
    cases hg
    exact .inl ⟨rfl, rfl⟩
  · rw [List.getElem?_set_ne (Ne.symm hj)] at hg
    exact .inr ⟨hj, hg⟩

theorem answered_set (hf : futures[j]? = some f) (f' : SlotFuture) :
    Answered (futures.set j f') i ↔ if j = i then f'.stage = .answered else Answered futures i := by
  obtain ⟨hlength, _⟩ := List.getElem?_eq_some_iff.mp hf
  split
  · rename_i heq
    subst heq
    exact answered_iff (List.getElem?_set_self hlength)
  · rename_i hne
    rw [Answered, List.getElem?_set_ne hne, Answered]

end SlotFuture

/-- One indivisible step: a move of a call at the table, a ring by the call that is in the given
place among those that have yet to ring, or what is done with futures. -/
inductive HallMove (α : Type) where
  | call (m : Move α)
  | ring (place : Nat)
  | start (handle : Handle)
  | poll (future : Nat) (waker : Waker)
deriving DecidableEq

namespace HallMove

variable {α : Type}

/-- The waker that the move brings to the future. -/
def waker? (i : Nat) : HallMove α → Option Waker
  | .poll j waker => if j = i then some waker else none
  | _ => none

/-- The waker that the future was last polled with. -/
def lastWaker? (i : Nat) (moves : List (HallMove α)) : Option Waker :=
  moves.reverse.findSome? (waker? i)

theorem lastWaker?_append (i : Nat) (moves more : List (HallMove α)) :
    lastWaker? i (moves ++ more) = (lastWaker? i more).or (lastWaker? i moves) := by
  rw [lastWaker?, List.reverse_append, List.findSome?_append, lastWaker?, lastWaker?]

end HallMove

/-- An exchange with the calls that have filled their slots and have yet to ring, the bells of all
slots, and the futures by their numbers. -/
structure Hall (α β : Type) where
  exchange : Exchange α
  ringing : List (Settling α) := []
  bells : Ticket → β
  futures : List SlotFuture := []

namespace Hall

variable {α β : Type} {B : Bell β} {wakers : Nat → Option Waker} {H : Hall α β} {c : Settling α}
  {k : Ticket} {i : Nat} {waker : Waker} {f : SlotFuture} {place : Nat}

def outcome? (H : Hall α β) (k : Ticket) : Option α :=
  H.exchange.table.outcome? k

/-- A poll of the future with the given number. -/
def polled (B : Bell β) (H : Hall α β) (i : Nat) (waker : Waker) (f : SlotFuture) :
    β × SlotFuture × Poll α :=
  f.poll B i waker (H.bells f.ticket) (H.outcome? f.ticket)

def step (B : Bell β) (H : Hall α β) : HallMove α → Hall α β
  | .call m =>
    { H with
      exchange := H.exchange.step m
      ringing := H.ringing ++ (H.exchange.filler? m).toList }
  | .ring place =>
    match H.ringing[place]? with
    | none => H
    | some c =>
      { H with
        ringing := H.ringing.eraseIdx place
        bells := Function.update H.bells c.ticket (B.ring (H.bells c.ticket)).1 }
  | .start handle =>
    if handle ∈ H.exchange.handles then
      { H with futures := H.futures ++ [{ ticket := handle.ticket }] }
    else H
  | .poll i waker =>
    match H.futures[i]? with
    | none => H
    | some f =>
      let (bell, f', _) := H.polled B i waker f
      { H with
        bells := Function.update H.bells f.ticket bell
        futures := H.futures.set i f' }

/-- The wakers that are woken by a move. -/
def woken (B : Bell β) (H : Hall α β) : HallMove α → List Waker
  | .ring place =>
    match H.ringing[place]? with
    | none => []
    | some c => (B.ring (H.bells c.ticket)).2
  | _ => []

/-- What a future would answer to a poll. -/
def answer? (B : Bell β) (H : Hall α β) (i : Nat) (waker : Waker) : Option (Poll α) :=
  H.futures[i]?.map fun f => (H.polled B i waker f).2.2

def opened (B : Bell β) (history : Nat) : Hall α β :=
  { exchange := .opened history, bells := fun _ => B.silent }

def after (B : Bell β) (history : Nat) (moves : List (HallMove α)) : Hall α β :=
  moves.foldl (step B) (opened B history)

theorem after_append (B : Bell β) (n : Nat) (moves more : List (HallMove α)) :
    after B n (moves ++ more) = more.foldl (step B) (after B n moves) :=
  List.foldl_append

/-- A future is answered by a poll that finds the outcome, and stays so. -/
theorem answered_step_iff (B : Bell β) (H : Hall α β) (m : HallMove α) (i : Nat) :
    SlotFuture.Answered (H.step B m).futures i ↔ SlotFuture.Answered H.futures i ∨
      ∃ waker, m = .poll i waker ∧ ∃ x, H.answer? B i waker = some (.ready x) := by
  cases m with
  | call m => simp [step]
  | ring place =>
    rw [step]
    split <;> simp
  | start handle =>
    rw [step]
    split
    · simp [SlotFuture.answered_append]
    · simp
  | poll j waker =>
    have hready : (∃ last, (HallMove.poll j waker : HallMove α) = .poll i last ∧
        ∃ x, H.answer? B i last = some (.ready x)) ↔
        j = i ∧ ∃ x, H.answer? B j waker = some (.ready x) := by
      constructor
      · rintro ⟨_, ⟨⟩, hx⟩
        exact ⟨rfl, hx⟩
      · rintro ⟨rfl, hx⟩
        exact ⟨waker, rfl, hx⟩
    rw [hready]
    cases hf : H.futures[j]? with
    | none => simp [step, answer?, hf]
    | some f =>
      have hpolled := f.poll_answered_iff B j waker (H.bells f.ticket) (H.outcome? f.ticket)
      simp only [step, hf, SlotFuture.answered_set hf]
      split
      · rename_i heq
        subst heq
        simpa [SlotFuture.answered_iff hf, answer?, hf, polled] using hpolled
      · rename_i hne
        simp [hne]

theorem answered_after_iff (B : Bell β) (n : Nat) (moves : List (HallMove α)) (i : Nat) :
    SlotFuture.Answered (after B n moves).futures i ↔ ∃ earlier waker later,
      moves = earlier ++ .poll i waker :: later ∧
        ∃ x, (after B n earlier).answer? B i waker = some (.ready x) := by
  refine exists_split_iff (P := fun moves => SlotFuture.Answered (after B n moves).futures i)
    (.poll i) ?_ (fun moves m => ?_) moves
  · simp [after, opened, SlotFuture.Answered]
  · rw [after_append]
    exact answered_step_iff B (after B n moves) m i

/-- The slot is filled, and the call that filled it has rung. -/
def Rung (H : Hall α β) (k : Ticket) : Prop :=
  (H.outcome? k).isSome ∧ ∀ c ∈ H.ringing, c.ticket ≠ k

/-- The calls that have yet to ring have filled their slots, one each; only an outcome completes a
future; and for a future that is suspended, its bell holds the waker of its last poll, and has rung
since it enlisted exactly if the call that filled its slot is through. -/
structure Attended (B : Bell β) (wakers : Nat → Option Waker) (H : Hall α β) : Prop where
  coherent : H.exchange.Coherent
  known : H.exchange.Known
  accepted : ∀ c ∈ H.ringing, c ∈ H.exchange.accepted
  apart : (H.ringing.map (·.ticket)).Nodup
  allotted : ∀ (i : Nat) (f : SlotFuture), H.futures[i]? = some f →
    f.ticket < H.exchange.table.slots.size
  answered : ∀ (i : Nat) (f : SlotFuture), H.futures[i]? = some f → f.stage = .answered →
    (H.outcome? f.ticket).isSome
  heard : ∀ k : Ticket, ∃ calls, H.bells k = B.run calls ∧
    ∀ (i : Nat) (f : SlotFuture), H.futures[i]? = some f → f.ticket = k →
      f.stage = .suspended → ∃ last, wakers i = some last ∧ Waits calls i last (H.Rung k)

theorem Attended.opened (B : Bell β) (n : Nat) :
    Attended B wakers (opened B n : Hall α β) where
  coherent := .opened n
  known := nofun
  accepted := nofun
  apart := List.nodup_nil
  allotted := nofun
  answered := nofun
  heard _ := ⟨[], rfl, nofun⟩

theorem Attended.rung_call_iff (hH : Attended B wakers H) (m : Move α)
    (hk : k < H.exchange.table.slots.size) : (H.step B (.call m)).Rung k ↔ H.Rung k := by
  cases hfiller : H.exchange.filler? m with
  | none =>
    have houtcome : (H.step B (.call m)).outcome? k = H.outcome? k :=
      (Exchange.advance hH.coherent.sound m).outcome?_of_unfilled hH.coherent hk
        (by rw [hfiller]; nofun)
    rw [Rung, houtcome, step, hfiller, Option.toList_none, List.append_nil, Rung]
  | some c =>
    obtain ⟨hempty, _, _⟩ := hH.coherent.filler?_eq_some hfiller
    by_cases hck : c.ticket = k
    · subst hck
      refine iff_of_false (fun h => ?_) fun h => ?_
      · refine h.2 c ?_ rfl
        rw [step, hfiller]
        exact List.mem_append_right _ List.mem_cons_self
      · have hfilled := h.1
        rw [outcome?, hempty] at hfilled
        cases hfilled
    · have houtcome : (H.step B (.call m)).outcome? k = H.outcome? k :=
        (Exchange.advance hH.coherent.sound m).outcome?_of_unfilled hH.coherent hk
          (by rw [hfiller]; rintro _ ⟨⟩; exact hck)
      have hringing : (∀ c' ∈ (H.step B (.call m)).ringing, c'.ticket ≠ k) ↔
          ∀ c' ∈ H.ringing, c'.ticket ≠ k := by
        rw [step, hfiller, Option.toList_some, List.forall_mem_append]
        exact and_iff_left (List.forall_mem_singleton.mpr hck)
      rw [Rung, houtcome, hringing, Rung]

theorem Attended.call (hH : Attended B wakers H) (m : Move α) :
    Attended B wakers (H.step B (.call m)) := by
  have hadvance := Exchange.advance hH.coherent.sound m
  have hsize := (hadvance.later hH.coherent.sound).size_le
  refine ⟨hH.coherent.step m, hadvance.known hH.coherent hH.known, ?_, ?_, ?_, ?_, ?_⟩
  · intro c hc
    rcases List.mem_append.mp hc with hbefore | hlast
    · exact hadvance.accepted_subset (hH.accepted c hbefore)
    · exact (hH.coherent.filler?_eq_some (Option.mem_toList.mp hlast)).2.2
  · rw [step, List.map_append]
    refine List.Nodup.append hH.apart ?_ fun k hbefore hlast => ?_
    · cases H.exchange.filler? m with
      | none => exact List.nodup_nil
      | some c => exact List.nodup_singleton _
    · obtain ⟨c, hc, rfl⟩ := List.mem_map.mp hbefore
      obtain ⟨c', hc', heq⟩ := List.mem_map.mp hlast
      have hempty := (hH.coherent.filler?_eq_some (Option.mem_toList.mp hc')).1
      have hfilled := hH.coherent.isSome_of_accepted (hH.accepted c hc)
      rw [← heq, hempty] at hfilled
      cases hfilled
  · exact fun i f hf => Nat.lt_of_lt_of_le (hH.allotted i f hf) hsize
  · intro i f hf hanswered
    obtain ⟨x, hx⟩ := Option.isSome_iff_exists.mp (hH.answered i f hf hanswered)
    exact Option.isSome_iff_exists.mpr ⟨x, hadvance.outcome?_mono hH.coherent hx⟩
  · intro k
    obtain ⟨calls, hbell, hwaits⟩ := hH.heard k
    refine ⟨calls, hbell, fun i f hf hk hsuspended => ?_⟩
    have hlt := hH.allotted i f hf
    rw [hk] at hlt
    rw [propext (hH.rung_call_iff m hlt)]
    exact hwaits i f hf hk hsuspended

theorem step_ring_of_none (hplace : H.ringing[place]? = none) : H.step B (.ring place) = H := by
  simp only [step, hplace]

theorem step_poll_of_none (hi : H.futures[i]? = none) : H.step B (.poll i waker) = H := by
  simp only [step, hi]

theorem step_ring (hplace : H.ringing[place]? = some c) :
    H.step B (.ring place) = { H with
      ringing := H.ringing.eraseIdx place
      bells := Function.update H.bells c.ticket (B.ring (H.bells c.ticket)).1 } := by
  simp only [step, hplace]

theorem Attended.rung_ring_iff (hH : Attended B wakers H) (hplace : H.ringing[place]? = some c) :
    (H.step B (.ring place)).Rung k ↔ H.Rung k ∨ k = c.ticket := by
  have hc := hH.accepted c (List.mem_of_getElem? hplace)
  rw [step_ring hplace]
  constructor
  · rintro ⟨hfilled, hothers⟩
    by_cases hk : k = c.ticket
    · exact .inr hk
    · refine .inl ⟨hfilled, fun c' hc' heq => ?_⟩
      obtain ⟨j, hj⟩ := List.mem_iff_getElem?.mp hc'
      have hne : j ≠ place := by
        rintro rfl
        rw [hplace] at hj
        cases hj
        exact hk heq.symm
      exact hothers c' (List.mem_eraseIdx_iff_getElem?.mpr ⟨j, hne, hj⟩) heq
  · rintro (⟨hfilled, hothers⟩ | rfl)
    · exact ⟨hfilled, fun c' hc' => hothers c' (List.mem_of_mem_eraseIdx hc')⟩
    · refine ⟨hH.coherent.isSome_of_accepted hc, fun c' hc' heq => ?_⟩
      obtain ⟨j, hne, hj⟩ := List.mem_eraseIdx_iff_getElem?.mp hc'
      have hj' : (H.ringing.map (·.ticket))[j]? = some c.ticket := by
        rw [List.getElem?_map, hj, Option.map_some, heq]
      have hplace' : (H.ringing.map (·.ticket))[place]? = some c.ticket := by
        rw [List.getElem?_map, hplace, Option.map_some]
      obtain ⟨hlength, _⟩ := List.getElem?_eq_some_iff.mp hj'
      exact hne ((List.getElem?_inj hlength hH.apart).mp (hj'.trans hplace'.symm))

theorem Attended.ring (hH : Attended B wakers H) (place : Nat) :
    Attended B wakers (H.step B (.ring place)) := by
  cases hplace : H.ringing[place]? with
  | none => rwa [step_ring_of_none hplace]
  | some c =>
    have hrung (k : Ticket) := hH.rung_ring_iff (k := k) hplace
    rw [step_ring hplace] at hrung ⊢
    refine ⟨hH.coherent, hH.known, fun c' hc' => hH.accepted c' (List.mem_of_mem_eraseIdx hc'),
      ?_, hH.allotted, hH.answered, fun k => ?_⟩
    · exact hH.apart.sublist ((List.eraseIdx_sublist ..).map _)
    · obtain ⟨calls, hbell, hwaits⟩ := hH.heard k
      by_cases hk : k = c.ticket
      · subst hk
        refine ⟨calls ++ [.ring], ?_, fun i f hf hticket hsuspended => ?_⟩
        · rw [B.run_append_singleton, ← hbell]
          exact Function.update_self ..
        · obtain ⟨last, hlast, hstill⟩ := hwaits i f hf hticket hsuspended
          exact ⟨last, hlast, hstill.append_ring ((hrung _).mpr (.inr rfl))⟩
      · refine ⟨calls, ?_, fun i f hf hticket hsuspended => ?_⟩
        · rw [← hbell]
          exact Function.update_of_ne hk ..
        · rw [propext ((hrung k).trans (or_iff_left hk))]
          exact hwaits i f hf hticket hsuspended

theorem Attended.start (hH : Attended B wakers H) (handle : Handle) :
    Attended B wakers (H.step B (.start handle)) := by
  rw [step]
  split
  · rename_i hhandle
    have hnew {i : Nat} {f : SlotFuture}
        (hf : (H.futures ++ [{ ticket := handle.ticket }])[i]? = some f) :
        H.futures[i]? = some f ∨ f = { ticket := handle.ticket } := by
      rw [List.getElem?_append] at hf
      split at hf
      · exact .inl hf
      · exact .inr (List.mem_singleton.mp (List.mem_of_getElem? hf))
    refine ⟨hH.coherent, hH.known, hH.accepted, hH.apart, fun i f hf => ?_,
      fun i f hf hanswered => ?_, fun k => ?_⟩
    · rcases hnew hf with hf | rfl
      · exact hH.allotted i f hf
      · exact hH.known handle hhandle
    · rcases hnew hf with hf | rfl
      · exact hH.answered i f hf hanswered
      · cases hanswered
    · obtain ⟨calls, hbell, hwaits⟩ := hH.heard k
      refine ⟨calls, hbell, fun i f hf hticket hsuspended => ?_⟩
      rcases hnew hf with hf | rfl
      · exact hwaits i f hf hticket hsuspended
      · cases hsuspended
  · exact hH

/-- A poll, with what the bell has heard so far. -/
theorem Attended.exists_polls (hB : B.Documented) (hH : Attended B wakers H)
    (hf : H.futures[i]? = some f) (waker : Waker) :
    ∃ calls more f' answer,
      (∀ j g, H.futures[j]? = some g → g.ticket = f.ticket → g.stage = .suspended →
        ∃ last, wakers j = some last ∧ Waits calls j last (H.Rung f.ticket)) ∧
      SlotFuture.Polls i waker f calls (H.outcome? f.ticket) more f' answer ∧
      H.answer? B i waker = some answer ∧
      H.step B (.poll i waker) = { H with
        bells := Function.update H.bells f.ticket (B.run (calls ++ more))
        futures := H.futures.set i f' } := by
  obtain ⟨calls, hbell, hwaits⟩ := hH.heard f.ticket
  have henlisted (hsuspended : f.stage = .suspended) : .enlist i ∈ calls := by
    obtain ⟨_, _, hstill⟩ := hwaits i f hf rfl hsuspended
    exact hstill.enlisted
  obtain ⟨more, f', answer, hpolls, hpoll⟩ :=
    SlotFuture.exists_polls hB henlisted waker (H.outcome? f.ticket)
  have hpolled : H.polled B i waker f = (B.run (calls ++ more), f', answer) := by
    rw [polled, hbell]
    exact hpoll
  refine ⟨calls, more, f', answer, hwaits, hpolls, ?_, ?_⟩
  · rw [answer?, hf, Option.map_some, hpolled]
  · simp only [step, hf, hpolled]

theorem Attended.poll_of_none (hH : Attended B wakers H) (hi : H.futures[i]? = none)
    (waker : Waker) : Attended B (Function.update wakers i (some waker)) H := by
  refine { hH with heard := fun k => ?_ }
  obtain ⟨calls, hbell, hwaits⟩ := hH.heard k
  refine ⟨calls, hbell, fun j g hg hticket hsuspended => ?_⟩
  have hj : j ≠ i := by
    rintro rfl
    rw [hi] at hg
    cases hg
  rw [Function.update_of_ne hj]
  exact hwaits j g hg hticket hsuspended

theorem Attended.poll (hB : B.Documented) (hH : Attended B wakers H) (i : Nat) (waker : Waker) :
    Attended B (Function.update wakers i (some waker)) (H.step B (.poll i waker)) := by
  cases hf : H.futures[i]? with
  | none =>
    rw [step_poll_of_none hf]
    exact hH.poll_of_none hf waker
  | some f =>
    obtain ⟨calls, more, f', answer, hwaits, hpolls, _, hstep⟩ := hH.exists_polls hB hf waker
    rw [hstep]
    have hown := hpolls.own_calls
    have hnext := hpolls.waits_or_answered
      (fun hsuspended => (hwaits i f hf rfl hsuspended).imp fun _ => And.right) And.left
      (hH.answered i f hf)
    refine ⟨hH.coherent, hH.known, hH.accepted, hH.apart, fun j g hg => ?_,
      fun j g hg hanswered => ?_, fun k => ?_⟩
    · rcases SlotFuture.getElem?_set_cases hf hg with ⟨_, rfl⟩ | ⟨_, hg⟩
      · rw [hpolls.ticket_eq]
        exact hH.allotted i f hf
      · exact hH.allotted j g hg
    · rcases SlotFuture.getElem?_set_cases hf hg with ⟨_, rfl⟩ | ⟨_, hg⟩
      · rw [hpolls.ticket_eq]
        rcases hnext with ⟨hsuspended, _⟩ | ⟨_, hfilled⟩
        · rw [hsuspended] at hanswered
          cases hanswered
        · exact hfilled
      · exact hH.answered j g hg hanswered
    · by_cases hk : k = f.ticket
      · subst hk
        refine ⟨calls ++ more, Function.update_self .., fun j g hg hticket hsuspended => ?_⟩
        rcases SlotFuture.getElem?_set_cases hf hg with ⟨rfl, rfl⟩ | ⟨hj, hg⟩
        · rcases hnext with ⟨_, hstill⟩ | ⟨hanswered, _⟩
          · exact ⟨waker, Function.update_self .., hstill⟩
          · rw [hsuspended] at hanswered
            cases hanswered
        · obtain ⟨last, hlast, hstill⟩ := hwaits j g hg hticket hsuspended
          obtain ⟨henlist, hask⟩ := hown.2 j hj
          exact ⟨last, (Function.update_of_ne hj ..).trans hlast,
            hstill.append henlist hask hown.1⟩
      · obtain ⟨others, hbell, hothers⟩ := hH.heard k
        refine ⟨others, ?_, fun j g hg hticket hsuspended => ?_⟩
        · rw [← hbell]
          exact Function.update_of_ne hk ..
        · rcases SlotFuture.getElem?_set_cases hf hg with ⟨_, rfl⟩ | ⟨hj, hg⟩
          · rw [hpolls.ticket_eq] at hticket
            exact absurd hticket.symm hk
          · rw [Function.update_of_ne hj]
            exact hothers j g hg hticket hsuspended

theorem Attended.step (hB : B.Documented) (hH : Attended B wakers H) (m : HallMove α) :
    Attended B (fun i => (m.waker? i).or (wakers i)) (H.step B m) := by
  cases m with
  | call m => exact hH.call m
  | ring place => exact hH.ring place
  | start handle => exact hH.start handle
  | poll i waker =>
    have hwakers : (fun j => ((HallMove.poll (α := α) i waker).waker? j).or (wakers j)) =
        Function.update wakers i (some waker) := by
      funext j
      by_cases hj : i = j
      · subst hj
        simp [HallMove.waker?]
      · simp [HallMove.waker?, hj, Ne.symm hj]
    rw [hwakers]
    exact hH.poll hB i waker

theorem Attended.after (hB : B.Documented) (n : Nat) (moves : List (HallMove α)) :
    Attended B (fun i => HallMove.lastWaker? i moves) (after B n moves) := by
  induction moves using List.reverseRecOn with
  | nil => exact .opened B n
  | append_singleton moves m ih =>
    rw [after_append]
    simp only [HallMove.lastWaker?_append]
    have hstep := ih.step hB m
    simpa [HallMove.lastWaker?] using hstep

end Hall

end Remoting
