import Mathlib.Data.List.Basic
import Mathlib.Data.List.Induction
import Remoting.SlotFuture

/-!
# Polling at a bell

What a bell answers depends on the calls on it since the asking one enlisted: it is said to have
rung if one of them rang it, and a ring wakes by the waker that was left last. `Documented` says
this; it is all that is assumed of bells. The list of those who wait is one. `Polls` lists how a
poll of a future can go and which calls it makes on the bell of its slot.
-/

namespace Remoting

inductive BellCall where
  | enlist (user : Nat)
  | ask (user : Nat) (waker : Waker)
  | ring
deriving DecidableEq

namespace BellCall

/-- The calls since the user last enlisted, latest first. -/
def since (user : Nat) (calls : List BellCall) : List BellCall :=
  calls.reverse.takeWhile (· ≠ .enlist user)

/-- The waker that the user leaves by the call. -/
def waker? (user : Nat) : BellCall → Option Waker
  | .ask other waker => if other = user then some waker else none
  | _ => none

/-- The waker that the user has left last since it enlisted. -/
def lastWaker? (user : Nat) (calls : List BellCall) : Option Waker :=
  (since user calls).findSome? (waker? user)

variable {calls more : List BellCall} {user : Nat} {waker : Waker}

theorem since_append (h : .enlist user ∉ more) :
    since user (calls ++ more) = more.reverse ++ since user calls := by
  have hall : ∀ call ∈ more.reverse, decide (call ≠ .enlist user) = true := by
    intro call hcall
    rw [decide_eq_true_eq]
    rintro rfl
    exact h (List.mem_reverse.mp hcall)
  rw [since, List.reverse_append, List.takeWhile_append_of_pos hall, since]

theorem since_append_enlist (h : .enlist user ∉ more) :
    since user (calls ++ .enlist user :: more) = more.reverse := by
  have hsplit : calls ++ .enlist user :: more = (calls ++ [.enlist user]) ++ more := by simp
  rw [hsplit, since_append h, since, List.reverse_append]
  simp

theorem lastWaker?_append (henlist : .enlist user ∉ more)
    (hask : ∀ call ∈ more, call.waker? user = none) :
    lastWaker? user (calls ++ more) = lastWaker? user calls := by
  have hnone : more.reverse.findSome? (waker? user) = none :=
    List.findSome?_eq_none_iff.mpr fun call hcall => hask call (List.mem_reverse.mp hcall)
  rw [lastWaker?, since_append henlist, List.findSome?_append, hnone, Option.none_or, lastWaker?]

theorem lastWaker?_append_ask (calls : List BellCall) (user : Nat) (waker : Waker) :
    lastWaker? user (calls ++ [.ask user waker]) = some waker := by
  rw [lastWaker?, since_append (by simp)]
  simp [waker?]

/-- The user has enlisted and left this waker last, and it is as said whether the bell has rung
since. -/
structure Waits (calls : List BellCall) (user : Nat) (waker : Waker) (rung : Prop) : Prop where
  enlisted : .enlist user ∈ calls
  asked : lastWaker? user calls = some waker
  rung_iff : .ring ∈ since user calls ↔ rung

namespace Waits

variable {rung rung' : Prop}

/-- What others call is no concern of the user, unless they ring. -/
theorem append (h : Waits calls user waker rung) (henlist : .enlist user ∉ more)
    (hask : ∀ call ∈ more, call.waker? user = none) (hring : .ring ∉ more) :
    Waits (calls ++ more) user waker rung where
  enlisted := List.mem_append_left _ h.enlisted
  asked := by rw [lastWaker?_append henlist hask, h.asked]
  rung_iff := by
    rw [since_append henlist, List.mem_append, List.mem_reverse, ← h.rung_iff]
    exact or_iff_right hring

theorem append_ring (h : Waits calls user waker rung) (hrung : rung') :
    Waits (calls ++ [.ring]) user waker rung' where
  enlisted := List.mem_append_left _ h.enlisted
  asked := by
    rw [lastWaker?_append (by simp) (by simp [waker?]), h.asked]
  rung_iff := by
    rw [since_append (by simp)]
    exact iff_of_true List.mem_cons_self hrung

/-- Who asks again leaves another waker. -/
theorem append_ask (h : Waits calls user waker rung) (again : Waker) :
    Waits (calls ++ [.ask user again]) user again rung where
  enlisted := List.mem_append_left _ h.enlisted
  asked := lastWaker?_append_ask calls user again
  rung_iff := by
    rw [since_append (by simp), ← h.rung_iff]
    simp

end Waits

theorem waits_of_enlist_ask {rung : Prop} (calls : List BellCall) (user : Nat) (waker : Waker)
    (h : ¬ rung) : Waits (calls ++ [.enlist user, .ask user waker]) user waker rung where
  enlisted := List.mem_append_right _ List.mem_cons_self
  asked := by
    rw [lastWaker?, since_append_enlist (by simp)]
    simp [waker?]
  rung_iff := by
    rw [since_append_enlist (by simp)]
    exact iff_of_false (by simp) h

end BellCall

open BellCall (since lastWaker? Waits)

namespace Bell

variable {β : Type} (B : Bell β)

def apply (bell : β) : BellCall → β
  | .enlist user => B.enlist bell user
  | .ask user waker => (B.ask bell user waker).1
  | .ring => (B.ring bell).1

def run (calls : List BellCall) : β :=
  calls.foldl B.apply B.silent

theorem run_append_singleton (calls : List BellCall) (call : BellCall) :
    B.run (calls ++ [call]) = B.apply (B.run calls) call :=
  List.foldl_append

/-- What is said of a bell: it completes the wait of all who enlisted before it rings, and of nobody
else, and wakes those of them who have asked by the wakers that they left last. -/
structure Documented : Prop where
  rung_iff : ∀ calls user waker, .enlist user ∈ calls →
    ((B.ask (B.run calls) user waker).2 = true ↔ .ring ∈ since user calls)
  wakes : ∀ calls user waker, .enlist user ∈ calls → .ring ∉ since user calls →
    lastWaker? user calls = some waker → waker ∈ (B.ring (B.run calls)).2

end Bell

section WaitingList

variable {waiting : List Waiter} {user other : Nat} {waker : Waker} {o : Option Waker}

theorem mem_enlist_waitingList :
    ⟨user, o⟩ ∈ waitingList.enlist waiting other ↔
      if user = other then o = none else ⟨user, o⟩ ∈ waiting := by
  by_cases h : user = other <;> simp [waitingList, h]

theorem Waiter.hand_eq_iff (w : Waiter) : w.hand other waker = ⟨user, o⟩ ↔
    w.user = user ∧ (if w.user = other then some waker else w.waker) = o := by
  obtain ⟨user', o'⟩ := w
  rw [hand]
  split_ifs <;> simp

theorem mem_ask_waitingList :
    ⟨user, o⟩ ∈ (waitingList.ask waiting other waker).1 ↔
      if user = other then (∃ o', ⟨user, o'⟩ ∈ waiting) ∧ some waker = o
      else ⟨user, o⟩ ∈ waiting := by
  change ⟨user, o⟩ ∈ waiting.map (·.hand other waker) ↔ _
  rw [List.mem_map]
  simp only [Waiter.hand_eq_iff]
  split_ifs with h
  · constructor
    · rintro ⟨⟨_, o'⟩, hmem, rfl, heq⟩
      exact ⟨⟨o', hmem⟩, (if_pos h).symm.trans heq⟩
    · rintro ⟨⟨o', hmem⟩, heq⟩
      exact ⟨_, hmem, rfl, (if_pos h).trans heq⟩
  · constructor
    · rintro ⟨⟨_, o'⟩, hmem, rfl, heq⟩
      rw [if_neg h] at heq
      exact heq ▸ hmem
    · intro hmem
      exact ⟨_, hmem, rfl, if_neg h⟩

end WaitingList

/-- On the list are those for whom the bell has not rung since they enlisted, each with the waker
that it left last. -/
theorem mem_run_waitingList (calls : List BellCall) (user : Nat) (o : Option Waker) :
    ⟨user, o⟩ ∈ waitingList.run calls ↔
      .enlist user ∈ calls ∧ .ring ∉ since user calls ∧ lastWaker? user calls = o := by
  induction calls using List.reverseRecOn generalizing o with
  | nil => simp [Bell.run, waitingList]
  | append_singleton calls call ih =>
    rw [Bell.run_append_singleton]
    cases call with
    | enlist other =>
      rw [Bell.apply, mem_enlist_waitingList]
      split_ifs with heq
      · subst heq
        rw [lastWaker?, BellCall.since_append_enlist List.not_mem_nil]
        simp [eq_comm]
      · rw [BellCall.since_append (by simpa using heq),
          BellCall.lastWaker?_append (by simpa using heq) (by simp [BellCall.waker?]), ih]
        simp [heq]
    | ask other waker =>
      rw [Bell.apply, mem_ask_waitingList, BellCall.since_append (by simp)]
      split_ifs with heq
      · subst heq
        rw [BellCall.lastWaker?_append_ask]
        simp [ih, and_assoc]
      · rw [BellCall.lastWaker?_append (by simp) (by simp [BellCall.waker?, Ne.symm heq]), ih]
        simp
    | ring =>
      rw [BellCall.since_append (by simp)]
      simp [Bell.apply, waitingList]

theorem documented_waitingList : waitingList.Documented where
  rung_iff calls user waker henlisted := by
    change (waitingList.run calls).all (·.user ≠ user) = true ↔ _
    simp only [List.all_eq_true, decide_eq_true_eq]
    constructor
    · intro hstruck
      by_contra hring
      have hmem := (mem_run_waitingList calls user _).mpr ⟨henlisted, hring, rfl⟩
      exact hstruck _ hmem rfl
    · rintro hring ⟨_, o⟩ hmem rfl
      exact ((mem_run_waitingList calls _ o).mp hmem).2.1 hring
  wakes calls user waker henlisted hring hasked := by
    have hmem := (mem_run_waitingList calls user _).mpr ⟨henlisted, hring, hasked⟩
    exact List.mem_filterMap.mpr ⟨_, hmem, rfl⟩

namespace SlotFuture

variable {α β : Type} {B : Bell β} {self : Nat} {waker : Waker} {f f' : SlotFuture}
  {calls more : List BellCall} {outcome : Option α} {answer : Poll α}

/-- How a poll goes, with the calls that it makes on the bell, what the future is then, and its
answer. -/
inductive Polls (self : Nat) (waker : Waker) (f : SlotFuture) (calls : List BellCall)
    (outcome : Option α) : List BellCall → SlotFuture → Poll α → Prop where
  | starts (untouched : f.stage = .untouched) (empty : outcome = none) :
      Polls self waker f calls outcome [.enlist self, .ask self waker]
        { f with stage := .suspended } .pending
  | finds (x : α) (untouched : f.stage = .untouched) (filled : outcome = some x) :
      Polls self waker f calls outcome [.enlist self] { f with stage := .answered } (.ready x)
  | waits (suspended : f.stage = .suspended) (unrung : .ring ∉ since self calls) :
      Polls self waker f calls outcome [.ask self waker] f .pending
  | restarts (suspended : f.stage = .suspended) (rung : .ring ∈ since self calls)
      (empty : outcome = none) :
      Polls self waker f calls outcome [.ask self waker, .enlist self, .ask self waker]
        { f with stage := .suspended } .pending
  | finishes (x : α) (suspended : f.stage = .suspended) (rung : .ring ∈ since self calls)
      (filled : outcome = some x) :
      Polls self waker f calls outcome [.ask self waker, .enlist self]
        { f with stage := .answered } (.ready x)
  | spent (answered : f.stage = .answered) : Polls self waker f calls outcome [] f .done

theorem Polls.ticket_eq (h : Polls self waker f calls outcome more f' answer) :
    f'.ticket = f.ticket := by
  cases h <;> rfl

/-- A poll is no concern of other futures. -/
theorem Polls.own_calls (h : Polls self waker f calls outcome more f' answer) :
    .ring ∉ more ∧ ∀ user ≠ self, .enlist user ∉ more ∧
      ∀ call ∈ more, call.waker? user = none := by
  refine ⟨by cases h <;> simp, fun user hne => ?_⟩
  have hask : (BellCall.ask self waker).waker? user = none := if_neg (Ne.symm hne)
  have henlist : (BellCall.enlist self).waker? user = none := rfl
  cases h <;> simp [hne, hask, henlist]

/-- Where a bell only rings for an outcome, the future waits on or has been completed. -/
theorem Polls.waits_or_answered {rung : Prop}
    (h : Polls self waker f calls outcome more f' answer)
    (hwaits : f.stage = .suspended → ∃ last, Waits calls self last rung)
    (hrung : rung → outcome.isSome) (hanswered : f.stage = .answered → outcome.isSome) :
    f'.stage = .suspended ∧ Waits (calls ++ more) self waker rung ∨
      f'.stage = .answered ∧ outcome.isSome := by
  cases h with
  | starts untouched empty =>
    subst empty
    exact .inl ⟨rfl, BellCall.waits_of_enlist_ask calls self waker fun h => nomatch hrung h⟩
  | finds x untouched filled | finishes x suspended _ filled =>
    subst filled
    exact .inr ⟨rfl, rfl⟩
  | waits suspended unrung =>
    obtain ⟨last, hlast⟩ := hwaits suspended
    exact .inl ⟨suspended, hlast.append_ask waker⟩
  | restarts suspended rung empty =>
    subst empty
    obtain ⟨last, hlast⟩ := hwaits suspended
    cases hrung (hlast.rung_iff.mp rung)
  | spent answered => exact .inr ⟨answered, hanswered answered⟩

theorem turn_of_empty (B : Bell β) (self : Nat) (waker : Waker) (f : SlotFuture) (bell : β) :
    f.turn B self waker bell (none : Option α) =
      ((B.ask (B.enlist bell self) self waker).1, { f with stage := .suspended }, .pending) := by
  have hunrung : ¬ (B.ask (B.enlist bell self) self waker).2 = true := by
    rw [B.ask_enlist]
    exact Bool.false_ne_true
  rw [turn]
  exact dif_neg hunrung

/-- A future is answered by the poll that finds the outcome. -/
theorem poll_answered_iff (B : Bell β) (self : Nat) (waker : Waker) (f : SlotFuture) (bell : β)
    (outcome : Option α) : (f.poll B self waker bell outcome).2.1.stage = .answered ↔
      f.stage = .answered ∨ ∃ x, (f.poll B self waker bell outcome).2.2 = .ready x := by
  have hturn (bell : β) : (f.turn B self waker bell outcome).2.1.stage = .answered ↔
      ∃ x, (f.turn B self waker bell outcome).2.2 = .ready x := by
    cases outcome with
    | none => simp [turn_of_empty]
    | some x => simp [turn]
  cases hstage : f.stage with
  | untouched => simp [poll, hstage, hturn]
  | suspended =>
    by_cases hrung : (B.ask bell self waker).2 = true
    · simp [poll, hstage, hrung, hturn]
    · simp [poll, hstage, hrung]
  | answered => simp [poll, hstage]

theorem exists_polls (hB : B.Documented)
    (henlisted : f.stage = .suspended → .enlist self ∈ calls) (waker : Waker)
    (outcome : Option α) :
    ∃ more f' answer, Polls self waker f calls outcome more f' answer ∧
      f.poll B self waker (B.run calls) outcome = (B.run (calls ++ more), f', answer) := by
  have hrun (call : BellCall) (calls more : List BellCall) :
      B.run (calls ++ call :: more) = B.run ((calls ++ [call]) ++ more) := by
    rw [List.append_assoc]
    rfl
  cases hstage : f.stage with
  | untouched =>
    cases outcome with
    | none =>
      refine ⟨_, _, _, .starts hstage rfl, ?_⟩
      rw [poll, hstage, hrun, B.run_append_singleton, B.run_append_singleton]
      exact turn_of_empty B self waker f (B.run calls)
    | some x =>
      refine ⟨_, _, _, .finds x hstage rfl, ?_⟩
      rw [poll, hstage, B.run_append_singleton]
      rfl
  | suspended =>
    have hask := hB.rung_iff calls self waker (henlisted hstage)
    by_cases hrung : .ring ∈ since self calls
    · have hturn : f.poll B self waker (B.run calls) outcome =
          f.turn B self waker (B.ask (B.run calls) self waker).1 outcome := by
        rw [poll, hstage]
        exact if_pos (hask.mpr hrung)
      cases outcome with
      | none =>
        refine ⟨_, _, _, .restarts hstage hrung rfl, ?_⟩
        rw [hturn, hrun, hrun, B.run_append_singleton, B.run_append_singleton,
          B.run_append_singleton]
        exact turn_of_empty B self waker f _
      | some x =>
        refine ⟨_, _, _, .finishes x hstage hrung rfl, ?_⟩
        rw [hturn, hrun, B.run_append_singleton, B.run_append_singleton]
        rfl
    · refine ⟨_, _, _, .waits hstage hrung, ?_⟩
      rw [poll, hstage, B.run_append_singleton]
      exact if_neg (mt hask.mp hrung)
  | answered =>
    refine ⟨_, _, _, .spent hstage, ?_⟩
    rw [poll, hstage, List.append_nil]

end SlotFuture

end Remoting
