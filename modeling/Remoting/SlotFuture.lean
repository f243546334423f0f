import Remoting.SlotTable

/-!
# Futures of slots

A future waits for the outcome of one slot and gives it once. Next to the slot hangs a bell, which
rings when the slot is filled. The future goes in turns: it enlists at the bell, only then looks at
the slot, and if that is empty waits for the bell before the next turn. An outcome that comes
between the look and the wait is not missed, as the future is enlisted already.

Whoever polls a future brings a waker, by which it is woken until the next poll brings another one.

The tables have a plain list for a bell. Nothing else about futures depends on that.
-/

namespace Remoting

/-- Those who enlist may ask whether the bell has rung since, and leave a waker for the case that it
has not. It cannot have rung for one who has only just enlisted. -/
structure Bell (β : Type) where
  silent : β
  enlist : β → Nat → β
  ask : β → Nat → Waker → β × Bool
  ring : β → β × List Waker
  ask_enlist : ∀ bell user waker, (ask (enlist bell user) user waker).2 = false

inductive SlotFuture.Stage where
  | untouched
  | suspended
  | answered
deriving DecidableEq, Repr

structure SlotFuture where
  ticket : Ticket
  stage : SlotFuture.Stage := .untouched
deriving DecidableEq, Repr

inductive Poll (α : Type) where
  | pending
  | ready (outcome : α)
  | done
deriving DecidableEq, Repr

namespace SlotFuture

variable {α β : Type}

/-- One turn, up to the next wait. The bell does not ring while the turn lasts. -/
def turn (B : Bell β) (self : Nat) (waker : Waker) (f : SlotFuture) (bell : β)
    (outcome : Option α) : β × SlotFuture × Poll α :=
  let enlisted := B.enlist bell self
  match outcome with
  | some outcome => (enlisted, { f with stage := .answered }, .ready outcome)
  | none =>
    if rung : (B.ask enlisted self waker).2 then absurd rung (by simp [enlisted, B.ask_enlist])
    else ((B.ask enlisted self waker).1, { f with stage := .suspended }, .pending)

/-- Polls the future that is known by the number `self`, with its bell and its slot as given. -/
def poll (B : Bell β) (self : Nat) (waker : Waker) (f : SlotFuture) (bell : β)
    (outcome : Option α) : β × SlotFuture × Poll α :=
  match f.stage with
  | .untouched => f.turn B self waker bell outcome
  | .suspended =>
    let (bell, rung) := B.ask bell self waker
    if rung then f.turn B self waker bell outcome else (bell, f, .pending)
  | .answered => (bell, f, .done)

end SlotFuture

/-- Gives the waiter a waker in place of what it had, if it is the user. -/
def Waiter.hand (w : Waiter) (user : Nat) (waker : Waker) : Waiter :=
  if w.user = user then { w with waker := some waker } else w

/-- The list of all who wait, in the order in which they enlisted. Ringing strikes out everyone on
it and wakes those who have left a waker, by the one left last. -/
def waitingList : Bell (List Waiter) where
  silent := []
  enlist waiting user := waiting.filter (·.user ≠ user) ++ [{ user }]
  ask waiting user waker := (waiting.map (·.hand user waker), waiting.all (·.user ≠ user))
  ring waiting := ([], waiting.filterMap (·.waker))
  ask_enlist waiting user waker := by simp

namespace SlotTable

variable {α : Type}

def waiting (t : SlotTable α) (ticket : Ticket) : List Waiter :=
  (t.slots[ticket]?.map (·.waiting)).getD []

def setWaiting (t : SlotTable α) (ticket : Ticket) (waiting : List Waiter) : SlotTable α :=
  { t with slots := t.slots.modify ticket fun slot => { slot with waiting } }

/-- Polls a future. Unless it is given another waker, it is woken by its own number. -/
def poll (t : SlotTable α) (self : Nat) (f : SlotFuture) (waker : Waker := self) :
    SlotTable α × SlotFuture × Poll α :=
  let (waiting, f', answer) :=
    f.poll waitingList self waker (t.waiting f.ticket) (t.outcome? f.ticket)
  (t.setWaiting f.ticket waiting, f', answer)

end SlotTable

end Remoting
