import Remoting.Registry
import Remoting.QuotedText

/-!
# Slot tables

Two sides meet at an id, in either order: one brings the outcome, the other waits for it. The side
that comes first plants a slot in `live`; the second takes it out and moves it to the history, so
that those who come late still find the outcome. The history remembers a bounded number of slots
and drops the oldest first; `order` is the queue of what was moved there, and `retired` what is
still remembered. An id may be released at any time, which forgets it but leaves the slot to those
who hold it.

To settle an id takes two steps. `arrive` looks the id up and either plants the outcome, is
refused, or finds a slot; `fill` then writes the outcome into this slot, unless another one is
already there. Between the two, other calls may come.
-/

namespace Remoting

/-- The number of a task, by which what the task polls may wake it. -/
abbrev Waker := Nat

/-- A future that waits, by its number, with the waker of its last poll. -/
structure Waiter where
  user : Nat
  waker : Option Waker := none
deriving DecidableEq, Repr

/-- A cell for one outcome, and who is to be woken when it is filled. -/
structure Slot (α : Type) where
  outcome : Option α
  waiting : List Waiter := []

/-- The number of a slot in its table. -/
abbrev Ticket := Nat

inductive Live where
  | awaiting (ticket : Ticket)
  | settled (ticket : Ticket)
deriving DecidableEq, Repr

structure SlotTable (α : Type) where
  history : Nat := 1024
  live : Registry UInt32 Live := .empty
  retired : Registry UInt32 Ticket := .empty
  order : List (UInt32 × Ticket) := []
  slots : Array (Slot α) := #[]

/-- What those hold who wait for an outcome. -/
structure Handle where
  id : UInt32
  ticket : Ticket
deriving DecidableEq, Repr

/-- How a settling call fares at the table. -/
inductive Arrival where
  | planted
  | refused
  | reached (ticket : Ticket)
deriving DecidableEq, Repr

namespace SlotTable

variable {α : Type}

def defaultHistory : Nat := 1024

def withHistory (history : Nat) : SlotTable α :=
  { history }

def outcome? (t : SlotTable α) (ticket : Ticket) : Option α :=
  t.slots[ticket]?.bind (·.outcome)

def read (t : SlotTable α) (h : Handle) : Option α :=
  t.outcome? h.ticket

def plant (t : SlotTable α) (outcome : Option α) : SlotTable α × Ticket :=
  ({ t with slots := t.slots.push { outcome } }, t.slots.size)

/-- Drops the oldest slot of a full history. Its id stays if it was moved there again since. -/
def evict (t : SlotTable α) : SlotTable α :=
  if t.order.length = t.history then
    match t.order with
    | [] => t
    | (id, ticket) :: order =>
      let retired := if t.retired.get? id = some ticket then t.retired.erase id else t.retired
      { t with order, retired }
  else t

/-- Moves a slot that both sides have reached into the history. -/
def retire (t : SlotTable α) (id : UInt32) (ticket : Ticket) : SlotTable α :=
  if t.history = 0 then t
  else
    let t := t.evict
    { t with retired := t.retired.insert id ticket, order := t.order ++ [(id, ticket)] }

def takeOut (t : SlotTable α) (id : UInt32) (ticket : Ticket) : SlotTable α :=
  { t with live := t.live.erase id }.retire id ticket

def arrive (t : SlotTable α) (id : UInt32) (outcome : α) : SlotTable α × Arrival :=
  match t.retired.get? id with
  | some ticket => (t, .reached ticket)
  | none =>
    match t.live.get? id with
    | some (.settled _) => (t, .refused)
    | some (.awaiting ticket) => (t.takeOut id ticket, .reached ticket)
    | none =>
      let (t, ticket) := t.plant (some outcome)
      ({ t with live := t.live.insert id (.settled ticket) }, .planted)

/-- Fills an empty slot and tells which wakers are woken by it; nothing happens to a slot that is
filled. -/
def fill (t : SlotTable α) (ticket : Ticket) (outcome : α) : SlotTable α × Option (List Waker) :=
  match t.slots[ticket]? with
  | some { outcome := none, waiting } =>
    ({ t with slots := t.slots.setIfInBounds ticket { outcome := some outcome } },
      some (waiting.filterMap (·.waker)))
  | _ => (t, none)

/-- Records an outcome. If it is the one that counts, tells which wakers are woken by it: the first
outcome counts, and nobody can wait for it yet if its slot is new. -/
def record (t : SlotTable α) (id : UInt32) (outcome : α) : SlotTable α × Option (List Waker) :=
  match t.arrive id outcome with
  | (t, .planted) => (t, some [])
  | (t, .refused) => (t, none)
  | (t, .reached ticket) => t.fill ticket outcome

/-- Records an outcome, and tells whether it is the one that counts. -/
def settle (t : SlotTable α) (id : UInt32) (outcome : α) : SlotTable α × Bool :=
  let (t, woken) := t.record id outcome
  (t, woken.isSome)

def awaitOrCreate (t : SlotTable α) (id : UInt32) : SlotTable α × Handle :=
  match t.retired.get? id with
  | some ticket => (t, ⟨id, ticket⟩)
  | none =>
    match t.live.get? id with
    | some (.awaiting ticket) => (t, ⟨id, ticket⟩)
    | some (.settled ticket) => (t.takeOut id ticket, ⟨id, ticket⟩)
    | none =>
      let (t, ticket) := t.plant none
      ({ t with live := t.live.insert id (.awaiting ticket) }, ⟨id, ticket⟩)

def release (t : SlotTable α) (id : UInt32) : SlotTable α × Bool :=
  ({ t with live := t.live.erase id, retired := t.retired.erase id },
    t.live.contains id || t.retired.contains id)

/-- Whether the id waits for its second side. -/
def contains (t : SlotTable α) (id : UInt32) : Bool :=
  t.live.contains id

def size (t : SlotTable α) : Nat :=
  t.live.size

def remembered (t : SlotTable α) : Nat :=
  t.retired.size

def describe (t : SlotTable α) : String :=
  Describe.record "ResultSlots"
    [("live", toString t.size), ("retired", toString t.remembered),
      ("history", toString t.history)] false

def describeHandle (t : SlotTable α) (h : Handle) : String :=
  Describe.record "Settlement"
    [("id", toString h.id), ("settled", toString (t.read h).isSome)] false

end SlotTable

end Remoting
