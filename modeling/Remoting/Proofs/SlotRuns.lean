import Mathlib.Data.List.Induction
import Remoting.Proofs.SlotConsistency

/-!
# Runs of calls at a slot table

A run is a list of calls, each taken as one step. `Step` lists what a call can do to a consistent
table and how it is answered. Every run leads from the empty table to a consistent one.
-/

namespace Remoting

inductive Call (α : Type) where
  | settle (id : UInt32) (outcome : α)
  | await (id : UInt32)
  | release (id : UInt32)
  | read (handle : Handle)
deriving DecidableEq

inductive Answer (α : Type) where
  | flag (value : Bool)
  | handle (handle : Handle)
  | outcome (outcome : Option α)
deriving DecidableEq

namespace Call

variable {α : Type}

/-- One of the two sides comes to the id. -/
def ArrivesAt : Call α → UInt32 → Prop
  | .settle id _, other => id = other
  | .await id, other => id = other
  | _, _ => False

/-- The outcome that a call brings to an id. -/
def outcomeFor? (id : UInt32) : Call α → Option α
  | .settle other outcome => if other = id then some outcome else none
  | _ => none

end Call

namespace SlotTable

variable {α : Type} {t t' : SlotTable α} {id : UInt32} {k : Ticket} {c : Call α} {a : Answer α}

def step (t : SlotTable α) : Call α → SlotTable α × Answer α
  | .settle id outcome => ((t.settle id outcome).1, .flag (t.settle id outcome).2)
  | .await id => ((t.awaitOrCreate id).1, .handle (t.awaitOrCreate id).2)
  | .release id => ((t.release id).1, .flag (t.release id).2)
  | .read handle => (t, .outcome (t.read handle))

def run (t : SlotTable α) (calls : List (Call α)) : SlotTable α :=
  calls.foldl (fun t c => (t.step c).1) t

/-- The table with the given history after some calls. -/
def after (history : Nat) (calls : List (Call α)) : SlotTable α :=
  (withHistory history).run calls

/-- How a call is answered after some others. -/
def answer (history : Nat) (calls : List (Call α)) (c : Call α) : Answer α :=
  ((after history calls).step c).2

/-- The second of the two sides comes to the id. -/
def Completes (t : SlotTable α) : Call α → UInt32 → Prop
  | .settle id _, other => id = other ∧ ∃ k, t.live.get? id = some (.awaiting k)
  | .await id, other => id = other ∧ ∃ k, t.live.get? id = some (.settled k)
  | _, _ => False

inductive Step (t : SlotTable α) : Call α → Answer α → SlotTable α → Prop
  | plantFilled {id : UInt32} {x : α} : t.ticket? id = none →
      Step t (.settle id x) (.flag true) (t.enter id (some x))
  | fillWaiting {id : UInt32} {x : α} {k : Ticket} : t.live.get? id = some (.awaiting k) →
      Step t (.settle id x) (.flag true) ((t.takeOut id k).fill k x).1
  | late {id : UInt32} {x y : α} {k : Ticket} : t.ticket? id = some k → t.outcome? k = some y →
      Step t (.settle id x) (.flag false) t
  | plantEmpty {id : UInt32} : t.ticket? id = none →
      Step t (.await id) (.handle ⟨id, t.slots.size⟩) (t.enter id none)
  | fetchSettled {id : UInt32} {k : Ticket} : t.live.get? id = some (.settled k) →
      Step t (.await id) (.handle ⟨id, k⟩) (t.takeOut id k)
  | found {id : UInt32} {k : Ticket} : t.ticket? id = some k →
      (∀ j, t.live.get? id ≠ some (.settled j)) →
      Step t (.await id) (.handle ⟨id, k⟩) t
  | release {id : UInt32} : Step t (.release id) (.flag (t.ticket? id).isSome) (t.release id).1
  | read {h : Handle} : Step t (.read h) (.outcome (t.read h)) t

theorem Consistent.settle_of_retired (ht : Consistent t) (h : t.retired.get? id = some k) (x : α) :
    t.settle id x = (t, false) := by
  obtain ⟨y, hy⟩ := Option.isSome_iff_exists.mp (ht.retired h)
  simp only [settle, record, arrive_of_retired x h, fill_of_filled x hy, Option.isSome_none]

theorem awaitOrCreate_of_retired (h : t.retired.get? id = some k) :
    t.awaitOrCreate id = (t, ⟨id, k⟩) := by
  simp only [awaitOrCreate, h]

theorem Sound.awaitOrCreate_of_settled (ht : Sound t) (h : t.live.get? id = some (.settled k)) :
    t.awaitOrCreate id = (t.takeOut id k, ⟨id, k⟩) := by
  simp only [awaitOrCreate, ht.apart h, h]

theorem Consistent.settle_step (ht : Consistent t) (id : UInt32) (x : α) :
    Step t (.settle id x) (.flag (t.settle id x).2) (t.settle id x).1 := by
  cases hretired : t.retired.get? id with
  | some k =>
    obtain ⟨y, hy⟩ := Option.isSome_iff_exists.mp (ht.retired hretired)
    rw [ht.settle_of_retired hretired]
    exact .late (ticket?_of_retired hretired) hy
  | none =>
    cases hlive : t.live.get? id with
    | none =>
      have hid : t.ticket? id = none := ticket?_eq_none_iff.mpr ⟨hlive, hretired⟩
      have hsettle : t.settle id x = (t.enter id (some x), true) := by
        simp only [settle, record, arrive_of_unknown x hid, Option.isSome_some]
      rw [hsettle]
      exact .plantFilled hid
    | some l =>
      cases l with
      | settled k =>
        obtain ⟨y, hy⟩ := Option.isSome_iff_exists.mp (ht.told hlive).symm
        have hsettle : t.settle id x = (t, false) := by
          simp only [settle, record, ht.arrive_of_settled x hlive, Option.isSome_none]
        rw [hsettle]
        exact .late (ht.ticket?_of_live hlive) hy
      | awaiting k =>
        have hempty : (t.takeOut id k).outcome? k = none := by
          rw [takeOut_outcome?]
          exact ht.empty_of_awaiting hlive
        have hk : k < (t.takeOut id k).slots.size := by
          rw [takeOut_slots]
          exact ht.lt_size_of_live hlive
        have hsettle : t.settle id x = (((t.takeOut id k).fill k x).1, true) := by
          simp only [settle, record, ht.arrive_of_awaiting x hlive, fill_answer x hk, hempty,
            Option.isNone_none]
        rw [hsettle]
        exact .fillWaiting hlive

theorem Sound.await_step (ht : Sound t) (id : UInt32) :
    Step t (.await id) (.handle (t.awaitOrCreate id).2) (t.awaitOrCreate id).1 := by
  cases hretired : t.retired.get? id with
  | some k =>
    rw [awaitOrCreate_of_retired hretired]
    refine .found (ticket?_of_retired hretired) fun j hj => ?_
    have hapart := ht.apart hj
    rw [hretired] at hapart
    cases hapart
  | none =>
    cases hlive : t.live.get? id with
    | none =>
      have hawait : t.awaitOrCreate id = (t.enter id none, ⟨id, t.slots.size⟩) := by
        simp only [awaitOrCreate, hretired, hlive]
        rfl
      rw [hawait]
      exact .plantEmpty (ticket?_eq_none_iff.mpr ⟨hlive, hretired⟩)
    | some l =>
      cases l with
      | awaiting k =>
        have hawait : t.awaitOrCreate id = (t, ⟨id, k⟩) := by
          simp only [awaitOrCreate, hretired, hlive]
        rw [hawait]
        exact .found (ht.ticket?_of_live hlive) fun j hj => by rw [hlive] at hj; cases hj
      | settled k =>
        rw [ht.awaitOrCreate_of_settled hlive]
        exact .fetchSettled hlive

namespace Consistent

/-- Each call does one of the things listed. -/
theorem step (ht : Consistent t) (c : Call α) : Step t c (t.step c).2 (t.step c).1 := by
  cases c with
  | settle id x => exact ht.settle_step id x
  | await id => exact ht.toSound.await_step id
  | release id =>
    have hanswer : (t.release id).2 = (t.ticket? id).isSome := (isSome_ticket? t id).symm
    change Step t _ (.flag (t.release id).2) (t.release id).1
    rw [hanswer]
    exact .release
  | read h => exact .read

theorem after_step (ht : Consistent t) (h : Step t c a t') : Consistent t' := by
  cases h with
  | plantFilled hid => exact ht.enter hid _
  | fillWaiting hlive => exact ht.takeOut_fill hlive _
  | late _ _ => exact ht
  | plantEmpty hid => exact ht.enter hid _
  | fetchSettled hlive => exact ht.takeOut hlive
  | found _ _ => exact ht
  | release => exact ht.release _
  | read => exact ht

theorem run (ht : Consistent t) (calls : List (Call α)) : Consistent (t.run calls) := by
  induction calls generalizing t with
  | nil => exact ht
  | cons c calls ih => exact ih (ht.after_step (ht.step c))

theorem after (n : Nat) (calls : List (Call α)) : Consistent (SlotTable.after n calls) :=
  (Consistent.empty n).run calls

end Consistent

theorem run_append (t : SlotTable α) (calls more : List (Call α)) :
    t.run (calls ++ more) = (t.run calls).run more :=
  List.foldl_append

theorem after_append (n : Nat) (calls more : List (Call α)) :
    after n (calls ++ more) = (after n calls).run more :=
  run_append _ _ _

theorem step_after (n : Nat) (calls : List (Call α)) (c : Call α) :
    Step (after n calls) c (answer n calls c) (after n (calls ++ [c])) := by
  rw [after_append]
  exact (Consistent.after n calls).step c

namespace Step

theorem history_eq (h : Step t c a t') : t'.history = t.history := by
  cases h with
  | plantFilled _ => rfl
  | fillWaiting _ => rw [fill_history, takeOut_history]
  | late _ _ => rfl
  | plantEmpty _ => rfl
  | fetchSettled _ => exact takeOut_history _ _ _
  | found _ _ => rfl
  | release => rfl
  | read => rfl

theorem size_le (h : Step t c a t') : t.slots.size ≤ t'.slots.size := by
  cases h with
  | plantFilled _ =>
    rw [enter_size]
    exact Nat.le_succ _
  | fillWaiting _ => exact Nat.le_of_eq (by rw [fill_size, takeOut_slots])
  | late _ _ => exact Nat.le_refl _
  | plantEmpty _ =>
    rw [enter_size]
    exact Nat.le_succ _
  | fetchSettled _ => exact Nat.le_of_eq (by rw [takeOut_slots])
  | found _ _ => exact Nat.le_refl _
  | release => exact Nat.le_refl _
  | read => exact Nat.le_refl _

end Step

theorem after_history (n : Nat) (calls : List (Call α)) : (after n calls).history = n := by
  induction calls using List.reverseRecOn with
  | nil => rfl
  | append_singleton calls c ih => rw [(step_after n calls c).history_eq, ih]

end SlotTable

end Remoting
