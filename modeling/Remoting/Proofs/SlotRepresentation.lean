import Mathlib.Data.List.Nodup
import Remoting.Proofs.SlotMemory

/-!
# What holds of every slot table

The live entries, the history, its queue and the cells are changed by different operations, and
each of them leaves some of the others alone. `Intact` says how they fit together after every run.
A slot belongs to one id for ever, no matter whether the id is still bound to it, so that a call
about another id neither touches its live entry nor writes to what was handed out for it.
-/

namespace Remoting

/-- The operation is on this id. -/
def Call.Concerns {α : Type} (c : Call α) (id : UInt32) : Prop :=
  c.ArrivesAt id ∨ c = .release id

namespace SlotTable

variable {α : Type} {t t' : SlotTable α} {id other : UInt32} {k : Ticket} {c : Call α}
  {a : Answer α} {h : Handle} {n : Nat}

/-- Some part of the table keeps the slot for the id. -/
inductive Keeps (t : SlotTable α) (id : UInt32) : Ticket → Prop
  | live {l : Live} : t.live.get? id = some l → Keeps t id l.ticket
  | retired {k : Ticket} : t.retired.get? id = some k → Keeps t id k
  | queued {k : Ticket} : (id, k) ∈ t.order → Keeps t id k

/-- The parts of a table with a history of this size fit together. -/
structure Intact (n : Nat) (t : SlotTable α) : Prop where
  apart : ∀ id l, t.live.get? id = some l → t.retired.get? id = none
  awaiting : ∀ id k, t.live.get? id = some (.awaiting k) →
    k < t.slots.size ∧ t.outcome? k = none
  settled : ∀ id k, t.live.get? id = some (.settled k) → (t.outcome? k).isSome = true
  retired : ∀ id k, t.retired.get? id = some k → (t.outcome? k).isSome = true
  queued : ∀ id k, t.retired.get? id = some k → t.order.count (id, k) = 1
  bounded : t.order.length ≤ n
  unshared : ∀ id other k, Keeps t id k → Keeps t other k → id = other

/-- The slot is there, and no part of the table keeps it for another id. -/
structure Owns (t : SlotTable α) (id : UInt32) (k : Ticket) : Prop where
  allotted : k < t.slots.size
  own : ∀ {other}, Keeps t other k → other = id

/-- The handle was given out in the course of the calls. -/
def Given (n : Nat) (calls : List (Call α)) (h : Handle) : Prop :=
  ∃ before later, calls = before ++ .await h.id :: later ∧
    answer n before (.await h.id) = .handle h

theorem retired_or_live_of_ticket? (hk : t.ticket? id = some k) :
    t.retired.get? id = some k ∨ ∃ l, t.live.get? id = some l ∧ l.ticket = k := by
  rw [ticket?, Option.or_eq_some_iff, Option.map_eq_some_iff] at hk
  exact hk.imp_right And.right

theorem keeps_iff (ht : Sound t) :
    Keeps t id k ↔ t.ticket? id = some k ∨ (id, k) ∈ t.order := by
  constructor
  · rintro (hl | hk | hk)
    · exact .inl (ht.ticket?_of_live hl)
    · exact .inl (ticket?_of_retired hk)
    · exact .inr hk
  · rintro (hk | hk)
    · rcases retired_or_live_of_ticket? hk with hk | ⟨l, hl, rfl⟩
      · exact .retired hk
      · exact .live hl
    · exact .queued hk

namespace Queued

variable (hq : Queued t)
include hq

/-- No slot is in the queue for two ids. -/
theorem eq_of_queued (hmem : (id, k) ∈ t.order) (hmem' : (other, k) ∈ t.order) : id = other :=
  congrArg Prod.fst (List.inj_on_of_nodup_map hq.apart hmem hmem' rfl)

/-- A slot in the queue is bound to no other id than the one it was queued for. -/
theorem eq_of_bound (hmem : (id, k) ∈ t.order) (hk : t.ticket? other = some k) : id = other := by
  rcases retired_or_live_of_ticket? hk with hk | ⟨l, hl, rfl⟩
  · exact hq.eq_of_queued hmem (hq.remembered hk)
  · exact absurd rfl (hq.ended hmem hl)

end Queued

section Invariant

variable (ht : Consistent t) (hq : Queued t)
include ht hq

theorem intact (hn : t.history = n) : Intact n t where
  apart := fun _ _ hl => ht.apart hl
  awaiting := fun _ _ hl => ⟨ht.lt_size_of_live hl, ht.empty_of_awaiting hl⟩
  settled := fun _ _ hl => (ht.told hl).symm
  retired := fun _ _ hk => ht.retired hk
  queued := fun _ _ hk => List.count_eq_one_of_mem (.of_map _ hq.apart) (hq.remembered hk)
  bounded := hn ▸ hq.bounded
  unshared := by
    intro first second k hfirst hsecond
    rw [keeps_iff ht.toSound] at hfirst hsecond
    rcases hfirst with hfirst | hfirst <;> rcases hsecond with hsecond | hsecond
    · exact ht.unshared hfirst hsecond
    · exact (hq.eq_of_bound hsecond hfirst).symm
    · exact hq.eq_of_bound hfirst hsecond
    · exact hq.eq_of_queued hfirst hsecond

theorem owns_of_keeps (hk : Keeps t id k) : Owns t id k := by
  refine ⟨?_, fun hother => (intact ht hq rfl).unshared _ _ _ hother hk⟩
  rcases (keeps_iff ht.toSound).mp hk with hk | hk
  · exact ht.allotted hk
  · exact hq.allotted hk

end Invariant

namespace Step

variable (ht : Consistent t) (hstep : Step t c a t')
include ht hstep

/-- What is in the queue after a step was there before, or was bound to its id. -/
theorem mem_order (hk : (id, k) ∈ t'.order) : (id, k) ∈ t.order ∨ t.ticket? id = some k := by
  cases hstep.historyStep ht.toSound with
  | quiet _ order _ _ => exact .inl (order ▸ hk)
  | meets other l hlive _ _ order _ =>
    rw [order] at hk
    rcases List.mem_append.mp ((takeOut_order_sublist t other l.ticket).subset hk) with hold | hnew
    · exact .inl hold
    · cases List.mem_singleton.mp hnew
      exact .inr (ht.ticket?_of_live hlive)

/-- A step keeps no slot for an id but those that were kept for it, and fresh ones. -/
theorem kept_or_fresh (hk : Keeps t' id k) : Keeps t id k ∨ k = t.slots.size := by
  rw [keeps_iff (ht.after_step hstep).toSound] at hk
  rw [keeps_iff ht.toSound]
  rcases hk with hk | hk
  · exact (hstep.bound_or_fresh ht hk).imp .inl fun hfresh => hfresh.2.2
  · exact .inl (hstep.mem_order ht hk).symm

theorem owns (hk : Owns t id k) : Owns t' id k := by
  refine ⟨Nat.lt_of_lt_of_le hk.allotted hstep.size_le, ?_⟩
  intro other hother
  rcases hstep.kept_or_fresh ht hother with hold | hfresh
  · exact hk.own hold
  · exact absurd hfresh (Nat.ne_of_lt hk.allotted)

/-- Only calls on the id that a slot belongs to write to the slot. -/
theorem outcome?_of_owns (hk : Owns t id k) (hc : ¬ c.Concerns id) :
    t'.outcome? k = t.outcome? k := by
  cases hstep with
  | plantFilled _ | plantEmpty _ => rw [enter_outcome?, if_neg (Nat.ne_of_lt hk.allotted)]
  | @fillWaiting other x j hlive =>
    have hne : k ≠ j := by
      rintro rfl
      exact hc (.inl (hk.own (.live hlive)))
    rw [ht.takeOut_fill_outcome? hlive, if_neg hne]
  | fetchSettled _ => exact takeOut_outcome? _ _ _ _
  | late _ _ | found _ _ | release | read => rfl

omit ht in
theorem live_get?_of_other (hc : ¬ c.Concerns id) : t'.live.get? id = t.live.get? id := by
  cases hstep with
  | plantFilled _ | plantEmpty _ => rw [enter_live_get?, if_neg fun heq => hc (.inl heq.symm)]
  | fillWaiting _ =>
    rw [fill_live, takeOut_live_get?, if_neg fun heq => hc (.inl heq.symm)]
  | fetchSettled _ => rw [takeOut_live_get?, if_neg fun heq => hc (.inl heq.symm)]
  | late _ _ | found _ _ | read => rfl
  | @release other =>
    rw [release_live_get?, if_neg fun heq => hc (.inr (congrArg Call.release heq.symm))]

end Step

/-- A handle is given out for a slot that belongs to its id. -/
theorem owns_of_handed (ht : Consistent t) (hq : Queued t)
    (hstep : Step t (.await id) (.handle ⟨id, k⟩) t') : Owns t' id k := by
  have hbound (hk : t.ticket? id = some k) : Owns t' id k :=
    hstep.owns ht (owns_of_keeps ht hq ((keeps_iff ht.toSound).mpr (.inl hk)))
  cases hstep with
  | plantEmpty hid =>
    have hlive : (t.enter id none).live.get? id = some (.awaiting t.slots.size) := by
      rw [enter_live_get?, if_pos rfl]
      rfl
    exact owns_of_keeps (ht.enter hid none) (hq.enter id none) (.live hlive)
  | fetchSettled hlive => exact hbound (ht.ticket?_of_live hlive)
  | found hk _ => exact hbound hk

theorem owns_run (ht : Consistent t) (hk : Owns t id k) (calls : List (Call α)) :
    Owns (t.run calls) id k := by
  induction calls generalizing t with
  | nil => exact hk
  | cons c calls ih =>
    have hstep := ht.step c
    exact ih (ht.after_step hstep) (hstep.owns ht hk)

theorem Given.owns {calls : List (Call α)} (hgiven : Given n calls h) :
    Owns (after n calls) h.id h.ticket := by
  obtain ⟨before, later, rfl, hanswer⟩ := hgiven
  have hstep := step_after n before (.await h.id)
  rw [hanswer] at hstep
  have howns := owns_of_handed (Consistent.after n before) (Queued.after n before) hstep
  rw [List.append_cons, after_append]
  exact owns_run (Consistent.after n _) howns later

/-- What is handed out for an id is not what was handed out before for another one. -/
theorem eq_of_handed (ht : Consistent t) (hk : Owns t id k)
    (hstep : Step t (.await other) (.handle ⟨other, k⟩) t') : other = id := by
  cases hstep with
  | plantEmpty _ => exact absurd hk.allotted (Nat.lt_irrefl _)
  | fetchSettled hlive => exact hk.own (.live hlive)
  | found hbound _ => exact hk.own ((keeps_iff ht.toSound).mpr (.inl hbound))

theorem Given.id_eq_of_answer {calls : List (Call α)} {h' : Handle} (hgiven : Given n calls h)
    (hanswer : answer n calls (.await h'.id) = .handle h') (hticket : h.ticket = h'.ticket) :
    h'.id = h.id := by
  have hstep := step_after n calls (.await h'.id)
  rw [hanswer] at hstep
  exact eq_of_handed (Consistent.after n calls) (hticket ▸ hgiven.owns) hstep

theorem Given.id_eq {calls : List (Call α)} {h' : Handle} (hgiven : Given n calls h)
    (hgiven' : Given n calls h') (hticket : h.ticket = h'.ticket) : h.id = h'.id := by
  obtain ⟨before, later, hcalls, hanswer⟩ := hgiven
  obtain ⟨before', later', rfl, hanswer'⟩ := hgiven'
  -- one of the two was given out before the other, unless they are answers to the same call
  rcases List.append_eq_append_iff.mp hcalls with ⟨mid, rfl, htail⟩ | ⟨mid, rfl, htail⟩
  · rcases List.cons_eq_append_iff.mp htail with ⟨_, hsame⟩ | ⟨mid, rfl, _⟩
    · exact Call.await.inj (List.head_eq_of_cons_eq hsame)
    · have hearlier : Given n (before' ++ .await h'.id :: mid) h' := ⟨before', mid, rfl, hanswer'⟩
      exact hearlier.id_eq_of_answer hanswer hticket.symm
  · rcases List.cons_eq_append_iff.mp htail with ⟨_, hsame⟩ | ⟨mid, rfl, _⟩
    · exact (Call.await.inj (List.head_eq_of_cons_eq hsame)).symm
    · have hearlier : Given n (before ++ .await h.id :: mid) h := ⟨before, mid, rfl, hanswer⟩
      exact (hearlier.id_eq_of_answer hanswer' hticket).symm

/-- The parts of a table fit together after every run, and no slot was handed out for two ids. Then
a settling call that finds its id in the history changes nothing, and a call on one id changes
neither the live entry of another id nor what is read by a handle that was given out for it. -/
theorem remains_intact (n : Nat) (calls : List (Call α)) :
    Intact n (after n calls) ∧
    (∀ h h', Given n calls h → Given n calls h' → h.ticket = h'.ticket → h.id = h'.id) ∧
    (∀ id k, (after n calls).retired.get? id = some k →
      ∀ x, (after n calls).settle id x = (after n calls, false)) ∧
    ∀ c id, ¬ c.Concerns id →
      (after n (calls ++ [c])).live.get? id = (after n calls).live.get? id ∧
      ∀ h, Given n calls h → h.id = id →
        (after n (calls ++ [c])).read h = (after n calls).read h := by
  have ht := Consistent.after n calls
  refine ⟨intact ht (Queued.after n calls) (after_history n calls), ?_, ?_, ?_⟩
  · exact fun h h' hgiven hgiven' hticket => hgiven.id_eq hgiven' hticket
  · exact fun id k hk x => ht.settle_of_retired hk x
  · intro c id hc
    have hstep := step_after n calls c
    refine ⟨hstep.live_get?_of_other hc, ?_⟩
    rintro h hgiven rfl
    exact hstep.outcome?_of_owns ht hgiven.owns hc

theorem crowdedOut_leaves_first : ∃ (calls : List (Call String)) (h : Handle),
    Intact 1 (after 1 calls) ∧ Given 1 calls h ∧ (after 1 calls).retired.get? 7 = some h.ticket ∧
    (after 1 calls).settle 7 "again" = (after 1 calls, false) ∧
    (after 1 (calls ++ [.settle 8 "second"])).live.get? 7 = none ∧
    (after 1 (calls ++ [.settle 8 "second"])).read h = some "first" := by
  have hretired :
      (after 1 [.settle 7 "first", .await 7, .await 8]).retired.get? 7 = some 0 := by
    decide
  have hgiven : Given 1 [.settle 7 "first", .await 7, .await 8] ⟨7, 0⟩ :=
    ⟨[.settle 7 "first"], [.await 8], rfl, by decide⟩
  have hother : ¬ (Call.settle 8 "second").Concerns 7 := by
    rintro (heq | heq)
    · exact absurd (show (8 : UInt32) = 7 from heq) (by decide)
    · cases heq
  obtain ⟨hintact, _, hlate, hcalls⟩ := remains_intact 1 [.settle 7 "first", .await 7, .await 8]
  obtain ⟨hlive, hread⟩ := hcalls (.settle 8 "second") 7 hother
  exact ⟨_, ⟨7, 0⟩, hintact, hgiven, hretired, hlate 7 0 hretired _, hlive.trans (by decide),
    (hread _ hgiven rfl).trans (by decide)⟩

end SlotTable

end Remoting
