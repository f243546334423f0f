import Mathlib.Data.List.DropRight
import Remoting.Proofs.SlotEpochs

/-!
# The memory of slots where both sides met

Every slot at which the two sides meet is put at the end of a queue, which holds the last of them,
no more than the history allows. What the history remembers stands in this queue, once and with the
same slot. So an id is remembered until it is released or so many other slots were put behind it.
-/

namespace Remoting

/-- The second side comes to the live entry of the id. -/
def Live.CompletedBy {α : Type} (id : UInt32) : Live → Call α → Prop
  | .awaiting _, .settle other _ => other = id
  | .settled _, .await other => other = id
  | _, _ => False

/-- Only the last of a list is kept, whether or not the rest was dropped before. -/
theorem rtake_rtake_append {β : Type} (l r : List β) (n : Nat) :
    (l.rtake n ++ r).rtake n = (l ++ r).rtake n := by
  by_cases hle : l.length ≤ n
  · have hall : l.rtake n = l := by
      rw [List.rtake, Nat.sub_eq_zero_of_le hle, List.drop_zero]
    rw [hall]
  · have hlength : (l.drop (l.length - n)).length = n := by
      rw [List.length_drop]
      omega
    have hsplit : (l ++ r).length - n = (l.length - n) + r.length := by
      rw [List.length_append]
      omega
    rw [List.rtake, List.rtake, List.rtake, hsplit, ← List.drop_drop, List.length_append, hlength,
      Nat.add_sub_cancel_left, List.drop_append_of_le_length (Nat.sub_le _ _)]

theorem rtake_append_cons {β : Type} {older recent : List β} {e : β} {n : Nat}
    (h : recent.length < n) :
    (older ++ e :: recent).rtake n = older.rtake (n - (recent.length + 1)) ++ e :: recent := by
  have hcut : (older ++ e :: recent).length - n =
      older.length - (n - (recent.length + 1)) := by
    rw [List.length_append, List.length_cons]
    omega
  rw [List.rtake, hcut, List.drop_append_of_le_length (Nat.sub_le _ _), List.rtake]

namespace SlotTable

variable {α : Type} {t t' : SlotTable α} {id : UInt32} {k : Ticket} {c : Call α} {a : Answer α}

/-- The slot at which the two sides of an id meet with the call. -/
def meeting? (t : SlotTable α) : Call α → Option (UInt32 × Ticket)
  | .settle id _ =>
    match t.live.get? id with
    | some (.awaiting k) => some (id, k)
    | _ => none
  | .await id =>
    match t.live.get? id with
    | some (.settled k) => some (id, k)
    | _ => none
  | _ => none

/-- The slots at which two sides meet in a run, in their order. -/
def meetings (t : SlotTable α) : List (Call α) → List (UInt32 × Ticket)
  | [] => []
  | c :: calls => (t.meeting? c).toList ++ (t.step c).1.meetings calls

theorem live_get?_ne_of_unknown (hid : t.ticket? id = none) (l : Live) :
    t.live.get? id ≠ some l := by
  rw [(ticket?_eq_none_iff.mp hid).1]
  exact (Option.some_ne_none l).symm

theorem Sound.live_get?_of_retired (ht : Sound t) (hk : t.retired.get? id = some k) :
    t.live.get? id = none := by
  cases hlive : t.live.get? id with
  | none => rfl
  | some l =>
    have hnone := ht.apart hlive
    rw [hk] at hnone
    cases hnone

theorem evict_order (t : SlotTable α) :
    t.evict.order = if t.order.length = t.history then t.order.tail else t.order := by
  unfold evict
  split
  · split
    · rename_i horder
      rw [horder]
      rfl
    · rename_i horder
      rw [horder]
      rfl
  · rfl

theorem takeOut_order (hpos : t.history ≠ 0) (id : UInt32) (k : Ticket) :
    (t.takeOut id k).order = t.evict.order ++ [(id, k)] := by
  unfold takeOut retire
  dsimp only
  rw [if_neg hpos, evict_order, evict_order]

theorem takeOut_order_of_zero (hzero : t.history = 0) (id : UInt32) (k : Ticket) :
    (t.takeOut id k).order = t.order := by
  unfold takeOut retire
  dsimp only
  rw [if_pos hzero]

theorem takeOut_remembers (hpos : t.history ≠ 0) (id : UInt32) (k : Ticket) :
    (t.takeOut id k).order = t.evict.order ++ [(id, k)] ∧
      (t.takeOut id k).retired.get? id = some k := by
  refine ⟨takeOut_order hpos id k, ?_⟩
  rw [takeOut_retired_get?, if_neg hpos, if_pos rfl]

/-- What the history remembers stands in the queue, once and with the same slot. -/
structure Queued (t : SlotTable α) : Prop where
  bounded : t.order.length ≤ t.history
  apart : (t.order.map (·.2)).Nodup
  allotted : ∀ {id k}, (id, k) ∈ t.order → k < t.slots.size
  ended : ∀ {id other k l}, (id, k) ∈ t.order → t.live.get? other = some l → l.ticket ≠ k
  remembered : ∀ {id k}, t.retired.get? id = some k → (id, k) ∈ t.order

theorem takeOut_order_sublist (t : SlotTable α) (id : UInt32) (k : Ticket) :
    (t.takeOut id k).order.Sublist (t.order ++ [(id, k)]) := by
  by_cases hzero : t.history = 0
  · rw [takeOut_order_of_zero hzero]
    exact List.sublist_append_left _ _
  · rw [takeOut_order hzero, evict_order]
    apply List.Sublist.append_right
    split
    · exact List.tail_sublist _
    · exact List.Sublist.refl _

namespace Queued

theorem withHistory (n : Nat) : Queued (withHistory n : SlotTable α) :=
  ⟨Nat.zero_le _, List.nodup_nil, nofun, nofun, nofun⟩

theorem enter (hq : Queued t) (id : UInt32) (o : Option α) : Queued (t.enter id o) where
  bounded := hq.bounded
  apart := hq.apart
  allotted := by
    intro id k hk
    rw [enter_size]
    exact Nat.lt_succ_of_lt (hq.allotted hk)
  ended := by
    intro first other k l hk hl
    have hlt := hq.allotted hk
    rw [enter_live_get?] at hl
    split at hl
    · cases hl
      rw [Live.ticket_of]
      exact (Nat.ne_of_lt hlt).symm
    · exact hq.ended hk hl
  remembered := hq.remembered

theorem fill (hq : Queued t) (k : Ticket) (x : α) : Queued (t.fill k x).1 where
  bounded := by
    rw [fill_order, fill_history]
    exact hq.bounded
  apart := by
    rw [fill_order]
    exact hq.apart
  allotted := by
    intro id j hj
    rw [fill_order] at hj
    rw [fill_size]
    exact hq.allotted hj
  ended := by
    intro id other j l hj hl
    rw [fill_order] at hj
    rw [fill_live] at hl
    exact hq.ended hj hl
  remembered := by
    intro id j hj
    rw [fill_retired] at hj
    rw [fill_order]
    exact hq.remembered hj

theorem release (hq : Queued t) (id : UInt32) : Queued (t.release id).1 where
  bounded := hq.bounded
  apart := hq.apart
  allotted := hq.allotted
  ended := by
    intro first other k l hk hl
    rw [release_live_get?] at hl
    split at hl
    · cases hl
    · exact hq.ended hk hl
  remembered := by
    intro other k hk
    rw [release_retired_get?] at hk
    split at hk
    · cases hk
    · exact hq.remembered hk

/-- Only the slot at the head of a full queue is dropped. -/
theorem mem_evict_order_iff (hq : Queued t) (h : t.retired.get? id = some k) :
    (id, k) ∈ t.evict.order ↔ t.outgoing? ≠ some id := by
  have hmem := hq.remembered h
  have hapart := hq.apart
  rw [evict_order, ne_eq, outgoing?_eq_some_iff]
  cases horder : t.order with
  | nil =>
    rw [horder] at hmem
    cases hmem
  | cons e order =>
    rw [horder] at hmem hapart
    rw [List.map_cons, List.nodup_cons] at hapart
    by_cases hfull : (e :: order).length = t.history
    · rw [if_pos hfull, List.tail_cons]
      constructor
      · -- the tickets in the queue are apart, so the head does not come a second time
        rintro hlater ⟨j, rest, hhead, _, hj⟩
        rw [h] at hj
        cases hj
        cases hhead
        exact hapart.1 (List.mem_map_of_mem hlater)
      · intro hnot
        rcases List.mem_cons.mp hmem with rfl | hlater
        · exact absurd ⟨k, order, rfl, hfull, h⟩ hnot
        · exact hlater
    · rw [if_neg hfull]
      refine iff_of_true hmem ?_
      rintro ⟨_, _, _, hfull', _⟩
      exact hfull hfull'

theorem takeOut (hq : Queued t) (ht : Sound t) {l : Live} (hl : t.live.get? id = some l) :
    Queued (t.takeOut id l.ticket) where
  bounded := by
    have hbounded := hq.bounded
    rw [takeOut_history]
    by_cases hzero : t.history = 0
    · rwa [takeOut_order_of_zero hzero]
    · rw [takeOut_order hzero, evict_order, List.length_append, List.length_singleton]
      split
      · rw [List.length_tail]
        omega
      · omega
  apart := by
    have hfresh : l.ticket ∉ t.order.map (·.2) := by
      intro hmem
      obtain ⟨e, he, heq⟩ := List.mem_map.mp hmem
      exact hq.ended he hl heq.symm
    have hall : ((t.order ++ [(id, l.ticket)]).map (·.2)).Nodup := by
      rw [List.map_append, List.nodup_append]
      refine ⟨hq.apart, by simp, ?_⟩
      intro j hj j' hj' heq
      rw [heq, List.mem_singleton.mp hj'] at hj
      exact hfresh hj
    exact hall.sublist ((takeOut_order_sublist t id l.ticket).map _)
  allotted := by
    intro other j hj
    rw [takeOut_slots]
    rcases List.mem_append.mp ((takeOut_order_sublist t id l.ticket).subset hj) with hold | hnew
    · exact hq.allotted hold
    · cases List.mem_singleton.mp hnew
      exact ht.lt_size_of_live hl
  ended := by
    intro first other j l' hj hl'
    rw [takeOut_live_get?] at hl'
    split at hl'
    · cases hl'
    · rename_i hother
      rcases List.mem_append.mp ((takeOut_order_sublist t id l.ticket).subset hj) with hold | hnew
      · exact hq.ended hold hl'
      · -- another live entry with the slot that was taken out would share it
        cases List.mem_singleton.mp hnew
        intro heq
        have hbound := ht.ticket?_of_live hl'
        rw [heq] at hbound
        exact hother (ht.unshared hbound (ht.ticket?_of_live hl))
  remembered := by
    intro other j hj
    rw [takeOut_retired_get?] at hj
    by_cases hzero : t.history = 0
    · rw [if_pos hzero] at hj
      rw [takeOut_order_of_zero hzero]
      exact hq.remembered hj
    · rw [if_neg hzero] at hj
      rw [takeOut_order hzero, List.mem_append, List.mem_singleton]
      by_cases hother : other = id
      · rw [if_pos hother] at hj
        cases hj
        rw [hother]
        exact .inr rfl
      · rw [if_neg hother] at hj
        split at hj
        · cases hj
        · rename_i hout
          exact .inl ((hq.mem_evict_order_iff hj).mpr hout)

theorem after_step (hq : Queued t) (ht : Sound t) (h : Step t c a t') : Queued t' := by
  cases h with
  | plantFilled _ | plantEmpty _ => exact hq.enter _ _
  | fillWaiting hlive => exact (hq.takeOut ht hlive).fill _ _
  | fetchSettled hlive => exact hq.takeOut ht hlive
  | late _ _ | found _ _ | read => exact hq
  | release => exact hq.release _

theorem run (hq : Queued t) (ht : Consistent t) (calls : List (Call α)) : Queued (t.run calls) := by
  induction calls generalizing t with
  | nil => exact hq
  | cons c calls ih =>
    have h := ht.step c
    exact ih (hq.after_step ht.toSound h) (ht.after_step h)

theorem after (n : Nat) (calls : List (Call α)) : Queued (SlotTable.after n calls) :=
  (Queued.withHistory n).run (Consistent.empty n) calls

end Queued

theorem takeOut_order_eq_rtake (hle : t.order.length ≤ t.history) (id : UInt32) (k : Ticket) :
    (t.takeOut id k).order = (t.order ++ [(id, k)]).rtake t.history := by
  by_cases hzero : t.history = 0
  · rw [takeOut_order_of_zero hzero, hzero, List.rtake_zero]
    exact List.eq_nil_of_length_eq_zero (by omega)
  · rw [takeOut_order hzero, evict_order, List.rtake, List.length_append, List.length_singleton]
    by_cases hfull : t.order.length = t.history
    · rw [if_pos hfull, hfull, Nat.add_sub_cancel_left,
        List.drop_append_of_le_length (by omega), List.drop_one]
    · have hroom : t.order.length + 1 - t.history = 0 := by omega
      rw [if_neg hfull, hroom, List.drop_zero]

/-- What a step does to the history: two sides meet at a live entry, which is taken out, or at most
an id is released. -/
inductive HistoryStep (t : SlotTable α) (c : Call α) (t' : SlotTable α) : Prop
  | quiet (unmet : t.meeting? c = none) (order : t'.order = t.order)
      (kept : ∀ id, c ≠ .release id → t'.retired.get? id = t.retired.get? id)
      (released : ∀ id, c = .release id → t'.retired.get? id = none)
  | meets (id : UInt32) (l : Live) (live : t.live.get? id = some l)
      (met : t.meeting? c = some (id, l.ticket)) (spared : ∀ other, c ≠ .release other)
      (order : t'.order = (t.takeOut id l.ticket).order)
      (retired : t'.retired = (t.takeOut id l.ticket).retired)

theorem Step.historyStep (ht : Sound t) (h : Step t c a t') : HistoryStep t c t' := by
  cases h with
  | plantFilled hid | plantEmpty hid =>
    refine .quiet ?_ rfl (fun _ _ => rfl) nofun
    rw [meeting?, (ticket?_eq_none_iff.mp hid).1]
  | fillWaiting hlive =>
    refine .meets _ _ hlive ?_ nofun (fill_order _ _ _) (fill_retired _ _ _)
    rw [meeting?, hlive]
    rfl
  | fetchSettled hlive =>
    refine .meets _ _ hlive ?_ nofun rfl rfl
    rw [meeting?, hlive]
    rfl
  | @late id x y k hbound hfilled =>
    refine .quiet ?_ rfl (fun _ _ => rfl) nofun
    rw [meeting?]
    split
    · rename_i j hlive
      have heq : k = j := Option.some.inj (hbound.symm.trans (ht.ticket?_of_live hlive))
      have hempty := ht.empty_of_awaiting hlive
      rw [← heq, hfilled] at hempty
      cases hempty
    · rfl
  | @found id k hbound hlive =>
    refine .quiet ?_ rfl (fun _ _ => rfl) nofun
    rw [meeting?]
    split
    · rename_i j hj
      exact absurd hj (hlive j)
    · rfl
  | @release id =>
    refine .quiet rfl rfl (fun other hother => ?_) (fun other hother => ?_)
    · rw [release_retired_get?, if_neg]
      rintro rfl
      exact hother rfl
    · cases hother
      rw [release_retired_get?, if_pos rfl]
  | read => exact .quiet rfl rfl (fun _ _ => rfl) nofun

namespace Step

/-- The queue holds the last slots where both sides met, as many as the history allows. -/
theorem order_eq (hq : Queued t) (ht : Sound t) (h : Step t c a t') :
    t'.order = (t.order ++ (t.meeting? c).toList).rtake t.history := by
  cases h.historyStep ht with
  | quiet unmet order _ _ =>
    rw [unmet, order, Option.toList_none, List.append_nil, List.rtake,
      Nat.sub_eq_zero_of_le hq.bounded, List.drop_zero]
  | meets id l _ met _ order _ =>
    rw [met, order]
    exact takeOut_order_eq_rtake hq.bounded _ _

/-- A remembered slot is remembered as long as it stands in the queue and is not released. -/
theorem retired_kept (hq : Queued t) (ht : Sound t) (h : Step t c a t')
    (hk : t.retired.get? id = some k) (hc : c ≠ .release id) (hmem : (id, k) ∈ t'.order) :
    t'.retired.get? id = some k := by
  cases h.historyStep ht with
  | quiet _ _ kept _ => rw [kept id hc, hk]
  | meets other l hlive _ _ order retired =>
    have hother : id ≠ other := by
      rintro rfl
      rw [ht.live_get?_of_retired hk] at hlive
      cases hlive
    rw [order] at hmem
    rw [retired, takeOut_retired_get?]
    by_cases hzero : t.history = 0
    · rw [if_pos hzero, hk]
    · rw [takeOut_order hzero, List.mem_append, List.mem_singleton] at hmem
      have hkept := hmem.resolve_right fun heq => hother (congrArg Prod.fst heq)
      rw [if_neg hzero, if_neg hother, if_neg ((hq.mem_evict_order_iff hk).mp hkept), hk]

/-- A live entry stays until its second side comes or its id is released. -/
theorem live_kept (h : Step t c a t') {l : Live} (hl : t.live.get? id = some l)
    (hc : c ≠ .release id) (hopen : ¬ l.CompletedBy id c) : t'.live.get? id = some l := by
  cases h with
  | plantFilled hother | plantEmpty hother =>
    rw [enter_live_get?, if_neg, hl]
    rintro rfl
    exact live_get?_ne_of_unknown hother l hl
  | @fillWaiting other x j hlive =>
    rw [fill_live, takeOut_live_get?, if_neg, hl]
    rintro rfl
    rw [hlive] at hl
    cases hl
    exact hopen rfl
  | @fetchSettled other j hlive =>
    rw [takeOut_live_get?, if_neg, hl]
    rintro rfl
    rw [hlive] at hl
    cases hl
    exact hopen rfl
  | late _ _ | found _ _ | read => exact hl
  | @release other =>
    have hother : id ≠ other := fun heq => hc (congrArg Call.release heq.symm)
    rw [release_live_get?, if_neg hother, hl]

theorem outcome?_of_filled (ht : Consistent t) (h : Step t c a t') {x : α}
    (hx : t.outcome? k = some x) : t'.outcome? k = some x := by
  -- bound to an id, the slot keeps its first outcome; bound to none, it is not written at all
  by_cases hbound : ∃ id, t.ticket? id = some k
  · obtain ⟨id, hid⟩ := hbound
    rw [h.outcome?_of_bound ht hid, hx, Option.some_or]
  · have hk : k < t.slots.size := by
      by_contra hnot
      rw [outcome?, Array.getElem?_eq_none (Nat.le_of_not_lt hnot)] at hx
      cases hx
    rw [h.outcome?_of_orphaned ht ⟨hk, not_exists.mp hbound⟩, hx]

end Step

theorem meetings_append (t : SlotTable α) (calls more : List (Call α)) :
    t.meetings (calls ++ more) = t.meetings calls ++ (t.run calls).meetings more := by
  induction calls generalizing t with
  | nil => rfl
  | cons c calls ih =>
    rw [List.cons_append, meetings, ih, meetings, List.append_assoc]
    rfl

section Run

variable (ht : Consistent t)
include ht

theorem outcome?_run_of_filled {x : α} (hx : t.outcome? k = some x) (calls : List (Call α)) :
    (t.run calls).outcome? k = some x := by
  induction calls generalizing t with
  | nil => exact hx
  | cons c calls ih =>
    have h := ht.step c
    exact ih (ht.after_step h) (h.outcome?_of_filled ht hx)

theorem live_run {l : Live} (hl : t.live.get? id = some l) {calls : List (Call α)}
    (hopen : ∀ c ∈ calls, c ≠ .release id ∧ ¬ l.CompletedBy id c) :
    (t.run calls).live.get? id = some l := by
  induction calls generalizing t with
  | nil => exact hl
  | cons c calls ih =>
    have h := ht.step c
    obtain ⟨hc, hopen'⟩ := hopen c List.mem_cons_self
    exact ih (ht.after_step h) (h.live_kept hl hc hopen')
      fun c hc => hopen c (List.mem_cons_of_mem _ hc)

theorem history_run (calls : List (Call α)) : (t.run calls).history = t.history := by
  induction calls generalizing t with
  | nil => rfl
  | cons c calls ih =>
    have h := ht.step c
    exact (ih (ht.after_step h)).trans h.history_eq

/-- After a run the queue holds the last meetings, as many as the history allows. -/
theorem order_run (hq : Queued t) (calls : List (Call α)) :
    (t.run calls).order = (t.order ++ t.meetings calls).rtake t.history := by
  induction calls generalizing t with
  | nil =>
    rw [meetings, List.append_nil, List.rtake, Nat.sub_eq_zero_of_le hq.bounded, List.drop_zero]
    rfl
  | cons c calls ih =>
    have h := ht.step c
    have htail := ih (ht.after_step h) (hq.after_step ht.toSound h)
    rw [h.order_eq hq ht.toSound, h.history_eq, rtake_rtake_append, List.append_assoc] at htail
    exact htail

/-- The slot that was put in the queue last is remembered until it is released or as many others
were put behind it as the history allows. -/
theorem retired_run (hq : Queued t) {older : List (UInt32 × Ticket)}
    (horder : t.order = older ++ [(id, k)]) (hk : t.retired.get? id = some k)
    {calls : List (Call α)} (hkept : .release id ∉ calls)
    (hroom : (t.meetings calls).length < t.history) :
    (t.run calls).retired.get? id = some k := by
  induction calls using List.reverseRecOn with
  | nil => exact hk
  | append_singleton calls c ih =>
    -- still in the queue behind the last call, the slot is not the one that this call drops
    have hmem : (id, k) ∈ (t.run (calls ++ [c])).order := by
      rw [order_run ht hq, horder, List.append_assoc, List.singleton_append,
        rtake_append_cons hroom]
      exact List.mem_append_right _ List.mem_cons_self
    rw [List.mem_append, List.mem_singleton, not_or] at hkept
    rw [meetings_append, List.length_append] at hroom
    have hbefore := ih hkept.1 (by omega)
    have h := (ht.run calls).step c
    rw [run_append] at hmem ⊢
    exact h.retired_kept (hq.run ht calls) (ht.run calls).toSound hbefore
      (fun heq => hkept.2 heq.symm) hmem

end Run

end SlotTable

end Remoting
