import Mathlib.Data.List.Nodup
import Mathlib.Data.List.Perm.Subperm
import Remoting.Proofs.SlotMemory

/-!
# What the history remembers

An id is remembered exactly if one of the last meetings, as many as the history allows, was at this
id, and the id was not released since. The slots of released ids keep their places in the queue, so
an id that is met again may stand there twice; only the later of the two meetings is remembered.
-/

namespace Remoting

theorem exists_recent_of_mem_rtake {β : Type} {l : List β} {e : β} {n : Nat} (h : e ∈ l.rtake n) :
    ∃ older recent, l = older ++ e :: recent ∧ recent.length < n := by
  obtain ⟨front, recent, hsplit⟩ := List.append_of_mem h
  have hlength : (l.rtake n).length ≤ n := by
    rw [List.rtake, List.length_drop]
    omega
  rw [hsplit, List.length_append, List.length_cons] at hlength
  refine ⟨l.take (l.length - n) ++ front, recent, ?_, by omega⟩
  rw [List.append_assoc, ← hsplit, List.rtake, List.take_append_drop]

namespace SlotTable

variable {α : Type} {t t' : SlotTable α} {id : UInt32} {k : Ticket} {c : Call α} {a : Answer α}

/-- With the call behind `before` the two sides of the id met at the slot, and fewer than `n` other
meetings came later. -/
structure Recent (n : Nat) (before : List (Call α)) (c : Call α) (later : List (Call α))
    (id : UInt32) (k : Ticket) : Prop where
  met : (after n before).meeting? c = some (id, k)
  recent : ((after n (before ++ [c])).meetings later).length < n

/-- A recent meeting whose id was not released since. -/
structure Stands (n : Nat) (before : List (Call α)) (c : Call α) (later : List (Call α))
    (id : UInt32) (k : Ticket) : Prop extends Recent n before c later id k where
  kept : .release id ∉ later

variable {n : Nat} {before later : List (Call α)}

theorem run_after (n : Nat) (before : List (Call α)) (c : Call α) (later : List (Call α)) :
    (after n (before ++ [c])).run later = after n (before ++ c :: later) := by
  rw [← after_append, List.append_assoc, List.singleton_append]

/-- Each meeting of a run is made by one of its calls. -/
theorem exists_call_of_meetings {calls : List (Call α)} {older recent : List (UInt32 × Ticket)}
    {e : UInt32 × Ticket} (h : t.meetings calls = older ++ e :: recent) :
    ∃ before c later, calls = before ++ c :: later ∧ (t.run before).meeting? c = some e ∧
      (t.run (before ++ [c])).meetings later = recent := by
  induction calls generalizing t older with
  | nil =>
    rw [meetings] at h
    exact absurd h (by simp)
  | cons c calls ih =>
    rw [meetings] at h
    cases hmet : t.meeting? c with
    | none =>
      rw [hmet] at h
      obtain ⟨before, d, later, rfl, hd, hlater⟩ := ih h
      exact ⟨c :: before, d, later, rfl, hd, hlater⟩
    | some first =>
      rw [hmet] at h
      cases older with
      | nil =>
        cases h
        exact ⟨[], c, calls, rfl, hmet, rfl⟩
      | cons _ older =>
        obtain ⟨before, d, later, rfl, hd, hlater⟩ := ih (List.cons.inj h).2
        exact ⟨c :: before, d, later, rfl, hd, hlater⟩

/-- What is remembered after a step was so before, or the two sides have just met there. -/
theorem Step.retired_or_met (ht : Sound t) (h : Step t c a t') (hk : t'.retired.get? id = some k) :
    t.retired.get? id = some k ∨ t.meeting? c = some (id, k) := by
  cases h.historyStep ht with
  | quiet _ _ kept released =>
    have hc : c ≠ .release id := by
      intro hc
      rw [released id hc] at hk
      cases hk
    rw [kept id hc] at hk
    exact .inl hk
  | meets other l _ met _ _ retired =>
    rw [retired, takeOut_retired_get?] at hk
    split at hk
    · exact .inl hk
    · split at hk
      · rename_i hother
        cases hk
        rw [met, hother]
        exact .inr rfl
      · split at hk
        · cases hk
        · exact .inl hk

theorem retired_or_met (ht : Consistent t) {calls : List (Call α)}
    (hk : (t.run calls).retired.get? id = some k) :
    t.retired.get? id = some k ∨ (id, k) ∈ t.meetings calls := by
  induction calls generalizing t with
  | nil => exact .inl hk
  | cons c calls ih =>
    have h := ht.step c
    rw [meetings, List.mem_append, Option.mem_toList]
    rcases ih (ht.after_step h) hk with hbefore | hlater
    · exact (h.retired_or_met ht.toSound hbefore).imp_right .inl
    · exact .inr (.inr hlater)

theorem after_concat (n : Nat) (calls : List (Call α)) (c : Call α) :
    after n (calls ++ [c]) = ((after n calls).step c).1 :=
  after_append n calls [c]

/-- Where two sides meet, their slot is remembered last. -/
theorem remembered_of_meeting (hn : n ≠ 0) (h : (after n before).meeting? c = some (id, k)) :
    (after n (before ++ [c])).retired.get? id = some k ∧
      ∃ older, (after n (before ++ [c])).order = older ++ [(id, k)] := by
  have hpos : (after n before).history ≠ 0 := by rwa [after_history]
  cases (step_after n before c).historyStep (Consistent.after n before).toSound with
  | quiet unmet _ _ _ =>
    rw [unmet] at h
    cases h
  | meets id' l hlive met _ order retired =>
    rw [met] at h
    cases h
    obtain ⟨hlast, hkept⟩ := takeOut_remembers hpos id l.ticket
    rw [retired, order]
    exact ⟨hkept, _, hlast⟩

namespace Recent

theorem pos (h : Recent n before c later id k) : n ≠ 0 :=
  Nat.ne_zero_of_lt h.recent

/-- A recent meeting stands in the queue, in front of those that came later. -/
theorem order_eq (h : Recent n before c later id k) :
    ∃ older, (after n (before ++ c :: later)).order =
      older ++ (id, k) :: (after n (before ++ [c])).meetings later := by
  obtain ⟨_, older, horder⟩ := remembered_of_meeting h.pos h.met
  have hrun := order_run (Consistent.after n (before ++ [c])) (Queued.after n _) later
  rw [after_history, horder, List.append_assoc, List.singleton_append,
    rtake_append_cons h.recent, run_after] at hrun
  exact ⟨_, hrun⟩

/-- The slot of a recent meeting is not met again. -/
theorem not_again (h : Recent n before c later id k) (other : UInt32) :
    (other, k) ∉ (after n (before ++ [c])).meetings later := by
  intro hagain
  obtain ⟨older, horder⟩ := h.order_eq
  have hapart := (Queued.after n (before ++ c :: later)).apart
  rw [horder, List.map_append, List.map_cons, List.nodup_append, List.nodup_cons] at hapart
  exact hapart.2.1.1 (List.mem_map.mpr ⟨_, hagain, rfl⟩)

theorem not_longer {mid later' : List (Call α)} {c' : Call α} {other : UInt32}
    (h : Recent n before c later id k) (h' : Recent n (before ++ mid) c' later' other k)
    (hcalls : c :: later = mid ++ c' :: later') : mid = [] := by
  cases mid with
  | nil => rfl
  | cons d mid =>
    rw [List.cons_append] at hcalls
    cases hcalls
    refine absurd ?_ (h.not_again other)
    rw [meetings_append, run_after, meetings, h'.met]
    exact List.mem_append_right _ List.mem_cons_self

/-- A slot is met once. -/
theorem unique {before' later' : List (Call α)} {c' : Call α} {other : UInt32}
    (h : Recent n before c later id k) (h' : Recent n before' c' later' other k)
    (hcalls : before ++ c :: later = before' ++ c' :: later') : before = before' := by
  rcases List.append_eq_append_iff.mp hcalls with ⟨mid, rfl, htail⟩ | ⟨mid, rfl, htail⟩
  · rw [h.not_longer h' htail, List.append_nil]
  · rw [h'.not_longer h htail, List.append_nil]

end Recent

namespace Stands

theorem remembered (h : Stands n before c later id k) :
    (after n (before ++ c :: later)).retired.get? id = some k := by
  obtain ⟨hretired, older, horder⟩ := remembered_of_meeting h.pos h.met
  have hroom : ((after n (before ++ [c])).meetings later).length <
      (after n (before ++ [c])).history := by
    rw [after_history]
    exact h.recent
  have hrun := retired_run (Consistent.after n (before ++ [c])) (Queued.after n _) horder hretired
    h.kept hroom
  rwa [run_after] at hrun

/-- The next meeting drops the slot if its own meeting is the `n`th last. -/
theorem outgoing?_iff (h : Stands n before c later id k) :
    (after n (before ++ c :: later)).outgoing? = some id ↔
      ((after n (before ++ [c])).meetings later).length + 1 = n := by
  obtain ⟨older, horder⟩ := h.order_eq
  have hq := Queued.after n (before ++ c :: later)
  have hbounded := hq.bounded
  have hapart := hq.apart
  rw [after_history, horder, List.length_append, List.length_cons] at hbounded
  rw [horder, List.map_append, List.map_cons, List.nodup_append] at hapart
  rw [outgoing?_eq_some_iff, after_history, horder]
  constructor
  · rintro ⟨j, rest, hhead, hfull, hj⟩
    cases h.remembered.symm.trans hj
    cases older with
    | nil => exact hfull
    | cons e older =>
      -- the slot would stand at the head of the queue and again behind it
      cases hhead
      exact absurd rfl (hapart.2.2 k List.mem_cons_self k List.mem_cons_self)
  · intro hfull
    have hnone : older = [] := List.eq_nil_of_length_eq_zero (by omega)
    exact ⟨k, _, congrArg (· ++ _) hnone, by rw [hnone]; exact hfull, h.remembered⟩

end Stands

/-- The queue holds the slots of the recent meetings. -/
theorem mem_order_iff {calls : List (Call α)} :
    (id, k) ∈ (after n calls).order ↔
      ∃ before c later, calls = before ++ c :: later ∧ Recent n before c later id k := by
  constructor
  · intro hmem
    have hrun := order_run (Consistent.empty n) (.withHistory n) calls
    rw [after, hrun] at hmem
    obtain ⟨older, recent, hsplit, hlast⟩ := exists_recent_of_mem_rtake hmem
    obtain ⟨before, c, later, rfl, hmet, rfl⟩ := exists_call_of_meetings hsplit
    exact ⟨before, c, later, rfl, hmet, hlast⟩
  · rintro ⟨before, c, later, rfl, h⟩
    obtain ⟨older, horder⟩ := h.order_eq
    rw [horder]
    exact List.mem_append_right _ List.mem_cons_self

/-- Released since, the id would have to meet at the same slot again. -/
theorem Recent.stands (h : Recent n before c later id k)
    (hk : (after n (before ++ c :: later)).retired.get? id = some k) :
    Stands n before c later id k := by
  refine ⟨h, fun hmem => ?_⟩
  obtain ⟨mid, rest, rfl⟩ := List.append_of_mem hmem
  have hreleased : (after n (before ++ c :: mid ++ [.release id])).retired.get? id = none := by
    rw [after_concat]
    exact (release_retired_get? _ _ _).trans (if_pos rfl)
  rw [← List.cons_append, ← List.append_assoc, ← run_after] at hk
  rcases retired_or_met (Consistent.after n _) hk with hbefore | hagain
  · rw [hreleased] at hbefore
    cases hbefore
  · refine h.not_again id ?_
    rw [after_concat] at hagain
    rw [meetings_append, run_after, meetings]
    exact List.mem_append_right _ (List.mem_append_right _ hagain)

theorem exists_stands_of_remembered {calls : List (Call α)}
    (h : (after n calls).retired.get? id = some k) :
    ∃ before c later, calls = before ++ c :: later ∧ Stands n before c later id k := by
  obtain ⟨before, c, later, rfl, hrecent⟩ :=
    mem_order_iff.mp ((Queued.after n calls).remembered h)
  exact ⟨before, c, later, rfl, hrecent.stands h⟩

theorem remembered_iff_stands {calls : List (Call α)} :
    (after n calls).retired.get? id = some k ↔
      ∃ before c later, calls = before ++ c :: later ∧ Stands n before c later id k := by
  refine ⟨exists_stands_of_remembered, ?_⟩
  rintro ⟨before, c, later, rfl, h⟩
  exact h.remembered

/-- A remembered id refuses outcomes and gives out its slot, and the table stays as it is. No other
id does both. -/
theorem Consistent.retired_iff (ht : Consistent t) (x : α) :
    t.retired.get? id = some k ↔
      t.settle id x = (t, false) ∧ t.awaitOrCreate id = (t, ⟨id, k⟩) := by
  refine ⟨fun hk => ⟨ht.settle_of_retired hk x, awaitOrCreate_of_retired hk⟩, ?_⟩
  rintro ⟨hsettle, hawait⟩
  have hfilled := (ht.settle_step id x).settle_answer ht
  rw [hsettle] at hfilled
  cases hretired : t.retired.get? id with
  | some j =>
    rw [awaitOrCreate_of_retired hretired] at hawait
    cases hawait
    rfl
  | none =>
    cases hlive : t.live.get? id with
    | none =>
      rw [ticket?_eq_none_iff.mpr ⟨hlive, hretired⟩] at hfilled
      cases hfilled
    | some l =>
      cases l with
      | awaiting j =>
        -- a slot that waits is empty, so its first outcome is not refused
        have hempty := ht.empty_of_awaiting hlive
        rw [ht.ticket?_of_live hlive, Option.bind_some, Live.ticket, hempty] at hfilled
        cases hfilled
      | settled j =>
        -- the slot would have been taken out
        have htaken : (t.takeOut id j).live.get? id = none := by
          rw [takeOut_live_get?, if_pos rfl]
        rw [ht.awaitOrCreate_of_settled hlive] at hawait
        rw [(Prod.mk.inj hawait).1, hlive] at htaken
        cases htaken

namespace Queued

theorem remembered_subperm (hq : Queued t) : t.retired.entries.Subperm t.order :=
  t.retired.nodup_entries.subperm fun _ he => hq.remembered (Registry.get?_of_mem he)

theorem remembered_le (hq : Queued t) : t.remembered ≤ t.history :=
  hq.remembered_subperm.length_le.trans hq.bounded

end Queued

/-- The queue holds the last `n` meetings of a run. An id is remembered, with the slot of its last
meeting, if this meeting is one of them and the id was not released since; and what is remembered
are so many ids, never more than `n`. -/
theorem remembers_last_meetings (n : Nat) (calls : List (Call α)) :
    (after n calls).order = ((withHistory n).meetings calls).rtake n ∧
    (∀ id k x, (after n calls).retired.get? id = some k ↔
      (after n calls).settle id x = (after n calls, false) ∧
        (after n calls).awaitOrCreate id = (after n calls, ⟨id, k⟩)) ∧
    (∀ id k, (after n calls).retired.get? id = some k ↔
      ∃ before c later, calls = before ++ c :: later ∧ Stands n before c later id k) ∧
    (∀ id k k' before before' c c' later later',
      calls = before ++ c :: later → Stands n before c later id k →
      calls = before' ++ c' :: later' → Stands n before' c' later' id k' →
      before = before' ∧ k = k') ∧
    ∃ ids : List UInt32, ids.Nodup ∧
      (∀ id, id ∈ ids ↔
        ∃ k before c later, calls = before ++ c :: later ∧ Stands n before c later id k) ∧
      (after n calls).remembered = ids.length ∧ ids.length ≤ n := by
  have ht := Consistent.after n calls
  have hq := Queued.after n calls
  refine ⟨?_, fun _ _ x => ht.retired_iff x, fun _ _ => remembered_iff_stands, ?_, ?_⟩
  · exact order_run (Consistent.empty n) (.withHistory n) calls
  · rintro id k k' before before' c c' later later' rfl h hcalls h'
    have hsame : k' = k := by
      have hk' := h'.remembered
      rw [← hcalls, h.remembered] at hk'
      exact (Option.some.inj hk').symm
    subst hsame
    exact ⟨h.unique h'.toRecent hcalls, rfl⟩
  · refine ⟨(after n calls).retired.keys, (after n calls).retired.nodup_keys, ?_, ?_, ?_⟩
    · intro id
      rw [Registry.mem_keys_iff]
      exact exists_congr fun _ => remembered_iff_stands
    · rw [Registry.keys, List.length_map]
      rfl
    · rw [Registry.keys, List.length_map]
      exact hq.remembered_le.trans_eq (after_history n calls)

/-- 1 is released and met again. -/
def remet : List (Call Nat) :=
  [.await 1, .settle 1 5, .release 1, .settle 1 6, .await 1]

theorem stands_remet :
    Stands 3 [.await 1, .settle 1 5, .release 1, .settle 1 6] (.await 1 : Call Nat) [] 1 1 where
  met := by decide
  recent := by decide
  kept := nofun

theorem remet_remembers_second :
    (after 3 remet).order = [(1, 0), (1, 1)] ∧ (after 3 remet).retired.get? 1 = some 1 ∧
      ∀ k before c later, remet = before ++ c :: later → Stands 3 before c later 1 k →
        before = [.await 1, .settle 1 5, .release 1, .settle 1 6] ∧ k = 1 := by
  obtain ⟨_, _, hstands, honce, _⟩ := remembers_last_meetings 3 remet
  refine ⟨by decide, (hstands 1 1).mpr ⟨_, _, _, rfl, stands_remet⟩, ?_⟩
  intro k before c later hcalls h
  obtain ⟨hbefore, hk⟩ := honce 1 1 k _ before _ c _ later rfl stands_remet hcalls h
  exact ⟨hbefore.symm, hk.symm⟩

end SlotTable

end Remoting
