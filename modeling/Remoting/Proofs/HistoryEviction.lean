import Remoting.Proofs.RecentMeetings

/-!
# What a full queue drops

The queue is full when it holds as many slots as the history allows, and then every meeting drops
the oldest of them. The slots of ids that were released since count like the others. So an id may
be forgotten although fewer are remembered than the history allows, and this is so exactly if an id
of a recent meeting was released since.
-/

namespace Remoting

namespace SlotTable

variable {α : Type} {t : SlotTable α} {id : UInt32} {k : Ticket} {c : Call α} {n : Nat}
  {before later calls : List (Call α)}

/-- In a full queue every slot is remembered, if so many are. -/
theorem Queued.remembered_eq_iff (hq : Queued t) (hfull : t.order.length = t.history) :
    t.remembered = t.history ↔ ∀ e ∈ t.order, t.retired.get? e.1 = some e.2 := by
  constructor
  · intro hall e he
    have hlength : t.order.length ≤ t.retired.entries.length := (hfull.trans hall.symm).le
    have hperm := hq.remembered_subperm.perm_of_length_le hlength
    exact Registry.get?_of_mem (hperm.mem_iff.mpr he)
  · intro hall
    have hsubperm : t.order.Subperm t.retired.entries :=
      (List.Nodup.of_map _ hq.apart).subperm fun e he => Registry.mem_entries_iff.mpr (hall e he)
    exact Nat.le_antisymm hq.remembered_le (hfull ▸ hsubperm.length_le)

/-- The slot of a recent meeting is remembered unless its id was released since. -/
theorem Recent.remembered_iff (h : Recent n before c later id k) :
    (after n (before ++ c :: later)).retired.get? id = some k ↔ .release id ∉ later :=
  ⟨fun hk => (h.stands hk).kept, fun hkept => (Stands.mk h hkept).remembered⟩

theorem remembered_lt_iff (hfull : (after n calls).order.length = n) :
    (after n calls).remembered < n ↔
      ∃ before c later id k, calls = before ++ c :: later ∧ Recent n before c later id k ∧
        .release id ∈ later := by
  have hq := Queued.after n calls
  have hle := hq.remembered_le
  have heq := hq.remembered_eq_iff (by rw [hfull, after_history])
  rw [after_history] at hle heq
  rw [lt_iff_le_and_ne, and_iff_right hle, ne_eq, heq]
  constructor
  · intro hnot
    obtain ⟨⟨id, k⟩, hmem, hforgotten⟩ : ∃ e ∈ (after n calls).order,
        (after n calls).retired.get? e.1 ≠ some e.2 := by simpa using hnot
    obtain ⟨before, c, later, rfl, hrecent⟩ := mem_order_iff.mp hmem
    rw [ne_eq, hrecent.remembered_iff, not_not] at hforgotten
    exact ⟨before, c, later, id, k, rfl, hrecent, hforgotten⟩
  · rintro ⟨before, c, later, id, k, rfl, hrecent, hreleased⟩ hall
    have hmem := mem_order_iff.mpr ⟨before, c, later, rfl, hrecent⟩
    exact hrecent.remembered_iff.mp (hall _ hmem) hreleased

theorem Sound.not_completes_of_retired (ht : Sound t) (hk : t.retired.get? id = some k) :
    ¬ t.Completes c id := by
  have hnone := ht.live_get?_of_retired hk
  intro hcompletes
  cases c with
  | settle other x =>
    obtain ⟨rfl, j, hlive⟩ := hcompletes
    rw [hnone] at hlive
    cases hlive
  | await other =>
    obtain ⟨rfl, j, hlive⟩ := hcompletes
    rw [hnone] at hlive
    cases hlive
  | release _ | read _ => exact hcompletes

/-- An id of the history is forgotten, unless it is released, exactly when two sides meet while its
own meeting is the `n`th last. Fewer than `n` ids are remembered then if and only if an id of the
last `n` meetings was released since. -/
theorem forgets_nth_last (n : Nat) (calls : List (Call α)) (c : Call α)
    (hc : ∀ other, c ≠ .release other) (hk : (after n calls).retired.get? id = some k) :
    (¬ (after n (calls ++ [c])).Knows id ↔
      (∃ other, (after n calls).Completes c other) ∧
        ∃ before d later, calls = before ++ d :: later ∧ Stands n before d later id k ∧
          ((after n (before ++ [d])).meetings later).length + 1 = n) ∧
    (¬ (after n (calls ++ [c])).Knows id →
      ((after n calls).remembered < n ↔
        ∃ before d later other j, calls = before ++ d :: later ∧
          Recent n before d later other j ∧ .release other ∈ later)) := by
  have ht := (Consistent.after n calls).toSound
  obtain ⟨before, d, later, hcalls, hstands⟩ := exists_stands_of_remembered hk
  have hknows : (after n calls).Knows id := by
    rw [← isSome_ticket?_iff_knows, ticket?_of_retired hk, Option.isSome_some]
  have hforgets : ¬ (after n (calls ++ [c])).Knows id ↔
      (after n calls).outgoing? = some id ∧ ∃ other, (after n calls).Completes c other := by
    rw [forgets_after_iff n calls c hknows]
    constructor
    · rintro (⟨hrelease, _⟩ | ⟨hzero, _⟩ | ⟨hout, other, _, hcompletes⟩)
      · exact absurd hrelease (hc id)
      · exact absurd hzero hstands.pos
      · exact ⟨hout, other, hcompletes⟩
    · rintro ⟨hout, other, hcompletes⟩
      refine .inr (.inr ⟨hout, other, ?_, hcompletes⟩)
      rintro rfl
      exact ht.not_completes_of_retired hk hcompletes
  constructor
  · rw [hforgets, and_comm]
    refine and_congr_right fun _ => ⟨fun hout => ?_, ?_⟩
    · subst hcalls
      exact ⟨before, d, later, rfl, hstands, hstands.outgoing?_iff.mp hout⟩
    · rintro ⟨before', d', later', hcalls', hstands', hlast⟩
      rw [hcalls', hstands'.outgoing?_iff]
      exact hlast
  · intro hforgotten
    obtain ⟨_, _, _, hfull, _⟩ := outgoing?_eq_some_iff.mp (hforgets.mp hforgotten).1
    exact remembered_lt_iff (hfull.trans (after_history n calls))

/-- 2 is released before 3 is settled, so that 1 alone is remembered. -/
def halfReleased : List (Call Nat) :=
  [.await 1, .settle 1 5, .await 2, .settle 2 6, .release 2, .settle 3 7]

theorem halfReleased_forgets_first :
    (after 2 halfReleased).retired.get? 1 = some 0 ∧
      ¬ (after 2 (halfReleased ++ [.await 3])).Knows 1 ∧ (after 2 halfReleased).remembered < 2 ∧
      ∃ before d later other j, halfReleased = before ++ d :: later ∧
        Recent 2 before d later other j ∧ .release other ∈ later := by
  have hretired : (after 2 halfReleased).retired.get? 1 = some 0 := by decide
  have hforgotten : ¬ (after 2 (halfReleased ++ [.await 3])).Knows 1 := by decide
  have hroom : (after 2 halfReleased).remembered < 2 := by decide
  obtain ⟨_, hfew⟩ := forgets_nth_last 2 halfReleased (.await 3) (by nofun) hretired
  exact ⟨hretired, hforgotten, hroom, (hfew hforgotten).mp hroom⟩

/-- An id may be forgotten although the history is not full. -/
theorem not_forgets_only_when_full :
    ¬ ∀ (n : Nat) (calls : List (Call Nat)) (c : Call Nat) (id : UInt32) (k : Ticket), 1 ≤ n →
      (∀ other, c ≠ .release other) → (after n calls).retired.get? id = some k →
      ¬ (after n (calls ++ [c])).Knows id → (after n calls).remembered = n := by
  intro hall
  have hfull := hall 2 halfReleased (.await 3) 1 0 (by decide) (by nofun) (by decide) (by decide)
  exact absurd hfull (by decide)

end SlotTable

end Remoting
