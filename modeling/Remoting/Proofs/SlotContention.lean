import Remoting.Proofs.SlotInterleavings

/-!
# The first outcome under contention

However the moves of many calls interleave, a slot takes the outcome of one settling call, this
call alone is answered with yes, and every handle on the slot reads its outcome. No outcome is lost:
a handle that reads nothing, though no settling call is under way, waits for a call still to come,
or its id was released before. As long as the history has room for all that is retired, an id that
is never released keeps its one slot.
-/

namespace Remoting

open SlotTable

/-- The second side comes to a slot, which is then retired. -/
def Exchange.Retires {α : Type} (s : Exchange α) : Move α → Bool
  | .arrive id _ => (s.table.live.get? id).any (!·.filled)
  | .await id => (s.table.live.get? id).any (·.filled)
  | _ => false

namespace Exchange

variable {α : Type} {s s' : Exchange α} {m : Move α} {id : UInt32} {k : Ticket} {h : Handle}

/-- Among these calls at most one was accepted, and one was if they all came to their end. These
handles read its outcome, and nothing before. -/
structure SettledOnce (s : Exchange α) (calls : Settling α → Prop) (handles : Handle → Prop)
    [DecidablePred calls] : Prop where
  atMostOne : (s.accepted.filter calls).length ≤ 1
  exactlyOne : (∀ c ∈ s.underWay, ¬ calls c) → (∃ c ∈ s.settlings, calls c) →
    (s.accepted.filter calls).length = 1
  observed : ∀ h ∈ s.handles, handles h →
    s.table.read h = (s.accepted.filter calls).head?.map (·.outcome)

/-- The id was released while its slot waited for a settling call. -/
def GivenUp (history : Nat) (moves : List (Move α)) (h : Handle) : Prop :=
  ∃ before rest, moves = before ++ .release h.id :: rest ∧
    (after history before).table.live.get? h.id = some (.awaiting h.ticket)

/-- How many slots are retired, over all ids. -/
def retirements (s : Exchange α) : List (Move α) → Nat
  | [] => 0
  | m :: moves => (s.Retires m).toNat + (s.step m).retirements moves

theorem retirements_append_singleton (s : Exchange α) (moves : List (Move α)) (m : Move α) :
    s.retirements (moves ++ [m]) =
      s.retirements moves + ((moves.foldl step s).Retires m).toNat := by
  induction moves generalizing s with
  | nil => simp [retirements]
  | cons first moves ih =>
    simp only [List.cons_append, retirements, ih, List.foldl_cons]
    omega

theorem retires_of_awaiting (hlive : s.table.live.get? id = some (.awaiting k)) (x : α) :
    s.Retires (.arrive id x) = true := by
  rw [Retires, hlive]
  rfl

theorem retires_of_settled (hlive : s.table.live.get? id = some (.settled k)) :
    s.Retires (.await id) = true := by
  rw [Retires, hlive]
  rfl

theorem Coherent.settledOnce (hs : Coherent s) (k : Ticket) :
    s.SettledOnce (·.ticket = k) (·.ticket = k) := by
  have hwon := hs.won k
  have hlength : (s.accepted.filter (·.ticket = k)).length =
      (s.table.outcome? k).toList.length := by
    rw [← hwon, List.length_map]
  refine ⟨?_, ?_, ?_⟩
  · rw [hlength]
    cases s.table.outcome? k <;> simp
  · rintro hway ⟨c, hc, hck⟩
    rcases mem_settlings.mp hc with hunder | ⟨b, hdone⟩
    · exact absurd hck (hway c hunder)
    · have hfilled := hs.filled (c, b) hdone
      rw [hck] at hfilled
      obtain ⟨x, hx⟩ := Option.isSome_iff_exists.mp hfilled
      rw [hlength, hx]
      rfl
  · intro h _ hk
    have hhead := congrArg List.head? hwon
    rw [List.head?_map] at hhead
    rw [hhead, SlotTable.read, hk]
    cases s.table.outcome? k <;> rfl

namespace Advance

/-- A handle is known from before, or it is given out with the move. -/
theorem handle_known_or_new (h : Advance s m s') {handle : Handle} (hh : handle ∈ s'.handles) :
    handle ∈ s.handles ∨ ∃ id, Step s.table (.await id) (.handle handle) s'.table := by
  cases h with
  | await hstep =>
    rcases List.mem_append.mp hh with hold | hnew
    · exact .inl hold
    · rw [List.mem_singleton.mp hnew]
      exact .inr ⟨_, hstep⟩
  | plantFilled _ | refused _ | takeWaiting _ | rejoin _ | fill _ | idle | release | read =>
    exact .inl hh

/-- A slot that waits goes on waiting until a settling call takes it out or its id is released. -/
theorem awaiting (h : Advance s m s')
    (hl : s.table.live.get? id = some (.awaiting k)) :
    s'.table.live.get? id = some (.awaiting k) ∨ (∃ c ∈ s'.underWay, c.ticket = k) ∨
      m = .release id := by
  cases h with
  | @plantFilled other x hother =>
    have hne : id ≠ other := by
      rintro rfl
      rw [(ticket?_eq_none_iff.mp hother).1] at hl
      cases hl
    rw [enter_live_get?, if_neg hne]
    exact .inl hl
  | @takeWaiting other x j hlive =>
    by_cases hid : id = other
    · subst hid
      rw [hlive] at hl
      cases hl
      exact .inr (.inl ⟨⟨id, x, k⟩, List.mem_append_right _ List.mem_cons_self, rfl⟩)
    · rw [takeOut_live_get?, if_neg hid]
      exact .inl hl
  | fill _ =>
    rw [fill_live]
    exact .inl hl
  | @await other _ _ hstep =>
    cases hstep with
    | plantEmpty hother =>
      have hne : id ≠ other := by
        rintro rfl
        rw [(ticket?_eq_none_iff.mp hother).1] at hl
        cases hl
      rw [enter_live_get?, if_neg hne]
      exact .inl hl
    | fetchSettled hlive =>
      have hne : id ≠ other := by
        rintro rfl
        rw [hlive] at hl
        cases hl
      rw [takeOut_live_get?, if_neg hne]
      exact .inl hl
    | found _ _ => exact .inl hl
  | @release other =>
    by_cases hid : id = other
    · exact .inr (.inr (by rw [hid]))
    · rw [release_live_get?, if_neg hid]
      exact .inl hl
  | refused _ | rejoin _ | idle | read => exact .inl hl

theorem history_eq (h : Advance s m s') : s'.table.history = s.table.history := by
  cases h with
  | takeWaiting _ => exact takeOut_history _ _ _
  | fill _ => exact fill_history _ _ _
  | await hstep => exact hstep.history_eq
  | plantFilled _ | refused _ | rejoin _ | idle | release | read => rfl

theorem order_length_le (h : Advance s m s') :
    s'.table.order.length ≤ s.table.order.length + (s.Retires m).toNat := by
  cases h with
  | @takeWaiting _ x _ hlive =>
    rw [retires_of_awaiting hlive x]
    exact takeOut_order_length_le _ _ _
  | fill _ =>
    rw [fill_order]
    exact Nat.le_add_right _ _
  | await hstep =>
    cases hstep with
    | fetchSettled hlive =>
      rw [retires_of_settled hlive]
      exact takeOut_order_length_le _ _ _
    | plantEmpty _ | found _ _ => exact Nat.le_add_right _ _
  | plantFilled _ | refused _ | rejoin _ | idle | release | read => exact Nat.le_add_right _ _

/-- While there is room in the history, an id is forgotten only by its release. -/
theorem ticket?_of_room (hs : Coherent s) (h : Advance s m s') (hm : m ≠ .release id)
    (hroom : s.Retires m = true → s.table.order.length < s.table.history)
    (hk : s.table.ticket? id = some k) : s'.table.ticket? id = some k := by
  have htake : ∀ {other l}, s.table.live.get? other = some l →
      s.table.order.length < s.table.history →
      (s.table.takeOut other l.ticket).ticket? id = some k := by
    intro other l hl hlt
    rw [hs.sound.takeOut_ticket? hl, outgoing?_eq_none hlt]
    by_cases hid : id = other
    · subst hid
      have hzero : s.table.history ≠ 0 := by omega
      rw [if_pos rfl, if_neg hzero, ← hk, hs.sound.ticket?_of_live hl]
    · rw [if_neg hid, if_neg (Option.some_ne_none id).symm, hk]
  have henter : ∀ {other o}, s.table.ticket? other = none →
      (s.table.enter other o).ticket? id = some k := by
    intro other o hother
    have hne : id ≠ other := by
      rintro rfl
      rw [hother] at hk
      cases hk
    rw [enter_ticket? _ _ hother, if_neg hne, hk]
  cases h with
  | plantFilled hother => exact henter hother
  | @takeWaiting _ x _ hlive => exact htake hlive (hroom (retires_of_awaiting hlive x))
  | fill _ => rw [fill_ticket?, hk]
  | await hstep =>
    cases hstep with
    | plantEmpty hother => exact henter hother
    | fetchSettled hlive => exact htake hlive (hroom (retires_of_settled hlive))
    | found _ _ => exact hk
  | release =>
    rw [release_ticket?, if_neg (fun heq => hm (by rw [heq])), hk]
  | refused _ | rejoin _ | idle | read => exact hk

end Advance

section Given

variable {t t' : SlotTable α}

/-- A handle that is given out on an empty slot waits there, or the slot was retired empty. -/
theorem awaiting_or_retired (ht : Sound t) (hstep : Step t (.await id) (.handle h) t')
    (hempty : t'.outcome? h.ticket = none) :
    t'.live.get? h.id = some (.awaiting h.ticket) ∨ t'.retired.get? h.id = some h.ticket := by
  cases hstep with
  | plantEmpty hid =>
    rw [enter_live_get?, if_pos rfl]
    exact .inl rfl
  | @fetchSettled _ k hlive =>
    have htold := ht.told hlive
    rw [takeOut_outcome?] at hempty
    rw [Live.ticket, hempty] at htold
    cases htold
  | @found _ k hbound hnot =>
    cases hretired : t.retired.get? id with
    | some j =>
      rw [ticket?_of_retired hretired] at hbound
      exact .inr hbound
    | none =>
      cases hlive : t.live.get? id with
      | none =>
        rw [ticket?_eq_none_iff.mpr ⟨hlive, hretired⟩] at hbound
        cases hbound
      | some l =>
        rw [ht.ticket?_of_live hlive] at hbound
        cases l with
        | awaiting j =>
          cases hbound
          exact .inl rfl
        | settled j => exact absurd hlive (hnot j)

theorem ticket?_of_given (hstep : Step t (.await id) (.handle h) t') (ht : Sound t) :
    t.ticket? h.id = some h.ticket ∨ t'.ticket? h.id = some h.ticket := by
  cases hstep with
  | plantEmpty hid =>
    rw [enter_ticket? _ _ hid, if_pos rfl]
    exact .inr rfl
  | fetchSettled hlive => exact .inl (ht.ticket?_of_live hlive)
  | found hbound _ => exact .inl hbound

end Given

theorem advance_after (n : Nat) (moves : List (Move α)) (m : Move α) :
    Advance (after n moves) m (after n (moves ++ [m])) := by
  rw [after_append_singleton]
  exact advance (Coherent.after n moves).sound m

theorem after_history (n : Nat) (moves : List (Move α)) : (after n moves).table.history = n := by
  induction moves using List.reverseRecOn with
  | nil => rfl
  | append_singleton moves m ih => rw [(advance_after n moves m).history_eq, ih]

theorem outcome?_after_append (n : Nat) (moves more : List (Move α)) {x : α}
    (hx : (after n moves).table.outcome? k = some x) :
    (after n (moves ++ more)).table.outcome? k = some x := by
  induction more using List.reverseRecOn with
  | nil => rwa [List.append_nil]
  | append_singleton more m ih =>
    rw [← List.append_assoc]
    exact (advance_after n (moves ++ more) m).outcome?_mono (Coherent.after n _) ih

theorem waiting_or_given_up (n : Nat) (moves : List (Move α)) :
    ∀ h ∈ (after n moves).handles, (after n moves).table.outcome? h.ticket = none →
      (after n moves).table.live.get? h.id = some (.awaiting h.ticket) ∨
        (∃ c ∈ (after n moves).underWay, c.ticket = h.ticket) ∨ GivenUp n moves h := by
  induction moves using List.reverseRecOn with
  | nil => nofun
  | append_singleton moves m ih =>
    intro h hh hempty
    have hs := Coherent.after n moves
    have hadvance := advance_after n moves m
    rcases hadvance.handle_known_or_new hh with hold | ⟨id, hstep⟩
    · have hbefore : (after n moves).table.outcome? h.ticket = none := by
        cases hx : (after n moves).table.outcome? h.ticket with
        | none => rfl
        | some x =>
          rw [hadvance.outcome?_mono hs hx] at hempty
          cases hempty
      rcases ih h hold hbefore with hl | ⟨c, hc, hck⟩ | ⟨before, rest, hmoves, hl⟩
      · rcases hadvance.awaiting hl with hl' | hway | hm
        · exact .inl hl'
        · exact .inr (.inl hway)
        · exact .inr (.inr ⟨moves, [], by rw [hm], hl⟩)
      · rcases hadvance.underWay hs hc with hway | hfilled
        · exact .inr (.inl ⟨c, hway, hck⟩)
        · rw [hck, hempty] at hfilled
          cases hfilled
      · exact .inr (.inr ⟨before, rest ++ [m], by simp [hmoves], hl⟩)
    · rcases awaiting_or_retired hs.sound hstep hempty with hl | hretired
      · exact .inl hl
      · exact .inr (.inl ((Coherent.after n (moves ++ [m])).retired hretired hempty))

theorem order_length_le_retirements (n : Nat) (moves : List (Move α)) :
    (after n moves).table.order.length ≤
      (opened n).retirements moves := by
  induction moves using List.reverseRecOn with
  | nil => exact Nat.zero_le _
  | append_singleton moves m ih =>
    have hle := (advance_after n moves m).order_length_le
    have hcount := retirements_append_singleton (opened n) moves m
    change _ = _ + ((after n moves).Retires m).toNat at hcount
    omega

/-- An id that is never released keeps its slot while the history has room. -/
theorem ticket?_of_kept (n : Nat) (moves : List (Move α)) (hkept : .release id ∉ moves)
    (hroom : (opened n).retirements moves ≤ n) :
    (∀ c ∈ (after n moves).settlings, c.id = id →
      (after n moves).table.ticket? id = some c.ticket) ∧
    ∀ h ∈ (after n moves).handles, h.id = id →
      (after n moves).table.ticket? id = some h.ticket := by
  induction moves using List.reverseRecOn with
  | nil => exact ⟨nofun, nofun⟩
  | append_singleton moves m ih =>
    have hs := Coherent.after n moves
    have hadvance := advance_after n moves m
    have hcount := retirements_append_singleton (opened n) moves m
    change _ = _ + ((after n moves).Retires m).toNat at hcount
    have horder := order_length_le_retirements n moves
    have hm : m ≠ .release id := by
      rintro rfl
      exact hkept (by simp)
    have hspace : (after n moves).Retires m = true →
        (after n moves).table.order.length < (after n moves).table.history := by
      intro hretires
      rw [hretires] at hcount
      rw [after_history]
      simp at hcount
      omega
    have hstays : ∀ {k}, (after n moves).table.ticket? id = some k →
        (after n (moves ++ [m])).table.ticket? id = some k := fun hk =>
      hadvance.ticket?_of_room hs hm hspace hk
    obtain ⟨hcalls, hhandles⟩ := ih (fun hmem => hkept (by simp [hmem])) (by omega)
    constructor
    · intro c hc hid
      rcases hadvance.known_or_new hs hc with hold | hbound | hbound
      · exact hstays (hcalls c hold hid)
      · exact hstays (hid ▸ hbound)
      · exact hid ▸ hbound
    · intro h hh hid
      rcases hadvance.handle_known_or_new hh with hold | ⟨other, hstep⟩
      · exact hstays (hhandles h hold hid)
      · rcases ticket?_of_given hstep hs.sound with hbound | hbound
        · exact hstays (hid ▸ hbound)
        · exact hid ▸ hbound

theorem mem_settlings_of_accepted {c : Settling α} (hc : c ∈ s.accepted) : c ∈ s.settlings := by
  obtain ⟨answer, hanswer, rfl⟩ := List.mem_map.mp hc
  exact mem_settlings.mpr (.inr ⟨answer.2, (List.mem_filter.mp hanswer).1⟩)

/-- The settling calls and the handles of an id that is kept share one slot. -/
theorem exists_slot_of_kept (n : Nat) (moves : List (Move α)) (hkept : .release id ∉ moves)
    (hroom : (opened n).retirements moves ≤ n) :
    ∃ k, (∀ c ∈ (after n moves).settlings, c.id = id ↔ c.ticket = k) ∧
      ∀ h ∈ (after n moves).handles, h.id = id → h.ticket = k := by
  have hs := Coherent.after n moves
  obtain ⟨hcalls, hhandles⟩ := ticket?_of_kept n moves hkept hroom
  cases hid : (after n moves).table.ticket? id with
  | none =>
    refine ⟨(after n moves).table.slots.size, ?_, ?_⟩
    · intro c hc
      constructor
      · intro hcid
        rw [hcalls c hc hcid] at hid
        cases hid
      · intro hck
        exact absurd hck (Nat.ne_of_lt (hs.holds c hc).allotted)
    · intro h hh hhid
      rw [hhandles h hh hhid] at hid
      cases hid
  | some k =>
    refine ⟨k, ?_, ?_⟩
    · intro c hc
      constructor
      · intro hcid
        exact Option.some.inj ((hcalls c hc hcid).symm.trans hid)
      · intro hck
        exact ((hs.holds c hc).own (hck ▸ hid)).symm
    · intro h hh hhid
      exact Option.some.inj ((hhandles h hh hhid).symm.trans hid)

theorem settledOnce_of_kept (n : Nat) (moves : List (Move α)) (hkept : .release id ∉ moves)
    (hroom : (opened n).retirements moves ≤ n) :
    (after n moves).SettledOnce (·.id = id) (·.id = id) := by
  obtain ⟨k, hcalls, hhandles⟩ := exists_slot_of_kept n moves hkept hroom
  have hslot := (Coherent.after n moves).settledOnce k
  have haccepted : (after n moves).accepted.filter (·.id = id) =
      (after n moves).accepted.filter (·.ticket = k) := by
    apply List.filter_congr
    intro c hc
    exact decide_eq_decide.mpr (hcalls c (mem_settlings_of_accepted hc))
  refine ⟨?_, ?_, ?_⟩
  · rw [haccepted]
    exact hslot.atMostOne
  · rintro hway ⟨c, hc, hid⟩
    rw [haccepted]
    refine hslot.exactlyOne ?_ ⟨c, hc, (hcalls c hc).mp hid⟩
    intro c' hc' hk
    exact hway c' hc' ((hcalls c' (mem_settlings.mpr (.inl hc'))).mpr hk)
  · intro h hh hid
    rw [haccepted]
    exact hslot.observed h hh (hhandles h hh hid)

/-- What a slot holds stays. Each slot takes the outcome of one of the calls that come to it. If no
call is under way, an empty slot on which there is a handle waits for its first call, or it was
given up before any came. An id that is kept has one slot for all its calls and handles. -/
theorem first_fill_wins (n : Nat) (moves : List (Move α)) :
    (∀ more k x, (after n moves).table.outcome? k = some x →
      (after n (moves ++ more)).table.outcome? k = some x) ∧
    (∀ k, (after n moves).SettledOnce (·.ticket = k) (·.ticket = k)) ∧
    ((after n moves).underWay = [] →
      ∀ h ∈ (after n moves).handles, (after n moves).table.read h = none →
        (∀ c ∈ (after n moves).settlings, c.ticket ≠ h.ticket) ∧
        ((after n moves).table.live.get? h.id = some (.awaiting h.ticket) ∨
          GivenUp n moves h)) ∧
    ∀ id, .release id ∉ moves → (opened n).retirements moves ≤ n →
      (∃ k, (∀ c ∈ (after n moves).settlings, c.id = id ↔ c.ticket = k) ∧
        ∀ h ∈ (after n moves).handles, h.id = id → h.ticket = k) ∧
      (after n moves).SettledOnce (·.id = id) (·.id = id) := by
  have hs := Coherent.after n moves
  refine ⟨?_, hs.settledOnce, ?_, ?_⟩
  · intro more k x hx
    exact outcome?_after_append n moves more hx
  · intro hway h hh hempty
    constructor
    · intro c hc hck
      rcases mem_settlings.mp hc with hunder | ⟨b, hdone⟩
      · rw [hway] at hunder
        cases hunder
      · have hfilled := hs.filled (c, b) hdone
        rw [hck] at hfilled
        rw [SlotTable.read] at hempty
        rw [hempty] at hfilled
        cases hfilled
    · rcases waiting_or_given_up n moves h hh hempty with hl | ⟨c, hc, _⟩ | hgiven
      · exact .inl hl
      · rw [hway] at hc
        cases hc
      · exact .inr hgiven
  · intro id hkept hroom
    exact ⟨exists_slot_of_kept n moves hkept hroom, settledOnce_of_kept n moves hkept hroom⟩

/-- Two calls meet at a slot that is waited for, and the one that came last fills it first. -/
def overtaking : List (Move Nat) :=
  [.await 7, .arrive 7 5, .arrive 7 6, .fill 1, .fill 0, .await 8]

theorem overtaking_keeps_second :
    (after 1 overtaking).underWay = [] ∧ .release 7 ∉ overtaking ∧
      (opened 1).retirements overtaking ≤ 1 ∧
      ((after 1 overtaking).accepted.filter (·.id = 7)).length = 1 ∧
      (∀ h ∈ (after 1 overtaking).handles, h.id = 7 →
        (after 1 overtaking).table.read h = some 6) ∧
      (after 1 (overtaking ++ [.arrive 7 9, .fill 0])).table.outcome? 0 = some 6 ∧
      ((after 1 overtaking).table.live.get? 8 = some (.awaiting 1) ∨
        GivenUp 1 overtaking ⟨8, 1⟩) := by
  have hway : (after 1 overtaking).underWay = [] := by decide
  have hkept : .release 7 ∉ overtaking := by decide
  have hroom : (opened 1).retirements overtaking ≤ 1 := by decide
  obtain ⟨hstays, _, hwaits, hid⟩ := first_fill_wins 1 overtaking
  obtain ⟨_, honce⟩ := hid 7 hkept hroom
  refine ⟨hway, hkept, hroom, honce.exactlyOne ?_ ?_, ?_, hstays _ 0 6 (by decide), ?_⟩
  · rw [hway]
    nofun
  · exact ⟨⟨7, 6, 0⟩, by decide, rfl⟩
  · intro h hh hhid
    rw [honce.observed h hh hhid]
    decide
  · exact (hwaits hway ⟨8, 1⟩ (by decide) (by decide)).2

end Exchange

end Remoting
