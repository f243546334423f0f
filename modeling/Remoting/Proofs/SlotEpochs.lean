import Mathlib.Data.List.Infix
import Remoting.Proofs.SlotRuns

/-!
# The first outcome of an epoch

An epoch of an id goes from the call that plants a slot for it to the call by which the table
forgets it. The slot is bound to the id all that time, and to no id afterwards. So it takes the
first outcome that the epoch brings, and every handle given out in the epoch reads this one, before
and after the id is forgotten.
-/

namespace Remoting

namespace SlotTable

variable {α : Type} {t t' : SlotTable α} {id : UInt32} {k : Ticket} {c : Call α} {a : Answer α}

def Knows (t : SlotTable α) (id : UInt32) : Prop :=
  t.live.contains id = true ∨ t.retired.contains id = true

instance (t : SlotTable α) (id : UInt32) : Decidable (t.Knows id) :=
  inferInstanceAs (Decidable (_ ∨ _))

theorem isSome_ticket?_iff_knows : (t.ticket? id).isSome = true ↔ t.Knows id := by
  rw [isSome_ticket?, Bool.or_eq_true, Knows]

theorem not_knows_iff : ¬ t.Knows id ↔ t.ticket? id = none := by
  rw [← isSome_ticket?_iff_knows, Bool.not_eq_true, Option.isSome_eq_false_iff,
    Option.isNone_iff_eq_none]

/-- The calls `during` are made one after another in one epoch of the id, from its beginning on:
the first plants the slot, and before the last the id is not forgotten. -/
structure Epoch (history : Nat) (id : UInt32) (before during : List (Call α)) : Prop where
  fresh : ¬ (after history before).Knows id
  starts : ∃ c rest, during = c :: rest ∧ c.ArrivesAt id
  lasts : ∀ p, p <+: during → p ≠ [] → p ≠ during → (after history (before ++ p)).Knows id

/-- The outcome of the first call that settles the id. -/
def firstOutcome (id : UInt32) (calls : List (Call α)) : Option α :=
  calls.findSome? (Call.outcomeFor? id)

theorem firstOutcome_append (id : UInt32) (calls more : List (Call α)) :
    firstOutcome id (calls ++ more) = (firstOutcome id calls).or (firstOutcome id more) :=
  List.findSome?_append

theorem firstOutcome_singleton (id : UInt32) (c : Call α) :
    firstOutcome id [c] = c.outcomeFor? id := by
  rw [firstOutcome, List.findSome?_cons]
  cases c.outcomeFor? id <;> rfl

/-- A slot that no id is bound to. -/
structure Orphaned (t : SlotTable α) (k : Ticket) : Prop where
  allotted : k < t.slots.size
  unbound : ∀ id, t.ticket? id ≠ some k

theorem Sound.takeOut_forgets_iff (ht : Sound t) {l : Live} {other : UInt32}
    (hl : t.live.get? other = some l) (hk : t.ticket? id = some k) :
    (t.takeOut other l.ticket).ticket? id = none ↔
      t.history = 0 ∧ other = id ∨ t.outgoing? = some id ∧ other ≠ id := by
  rw [ht.takeOut_ticket? hl, hk]
  by_cases hid : id = other
  · rw [if_pos hid]
    simp only [hid, and_true, ne_eq, not_true, and_false, or_false, ite_eq_left_iff, reduceCtorEq,
      imp_false, Decidable.not_not]
  · rw [if_neg hid]
    simp only [Ne.symm hid, and_false, ne_eq, not_false_eq_true, and_true, false_or,
      ite_eq_left_iff, reduceCtorEq, imp_false, Decidable.not_not]

namespace Step

/-- What is bound after a step was so before, unless the step planted it. -/
theorem bound_or_fresh (ht : Consistent t) (h : Step t c a t') (hk : t'.ticket? id = some k) :
    t.ticket? id = some k ∨ t.ticket? id = none ∧ c.ArrivesAt id ∧ k = t.slots.size := by
  cases h with
  | plantFilled hid | plantEmpty hid =>
    rw [enter_ticket? _ _ hid] at hk
    split at hk
    · rename_i heq
      cases hk
      exact .inr ⟨heq ▸ hid, heq.symm, rfl⟩
    · exact .inl hk
  | fillWaiting hlive =>
    rw [fill_ticket?] at hk
    exact .inl (ht.ticket?_of_takeOut hlive hk)
  | fetchSettled hlive => exact .inl (ht.ticket?_of_takeOut hlive hk)
  | late _ _ | found _ _ | read => exact .inl hk
  | release =>
    rw [release_ticket?] at hk
    split at hk
    · cases hk
    · exact .inl hk

theorem bound_of_arrives (h : Step t c a t') (hid : t.ticket? id = none) (hc : c.ArrivesAt id) :
    t'.ticket? id = some t.slots.size ∧ t'.outcome? t.slots.size = c.outcomeFor? id := by
  cases h with
  | plantFilled _ | plantEmpty _ =>
    cases hc
    rw [enter_ticket? _ _ hid, if_pos rfl, enter_outcome?, if_pos rfl]
    simp only [Call.outcomeFor?, if_true, and_self]
  | fillWaiting hlive | fetchSettled hlive =>
    cases hc
    rw [(ticket?_eq_none_iff.mp hid).1] at hlive
    cases hlive
  | late hbound _ | found hbound _ =>
    cases hc
    rw [hid] at hbound
    cases hbound
  | release | read => cases hc

/-- A step writes to a slot only what it brings to the id that is bound to it, and only if the
slot is empty. -/
theorem outcome?_of_bound (ht : Consistent t) (h : Step t c a t') (hk : t.ticket? id = some k) :
    t'.outcome? k = (t.outcome? k).or (c.outcomeFor? id) := by
  have hlt := ht.allotted hk
  cases h with
  | @plantFilled other x hother =>
    have hne : other ≠ id := by
      rintro rfl
      rw [hother] at hk
      cases hk
    rw [enter_outcome?, if_neg (Nat.ne_of_lt hlt), Call.outcomeFor?, if_neg hne, Option.or_none]
  | @fillWaiting other x j hlive =>
    have hbound := ht.ticket?_of_live hlive
    rw [ht.takeOut_fill_outcome? hlive, Call.outcomeFor?]
    by_cases hother : other = id
    · subst hother
      have heq : j = k := Option.some.inj (hbound.symm.trans hk)
      rw [if_pos heq.symm, if_pos rfl, ← heq, ht.empty_of_awaiting hlive, Option.none_or]
    · have hne : k ≠ j := fun heq => hother (ht.unshared hbound (heq ▸ hk))
      rw [if_neg hne, if_neg hother, Option.or_none]
  | @late other x y j hbound hfilled =>
    rw [Call.outcomeFor?]
    by_cases hother : other = id
    · subst hother
      have heq : j = k := Option.some.inj (hbound.symm.trans hk)
      rw [← heq, hfilled, Option.some_or]
    · rw [if_neg hother, Option.or_none]
  | plantEmpty _ =>
    rw [enter_outcome?, if_neg (Nat.ne_of_lt hlt)]
    exact Option.or_none.symm
  | fetchSettled _ =>
    rw [takeOut_outcome?]
    exact Option.or_none.symm
  | found _ _ | release | read => exact Option.or_none.symm

theorem outcome?_of_orphaned (ht : Consistent t) (h : Step t c a t') (hk : Orphaned t k) :
    t'.outcome? k = t.outcome? k := by
  cases h with
  | plantFilled _ | plantEmpty _ => rw [enter_outcome?, if_neg (Nat.ne_of_lt hk.allotted)]
  | @fillWaiting other x j hlive =>
    have hne : k ≠ j := fun heq => hk.unbound other (heq ▸ ht.ticket?_of_live hlive)
    rw [ht.takeOut_fill_outcome? hlive, if_neg hne]
  | fetchSettled _ => exact takeOut_outcome? _ _ _ _
  | late _ _ | found _ _ | release | read => rfl

theorem orphaned (ht : Consistent t) (h : Step t c a t') (hk : Orphaned t k) : Orphaned t' k := by
  refine ⟨Nat.lt_of_lt_of_le hk.allotted h.size_le, ?_⟩
  intro id hid
  rcases h.bound_or_fresh ht hid with hbound | ⟨_, _, hfresh⟩
  · exact hk.unbound id hbound
  · exact Nat.ne_of_lt hk.allotted hfresh

theorem orphaned_of_forgets (ht : Consistent t) (h : Step t c a t') (hk : t.ticket? id = some k)
    (hid : t'.ticket? id = none) : Orphaned t' k := by
  refine ⟨Nat.lt_of_lt_of_le (ht.allotted hk) h.size_le, ?_⟩
  intro other hother
  rcases h.bound_or_fresh ht hother with hbound | ⟨_, _, hfresh⟩
  · rw [ht.unshared hbound hk, hid] at hother
    cases hother
  · exact Nat.ne_of_lt (ht.allotted hk) hfresh

/-- A known id is forgotten by its release, by the arrival of its second side if nothing is
remembered, and by the arrival of the second side of another one if the history is full. -/
theorem forgets_iff (ht : Consistent t) (h : Step t c a t') (hk : t.ticket? id = some k) :
    t'.ticket? id = none ↔ c = .release id ∨ t.history = 0 ∧ t.Completes c id ∨
      t.outgoing? = some id ∧ ∃ other, other ≠ id ∧ t.Completes c other := by
  have hknown : t.ticket? id ≠ none := hk ▸ Option.some_ne_none k
  cases h with
  | plantFilled hother | plantEmpty hother =>
    have hlive := (ticket?_eq_none_iff.mp hother).1
    rw [enter_ticket? _ _ hother]
    constructor
    · intro hnone
      split at hnone
      · cases hnone
      · exact absurd hnone hknown
    · rintro (hc | ⟨_, _, _, hl⟩ | ⟨_, _, _, rfl, _, hl⟩)
      · cases hc
      · rw [hlive] at hl
        cases hl
      · rw [hlive] at hl
        cases hl
  | @fillWaiting other x j hlive =>
    have hcompletes : ∀ i, t.Completes (.settle other x) i ↔ other = i := fun i =>
      and_iff_left_of_imp fun heq => ⟨j, heq ▸ hlive⟩
    rw [fill_ticket?]
    refine (ht.takeOut_forgets_iff hlive hk).trans ?_
    simp only [hcompletes, reduceCtorEq, false_or, exists_eq_right']
  | @fetchSettled other j hlive =>
    have hcompletes : ∀ i, t.Completes (.await other) i ↔ other = i := fun i =>
      and_iff_left_of_imp fun heq => ⟨j, heq ▸ hlive⟩
    refine (ht.takeOut_forgets_iff hlive hk).trans ?_
    simp only [hcompletes, reduceCtorEq, false_or, exists_eq_right']
  | @late other x y j hbound hfilled =>
    have hcompletes : ∀ i, ¬ t.Completes (.settle other x) i := by
      rintro _ ⟨rfl, i, hlive⟩
      have heq : j = i := Option.some.inj (hbound.symm.trans (ht.ticket?_of_live hlive))
      have hempty := ht.empty_of_awaiting hlive
      rw [← heq, hfilled] at hempty
      cases hempty
    simp only [hknown, hcompletes, reduceCtorEq, and_false, exists_false, or_false]
  | @found other j hbound hlive =>
    have hcompletes : ∀ i, ¬ t.Completes (.await other) i := by
      rintro _ ⟨rfl, i, hi⟩
      exact hlive i hi
    simp only [hknown, hcompletes, reduceCtorEq, and_false, exists_false, or_false]
  | @release other =>
    have hcompletes : ∀ i, ¬ t.Completes (.release other) i := nofun
    rw [release_ticket?]
    simp only [hcompletes, and_false, exists_false, or_false, Call.release.injEq]
    constructor
    · intro hnone
      split at hnone
      · rename_i heq
        exact heq.symm
      · exact absurd hnone hknown
    · intro heq
      rw [if_pos heq.symm]
  | read =>
    constructor
    · intro hnone
      exact absurd hnone hknown
    · rintro (hc | ⟨_, hc⟩ | ⟨_, _, _, hc⟩)
      all_goals cases hc

/-- A settling call is the first one if the slot of its id is not there or empty. -/
theorem settle_answer (ht : Consistent t) {x : α} (h : Step t (.settle id x) a t') :
    a = .flag ((t.ticket? id).bind t.outcome?).isNone := by
  cases h with
  | plantFilled hid =>
    rw [hid]
    rfl
  | fillWaiting hlive =>
    rw [ht.ticket?_of_live hlive]
    exact congrArg (fun o => Answer.flag o.isNone) (ht.empty_of_awaiting hlive).symm
  | late hbound hfilled =>
    rw [hbound, Option.bind_some, hfilled]
    rfl

theorem await_answer (ht : Consistent t) (h : Step t (.await id) a t') :
    a = .handle ⟨id, (t.ticket? id).getD t.slots.size⟩ := by
  cases h with
  | plantEmpty hid =>
    rw [hid]
    rfl
  | fetchSettled hlive =>
    rw [ht.ticket?_of_live hlive]
    rfl
  | found hbound _ =>
    rw [hbound]
    rfl

end Step

theorem outcome?_run_of_orphaned (ht : Consistent t) (hk : Orphaned t k) (calls : List (Call α)) :
    (t.run calls).outcome? k = t.outcome? k := by
  induction calls generalizing t with
  | nil => rfl
  | cons c calls ih =>
    have h := ht.step c
    exact (ih (ht.after_step h) (h.orphaned ht hk)).trans (h.outcome?_of_orphaned ht hk)

namespace Epoch

variable {n : Nat} {before during p : List (Call α)}

theorem of_prefix (he : Epoch n id before during) (hp : p <+: during) (hne : p ≠ []) :
    Epoch n id before p where
  fresh := he.fresh
  starts := by
    obtain ⟨c, rest, rfl, hc⟩ := he.starts
    obtain ⟨rest', rfl, _⟩ := (List.prefix_cons_iff.mp hp).resolve_left hne
    exact ⟨c, rest', rfl, hc⟩
  lasts := by
    intro q hq hq0 hqp
    refine he.lasts q (hq.trans hp) hq0 ?_
    rintro rfl
    exact hqp (hq.eq_of_length_le hp.length_le)

theorem ticket?_of_lasts (he : Epoch n id before during) (hp : p <+: during) (hne : p ≠ [])
    (hne' : p ≠ during) : (after n (before ++ p)).ticket? id ≠ none :=
  fun h => not_knows_iff.mpr h (he.lasts p hp hne hne')

/-- The slot planted at the beginning holds the first outcome so far, and is bound to the id until
this is forgotten, and to no id from then on. -/
theorem slot (he : Epoch n id before during) :
    (after n (before ++ during)).outcome? (after n before).slots.size = firstOutcome id during ∧
      ((after n (before ++ during)).ticket? id = some (after n before).slots.size ∨
        (after n (before ++ during)).ticket? id = none ∧
          Orphaned (after n (before ++ during)) (after n before).slots.size) := by
  induction during using List.reverseRecOn with
  | nil =>
    obtain ⟨c, rest, h, _⟩ := he.starts
    cases h
  | append_singleton during c ih =>
    have ht := Consistent.after n (before ++ during)
    have hstep := step_after n (before ++ during) c
    rw [List.append_assoc] at hstep
    by_cases hfirst : during = []
    · subst hfirst
      obtain ⟨c', rest, h, hc⟩ := he.starts
      cases h
      rw [List.append_nil] at hstep
      obtain ⟨hbound, houtcome⟩ := hstep.bound_of_arrives (not_knows_iff.mp he.fresh) hc
      exact ⟨houtcome.trans (firstOutcome_singleton id c).symm, .inl hbound⟩
    · have hp : during <+: during ++ [c] := List.prefix_append _ _
      have hne : during ≠ during ++ [c] := by simp
      obtain ⟨houtcome, hslot⟩ := ih (he.of_prefix hp hfirst)
      have hbound := hslot.resolve_right fun h => he.ticket?_of_lasts hp hfirst hne h.1
      constructor
      · rw [hstep.outcome?_of_bound ht hbound, houtcome, firstOutcome_append,
          firstOutcome_singleton]
      · cases hafter : (after n (before ++ (during ++ [c]))).ticket? id with
        | none => exact .inr ⟨rfl, hstep.orphaned_of_forgets ht hbound hafter⟩
        | some j =>
          rcases hstep.bound_or_fresh ht hafter with h | ⟨h, _⟩
          · exact .inl (h.symm.trans hbound)
          · rw [hbound] at h
            cases h

/-- Before each call of the epoch, its slot is the one of the id, or the one planted next. -/
theorem slot_before (he : Epoch n id before during) (hp : p ++ [c] <+: during) :
    ((after n (before ++ p)).ticket? id).getD (after n (before ++ p)).slots.size =
        (after n before).slots.size ∧
      ((after n (before ++ p)).ticket? id).bind (after n (before ++ p)).outcome? =
        firstOutcome id p := by
  by_cases hfirst : p = []
  · rw [hfirst, List.append_nil, not_knows_iff.mp he.fresh]
    exact ⟨rfl, rfl⟩
  · have hp' : p <+: during := (List.prefix_append p [c]).trans hp
    have hne : p ≠ during := by
      rintro rfl
      have hlength := hp.length_le
      rw [List.length_append] at hlength
      exact Nat.not_succ_le_self _ hlength
    obtain ⟨houtcome, hslot⟩ := (he.of_prefix hp' hfirst).slot
    have hbound := hslot.resolve_right fun h => he.ticket?_of_lasts hp' hfirst hne h.1
    rw [hbound]
    exact ⟨rfl, houtcome⟩

theorem settle_answer (he : Epoch n id before during) {x : α}
    (hp : p ++ [.settle id x] <+: during) :
    answer n (before ++ p) (.settle id x) = .flag (firstOutcome id p).isNone := by
  rw [← (he.slot_before hp).2]
  exact (step_after n (before ++ p) _).settle_answer (Consistent.after n _)

theorem await_answer (he : Epoch n id before during) (hp : p ++ [.await id] <+: during) :
    answer n (before ++ p) (.await id) = .handle ⟨id, (after n before).slots.size⟩ := by
  rw [← (he.slot_before hp).1]
  exact (step_after n (before ++ p) _).await_answer (Consistent.after n _)

theorem read_answer (he : Epoch n id before during) :
    answer n (before ++ during) (.read ⟨id, (after n before).slots.size⟩) =
      .outcome (firstOutcome id during) :=
  congrArg Answer.outcome he.slot.1

theorem read_answer_of_ended (he : Epoch n id before during)
    (hend : ¬ (after n (before ++ during)).Knows id) (later : List (Call α)) :
    answer n (before ++ during ++ later) (.read ⟨id, (after n before).slots.size⟩) =
      .outcome (firstOutcome id during) := by
  obtain ⟨houtcome, hslot⟩ := he.slot
  obtain ⟨_, horphaned⟩ := hslot.resolve_left (by rw [not_knows_iff.mp hend]; nofun)
  have hrun := outcome?_run_of_orphaned (Consistent.after n _) horphaned later
  rw [← after_append] at hrun
  exact congrArg Answer.outcome (hrun.trans houtcome)

theorem single (hfresh : ¬ (after n before).Knows id) (hc : c.ArrivesAt id) :
    Epoch n id before [c] where
  fresh := hfresh
  starts := ⟨c, [], rfl, hc⟩
  lasts := by
    intro p hp hne hne'
    exact absurd ((List.prefix_cons_iff.mp hp).resolve_left hne) (by
      rintro ⟨rest, rfl, hrest⟩
      rw [List.prefix_nil.mp hrest] at hne'
      exact hne' rfl)

theorem snoc (he : Epoch n id before during) (hknows : (after n (before ++ during)).Knows id)
    (c : Call α) : Epoch n id before (during ++ [c]) where
  fresh := he.fresh
  starts := by
    obtain ⟨c', rest, rfl, hc⟩ := he.starts
    exact ⟨c', rest ++ [c], rfl, hc⟩
  lasts := by
    intro p hp hne hne'
    have hp' : p <+: during := (List.prefix_concat_iff.mp hp).resolve_left hne'
    by_cases hall : p = during
    · rw [hall]
      exact hknows
    · exact he.lasts p hp' hne hall

end Epoch

/-- While the id is known, an epoch goes on. -/
theorem exists_epoch_of_knows {n : Nat} (calls : List (Call α)) (h : (after n calls).Knows id) :
    ∃ before during, calls = before ++ during ∧ Epoch n id before during := by
  induction calls using List.reverseRecOn with
  | nil => exact absurd h (by rintro (h | h) <;> cases h)
  | append_singleton calls c ih =>
    by_cases hbefore : (after n calls).Knows id
    · obtain ⟨before, during, rfl, he⟩ := ih hbefore
      exact ⟨before, during ++ [c], List.append_assoc _ _ _, he.snoc hbefore c⟩
    · obtain ⟨k, hk⟩ := Option.isSome_iff_exists.mp (isSome_ticket?_iff_knows.mpr h)
      refine ⟨calls, [c], rfl, .single hbefore ?_⟩
      rcases (step_after n calls c).bound_or_fresh (Consistent.after n calls) hk with
        hbound | ⟨_, hc, _⟩
      · rw [not_knows_iff.mp hbefore] at hbound
        cases hbound
      · exact hc

/-- Every call at which a side comes to the id is made in an epoch. -/
theorem exists_epoch (n : Nat) (calls : List (Call α)) (hc : c.ArrivesAt id) :
    ∃ before during, calls = before ++ during ∧ Epoch n id before (during ++ [c]) := by
  by_cases hknows : (after n calls).Knows id
  · obtain ⟨before, during, rfl, he⟩ := exists_epoch_of_knows calls hknows
    exact ⟨before, during, rfl, he.snoc hknows c⟩
  · exact ⟨calls, [], (List.append_nil _).symm, .single hknows hc⟩

theorem Epoch.not_longer {n : Nat} {before more during during' : List (Call α)}
    (he : Epoch n id before during) (he' : Epoch n id (before ++ more) during')
    (h : during = more ++ during') : more = [] := by
  by_contra hne
  obtain ⟨c, rest, hstarts, _⟩ := he'.starts
  refine he'.fresh (he.lasts more ⟨during', h.symm⟩ hne ?_)
  rw [h, hstarts]
  simp

theorem Epoch.unique {n : Nat} {before before' during during' : List (Call α)}
    (he : Epoch n id before during) (he' : Epoch n id before' during')
    (h : before ++ during = before' ++ during') : before = before' := by
  rcases List.append_eq_append_iff.mp h with ⟨more, rfl, hmore⟩ | ⟨more, rfl, hmore⟩
  · rw [he.not_longer he' hmore, List.append_nil]
  · rw [he'.not_longer he hmore, List.append_nil]

/-- An epoch ends with the release of its id, with the arrival of the second side if nothing is
remembered, or when a full history drops the id. -/
theorem forgets_after_iff (n : Nat) (calls : List (Call α)) (c : Call α)
    (h : (after n calls).Knows id) :
    ¬ (after n (calls ++ [c])).Knows id ↔
      c = .release id ∧ answer n calls c = .flag true ∨
      n = 0 ∧ (after n calls).Completes c id ∨
      (after n calls).outgoing? = some id ∧
        ∃ other, other ≠ id ∧ (after n calls).Completes c other := by
  have hsome := isSome_ticket?_iff_knows.mpr h
  obtain ⟨k, hk⟩ := Option.isSome_iff_exists.mp hsome
  have hforgets := (step_after n calls c).forgets_iff (Consistent.after n calls) hk
  have hreleased : answer n calls (.release id) = .flag true :=
    congrArg Answer.flag ((isSome_ticket? _ id).symm.trans hsome)
  have hrelease : c = .release id ↔ c = .release id ∧ answer n calls c = .flag true :=
    ⟨fun hc => ⟨hc, hc ▸ hreleased⟩, And.left⟩
  rw [not_knows_iff, hforgets, after_history, ← hrelease]

/-- The calls that come to an id fall into its epochs, and an epoch ends where the id is forgotten.
In an epoch the first outcome is the only one that counts, and every handle given out in it reads
this outcome as soon as it is there, and no other for ever. -/
theorem first_outcome_wins (n : Nat) (id : UInt32) :
    (∀ (calls : List (Call α)) (c : Call α), c.ArrivesAt id →
      ∃ before during, calls = before ++ during ∧ Epoch n id before (during ++ [c]) ∧
        ∀ before' during', calls = before' ++ during' → Epoch n id before' (during' ++ [c]) →
          before' = before) ∧
    (∀ (calls : List (Call α)) (c : Call α), (after n calls).Knows id →
      (¬ (after n (calls ++ [c])).Knows id ↔
        c = .release id ∧ answer n calls c = .flag true ∨
        n = 0 ∧ (after n calls).Completes c id ∨
        (after n calls).outgoing? = some id ∧
          ∃ other, other ≠ id ∧ (after n calls).Completes c other)) ∧
    ∀ before during : List (Call α), Epoch n id before during →
      (∀ p x, p ++ [.settle id x] <+: during →
        answer n (before ++ p) (.settle id x) = .flag (firstOutcome id p).isNone) ∧
      ∀ p, p ++ [.await id] <+: during →
        ∃ h : Handle, h.id = id ∧ answer n (before ++ p) (.await id) = .handle h ∧
          (∀ m, p ++ [.await id] <+: m → m <+: during →
            answer n (before ++ m) (.read h) = .outcome (firstOutcome id m)) ∧
          (¬ (after n (before ++ during)).Knows id → ∀ later,
            answer n (before ++ during ++ later) (.read h) =
              .outcome (firstOutcome id during)) := by
  refine ⟨?_, fun calls c => forgets_after_iff n calls c, ?_⟩
  · intro calls c hc
    obtain ⟨before, during, rfl, he⟩ := exists_epoch n calls hc
    refine ⟨before, during, rfl, he, ?_⟩
    intro before' during' h he'
    refine he'.unique he ?_
    rw [← List.append_assoc, ← List.append_assoc, h]
  · intro before during he
    refine ⟨fun p x hp => he.settle_answer hp, ?_⟩
    intro p hp
    refine ⟨⟨id, (after n before).slots.size⟩, rfl, he.await_answer hp, ?_, ?_⟩
    · intro m hpm hm
      have hne : m ≠ [] := by
        rintro rfl
        exact absurd (List.prefix_nil.mp hpm) (by simp)
      exact (he.of_prefix hm hne).read_answer
    · exact fun hend later => he.read_answer_of_ended hend later

/-- A history of one slot, in which 8 takes the place of 7. -/
def crowdedOut : List (Call Nat) :=
  [.await 7, .settle 7 5, .settle 7 6, .await 8, .settle 8 1]

theorem epoch_crowdedOut : Epoch 1 7 [] crowdedOut where
  fresh := by decide
  starts := ⟨.await 7, _, rfl, rfl⟩
  lasts := by
    have hall : ∀ p ∈ crowdedOut.inits, p ≠ [] → p ≠ crowdedOut → (after 1 p).Knows 7 := by
      decide
    exact fun p hp => hall p ((List.mem_inits _ _).mpr hp)

theorem crowdedOut_keeps_first :
    answer 1 [.await 7, .settle 7 5] (.settle 7 6) = .flag false ∧
      ¬ (after 1 crowdedOut).Knows 7 ∧
      ∃ h : Handle, answer 1 [] (.await 7 : Call Nat) = .handle h ∧
        answer 1 (crowdedOut ++ [.settle 7 9]) (.read h) = .outcome (some 5) := by
  have hend : ¬ (after 1 crowdedOut).Knows 7 := by decide
  obtain ⟨hsettle, hawait⟩ := (first_outcome_wins 1 7).2.2 [] crowdedOut epoch_crowdedOut
  obtain ⟨h, _, hhandle, _, hlater⟩ := hawait [] ⟨_, rfl⟩
  exact ⟨hsettle [.await 7, .settle 7 5] 6 ⟨_, rfl⟩, hend, h, hhandle, hlater hend [.settle 7 9]⟩

end SlotTable

end Remoting
