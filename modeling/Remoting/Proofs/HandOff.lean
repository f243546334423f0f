import Remoting.Proofs.CompletionRelay
import Remoting.Proofs.PlaceholderDocument
import Remoting.Proofs.SlotMemory

/-!
# Handing an outcome over

A placeholder is sent in place of an outcome, and the completion that brings the outcome follows
under the same id. The receiver waits for the outcome by the placeholder, and publishes the
completion. Whichever of the two it does first, the handle that it waits by reads the outcome that
was sent, and as long as the id is remembered nobody finds another one there.
-/

namespace Remoting

namespace SlotTable

variable {α : Type} {t t' : SlotTable α} {id : UInt32} {k : Ticket} {a : Answer α} {x : α}

/-- The two sides of the id have just met at a slot that holds the outcome. -/
structure Met (t : SlotTable α) (id : UInt32) (k : Ticket) (x : α) : Prop where
  last : ∃ older, t.order = older ++ [(id, k)]
  remembered : t.retired.get? id = some k
  filled : t.outcome? k = some x

/-- The handle reads the outcome. Until the id is released or `n` other slots were retired, it is
not live, refuses every other outcome and gives out handles that read this one. -/
structure Delivered (t : SlotTable α) (n : Nat) (id : UInt32) (h : Handle) (x : α) : Prop where
  read : ∀ later, (t.run later).read h = some x
  closed : ∀ later, .release id ∉ later → (t.meetings later).length < n →
    (t.run later).contains id = false
  refuses : ∀ later y, .release id ∉ later → (t.meetings later).length < n →
    ((t.run later).settle id y).2 = false
  shared : ∀ later, .release id ∉ later → (t.meetings later).length < n →
    ((t.run later).awaitOrCreate id).1.read ((t.run later).awaitOrCreate id).2 = some x

namespace Step

theorem planted_of_settle (h : Step t (.settle id x) a t') (hid : t.ticket? id = none) :
    a = .flag true ∧ t'.live.get? id = some (.settled t.slots.size) ∧
      t'.outcome? t.slots.size = some x := by
  cases h with
  | plantFilled _ =>
    rw [enter_live_get?, if_pos rfl, enter_outcome?, if_pos rfl]
    exact ⟨rfl, rfl, rfl⟩
  | fillWaiting hlive => exact absurd hlive (live_get?_ne_of_unknown hid _)
  | late hbound _ =>
    rw [hid] at hbound
    cases hbound

theorem planted_of_await (h : Step t (.await id) a t') (hid : t.ticket? id = none) :
    a = .handle ⟨id, t.slots.size⟩ ∧ t'.live.get? id = some (.awaiting t.slots.size) := by
  cases h with
  | plantEmpty _ =>
    rw [enter_live_get?, if_pos rfl]
    exact ⟨rfl, rfl⟩
  | fetchSettled hlive => exact absurd hlive (live_get?_ne_of_unknown hid _)
  | found hbound _ =>
    rw [hid] at hbound
    cases hbound

theorem met_of_settle (ht : Consistent t) (hpos : t.history ≠ 0)
    (h : Step t (.settle id x) a t') (hl : t.live.get? id = some (.awaiting k)) :
    a = .flag true ∧ Met t' id k x := by
  cases h with
  | plantFilled hid => exact absurd hl (live_get?_ne_of_unknown hid _)
  | fillWaiting hlive =>
    rw [hl] at hlive
    cases hlive
    obtain ⟨horder, hretired⟩ := takeOut_remembers hpos id k
    refine ⟨rfl, ⟨_, (fill_order _ _ _).trans horder⟩, by rwa [fill_retired], ?_⟩
    rw [ht.takeOut_fill_outcome? hl, if_pos rfl]
  | late hbound hfilled =>
    have heq := Option.some.inj (hbound.symm.trans (ht.ticket?_of_live hl))
    have hempty := ht.empty_of_awaiting hl
    rw [heq] at hfilled
    exact absurd (hfilled.symm.trans hempty) (Option.some_ne_none _)

theorem met_of_await (hpos : t.history ≠ 0) (h : Step t (.await id) a t')
    (hl : t.live.get? id = some (.settled k)) (hx : t.outcome? k = some x) :
    a = .handle ⟨id, k⟩ ∧ Met t' id k x := by
  cases h with
  | plantEmpty hid => exact absurd hl (live_get?_ne_of_unknown hid _)
  | fetchSettled hlive =>
    rw [hl] at hlive
    cases hlive
    obtain ⟨horder, hretired⟩ := takeOut_remembers hpos id k
    refine ⟨rfl, ⟨_, horder⟩, hretired, ?_⟩
    rw [takeOut_outcome?, hx]
  | found _ hnot => exact absurd hl (hnot k)

end Step

theorem Met.delivered (ht : Consistent t) (hq : Queued t) (h : Met t id k x) :
    Delivered t t.history id ⟨id, k⟩ x := by
  obtain ⟨older, horder⟩ := h.last
  have hremembered : ∀ later, .release id ∉ later → (t.meetings later).length < t.history →
      (t.run later).retired.get? id = some k := by
    intro later hkept hroom
    exact retired_run ht hq horder h.remembered hkept hroom
  have hfilled : ∀ later, (t.run later).outcome? k = some x :=
    outcome?_run_of_filled ht h.filled
  refine ⟨hfilled, ?_, ?_, ?_⟩
  · intro later hkept hroom
    have hretired := hremembered later hkept hroom
    rw [SlotTable.contains, Registry.contains, (ht.run later).live_get?_of_retired hretired]
    rfl
  · intro later y hkept hroom
    have hbound := ticket?_of_retired (hremembered later hkept hroom)
    have hanswer := ((ht.run later).settle_step id y).settle_answer (ht.run later)
    rw [hbound, Option.bind_some, hfilled] at hanswer
    exact Answer.flag.inj hanswer
  · intro later hkept hroom
    have hbound := ticket?_of_retired (hremembered later hkept hroom)
    have hstep := (ht.run later).toSound.await_step id
    have hanswer := Answer.handle.inj (hstep.await_answer (ht.run later))
    rw [hbound] at hanswer
    rw [hanswer]
    exact hstep.outcome?_of_filled (ht.run later) (hfilled later)

/-- The consumer comes first, and others may come to wait with it. -/
theorem delivered_of_await (ht : Consistent t) (hq : Queued t) (hpos : t.history ≠ 0)
    (hid : t.ticket? id = none) (x : α) {between : List (Call α)}
    (hopen : ∀ c ∈ between, c ≠ .release id ∧ ∀ y, c ≠ .settle id y) :
    (((t.awaitOrCreate id).1.run between).settle id x).2 = true ∧
      Delivered (((t.awaitOrCreate id).1.run between).settle id x).1 t.history id
        (t.awaitOrCreate id).2 x := by
  have hfirst := ht.toSound.await_step id
  -- the slot planted for the consumer stays empty until the producer comes
  obtain ⟨hhandle, hlive⟩ := hfirst.planted_of_await hid
  have ht₁ := ht.after_step hfirst
  have hq₁ := hq.after_step ht.toSound hfirst
  have hstays : ∀ c ∈ between,
      c ≠ .release id ∧ ¬ (Live.awaiting t.slots.size).CompletedBy id c := by
    intro c hc
    refine ⟨(hopen c hc).1, ?_⟩
    intro hcompletes
    cases c with
    | settle other y => exact (hopen _ hc).2 y (by rw [show other = id from hcompletes])
    | await _ | release _ | read _ => cases hcompletes
  have hbetween := live_run ht₁ hlive hstays
  have ht₂ := ht₁.run between
  have hhistory : ((t.awaitOrCreate id).1.run between).history = t.history := by
    rw [history_run ht₁, hfirst.history_eq]
  have hsecond := ht₂.settle_step id x
  obtain ⟨hflag, hmet⟩ := hsecond.met_of_settle ht₂ (by rwa [hhistory]) hbetween
  rw [Answer.handle.inj hhandle, ← hhistory, ← hsecond.history_eq]
  refine ⟨Answer.flag.inj hflag, hmet.delivered (ht₂.after_step hsecond) ?_⟩
  exact (hq₁.run ht₁ between).after_step ht₂.toSound hsecond

/-- The producer comes first, and others may bring outcomes behind it. -/
theorem delivered_of_settle (ht : Consistent t) (hq : Queued t) (hpos : t.history ≠ 0)
    (hid : t.ticket? id = none) (x : α) {between : List (Call α)}
    (hopen : ∀ c ∈ between, c ≠ .release id ∧ c ≠ .await id) :
    Delivered (((t.settle id x).1.run between).awaitOrCreate id).1 t.history id
      (((t.settle id x).1.run between).awaitOrCreate id).2 x := by
  have hfirst := ht.settle_step id x
  -- the slot planted by the producer is full, and later outcomes do not change it
  obtain ⟨_, hlive, hfilled⟩ := hfirst.planted_of_settle hid
  have ht₁ := ht.after_step hfirst
  have hq₁ := hq.after_step ht.toSound hfirst
  have hstays : ∀ c ∈ between,
      c ≠ .release id ∧ ¬ (Live.settled t.slots.size).CompletedBy id c := by
    intro c hc
    refine ⟨(hopen c hc).1, ?_⟩
    intro hcompletes
    cases c with
    | await other => exact (hopen _ hc).2 (by rw [show other = id from hcompletes])
    | settle _ _ | release _ | read _ => cases hcompletes
  have hbetween := live_run ht₁ hlive hstays
  have ht₂ := ht₁.run between
  have hhistory : ((t.settle id x).1.run between).history = t.history := by
    rw [history_run ht₁, hfirst.history_eq]
  have hsecond := ht₂.toSound.await_step id
  obtain ⟨hhandle, hmet⟩ := hsecond.met_of_await (by rwa [hhistory]) hbetween
    (outcome?_run_of_filled ht₁ hfilled between)
  rw [Answer.handle.inj hhandle, ← hhistory, ← hsecond.history_eq]
  apply hmet.delivered (ht₂.after_step hsecond)
  exact (hq₁.run ht₁ between).after_step ht₂.toSound hsecond

end SlotTable

variable {ω : Type} [Portable ω] (c : Codec ω)

/-- The loader reads the document of the placeholder back. -/
def Loader.ReadsPlaceholder (loader : Loader ω) (id : UInt32) : Prop :=
  ∀ document, (Object.placeholder id : Object ω).document = .ok document →
    loader.load (Utf8.encode document) = some (.placeholder id)

theorem Loader.readsPlaceholder_placeholder (id : UInt32) :
    (placeholder : Loader ω).ReadsPlaceholder id := by
  intro document hdocument
  cases hdocument
  exact placeholder?_encode id

/-- Placeholders are declared with a loader that reads them back, and no handler stands in for their
document, which is not too long. -/
structure Codec.AdmitsPlaceholder (id : UInt32) : Prop where
  declared : ∃ entry loader, c.catalog.get? placeholderName = some entry ∧
    entry.declaration.subject = .concrete loader ∧ loader.ReadsPlaceholder id ∧
    ∀ name ∈ entry.lineage, c.table.get? name = none
  within : ∀ document, (Object.placeholder id : Object ω).document = .ok document →
    document.utf8ByteSize ≤ c.settings.payloadLimit

theorem Codec.AdmitsPlaceholder.roundTrips {id : UInt32} (h : c.AdmitsPlaceholder id) :
    c.RoundTrips (.object (.placeholder id)) := by
  obtain ⟨entry, loader, hentry, hconcrete, hreads, unhandled⟩ := h.declared
  have hload : entry.load? (Utf8.encode (DocumentText.placeholder id)) =
      some (some (.placeholder id)) := by
    rw [Catalog.Entry.load?, Declaration.loader?, hconcrete]
    exact congrArg some (hreads _ rfl)
  have hname : placeholderName.utf8ByteSize ≤ 65535 := by decide
  have hsize := DocumentText.size_placeholder_le id
  have hsendable : c.Sendable (.object (.placeholder id)) :=
    .generic _ entry (DocumentText.placeholder id) hentry hname unhandled rfl hload
      (h.within _ rfl) (by omega)
  exact hsendable.roundTrips

/-- A completion whose value, or error, comes through, and the outcome that it brings. -/
inductive Completion.Brings (id : UInt32) : Completion ω → Outcome ω → Prop where
  | success (v : Value ω) (sent : c.RoundTrips v) : Brings id (.success id v) (.ok v)
  | failure (e : Object ω) (sent : c.RoundTrips (.object e)) :
      Brings id (.failure id e) (.error (.thrown e))

namespace Completion

theorem Brings.exists_form {id : UInt32} {m : Completion ω} {expected : Outcome ω}
    (h : Brings c id m expected) :
    ∃ form, (∀ out, m.encode c out = .ok () (out.append form)) ∧
      ∀ input : Input, input.poisoned = false → form <+: input.rest →
        decode c id input = .ok m (input.behind form) := by
  have hnull : c.RoundTrips (.scalar .null) := Codec.roundTrips_null
  cases h with
  | success v sent => exact Completion.exists_form c (.success id v) hnull sent
  | failure e sent => exact Completion.exists_form c (.failure id e) sent hnull

theorem Brings.publish_eq {id : UInt32} {m : Completion ω} {expected : Outcome ω}
    (h : Brings c id m expected) (t : SlotTable (Outcome ω)) :
    m.publish t = t.settle id expected := by
  cases h with
  | success v sent => rfl
  | failure e sent => rfl

/-- The placeholder arrives as it was sent, and so does the completion. Whether the receiver
resolves the one before or after it publishes the other, the completion is the one that counts and
the handle reads what was sent. -/
theorem hand_over {id : UInt32} {m : Completion ω} {expected : Outcome ω}
    (admits : c.AdmitsPlaceholder id) (brings : Brings c id m expected) {n : Nat} (hn : 1 ≤ n)
    (before : List (Call (Outcome ω))) (fresh : ¬ (SlotTable.after n before).Knows id) :
    c.RoundTrips (.object (.placeholder id)) ∧
    (∃ form, (∀ out, m.encode c out = .ok () (out.append form)) ∧
      ∀ input : Input, input.poisoned = false → form <+: input.rest →
        decode c id input = .ok m (input.behind form)) ∧
    (∃ t h, (Value.object (.placeholder id)).resolve? (SlotTable.after n before) = some (t, h) ∧
      ∀ between, (∀ call ∈ between, call ≠ .release id ∧ ∀ y, call ≠ .settle id y) →
        (m.publish (t.run between)).2 = true ∧
        (m.publish (t.run between)).1.Delivered n id h expected) ∧
    (m.publish (SlotTable.after n before)).2 = true ∧
    ∀ between, (∀ call ∈ between, call ≠ .release id ∧ call ≠ .await id) →
      ∃ t h, (Value.object (.placeholder id)).resolve?
          ((m.publish (SlotTable.after n before)).1.run between) = some (t, h) ∧
        t.Delivered n id h expected := by
  have ht := SlotTable.Consistent.after n before
  have hq := SlotTable.Queued.after n before
  have hid := SlotTable.not_knows_iff.mp fresh
  have hhistory := SlotTable.after_history n before
  have hpos : (SlotTable.after n before).history ≠ 0 := by
    omega
  refine ⟨admits.roundTrips, brings.exists_form, ⟨_, _, rfl, ?_⟩, ?_, ?_⟩
  · intro between hopen
    have hboth := SlotTable.delivered_of_await ht hq hpos hid expected hopen
    rw [hhistory] at hboth
    rw [brings.publish_eq]
    exact hboth
  · obtain ⟨hflag, _⟩ := (ht.settle_step id expected).planted_of_settle hid
    rw [brings.publish_eq]
    exact Answer.flag.inj hflag
  · intro between hopen
    have hdelivered := SlotTable.delivered_of_settle ht hq hpos hid expected hopen
    rw [hhistory] at hdelivered
    refine ⟨_, _, rfl, ?_⟩
    rw [brings.publish_eq]
    exact hdelivered

end Completion

/-- Declares placeholders and nothing else. -/
def waitingCodec : Codec Sample where
  catalog := ⟨Registry.empty.insert placeholderName
    ⟨⟨.concrete Loader.placeholder, none, []⟩, [placeholderName, rootName]⟩⟩

theorem five_handed_over :
    let t₀ : SlotTable (Outcome Sample) := .after 1 [.await 3]
    let m : Completion Sample := .success 7 (.scalar (.int 5))
    ¬ t₀.Knows 7 ∧ ∃ t h, (Value.object (.placeholder 7)).resolve? t₀ = some (t, h) ∧
      (m.publish t).2 = true ∧ (m.publish t).1.Delivered 1 7 h (.ok (.scalar (.int 5))) := by
  intro t₀ m
  have admits : waitingCodec.AdmitsPlaceholder 7 := by
    refine ⟨⟨_, _, rfl, rfl, Loader.readsPlaceholder_placeholder 7, fun _ _ => rfl⟩, ?_⟩
    intro document hdocument
    cases hdocument
    decide
  have sent : waitingCodec.RoundTrips (.scalar (.int 5)) :=
    (Codec.Sendable.scalar (.int 5) nofun).roundTrips
  have fresh : ¬ t₀.Knows 7 := by decide
  obtain ⟨_, _, ⟨t, h, hresolve, hpublish⟩, _⟩ :=
    Completion.hand_over waitingCodec admits (.success _ sent) (Nat.le_refl 1) [.await 3] fresh
  obtain ⟨hflag, hdelivered⟩ := hpublish [] nofun
  exact ⟨fresh, t, h, hresolve, hflag, hdelivered⟩

end Remoting
