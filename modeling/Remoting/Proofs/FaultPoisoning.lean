import Mathlib.Tactic.SplitIfs
import Remoting.Codec
import Remoting.Proofs.FrameForm

/-!
# Faults and poison

A careful step, begun on a reader that is not poisoned, poisons it if and only if it ends with a
fault of the stream. It never goes backward and never leaves the input, and its faults are found
between a given place and the one where it stops. Careful steps compose, so that the reading of a
frame is careful because its parts are.
-/

namespace Remoting

/-- The second reader stands in front of the same bytes, or further on. -/
structure Reader.Ahead (r r' : Reader) : Prop where
  offset_le : r.offset ≤ r'.offset
  total : r'.offset + r'.remaining = r.offset + r.remaining

/-- How a step leaves a reader: sound and at least so many bytes further on, or poisoned by a fault
that was found behind `start` and not behind the reader. -/
inductive Reader.Left (start least : Nat) (r r' : Reader) : Option ByteFault → Prop
  | sound : r.Ahead r' → r.offset + least ≤ r'.offset → r'.poisoned = false →
      Left start least r r' none
  | corrupt {fault : ByteFault} : r.Ahead r' → start ≤ fault.offset → fault.offset ≤ r'.offset →
      r'.poisoned = true → Left start least r r' (some fault)

namespace Reader

variable {r m r' : Reader} {start start' least least' : Nat} {fault : Option ByteFault}

theorem Ahead.refl (r : Reader) : r.Ahead r :=
  ⟨Nat.le_refl _, rfl⟩

theorem Ahead.trans (h : r.Ahead m) (h' : m.Ahead r') : r.Ahead r' where
  offset_le := h.offset_le.trans h'.offset_le
  total := h'.total.trans h.total

theorem Left.ahead (h : r.Left start least r' fault) : r.Ahead r' := by
  cases h with
  | sound hahead _ _ => exact hahead
  | corrupt hahead _ _ _ => exact hahead

theorem Left.poisoned (h : r.Left start least r' fault) : r'.poisoned = fault.isSome := by
  cases h with
  | sound _ _ hsound => exact hsound
  | corrupt _ _ _ hpoisoned => exact hpoisoned

theorem Left.weaken (h : r.Left start least r' fault) (hstart : start' ≤ start)
    (hleast : least' ≤ least) : r.Left start' least' r' fault := by
  cases h with
  | sound hahead hfar hsound => exact .sound hahead (by omega) hsound
  | corrupt hahead hbehind hbefore hpoisoned =>
    exact .corrupt hahead (hstart.trans hbehind) hbefore hpoisoned

theorem Left.behind (hahead : r.Ahead m) (hfar : r.offset + least ≤ m.offset)
    (h : m.Left start 0 r' fault) : r.Left start least r' fault := by
  have hle := h.ahead.offset_le
  cases h with
  | sound hahead' _ hsound => exact .sound (hahead.trans hahead') (by omega) hsound
  | corrupt hahead' hbehind hbefore hpoisoned =>
    exact .corrupt (hahead.trans hahead') hbehind hbefore hpoisoned

end Reader

/-- The state in which a step ends. -/
def finalState {ε σ α : Type} : EStateM.Result ε σ α → σ
  | .ok _ s => s
  | .error _ s => s

def raised? {ε σ α : Type} : EStateM.Result ε σ α → Option ε
  | .ok _ _ => none
  | .error e _ => some e

/-- A step on states with a reader in them. All its faults are found behind `start`, if it begins
there, and it consumes at least so many bytes if it finds none. -/
def Careful {ε σ α : Type} (reader : σ → Reader) (fault? : ε → Option ByteFault)
    (start least : Nat) (step : EStateM ε σ α) : Prop :=
  ∀ s, (reader s).poisoned = false → start ≤ (reader s).offset →
    (reader s).Left start least (reader (finalState (step s))) ((raised? (step s)).bind fault?)

/-- A step that does nothing on a poisoned reader but to report so. -/
def Abandons {ε σ α : Type} (reader : σ → Reader) (report : ByteFault → ε)
    (step : EStateM ε σ α) : Prop :=
  ∀ s, (reader s).poisoned = true → step s = .error (report ⟨(reader s).offset, .abandoned⟩) s

section Composition

variable {ε σ α β : Type} {reader : σ → Reader} {fault? : ε → Option ByteFault}
  {report : ByteFault → ε} {start least : Nat} {step : EStateM ε σ α} {next : α → EStateM ε σ β}

theorem Careful.weaken {least' : Nat} (h : Careful reader fault? start least step)
    (hleast : least' ≤ least) : Careful reader fault? start least' step := by
  intro s hs hstart
  exact (h s hs hstart).weaken (Nat.le_refl _) hleast

theorem Careful.pure (a : α) :
    Careful reader fault? start 0 (Pure.pure a : EStateM ε σ α) := by
  intro s hs _
  exact .sound (.refl _) (Nat.le_refl _) hs

theorem Careful.bind (h : Careful reader fault? start least step)
    (hnext : ∀ a, Careful reader fault? start 0 (next a)) :
    Careful reader fault? start least (step >>= next) := by
  intro s hs hstart
  have hstep := h s hs hstart
  cases hr : step s with
  | error e m =>
    rw [hr] at hstep
    rw [bind_of_error hr]
    exact hstep
  | ok a m =>
    rw [hr] at hstep
    rw [bind_of_ok hr]
    cases hstep with
    | sound hahead hfar hsound =>
      have hm : start ≤ (reader m).offset := hstart.trans hahead.offset_le
      exact .behind hahead hfar (hnext a m hsound hm)

theorem Careful.map (f : α → β) (h : Careful reader fault? start least step) :
    Careful reader fault? start least (f <$> step) := by
  rw [map_eq_pure_bind]
  exact h.bind fun a => .pure (f a)

theorem Careful.ofState {rest : σ → EStateM ε σ α}
    (h : ∀ s, Careful reader fault? start least (rest s)) (hstep : ∀ s, step s = rest s s) :
    Careful reader fault? start least step := by
  intro s hs hstart
  rw [hstep s]
  exact h s s hs hstart

/-- A step may look at the place where it begins, for the sake of the faults that it reports. -/
theorem Careful.fromState {rest : σ → EStateM ε σ α}
    (h : ∀ s, Careful reader fault? (reader s).offset least (rest s))
    (hstep : ∀ s, step s = rest s s) : Careful reader fault? start least step := by
  intro s hs hstart
  rw [hstep s]
  exact (h s s hs (Nat.le_refl _)).weaken hstart (Nat.le_refl _)

theorem Abandons.bind (h : Abandons reader report step) :
    Abandons reader report (step >>= next) := by
  intro s hs
  exact bind_of_error (h s hs)

theorem Abandons.map (f : α → β) (h : Abandons reader report step) :
    Abandons reader report (f <$> step) := by
  rw [map_eq_pure_bind]
  exact h.bind

theorem Abandons.fromState {rest : σ → EStateM ε σ α} (h : ∀ s, Abandons reader report (rest s))
    (hstep : ∀ s, step s = rest s s) : Abandons reader report step := by
  intro s hs
  rw [hstep s]
  exact h s s hs

end Composition

namespace Read

variable {α : Type} {start : Nat}

theorem careful_failAt (start : Nat) (cause : ByteFault.Cause) :
    Careful id some start 0 (failAt start cause : Read α) := by
  intro r _ hstart
  exact .corrupt ⟨Nat.le_refl _, rfl⟩ (Nat.le_refl _) hstart rfl

theorem careful_take (n : Nat) : Careful id some start n (take n) := by
  intro r hr hstart
  have htake : take n r = if (r.rest.take n).length < n then failAt r.offset .endOfInput r
      else .ok (r.rest.take n) { r with offset := r.offset + n, rest := r.rest.drop n } := by
    rw [take, if_neg]
    exact fun hpoisoned => Bool.false_ne_true (hr.symm.trans hpoisoned)
  rw [htake]
  by_cases hlen : (r.rest.take n).length < n
  · rw [if_pos hlen]
    exact .corrupt ⟨Nat.le_refl _, rfl⟩ hstart (Nat.le_refl _) rfl
  · rw [if_neg hlen]
    have hn : n ≤ r.rest.length := by
      rw [List.length_take] at hlen
      omega
    refine .sound ⟨Nat.le_add_right _ _, ?_⟩ (Nat.le_refl _) hr
    change r.offset + n + (r.rest.drop n).length = r.offset + r.rest.length
    rw [List.length_drop]
    omega

theorem careful_word (width : Nat) : Careful id some start width (word width) :=
  (careful_take width).map _

theorem careful_boolean : Careful id some start 1 boolean := by
  refine .fromState (fun r => (careful_word 1).map _ |>.bind fun byte => ?_) fun _ => rfl
  split_ifs
  · exact .pure _
  · exact .pure _
  · exact careful_failAt _ _

theorem careful_lengthUpTo (width limit : Nat) :
    Careful id some start width (lengthUpTo width limit) := by
  refine .fromState (fun r => (careful_word width).bind fun length => ?_) fun _ => rfl
  split_ifs
  · exact .pure _
  · exact careful_failAt _ _

theorem careful_utf8 (length : Nat) : Careful id some start length (utf8 length) := by
  refine .fromState (fun r => (careful_take length).bind fun bytes => ?_) fun _ => rfl
  cases Utf8.decode bytes with
  | ok text => exact .pure _
  | error fault => exact careful_failAt _ _

theorem careful_shortText : Careful id some start Layout.nameLengthWidth shortText :=
  (careful_word _).bind fun length => (careful_utf8 length).weaken (Nat.zero_le _)

theorem careful_text (limit : Nat) : Careful id some start Layout.textLengthWidth (text limit) :=
  (careful_lengthUpTo _ limit).bind fun length => (careful_utf8 length).weaken (Nat.zero_le _)

theorem careful_counted (limit : Nat) :
    Careful id some start Layout.payloadLengthWidth (counted limit) :=
  (careful_lengthUpTo _ limit).bind fun length => (careful_take length).weaken (Nat.zero_le _)

theorem abandons_take (n : Nat) : Abandons id id (take n) := by
  intro r hr
  exact if_pos hr

theorem abandons_word (width : Nat) : Abandons id id (word width) :=
  (abandons_take width).map _

end Read

namespace Frame

variable {start : Nat}

theorem careful_readTag : Careful id some start 1 readTag := by
  refine .fromState (fun r => (Read.careful_word 1).map _ |>.bind fun byte => ?_) fun _ => rfl
  cases Tag.ofOrdinal? byte with
  | some tag => exact .pure _
  | none => exact Read.careful_failAt _ _

theorem careful_readScalar (settings : Settings) (tag : Tag) :
    Careful id some start 0 (readScalar settings tag) := by
  have hword (width : Nat) : Careful id some start 0 (Read.word width) :=
    (Read.careful_word width).weaken (Nat.zero_le _)
  cases tag with
  | null => exact .pure _
  | object => exact .pure _
  | boolean => exact (Read.careful_boolean.weaken (Nat.zero_le _)).map _
  | byte => exact (((hword 1).map _).map _).map _
  | short => exact (((hword 2).map _).map _).map _
  | int => exact (((hword 4).map _).map _).map _
  | long => exact (((hword 8).map _).map _).map _
  | float => exact ((hword 4).map _).map _
  | double => exact ((hword 8).map _).map _
  | char => exact ((hword 2).map _).map _
  | text => exact ((Read.careful_text _).weaken (Nat.zero_le _)).map _

theorem careful_readObject (settings : Settings) :
    Careful id some start 0 (readObject settings) := by
  refine (Read.careful_shortText.weaken (Nat.zero_le _)).bind fun typeName => ?_
  refine (Read.careful_boolean.weaken (Nat.zero_le _)).bind fun custom => ?_
  refine ((Read.careful_counted _).weaken (Nat.zero_le _)).bind fun payload => ?_
  exact .pure _

theorem careful_read (settings : Settings) : Careful id some start 1 (read settings) := by
  refine careful_readTag.bind fun tag => ?_
  have hscalar : Careful id some start 0 (Frame.scalar <$> readScalar settings tag) :=
    (careful_readScalar settings tag).map Frame.scalar
  cases tag with
  | object => exact careful_readObject settings
  | null | boolean | byte | short | int | long | float | double | char | text => exact hscalar

theorem abandons_read (settings : Settings) : Abandons id id (read settings) := by
  have htag : Abandons id id readTag :=
    .fromState (fun r => ((Read.abandons_word 1).map _).bind) fun _ => rfl
  exact htag.bind

end Frame

end Remoting
