import Remoting.Proofs.CompletionRelay

/-!
# Values one behind the other

A decoder that is called several times in a row gives a list of answers, whatever each of them is.
Unless one of them is that the stream is corrupt, as many frames stand one behind the other, each
answer is what its frame is rebuilt into, and the input is left behind the last of them. No frame is
empty, so more calls than there are bytes cannot all be sound. Values that round-trip are read back
from where they were written one behind the other.
-/

namespace Remoting

theorem Accountable.fresh {α : Type} {step : Decode α} (h : Accountable step) {input : Input}
    (sound : corrupt (Decode.answer (step input)) = false) : input.poisoned = false := by
  by_contra hpoisoned
  rw [h.abandoned input (Bool.eq_true_of_not_eq_false hpoisoned)] at sound
  cases sound

theorem Decode.finalState_conclude {α : Type} (answer : Except CodecError α) (input : Input) :
    finalState (Decode.conclude answer input) = input := by
  cases answer <;> rfl

/-- The error among the answers that one may get. -/
def Decode.failure? {α : Type} : Except CodecError α → Option CodecError
  | .ok _ => none
  | .error e => some e

/-- The value that was read, or null in the place of one that cannot be rebuilt. -/
def Value.orNull {ω : Type} : Except CodecError (Value ω) → Value ω
  | .ok v => v
  | .error _ => .scalar .null

theorem Reader.passes_behind {input : Input} {w : Bytes} (fresh : input.poisoned = false)
    (next : w <+: input.rest) : input.toReader.Passes w (input.behind w).toReader := by
  have h := Reader.passes_of_prefix next
  rwa [fresh] at h

variable {ω : Type} [Portable ω] (c : Codec ω)

namespace Codec

/-- The answers to so many calls in a row. -/
def answers : Nat → Input → List (Except CodecError (Value ω))
  | 0, _ => []
  | n + 1, input => Decode.answer (c.decode input) :: answers n (finalState (c.decode input))

/-- The input behind so many calls in a row. -/
def inputAfter : Nat → Input → Input
  | 0, input => input
  | n + 1, input => inputAfter n (finalState (c.decode input))

/-- The frames stand one behind the other between the two inputs, and the answers are what they are
rebuilt into. -/
structure Yields (input : Input) (frames : List Frame)
    (answers : List (Except CodecError (Value ω))) (last : Input) : Prop where
  fits : ∀ f ∈ frames, f.Fits
  rebuilt : answers = frames.map (c.rebuild 0)
  passed : input.toReader.Passes (frames.flatMap Frame.bytes) last.toReader

theorem length_answers (n : Nat) (input : Input) : (c.answers n input).length = n := by
  induction n generalizing input with
  | zero => rfl
  | succ n ih => rw [answers, List.length_cons, ih]

/-- One call consumes one frame. -/
theorem exists_frame_of_call {input : Input}
    (sound : corrupt (Decode.answer (c.decode input)) = false) :
    ∃ f : Frame, f.Fits ∧ Decode.answer (c.decode input) = c.rebuild 0 f ∧
      input.toReader.Passes f.bytes (finalState (c.decode input)).toReader := by
  obtain ⟨f, hfits, _, _, hprefix, hdecode⟩ := c.exists_frame_of_sound sound
  have hpass := Reader.passes_behind (c.accountable_decode.fresh sound) hprefix
  refine ⟨f, hfits, ?_, ?_⟩
  · rw [hdecode, Decode.answer_conclude]
  · rw [hdecode, Decode.finalState_conclude]
    exact hpass

theorem exists_yields {n : Nat} {input : Input}
    (sound : ∀ a ∈ c.answers n input, corrupt a = false) :
    ∃ frames, c.Yields input frames (c.answers n input) (c.inputAfter n input) := by
  induction n generalizing input with
  | zero => exact ⟨[], nofun, rfl, Reader.passes_nil_iff.mpr rfl⟩
  | succ n ih =>
    obtain ⟨f, hfits, hrebuilt, hpass⟩ := c.exists_frame_of_call (sound _ List.mem_cons_self)
    obtain ⟨frames, hframes⟩ := ih fun a ha => sound a (List.mem_cons_of_mem _ ha)
    refine ⟨f :: frames, ?_, ?_, ?_⟩
    · intro g hg
      rcases List.mem_cons.mp hg with rfl | hg
      · exact hfits
      · exact hframes.fits g hg
    · rw [answers, hrebuilt, hframes.rebuilt, List.map_cons]
    · rw [List.flatMap_cons]
      exact hpass.trans hframes.passed

/-- Soundness passes from one call to the next, so the input is sound behind all of them. -/
theorem poisoned_inputAfter {n : Nat} {input : Input} (fresh : input.poisoned = false)
    (sound : ∀ a ∈ c.answers n input, corrupt a = false) :
    (c.inputAfter n input).poisoned = false := by
  obtain ⟨frames, hframes⟩ := c.exists_yields sound
  exact hframes.passed.poisoned.trans fresh

variable {c} in
theorem Yields.length_le_remaining {input last : Input} {frames : List Frame}
    {answers : List (Except CodecError (Value ω))} (h : c.Yields input frames answers last) :
    answers.length ≤ input.remaining := by
  have hbytes (frames : List Frame) : frames.length ≤ (frames.flatMap Frame.bytes).length := by
    induction frames with
    | nil => exact Nat.le_refl _
    | cons f frames ih =>
      have hf := f.one_le_length_bytes
      rw [List.flatMap_cons, List.length_append, List.length_cons]
      omega
  have hframes := hbytes frames
  rw [h.rebuilt, List.length_map, Reader.remaining, h.passed.rest, List.length_append]
  omega

/-- Of more calls than there are bytes, one finds the stream corrupt. -/
theorem exists_corrupt_of_remaining_lt {n : Nat} {input : Input} (h : input.remaining < n) :
    ∃ a ∈ c.answers n input, corrupt a = true := by
  by_contra hnone
  have sound : ∀ a ∈ c.answers n input, corrupt a = false := fun a ha =>
    Bool.eq_false_of_not_eq_true fun hcorrupt => hnone ⟨a, ha, hcorrupt⟩
  obtain ⟨frames, hframes⟩ := c.exists_yields sound
  have hle := hframes.length_le_remaining
  rw [length_answers] at hle
  omega

/-- Values that round-trip are read back from wherever they stand one behind the other. -/
theorem answers_of_roundTrips {values : List (Value ω)} (h : ∀ v ∈ values, c.RoundTrips v) :
    ∃ form, c.formOf? values = some form ∧
      ∀ input : Input, input.poisoned = false → form <+: input.rest →
        c.answers values.length input = values.map .ok ∧
        c.inputAfter values.length input = input.behind form := by
  induction values with
  | nil =>
    refine ⟨[], rfl, ?_⟩
    intro input fresh _
    obtain ⟨⟨offset, rest, poisoned⟩, notices⟩ := input
    obtain rfl : poisoned = false := fresh
    exact ⟨rfl, rfl⟩
  | cons v values ih =>
    obtain ⟨f, hf⟩ := (h v List.mem_cons_self).exists_carries
    obtain ⟨form, hform, hread⟩ := ih fun v hv => h v (List.mem_cons_of_mem _ hv)
    have hbytes := c.toBytes_eq_ok_iff.mpr ⟨f, hf.frame, hf.fits, rfl⟩
    refine ⟨f.bytes ++ form, ?_, ?_⟩
    · rw [formOf?, hbytes, hform]
      rfl
    · rintro input fresh ⟨rest, hrest⟩
      have hfirst : c.decode input = .ok v (input.behind f.bytes) := by
        apply hf.decode_eq fresh
        rw [← hrest, List.append_assoc]
        exact List.prefix_append _ _
      have hbehind : (input.behind f.bytes).rest = form ++ rest := by
        simp [Input.behind, ← hrest]
      obtain ⟨hanswers, hlast⟩ := hread (input.behind f.bytes) rfl ⟨rest, hbehind.symm⟩
      have hstop : (input.behind f.bytes).behind form = input.behind (f.bytes ++ form) := by
        simp [Input.behind, Nat.add_assoc]
      rw [List.length_cons, answers, inputAfter, hfirst]
      exact ⟨by rw [List.map_cons, ← hanswers]; rfl, hlast.trans hstop⟩

end Codec

end Remoting
