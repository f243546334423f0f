import Mathlib.Tactic.Ring
import Remoting.BigEndian

/-!
# Words and the numbers they stand for

On byte strings of one length, cutting a number into bytes and reading the bytes as a number are
inverse to each other, so the words of a width are exactly the numbers below its capacity.
-/

namespace Remoting.BigEndian

theorem capacity_pos (width : Nat) : 0 < capacity width := by
  induction width with
  | zero => exact Nat.one_pos
  | succ width ih => exact Nat.mul_pos (by norm_num) ih

theorem foldl_eq (bytes : Bytes) (n : Nat) :
    bytes.foldl (fun n b => n * 256 + b.toNat) n = n * capacity bytes.length + decode bytes := by
  induction bytes generalizing n with
  | nil => simp [capacity, decode]
  | cons b bytes ih =>
    have hn := ih (n * 256 + b.toNat)
    have hz := ih (0 * 256 + b.toNat)
    simp only [decode, List.foldl_cons, List.length_cons, capacity] at hn hz ⊢
    rw [hn, hz]
    ring

theorem decode_cons (b : UInt8) (bytes : Bytes) :
    decode (b :: bytes) = b.toNat * capacity bytes.length + decode bytes := by
  have h := foldl_eq bytes (0 * 256 + b.toNat)
  simpa only [decode, List.foldl_cons, Nat.zero_mul, Nat.zero_add] using h

theorem decode_lt (bytes : Bytes) : decode bytes < capacity bytes.length := by
  induction bytes with
  | nil => exact Nat.one_pos
  | cons b bytes ih =>
    have hb : b.toNat + 1 ≤ 256 := b.toNat_lt
    rw [decode_cons, List.length_cons, capacity]
    calc
      _ < b.toNat * capacity bytes.length + capacity bytes.length := Nat.add_lt_add_left ih _
      _ = (b.toNat + 1) * capacity bytes.length := by ring
      _ ≤ 256 * capacity bytes.length := Nat.mul_le_mul_right _ hb

theorem decode_encode_mod (width n : Nat) : decode (encode width n) = n % capacity width := by
  induction width with
  | zero => simp [encode, decode, capacity, Nat.mod_one]
  | succ width ih =>
    rw [encode, decode_cons, length_encode, ih, capacity, Nat.mul_comm 256, Nat.mod_mul,
      UInt8.toNat_ofNat']
    ring

theorem decode_encode {width n : Nat} (h : n < capacity width) : decode (encode width n) = n := by
  rw [decode_encode_mod, Nat.mod_eq_of_lt h]

theorem eq_of_decode_eq {a b : Bytes} (hlen : a.length = b.length) (h : decode a = decode b) :
    a = b := by
  induction a generalizing b with
  | nil => exact (List.length_eq_zero_iff.mp hlen.symm).symm
  | cons x a ih =>
    obtain _ | ⟨y, b⟩ := b
    · simp at hlen
    have htail : a.length = b.length := by simpa using hlen
    have ha := decode_lt a
    have hb := decode_lt b
    rw [decode_cons, decode_cons, htail] at h
    rw [htail] at ha
    have hlow : decode a = decode b := by
      have := congrArg (· % capacity b.length) h
      simpa [Nat.add_mod, Nat.mod_eq_of_lt ha, Nat.mod_eq_of_lt hb] using this
    have hhigh : x.toNat = y.toNat := by
      rw [hlow] at h
      exact Nat.eq_of_mul_eq_mul_right (capacity_pos _) (Nat.add_right_cancel h)
    rw [UInt8.toNat_inj.mp hhigh, ih htail hlow]

theorem encode_decode (bytes : Bytes) : encode bytes.length (decode bytes) = bytes := by
  apply eq_of_decode_eq (length_encode _ _)
  exact decode_encode (decode_lt bytes)

theorem exists_encode (bytes : Bytes) :
    ∃ n < capacity bytes.length, encode bytes.length n = bytes :=
  ⟨decode bytes, decode_lt bytes, encode_decode bytes⟩

end Remoting.BigEndian
