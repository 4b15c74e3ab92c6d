import Mathlib.Algebra.Ring.Nat
import NovelScript.Digest.Crc32

/-! # A changed byte changes the checksum

One bit of the division can be undone: the top bit of the result tells whether the polynomial was
taken in. So a byte is taken in without loss, of the byte as of the remainder before it, and two
byte strings that differ in one byte have different checksums, however long they are. -/

namespace NovelScript.Crc32

theorem toNat_low (crc : UInt32) : (crc &&& 1).toNat = crc.toNat % 2 := by
  rw [UInt32.toNat_and]
  exact Nat.and_one_is_mod crc.toNat

theorem low_eq_zero_iff {crc : UInt32} : crc &&& 1 = 0 ↔ crc.toNat % 2 = 0 := by
  rw [← UInt32.toNat_inj, toNat_low]
  rfl

theorem toNat_half (crc : UInt32) : (crc >>> 1).toNat = crc.toNat / 2 := by
  rw [UInt32.toNat_shiftRight]
  exact Nat.shiftRight_eq_div_pow crc.toNat 1

/-- The top bit is set if the polynomial was taken in, and only then. -/
theorem bitStep_lt_iff {crc : UInt32} : (bitStep crc).toNat < 2 ^ 31 ↔ crc &&& 1 = 0 := by
  have hhalf : (crc >>> 1).toNat < 2 ^ 31 := by
    rw [toNat_half]
    have hlt := crc.toNat_lt
    omega
  unfold bitStep
  by_cases hlow : crc &&& 1 = 0
  · rw [if_pos hlow]
    exact iff_of_true hhalf hlow
  · rw [if_neg hlow]
    refine iff_of_false (Nat.not_lt.mpr (Nat.ge_two_pow_of_testBit ?_)) hlow
    rw [UInt32.toNat_xor, Nat.testBit_xor, Nat.testBit_lt_two_pow hhalf]
    decide

/-- One bit of the division loses nothing. -/
theorem bitStep_inj {a b : UInt32} : bitStep a = bitStep b ↔ a = b := by
  refine ⟨fun h => ?_, congrArg bitStep⟩
  have hlow : a &&& 1 = 0 ↔ b &&& 1 = 0 := by
    rw [← bitStep_lt_iff, h, bitStep_lt_iff]
  have hhalf : a >>> 1 = b >>> 1 := by
    unfold bitStep at h
    by_cases hzero : a &&& 1 = 0
    · rwa [if_pos hzero, if_pos (hlow.mp hzero)] at h
    · rw [if_neg hzero, if_neg (fun hb => hzero (hlow.mpr hb))] at h
      exact (UInt32.xor_left_inj _).mp h
  have hquotient := congrArg UInt32.toNat hhalf
  rw [toNat_half, toNat_half] at hquotient
  rw [low_eq_zero_iff, low_eq_zero_iff] at hlow
  apply UInt32.toNat_inj.mp
  omega

/-- Nothing is lost when a byte is taken in. -/
theorem byteStep_inj {crc crc' : UInt32} {b b' : UInt8} (h : byteStep crc b = byteStep crc' b') :
    crc ^^^ b.toUInt32 = crc' ^^^ b'.toUInt32 := by
  simpa only [byteStep, bitStep_inj] using h

/-- Bytes that are taken in leave different remainders different. -/
theorem foldl_byteStep_inj {bytes : Bytes} {crc crc' : UInt32}
    (h : bytes.foldl byteStep crc = bytes.foldl byteStep crc') : crc = crc' := by
  induction bytes generalizing crc crc' with
  | nil => exact h
  | cons b bytes ih =>
    apply (UInt32.xor_left_inj b.toUInt32).mp
    exact byteStep_inj (ih h)

/-- Of two byte strings that differ in no more than one byte, those with one checksum are equal. -/
theorem hash_inj_of_byte {front back : Bytes} {a b : UInt8}
    (h : hash (front ++ a :: back) = hash (front ++ b :: back)) : a = b := by
  unfold hash at h
  rw [UInt32.xor_left_inj, List.foldl_append, List.foldl_append] at h
  have hstep := byteStep_inj (foldl_byteStep_inj h)
  rw [UInt32.xor_right_inj] at hstep
  exact UInt8.toUInt32_inj.mp hstep

end NovelScript.Crc32
