import Mathlib.Data.Int.Bitwise
import NovelScript.ActiveValue.Evaluation

/-! # Operations on words and on integers

A word of 64 bits stands for an integer in two's complement. An operation on words has a result for
the operands for which the operation on integers has one, and the result stands for that integer,
or for what is left of it in 64 bits where it can be too large for a word. -/

namespace NovelScript

/-! ## Bits of integers -/

/-- Integers with the same bits are the same: far up all bits are that of the sign. -/
theorem int_eq_of_testBit {m n : Int} (h : ∀ i, m.testBit i = n.testBit i) : m = n := by
  have hsign (a b : Nat) : ¬ ∀ i, (Int.ofNat a).testBit i = (Int.negSucc b).testBit i := by
    intro hall
    have hfar := hall (a + b)
    have ha : a.testBit (a + b) = false :=
      Nat.testBit_lt_two_pow (Nat.lt_of_le_of_lt (Nat.le_add_right a b) Nat.lt_two_pow_self)
    have hb : b.testBit (a + b) = false :=
      Nat.testBit_lt_two_pow (Nat.lt_of_le_of_lt (Nat.le_add_left b a) Nat.lt_two_pow_self)
    simp [Int.testBit, ha, hb] at hfar
  cases m with
  | ofNat a =>
    cases n with
    | ofNat b => exact congrArg Int.ofNat (Nat.eq_of_testBit_eq h)
    | negSucc b => exact absurd h (hsign a b)
  | negSucc a =>
    cases n with
    | ofNat b => exact absurd (fun i => (h i).symm) (hsign b a)
    | negSucc b =>
      exact congrArg Int.negSucc (Nat.eq_of_testBit_eq fun i => Bool.not_inj (h i))

/-- The integer of a word has the bits of the word, and above them that of its sign. -/
theorem testBit_toInt {w : Nat} (x : BitVec w) (i : Nat) :
    x.toInt.testBit i = if i < w then x.getLsbD i else x.msb := by
  have hlt := x.isLt
  cases hsign : x.msb with
  | false =>
    rw [BitVec.toInt_eq_toNat_of_msb hsign]
    change x.toNat.testBit i = _
    split
    · rfl
    · rename_i hi
      exact Nat.testBit_lt_two_pow
        (Nat.lt_of_lt_of_le hlt (Nat.pow_le_pow_right (by decide) (Nat.le_of_not_lt hi)))
  | true =>
    have hvalue : x.toInt = Int.negSucc (2 ^ w - (x.toNat + 1)) := by
      rw [BitVec.toInt_eq_msb_cond, if_pos hsign, Int.negSucc_eq, Int.ofNat_sub hlt]
      push_cast
      omega
    rw [hvalue]
    change (!(2 ^ w - (x.toNat + 1)).testBit i) = _
    rw [Nat.testBit_two_pow_sub_succ hlt]
    split
    · rename_i hi
      simp only [hi, decide_true, Bool.true_and, Bool.not_not]
      rfl
    · rename_i hi
      simp only [hi, decide_false, Bool.false_and, Bool.not_false]

theorem toInt_and (x y : Int64) : (x &&& y).toInt = x.toInt.land y.toInt := by
  refine int_eq_of_testBit fun i => ?_
  rw [Int.testBit_land]
  simp only [← Int64.toInt_toBitVec, Int64.toBitVec_and, testBit_toInt, BitVec.getLsbD_and,
    BitVec.msb_and]
  split <;> rfl

theorem toInt_or (x y : Int64) : (x ||| y).toInt = x.toInt.lor y.toInt := by
  refine int_eq_of_testBit fun i => ?_
  rw [Int.testBit_lor]
  simp only [← Int64.toInt_toBitVec, Int64.toBitVec_or, testBit_toInt, BitVec.getLsbD_or,
    BitVec.msb_or]
  split <;> rfl

theorem toInt_xor (x y : Int64) : (x ^^^ y).toInt = x.toInt.xor y.toInt := by
  refine int_eq_of_testBit fun i => ?_
  rw [Int.testBit_lxor]
  simp only [← Int64.toInt_toBitVec, Int64.toBitVec_xor, testBit_toInt, BitVec.getLsbD_xor,
    BitVec.msb_xor]
  split <;> rfl

/-! ## Shifts, quotients and remainders -/

/-- Words of different signs are added without a carry out of the 64 bits. -/
theorem toInt_add_of_signs_ne {x y : Int64} (h : decide (x < 0) ≠ decide (y < 0)) :
    (x + y).toInt = x.toInt + y.toInt := by
  have hsigns : ¬ (x.toInt < 0 ↔ y.toInt < 0) := by
    simpa [Int64.lt_iff_toInt_lt] using h
  have hleast : Int64.minValue.toInt = -2 ^ 63 := Int64.toInt_minValue
  have hx := x.minValue_le_toInt
  have hy := y.minValue_le_toInt
  have hx' := x.toInt_lt
  have hy' := y.toInt_lt
  rw [Int64.toInt_add]
  exact Int.bmod_eq_of_le (by omega) (by omega)

/-- The amount by which words are shifted is the amount itself, as long as it is less than 64. -/
theorem toNat_shiftAmount {b : Int64} (hlow : 0 ≤ b.toInt) (hhigh : b.toInt < 64) :
    (b.toBitVec.smod 64).toNat = b.toInt.toNat := by
  have hvalue : (b.toBitVec.smod 64).toInt = b.toInt := by
    rw [BitVec.toInt_smod]
    exact Int.fmod_eq_of_lt hlow hhigh
  have hcond := BitVec.toInt_eq_toNat_cond (b.toBitVec.smod 64)
  have hlt := (b.toBitVec.smod 64).isLt
  rw [hvalue] at hcond
  split at hcond
  · omega
  · omega

theorem toInt_shiftLeft {a b : Int64} (hlow : 0 ≤ b.toInt) (hhigh : b.toInt < 64) :
    (a <<< b).toInt = (a.toInt * 2 ^ b.toInt.toNat).bmod (2 ^ 64) := by
  rw [← Int64.toInt_toBitVec, Int64.toBitVec_shiftLeft, BitVec.shiftLeft_eq',
    toNat_shiftAmount hlow hhigh, BitVec.toInt_shiftLeft, Nat.shiftLeft_eq, ← Int64.toInt_toBitVec a,
    BitVec.toInt_eq_toNat_bmod, Int.bmod_mul_bmod]
  push_cast
  rfl

theorem toInt_shiftRight {a b : Int64} (hlow : 0 ≤ b.toInt) (hhigh : b.toInt < 64) :
    (a >>> b).toInt = a.toInt.fdiv (2 ^ b.toInt.toNat) := by
  rw [← Int64.toInt_toBitVec, Int64.toBitVec_shiftRight, BitVec.toInt_sshiftRight',
    toNat_shiftAmount hlow hhigh, Int.shiftRight_eq_div_pow, Int64.toInt_toBitVec,
    Int.fdiv_eq_ediv_of_nonneg _ (Int.pow_nonneg (by decide))]
  push_cast
  rfl

/-- A product with a high power of two leaves nothing in 64 bits. -/
theorem bmod_mul_two_pow {a : Int} {n : Nat} (h : 64 ≤ n) : (a * 2 ^ n).bmod (2 ^ 64) = 0 := by
  obtain ⟨k, rfl⟩ := Nat.exists_eq_add_of_le' h
  have hsplit : a * 2 ^ (k + 64) = a * 2 ^ k * ((2 ^ 64 : Nat) : Int) := by
    rw [Int.pow_add, ← Int.mul_assoc]
    rfl
  rw [hsplit, Int.mul_bmod_left]

/-- Of the quotient by a power of two that is larger than all words only the sign is left. -/
theorem fdiv_two_pow (a : Int64) {n : Nat} (h : 64 ≤ n) :
    a.toInt.fdiv (2 ^ n) = if a.toInt < 0 then -1 else 0 := by
  have hleast : Int64.minValue.toInt = -2 ^ 63 := Int64.toInt_minValue
  have hlow := a.minValue_le_toInt
  have hhigh := a.toInt_lt
  have hlarge : (2 : Int) ^ 64 ≤ 2 ^ n := by
    exact_mod_cast Nat.pow_le_pow_right (n := 2) (by decide) h
  rw [Int.fdiv_eq_ediv_of_nonneg _ (by omega)]
  split
  · rename_i hneg
    exact Int.ediv_eq_neg_one_of_neg_of_le hneg (by omega)
  · exact Int.ediv_eq_zero_of_lt (by omega) (by omega)

/-- The remainder of the quotient that is rounded down, from that of the truncated one: the divisor
is added where the truncated remainder has the other sign. -/
theorem fmod_eq_tmod_add (a b : Int) :
    a - b * a.fdiv b =
      if a.tmod b ≠ 0 ∧ decide (a.tmod b < 0) ≠ decide (b < 0) then a.tmod b + b
      else a.tmod b := by
  rw [← Int.fmod_def, Int.fmod_eq_tmod]
  by_cases hdvd : b ∣ a
  · rw [if_pos hdvd, Int.tmod_eq_zero_of_dvd hdvd]
    simp
  · have hne : a.tmod b ≠ 0 := mt Int.dvd_of_tmod_eq_zero hdvd
    rw [if_neg hdvd]
    by_cases ha : 0 ≤ a
    · have hsign := Int.tmod_nonneg b ha
      grind
    · have hsign := Int.tmod_nonneg b (show 0 ≤ -a by omega)
      rw [Int.neg_tmod] at hsign
      grind

namespace Arithmetic

/-- What an operation comes to on integers, where it comes to anything. The quotient is truncated
toward zero, the remainder is that of the quotient rounded down, a shift multiplies by a power of
two or divides by it and rounds down, and integers have bits without end in two's complement. -/
def onIntegers? : Arithmetic → Int → Int → Option Int
  | .mul, a, b => some (a * b)
  | .div, a, b => if b = 0 then none else some (a.tdiv b)
  | .add, a, b => some (a + b)
  | .sub, a, b => some (a - b)
  | .mod, a, b => if b = 0 then none else some (a - b * a.fdiv b)
  | .shl, a, b => if b < 0 then none else some (a * 2 ^ b.toNat)
  | .shr, a, b => if b < 0 then none else some (a.fdiv (2 ^ b.toNat))
  | .and, a, b => some (a.land b)
  | .xor, a, b => some (a.xor b)
  | .or, a, b => some (a.lor b)
  | .eq, a, b => some (if a = b then 1 else 0)
  | .ne, a, b => some (if a ≠ b then 1 else 0)
  | .le, a, b => some (if a ≤ b then 1 else 0)
  | .ge, a, b => some (if a ≥ b then 1 else 0)
  | .lt, a, b => some (if a < b then 1 else 0)
  | .gt, a, b => some (if a > b then 1 else 0)

/-- Whether an operation on two words can come to an integer that is no word. -/
def canLeaveWords : Arithmetic → Bool
  | .mul | .div | .add | .sub | .shl => true
  | _ => false

/-- An outcome of an operation on words against what the operation comes to on integers. -/
def Agrees (operation : Arithmetic) (value? : Option Int) (outcome : Except Fault Int64) : Prop :=
  match value? with
  | none => ∃ flaw, outcome = .error (.evaluation flaw)
  | some value => ∃ result, outcome = .ok result ∧ result.toInt = value.bmod (2 ^ 64) ∧
      (operation.canLeaveWords = false → result.toInt = value)

theorem agrees_of_bmod {operation : Arithmetic} {value : Int} {result : Int64}
    (h : operation.canLeaveWords = true) (hvalue : result.toInt = value.bmod (2 ^ 64)) :
    operation.Agrees (some value) (.ok result) :=
  ⟨result, rfl, hvalue, fun hstay => by rw [h] at hstay; cases hstay⟩

/-- An integer that a word stands for is all left in 64 bits. -/
theorem agrees_of_toInt {operation : Arithmetic} {value : Int} {result : Int64}
    (hvalue : result.toInt = value) : operation.Agrees (some value) (.ok result) := by
  refine ⟨result, rfl, ?_, fun _ => hvalue⟩
  have hleast : Int64.minValue.toInt = -2 ^ 63 := Int64.toInt_minValue
  have hlow := result.minValue_le_toInt
  have hhigh := result.toInt_lt
  rw [← hvalue]
  exact (Int.bmod_eq_of_le (by omega) (by omega)).symm

theorem toInt_flag (p : Prop) [Decidable p] {condition : Bool} (h : condition = decide p) :
    (flag condition).toInt = if p then 1 else 0 := by
  by_cases hp : p <;> simp [flag, h, hp]

theorem divide_agrees (a b : Int64) :
    div.Agrees (div.onIntegers? a.toInt b.toInt) (divide a b) := by
  simp only [onIntegers?, divide, ← Int64.toInt_zero, Int64.toInt_inj]
  split
  · exact ⟨_, rfl⟩
  · exact agrees_of_bmod rfl (Int64.toInt_div a b)

theorem modulo_agrees (a b : Int64) :
    mod.Agrees (mod.onIntegers? a.toInt b.toInt) (modulo a b) := by
  have hnull (x : Int64) : x.toInt = 0 ↔ x = 0 := by rw [← Int64.toInt_zero, Int64.toInt_inj]
  have hneg (x : Int64) : x.toInt < 0 ↔ x < 0 := by
    rw [Int64.lt_iff_toInt_lt, Int64.toInt_zero]
  simp only [onIntegers?, modulo, hnull]
  split
  · exact ⟨_, rfl⟩
  · rw [fmod_eq_tmod_add, ← Int64.toInt_mod]
    simp only [ne_eq, hnull, hneg]
    split
    · rename_i hsign
      exact agrees_of_toInt (toInt_add_of_signs_ne hsign.2)
    · exact agrees_of_toInt rfl

theorem shiftLeft_agrees (a b : Int64) :
    shl.Agrees (shl.onIntegers? a.toInt b.toInt) (shiftLeft a b) := by
  have hwidth : (64 : Int64).toInt = 64 := rfl
  simp only [onIntegers?, shiftLeft, Int64.lt_iff_toInt_lt, Int64.le_iff_toInt_le,
    Int64.toInt_zero, hwidth]
  split
  · exact ⟨_, rfl⟩
  · split
    · exact agrees_of_bmod rfl (bmod_mul_two_pow (by omega)).symm
    · exact agrees_of_bmod rfl (toInt_shiftLeft (by omega) (by omega))

theorem shiftRight_agrees (a b : Int64) :
    shr.Agrees (shr.onIntegers? a.toInt b.toInt) (shiftRight a b) := by
  have hwidth : (64 : Int64).toInt = 64 := rfl
  simp only [onIntegers?, shiftRight, Int64.lt_iff_toInt_lt, Int64.le_iff_toInt_le,
    Int64.toInt_zero, hwidth]
  split
  · exact ⟨_, rfl⟩
  · split
    · refine agrees_of_toInt ?_
      rw [fdiv_two_pow a (by omega)]
      split <;> rfl
    · exact agrees_of_toInt (toInt_shiftRight (by omega) (by omega))

/-- An operation on words has a result for the operands for which it comes to something on the
integers that they stand for. The result is that integer, reduced to 64 bits where the operation is a
product, a quotient, a sum, a difference or a shift to the left, and all of it otherwise. Where the
sign of a remainder is corrected, the divisor is added to it without an overflow. -/
theorem apply_agrees_with_integers (a b : Int64) :
    (∀ operation : Arithmetic,
      operation.Agrees (operation.onIntegers? a.toInt b.toInt) (operation.apply a b)) ∧
    (decide (a % b < 0) ≠ decide (b < 0) → (a % b + b).toInt = (a % b).toInt + b.toInt) := by
  refine ⟨fun operation => ?_, toInt_add_of_signs_ne⟩
  cases operation with
  | mul => exact agrees_of_bmod rfl (Int64.toInt_mul a b)
  | div => exact divide_agrees a b
  | add => exact agrees_of_bmod rfl (Int64.toInt_add a b)
  | sub => exact agrees_of_bmod rfl (Int64.toInt_sub a b)
  | mod => exact modulo_agrees a b
  | shl => exact shiftLeft_agrees a b
  | shr => exact shiftRight_agrees a b
  | and => exact agrees_of_toInt (toInt_and a b)
  | xor => exact agrees_of_toInt (toInt_xor a b)
  | or => exact agrees_of_toInt (toInt_or a b)
  | eq => exact agrees_of_toInt (toInt_flag (a.toInt = b.toInt) (by simp only [Int64.toInt_inj]; rfl))
  | ne => exact agrees_of_toInt (toInt_flag (a.toInt ≠ b.toInt) (by simp [Int64.toInt_inj, bne]; rfl))
  | le => exact agrees_of_toInt (toInt_flag (a.toInt ≤ b.toInt) (by simp [Int64.le_iff_toInt_le]))
  | ge => exact agrees_of_toInt (toInt_flag (a.toInt ≥ b.toInt) (by simp [Int64.le_iff_toInt_le]))
  | lt => exact agrees_of_toInt (toInt_flag (a.toInt < b.toInt) (by simp [Int64.lt_iff_toInt_lt]))
  | gt => exact agrees_of_toInt (toInt_flag (a.toInt > b.toInt) (by simp [Int64.lt_iff_toInt_lt]))

/-- The least word divided by minus one is itself again, and its remainder is nothing. -/
example : div.apply Int64.minValue (-1) = .ok Int64.minValue ∧
    mod.apply Int64.minValue (-1) = .ok 0 := ⟨rfl, rfl⟩

end Arithmetic

end NovelScript
