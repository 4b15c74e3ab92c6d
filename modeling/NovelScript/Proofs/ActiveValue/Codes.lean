import Mathlib.Data.FinEnum
import NovelScript.ActiveValue.Reduction
import NovelScript.Proofs.Bytes.Content

/-! # Codes of symbols

The byte strings that stand for one symbol of an active value. A literal has up to four codes of
different widths, each with a pad byte that may be anything; an operator has one. The decoder reads
every code of a sequence of symbols back to the sequence. -/

namespace NovelScript

namespace Symbol

/-- The low five bits of a lead byte as a signed number. -/
def leadSigned (lead : UInt8) : Int :=
  if lead &&& 0x10 = 0 then (lead &&& 0x1f).toNat else (lead &&& 0x1f).toNat - 32

/-- The codes of a literal. The lead byte holds the high part of the value, and the bytes behind it
nothing, an unsigned byte or a signed pair of bytes; or they hold the whole word. -/
inductive LiteralCode (value : Int32) : Bytes → Prop where
  | inline (lead pad : UInt8) (hlead : 0x80 ≤ lead ∧ lead < 0xa0)
      (hvalue : value.toInt = leadSigned lead) :
      LiteralCode value [lead, pad]
  | byte (lead low pad : UInt8) (hlead : 0xa0 ≤ lead ∧ lead < 0xc0)
      (hvalue : value.toInt = leadSigned lead * 2 ^ 8 + low.toNat) :
      LiteralCode value [lead, low, pad]
  | pair (lead : UInt8) (low : Int16) (pad : UInt8) (hlead : 0xc0 ≤ lead ∧ lead < 0xe0)
      (hvalue : value.toInt = leadSigned lead * 2 ^ 16 + low.toInt) :
      LiteralCode value (lead :: (Bytes.ofNatLE 2 low.toUInt16.toNat ++ [pad]))
  | word (lead pad : UInt8) (hlead : 0xe0 ≤ lead) :
      LiteralCode value (lead :: (Bytes.ofNatLE 4 value.toUInt32.toNat ++ [pad]))

/-- The codes of a symbol. Only operator bytes that the decoder takes as they are have one. -/
inductive Code : Symbol → Bytes → Prop where
  | literal {value : Int32} {code : Bytes} (h : LiteralCode value code) :
      Code (.literal value) code
  | operator {op : UInt8} (precedence : UInt8) (hop : 0 < op ∧ op < 0x80)
      (hplain : isMemopByte op = false) (hused : isPlaceholderByte op = false) :
      Code (.operator op precedence) [op, precedence]
  | memop {op : UInt8} (precedence : UInt8) (hop : isMemopByte op = true) :
      Code (.memop op precedence) [op, precedence]

/-- The codes of a sequence of symbols: codes of its members one behind the other. -/
inductive Codes : List Symbol → Bytes → Prop where
  | nil : Codes [] []
  | cons {s : Symbol} {symbols : List Symbol} {code codes : Bytes} (head : Code s code)
      (tail : Codes symbols codes) : Codes (s :: symbols) (code ++ codes)

/-! ## Values of literals -/

/-- How many bytes follow the lead of a literal, by the ranges of leads. -/
theorem literalWidth_eq_iff : ∀ lead : UInt8, 0x80 ≤ lead →
    (literalWidth lead = 0 ↔ lead < 0xa0) ∧
    (literalWidth lead = 1 ↔ 0xa0 ≤ lead ∧ lead < 0xc0) ∧
    (literalWidth lead = 2 ↔ 0xc0 ≤ lead ∧ lead < 0xe0) ∧
    (literalWidth lead = 3 ↔ 0xe0 ≤ lead) := by
  decide +kernel

/-- The sign bit of a lead splits the range of its low bits. -/
theorem lead_sign : ∀ lead : UInt8,
    (lead &&& 0x10 = 0 → (lead &&& 0x1f).toNat < 16) ∧
    (¬ lead &&& 0x10 = 0 → 16 ≤ (lead &&& 0x1f).toNat ∧ (lead &&& 0x1f).toNat < 32) := by
  decide +kernel

theorem toInt_toInt32 (x : UInt32) : x.toInt32.toInt = (x.toNat : Int).bmod (2 ^ 32) :=
  BitVec.toInt_eq_toNat_bmod x.toBitVec

theorem toNat_ofInt (m : Int) : (UInt32.ofInt m).toNat = (m % 2 ^ 32).toNat := by
  have hlt : (m % 2 ^ 32).toNat < 2 ^ 32 := by omega
  rw [UInt32.ofInt, UInt32.toNat_ofNat', Nat.mod_eq_of_lt hlt]

/-- A number in the signed range of a word stands for itself. -/
theorem toInt_ofInt_of_range {m : Int} (hlo : -2 ^ 31 ≤ m) (hhi : m < 2 ^ 31) :
    (UInt32.ofInt m).toInt32.toInt = m := by
  rw [toInt_toInt32, toNat_ofInt, Int.bmod_def]
  omega

/-- Or-ing a mask of high ones onto a number below the mask subtracts what the mask starts at. -/
theorem toInt_or_mask {mask : UInt32} {j : Nat} {m : Int} (hj : j ≤ 31)
    (hmask : mask.toNat = 2 ^ 32 - 2 ^ j) (hlo : 0 ≤ m) (hhi : m < 2 ^ j) :
    (UInt32.ofInt m ||| mask).toInt32.toInt = m - 2 ^ j := by
  have hpow : (2 : Nat) ^ j ≤ 2 ^ 31 := Nat.pow_le_pow_right (by decide) hj
  have hcast : ((2 ^ j : Nat) : Int) = 2 ^ j := by simp
  have hsplit : (2 : Nat) ^ 32 - 2 ^ j = 2 ^ j * (2 ^ (32 - j) - 1) := by
    rw [Nat.mul_sub, ← Nat.pow_add, Nat.mul_one]
    congr 2
    omega
  have hnat : (UInt32.ofInt m).toNat = m.toNat := by
    rw [toNat_ofInt]
    omega
  have hor : (UInt32.ofInt m ||| mask).toNat = 2 ^ 32 - 2 ^ j + m.toNat := by
    have hlow : m.toNat < 2 ^ j := by omega
    rw [UInt32.toNat_or, hmask, hnat, hsplit, Nat.two_pow_add_eq_or_of_lt hlow, Nat.or_comm]
  have hint : ((2 ^ 32 - 2 ^ j + m.toNat : Nat) : Int) = m - 2 ^ j + (2 ^ 32 : Nat) := by
    rw [← hcast]
    omega
  rw [toInt_toInt32, hor, hint, Int.add_bmod_right]
  exact Int.bmod_eq_of_le (by rw [← hcast]; omega) (by rw [← hcast]; omega)

/-- A short literal is the signed low part of its lead in front of its other bytes. -/
theorem toInt_shortLiteral {width : Nat} (hwidth : width < 3) (lead : UInt8) {low : Int}
    (hlo : -(2 ^ 15) ≤ low) (hhi : low < 2 ^ 15) (hnarrow : width < 2 → 0 ≤ low ∧ low < 256 ^ width) :
    (shortLiteral lead width low).toInt = leadSigned lead * 2 ^ (8 * width) + low := by
  unfold shortLiteral leadSigned
  by_cases hsign : lead &&& 0x10 = 0
  · have hlead := (lead_sign lead).1 hsign
    simp only [hsign, if_true]
    generalize (lead &&& 0x1f).toNat = high at hlead
    match width, hwidth, hnarrow with
    | 0, _, _ => rw [toInt_ofInt_of_range] <;> simp <;> omega
    | 1, _, _ => rw [toInt_ofInt_of_range] <;> simp <;> omega
    | 2, _, _ => rw [toInt_ofInt_of_range] <;> simp <;> omega
  · have hlead := (lead_sign lead).2 hsign
    simp only [hsign, if_false]
    generalize (lead &&& 0x1f).toNat = high at hlead
    match width, hwidth, hnarrow with
    | 0, _, hnarrow =>
      have hn := hnarrow (by decide)
      rw [toInt_or_mask (j := 5) (by decide) rfl] <;> simp at hn ⊢ <;> omega
    | 1, _, hnarrow =>
      have hn := hnarrow (by decide)
      rw [toInt_or_mask (j := 13) (by decide) rfl] <;> simp at hn ⊢ <;> omega
    | 2, _, _ =>
      rw [toInt_or_mask (j := 21) (by decide) rfl] <;> simp <;> omega

theorem shortLiteral_eq {value : Int32} {width : Nat} (hwidth : width < 3) (lead : UInt8) {low : Int}
    (hlo : -(2 ^ 15) ≤ low) (hhi : low < 2 ^ 15) (hnarrow : width < 2 → 0 ≤ low ∧ low < 256 ^ width)
    (hvalue : value.toInt = leadSigned lead * 2 ^ (8 * width) + low) :
    shortLiteral lead width low = value := by
  rw [← Int32.toInt_inj, toInt_shortLiteral hwidth lead hlo hhi hnarrow, hvalue]

theorem signedPair_ofNatLE (low : Int16) :
    signedPair (UInt8.ofNat (low.toUInt16.toNat % 256))
      (UInt8.ofNat (low.toUInt16.toNat / 256 % 256)) = low.toInt := by
  have hlt : low.toUInt16.toNat < 65536 := UInt16.toNat_lt low.toUInt16
  have hsum : low.toUInt16.toNat % 256 + 256 * (low.toUInt16.toNat / 256 % 256) =
      low.toUInt16.toNat := by omega
  unfold signedPair
  simp only [UInt8.toNat_ofNat', Nat.reducePow, Nat.mod_mod, hsum]
  simp

theorem word_ofNatLE (value : Int32) (a b c d : UInt8)
    (h : [a, b, c, d] = Bytes.ofNatLE 4 value.toUInt32.toNat) : word a b c d = value := by
  have hlt : value.toUInt32.toNat < 256 ^ 4 := UInt32.toNat_lt value.toUInt32
  unfold word
  rw [h, Bytes.toNatLE_ofNatLE, Nat.mod_eq_of_lt hlt]
  simp

/-! ## Decoding codes -/

theorem lead_not_operator {lead : UInt8} (h : 0x80 ≤ lead) : lead ≠ 0 ∧ ¬ lead < 0x80 := by
  refine ⟨?_, UInt8.not_lt.mpr h⟩
  rintro rfl
  exact absurd h (by decide)

theorem memop_range : ∀ op : UInt8, isMemopByte op = true →
    op ≠ 0 ∧ op < 0x80 ∧ isPlaceholderByte op = false := by
  decide +kernel

theorem decode_literalCode {value : Int32} {code : Bytes} (h : LiteralCode value code)
    (limit : Nat) (rest : Bytes) :
    decode limit (code ++ rest) = consTo (.literal value) (decode limit rest) := by
  cases h with
  | inline lead pad hlead hvalue =>
    obtain ⟨hzero, hop⟩ := lead_not_operator hlead.1
    have hwidth := (literalWidth_eq_iff lead hlead.1).1.mpr hlead.2
    have heq : shortLiteral lead 0 0 = value :=
      shortLiteral_eq (by decide) lead (by decide) (by decide) (by decide) (by simpa using hvalue)
    simp only [List.cons_append, List.nil_append]
    rw [decode.eq_def]
    simp only [hzero, hop, hwidth, heq, if_false]
  | byte lead low pad hlead hvalue =>
    have hhigh : 0x80 ≤ lead := by grind
    obtain ⟨hzero, hop⟩ := lead_not_operator hhigh
    have hwidth := (literalWidth_eq_iff lead hhigh).2.1.mpr hlead
    have hlow : low.toNat < 256 := UInt8.toNat_lt low
    have heq : shortLiteral lead 1 low.toNat = value :=
      shortLiteral_eq (by decide) lead (by omega) (by omega) (by omega) hvalue
    simp only [List.cons_append, List.nil_append]
    rw [decode.eq_def]
    simp only [hzero, hop, hwidth, heq, if_false]
  | pair lead low pad hlead hvalue =>
    have hhigh : 0x80 ≤ lead := by grind
    obtain ⟨hzero, hop⟩ := lead_not_operator hhigh
    have hwidth := (literalWidth_eq_iff lead hhigh).2.2.1.mpr hlead
    have heq : shortLiteral lead 2 low.toInt = value :=
      shortLiteral_eq (by decide) lead (Int16.le_toInt low) (Int16.toInt_lt low)
        (fun h => absurd h (by decide)) hvalue
    simp only [Bytes.ofNatLE, List.cons_append, List.nil_append]
    rw [decode.eq_def]
    simp only [hzero, hop, hwidth, signedPair_ofNatLE, heq, if_false]
  | word lead pad hlead =>
    have hhigh : 0x80 ≤ lead := by grind
    obtain ⟨hzero, hop⟩ := lead_not_operator hhigh
    have hwidth := (literalWidth_eq_iff lead hhigh).2.2.2.mpr hlead
    have heq := word_ofNatLE value _ _ _ _ rfl
    simp only [Bytes.ofNatLE, List.cons_append, List.nil_append]
    rw [decode.eq_def]
    simp only [hzero, hop, hwidth, heq, if_false]

theorem decode_code {s : Symbol} {code : Bytes} (h : Code s code) (limit : Nat) (rest : Bytes) :
    decode limit (code ++ rest) = consTo s (decode limit rest) := by
  cases h with
  | literal h => exact decode_literalCode h limit rest
  | operator precedence hop hplain hused =>
    simp only [List.cons_append, List.nil_append]
    rw [decode.eq_def]
    simp [UInt8.pos_iff_ne_zero.mp hop.1, hop.2, ofOperator, hused, hplain]
  | memop precedence hop =>
    obtain ⟨hzero, hlow, hused⟩ := memop_range _ hop
    simp only [List.cons_append, List.nil_append]
    rw [decode.eq_def]
    simp [hzero, hlow, ofOperator, hused, hop]

/-- Decoding undoes encoding, whatever widths and pad bytes the code uses. -/
theorem decode_codes {symbols : List Symbol} {codes : Bytes} (h : Codes symbols codes)
    (limit : Nat) (rest : Bytes) : decode limit (codes ++ 0 :: rest) = .ok (symbols, rest) := by
  induction h with
  | nil => rw [List.nil_append, decode.eq_def]; rfl
  | cons head _ ih => rw [List.append_assoc, decode_code head, ih, consTo]

end Symbol

end NovelScript
