import NovelScript.Proofs.ActiveValue.Codes

/-! # What symbols are read from

The bytes that the decoder accepts are the codes of symbols in a row, where the operator without an
operation has codes of its own, and a zero byte behind them. -/

namespace NovelScript

namespace Symbol

/-- The bytes that one symbol is read from: a code of it, or, for the operator that stands for a
placeholder, a placeholder byte and any precedence. -/
inductive Source : Symbol → Bytes → Prop where
  | code {s : Symbol} {bytes : Bytes} (h : Code s bytes) : Source s bytes
  | placeholder {byte : UInt8} (precedence : UInt8) (h : isPlaceholderByte byte = true) :
      Source (.operator placeholderOp 0) [byte, precedence]

/-- The bytes that symbols are read from, one behind the other. -/
inductive Sources : List Symbol → Bytes → Prop where
  | nil : Sources [] []
  | cons {s : Symbol} {symbols : List Symbol} {bytes others : Bytes} (head : Source s bytes)
      (tail : Sources symbols others) : Sources (s :: symbols) (bytes ++ others)

theorem source_operator {byte : UInt8} (precedence : UInt8) (hzero : byte ≠ 0) (hlow : byte < 0x80) :
    Source (ofOperator byte precedence) [byte, precedence] := by
  have hpositive : 0 < byte := UInt8.pos_iff_ne_zero.mpr hzero
  unfold ofOperator
  split
  · rename_i h
    exact .placeholder precedence h
  · rename_i hused
    split
    · rename_i h
      exact .code (.memop precedence h)
    · rename_i hplain
      exact .code (.operator precedence ⟨hpositive, hlow⟩ (by simpa using hplain)
        (by simpa using hused))

/-! ## Literals that were read -/

theorem source_inline {lead : UInt8} (pad : UInt8) (hlead : 0x80 ≤ lead)
    (hwidth : literalWidth lead = 0) : Source (.literal (shortLiteral lead 0 0)) [lead, pad] := by
  have hvalue : (shortLiteral lead 0 0).toInt = leadSigned lead * 2 ^ (8 * 0) + 0 :=
    toInt_shortLiteral (by decide) lead (by decide) (by decide) (by decide)
  exact .code (.literal (.inline lead pad ⟨hlead, (literalWidth_eq_iff lead hlead).1.mp hwidth⟩
    (by simpa using hvalue)))

theorem source_byte {lead : UInt8} (low pad : UInt8) (hlead : 0x80 ≤ lead)
    (hwidth : literalWidth lead = 1) :
    Source (.literal (shortLiteral lead 1 low.toNat)) [lead, low, pad] := by
  have hlow : low.toNat < 256 := UInt8.toNat_lt low
  have hvalue : (shortLiteral lead 1 low.toNat).toInt = leadSigned lead * 2 ^ (8 * 1) + low.toNat :=
    toInt_shortLiteral (by decide) lead (by omega) (by omega) (by omega)
  exact .code (.literal (.byte lead low pad ((literalWidth_eq_iff lead hlead).2.1.mp hwidth) hvalue))

theorem source_pair {lead : UInt8} (a b pad : UInt8) (hlead : 0x80 ≤ lead)
    (hwidth : literalWidth lead = 2) :
    Source (.literal (shortLiteral lead 2 (signedPair a b))) [lead, a, b, pad] := by
  have hnat : a.toNat + 256 * b.toNat = Bytes.toNatLE [a, b] := rfl
  have hlt : Bytes.toNatLE [a, b] < 2 ^ 16 := by simpa using Bytes.toNatLE_lt [a, b]
  have hbytes : Bytes.ofNatLE 2 (UInt16.ofNat (a.toNat + 256 * b.toNat)).toInt16.toUInt16.toNat =
      [a, b] := by
    rw [UInt16.toUInt16_toInt16, hnat, UInt16.toNat_ofNat', Nat.mod_eq_of_lt hlt]
    exact Bytes.ofNatLE_toNatLE [a, b]
  have hvalue : (shortLiteral lead 2 (signedPair a b)).toInt =
      leadSigned lead * 2 ^ (8 * 2) + signedPair a b :=
    toInt_shortLiteral (by decide) lead (Int16.le_toInt _) (Int16.toInt_lt _)
      (fun h => absurd h (by decide))
  have hcode := LiteralCode.pair lead _ pad ((literalWidth_eq_iff lead hlead).2.2.1.mp hwidth) hvalue
  rw [hbytes] at hcode
  exact .code (.literal hcode)

theorem source_word {lead : UInt8} (a b c d pad : UInt8) (hlead : 0x80 ≤ lead)
    (hwidth : literalWidth lead = 3) :
    Source (.literal (word a b c d)) [lead, a, b, c, d, pad] := by
  have hlt : Bytes.toNatLE [a, b, c, d] < 2 ^ 32 := by simpa using Bytes.toNatLE_lt [a, b, c, d]
  have hbytes : Bytes.ofNatLE 4 (word a b c d).toUInt32.toNat = [a, b, c, d] := by
    rw [word, UInt32.toUInt32_toInt32, UInt32.toNat_ofNat', Nat.mod_eq_of_lt hlt]
    exact Bytes.ofNatLE_toNatLE [a, b, c, d]
  have hcode : LiteralCode (word a b c d) (lead :: (_ ++ [pad])) :=
    .word lead pad ((literalWidth_eq_iff lead hlead).2.2.2.mp hwidth)
  rw [hbytes] at hcode
  exact .code (.literal hcode)

/-! ## Symbols in a row that were read -/

/-- What follows a symbol that was read is read as symbols of its own. -/
theorem consTo_eq_ok {s : Symbol} {result : Except Fault (List Symbol × Bytes)}
    {symbols : List Symbol} {rest : Bytes} (h : consTo s result = .ok (symbols, rest)) :
    ∃ others, symbols = s :: others ∧ result = .ok (others, rest) := by
  match result, h with
  | .ok (others, _), h =>
    cases h
    exact ⟨others, rfl, rfl⟩

theorem sources_of_consTo {s : Symbol} (bytes : Bytes) {tail rest : Bytes} {symbols : List Symbol}
    {result : Except Fault (List Symbol × Bytes)} (h : consTo s result = .ok (symbols, rest))
    (hsource : Source s bytes)
    (htail : ∀ {others}, result = .ok (others, rest) →
      ∃ code, tail = code ++ 0 :: rest ∧ Sources others code) :
    ∃ code, bytes ++ tail = code ++ 0 :: rest ∧ Sources symbols code := by
  obtain ⟨others, rfl, hothers⟩ := consTo_eq_ok h
  obtain ⟨code, rfl, hcode⟩ := htail hothers
  exact ⟨bytes ++ code, (List.append_assoc ..).symm, .cons hsource hcode⟩

theorem sources_of_decode {limit : Nat} {bytes : Bytes} {symbols : List Symbol} {rest : Bytes}
    (h : decode limit bytes = .ok (symbols, rest)) :
    ∃ code, bytes = code ++ 0 :: rest ∧ Sources symbols code := by
  fun_induction decode limit bytes generalizing symbols with
  | case1 => cases h
  | case2 =>
    cases h
    exact ⟨[], by simp_all, .nil⟩
  | case3 => cases h
  | case4 lead hzero hop precedence bytes ih =>
    exact sources_of_consTo [lead, precedence] h (source_operator _ hzero hop) ih
  | case5 lead _ hlead pad bytes hwidth ih =>
    exact sources_of_consTo [lead, pad] h
      (source_inline pad (UInt8.not_lt.mp hlead) hwidth) ih
  | case6 lead _ hlead low pad bytes hwidth ih =>
    exact sources_of_consTo [lead, low, pad] h
      (source_byte low pad (UInt8.not_lt.mp hlead) hwidth) ih
  | case7 lead _ hlead a b pad bytes hwidth ih =>
    exact sources_of_consTo [lead, a, b, pad] h
      (source_pair a b pad (UInt8.not_lt.mp hlead) hwidth) ih
  | case8 lead _ hlead a b c d pad bytes hwidth ih =>
    exact sources_of_consTo [lead, a, b, c, d, pad] h
      (source_word a b c d pad (UInt8.not_lt.mp hlead) hwidth) ih
  | case9 => cases h

end Symbol

end NovelScript
