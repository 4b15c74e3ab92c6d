import Mathlib.Data.List.DropRight
import NovelScript.Text.Utf8

/-! # The bytes of texts

The bytes of a text are those of its characters, one after the other. Both ways of reading bytes as
text give the text back, and a text that does not end with a zero character has no zero byte at its
end. -/

namespace NovelScript

namespace Text

/-! ## Bytes of characters -/

theorem byteArray_toList_loop (bytes : ByteArray) (i : Nat) (front : List UInt8) :
    ByteArray.toList.loop bytes i front = front.reverse ++ bytes.data.toList.drop i := by
  fun_induction ByteArray.toList.loop bytes i front with
  | case1 i front hlt ih =>
    have hget : bytes.get! i = bytes.data.toList[i] := by
      simp [ByteArray.get!, hlt]
    have hdrop : bytes.data.toList.drop i =
        bytes.data.toList[i] :: bytes.data.toList.drop (i + 1) := List.drop_eq_getElem_cons _
    rw [ih, hdrop, hget, List.reverse_cons, List.append_assoc, List.singleton_append]
  | case2 i front hge =>
    have hend : bytes.data.toList.length ≤ i := by simpa using hge
    rw [List.drop_eq_nil_of_le hend, List.append_nil]

theorem utf8_eq (text : String) : utf8 text = text.toUTF8.data.toList := by
  rw [utf8, ByteArray.toList, byteArray_toList_loop]
  rfl

theorem utf8_ofList (chars : List Char) :
    utf8 (String.ofList chars) = chars.flatMap String.utf8EncodeChar := by
  rw [utf8_eq, String.toUTF8_eq_toByteArray, String.toByteArray_ofList, List.utf8Encode,
    List.data_toByteArray, List.toList_toArray]

/-! ## Reading strictly -/

theorem ofUtf8?_utf8 (text : String) : ofUtf8? (utf8 text) = some text := by
  have hvalid : text.toUTF8.IsValidUTF8 := text.isValidUTF8
  rw [ofUtf8?, utf8_eq, Array.toArray_toList, String.fromUTF8?, dif_pos hvalid]
  rfl

/-- Bytes that are read as a text are the bytes of that text. -/
theorem ofUtf8?_eq_some_iff {bytes : Bytes} {text : String} :
    ofUtf8? bytes = some text ↔ bytes = utf8 text := by
  constructor
  · intro h
    unfold ofUtf8? String.fromUTF8? at h
    split at h
    · cases h
      rw [utf8_eq]
      rfl
    · cases h
  · rintro rfl
    exact ofUtf8?_utf8 text

/-! ## Reading with replacements -/

theorem lossyChars_ascii {b : UInt8} (h : b < 0x80) (rest : Bytes) :
    lossyChars none (b :: rest) = Char.ofNat b.toNat :: lossyChars none rest := by
  rw [lossyChars.eq_def]
  simp only [if_pos h]

/-- The byte of six bits inside a character. -/
theorem toNat_continuation {n : Nat} (h : n < 64) : (UInt8.ofNat (n + 128)).toNat = n + 128 := by
  rw [UInt8.toNat_ofNat']
  omega

theorem isContinuation_ofNat {n : Nat} (h : n < 64) :
    isContinuation (UInt8.ofNat (n + 128)) = true := by
  simp only [isContinuation, Bool.and_eq_true, decide_eq_true_eq, UInt8.le_iff_toNat_le,
    toNat_continuation h]
  exact ⟨Nat.le_add_left _ _, Nat.add_le_add_right (Nat.le_of_lt_succ h) 128⟩

theorem bits_continuation {n : Nat} (h : n < 64) :
    (UInt8.ofNat (n + 128) &&& 0x3F).toNat = n := by
  have hmask : (0x3F : UInt8).toNat = 2 ^ 6 - 1 := rfl
  rw [UInt8.toNat_and, toNat_continuation h, hmask, Nat.and_two_pow_sub_one_eq_mod]
  omega

/-- A lead byte opens a character if the byte behind it may follow. -/
theorem lossyChars_lead {lead least greatest : UInt8} {pending n : Nat}
    (hlead : secondRange? lead = some (least, greatest, pending)) (hn : n < 64)
    (hleast : least.toNat ≤ n + 128) (hgreatest : n + 128 ≤ greatest.toNat) (rest : Bytes) :
    lossyChars none (lead :: UInt8.ofNat (n + 128) :: rest) =
      lossyChars (some ⟨leadBits lead, pending + 1⟩) (UInt8.ofNat (n + 128) :: rest) := by
  have hascii : ¬ lead < 0x80 := by
    intro hlt
    have hnone : secondRange? lead = none := if_pos (UInt8.lt_trans hlt (by decide))
    rw [hnone] at hlead
    cases hlead
  have hsecond : least ≤ UInt8.ofNat (n + 128) ∧ UInt8.ofNat (n + 128) ≤ greatest := by
    rw [UInt8.le_iff_toNat_le, UInt8.le_iff_toNat_le, toNat_continuation hn]
    exact ⟨hleast, hgreatest⟩
  rw [lossyChars.eq_def]
  simp only [if_neg hascii, hlead, if_pos hsecond]

theorem lossyChars_middle {n : Nat} (hn : n < 64) (bits pending : Nat) (rest : Bytes) :
    lossyChars (some ⟨bits, pending + 2⟩) (UInt8.ofNat (n + 128) :: rest) =
      lossyChars (some ⟨bits * 64 + n, pending + 1⟩) rest := by
  have hmore : pending + 2 ≠ 1 := by omega
  rw [lossyChars.eq_def]
  simp only [isContinuation_ofNat hn, bits_continuation hn, if_true, if_neg hmore]
  rfl

theorem lossyChars_last {n : Nat} (hn : n < 64) (bits : Nat) (rest : Bytes) :
    lossyChars (some ⟨bits, 1⟩) (UInt8.ofNat (n + 128) :: rest) =
      Char.ofNat (bits * 64 + n) :: lossyChars none rest := by
  rw [lossyChars.eq_def]
  simp only [isContinuation_ofNat hn, bits_continuation hn, if_true]

theorem lead_of_two : ∀ x < 32, 2 ≤ x →
    secondRange? (UInt8.ofNat (x + 192)) = some (0x80, 0xBF, 0) ∧
      leadBits (UInt8.ofNat (x + 192)) = x := by
  decide

theorem lead_of_three : ∀ x < 16,
    secondRange? (UInt8.ofNat (x + 224)) =
        some (if x = 0 then 0xA0 else 0x80, if x = 13 then 0x9F else 0xBF, 1) ∧
      leadBits (UInt8.ofNat (x + 224)) = x := by
  decide

theorem lead_of_four : ∀ x < 5,
    secondRange? (UInt8.ofNat (x + 240)) =
        some (if x = 0 then 0x90 else 0x80, if x = 4 then 0x8F else 0xBF, 2) ∧
      leadBits (UInt8.ofNat (x + 240)) = x := by
  decide

/-- The bytes of a character are read as the character, whatever follows. -/
theorem lossyChars_utf8EncodeChar (c : Char) (rest : Bytes) :
    lossyChars none (String.utf8EncodeChar c ++ rest) = c :: lossyChars none rest := by
  have hchar : ∀ {n : Nat}, n = c.val.toNat → Char.ofNat n = c := by
    rintro n rfl
    exact Char.ofNat_toNat c
  have hvalid : c.val.toNat < 0xD800 ∨ 0xDFFF < c.val.toNat ∧ c.val.toNat < 0x110000 := c.valid
  unfold String.utf8EncodeChar
  generalize c.val.toNat = v at hchar hvalid ⊢
  simp only
  by_cases hone : v ≤ 127
  · have hbyte : (UInt8.ofNat v).toNat = v := by
      rw [UInt8.toNat_ofNat']
      omega
    have hascii : UInt8.ofNat v < 0x80 := by
      rw [UInt8.lt_iff_toNat_lt, hbyte]
      exact Nat.lt_succ_of_le hone
    rw [if_pos hone, List.singleton_append, lossyChars_ascii hascii, hbyte, hchar rfl]
  rw [if_neg hone]
  by_cases htwo : v ≤ 2047
  · obtain ⟨hlead, hbits⟩ := lead_of_two (v / 64 % 32) (by omega) (by omega)
    have hlow : v % 64 < 64 := by omega
    have hrange : 0x80 ≤ v % 64 + 128 ∧ v % 64 + 128 ≤ 0xBF := by omega
    rw [if_pos htwo]
    simp only [List.cons_append, List.nil_append]
    rw [lossyChars_lead hlead hlow hrange.1 hrange.2, lossyChars_last hlow, hbits,
      hchar (by omega)]
  rw [if_neg htwo]
  have hmiddle : v / 64 % 64 < 64 := by omega
  have hlow : v % 64 < 64 := by omega
  by_cases hthree : v ≤ 65535
  · obtain ⟨hlead, hbits⟩ := lead_of_three (v / 4096 % 16) (by omega)
    -- a character of three bytes is none of two, and no half of a surrogate pair
    have hleast : (if v / 4096 % 16 = 0 then 0xA0 else 0x80 : UInt8).toNat ≤ v / 64 % 64 + 128 := by
      split
      · show 160 ≤ v / 64 % 64 + 128
        omega
      · exact Nat.le_add_left _ _
    have hgreatest : v / 64 % 64 + 128 ≤
        (if v / 4096 % 16 = 13 then 0x9F else 0xBF : UInt8).toNat := by
      split
      · show v / 64 % 64 + 128 ≤ 159
        omega
      · show v / 64 % 64 + 128 ≤ 191
        omega
    rw [if_pos hthree]
    simp only [List.cons_append, List.nil_append]
    rw [lossyChars_lead hlead hmiddle hleast hgreatest, lossyChars_middle hmiddle,
      lossyChars_last hlow, hbits, hchar (by omega)]
  · obtain ⟨hlead, hbits⟩ := lead_of_four (v / 262144 % 8) (by omega)
    have hhigh : v / 4096 % 64 < 64 := by omega
    -- a character of four bytes is none of three, and there are none behind the last plane
    have hleast : (if v / 262144 % 8 = 0 then 0x90 else 0x80 : UInt8).toNat ≤
        v / 4096 % 64 + 128 := by
      split
      · show 144 ≤ v / 4096 % 64 + 128
        omega
      · exact Nat.le_add_left _ _
    have hgreatest : v / 4096 % 64 + 128 ≤
        (if v / 262144 % 8 = 4 then 0x8F else 0xBF : UInt8).toNat := by
      split
      · show v / 4096 % 64 + 128 ≤ 143
        omega
      · show v / 4096 % 64 + 128 ≤ 191
        omega
    rw [if_neg hthree]
    simp only [List.cons_append, List.nil_append]
    rw [lossyChars_lead hlead hhigh hleast hgreatest, lossyChars_middle hhigh,
      lossyChars_middle hmiddle, lossyChars_last hlow, hbits, hchar (by omega)]

theorem lossyChars_flatMap (chars : List Char) :
    lossyChars none (chars.flatMap String.utf8EncodeChar) = chars := by
  induction chars with
  | nil => rfl
  | cons c chars ih => rw [List.flatMap_cons, lossyChars_utf8EncodeChar, ih]

theorem ofUtf8Lossy_utf8 (text : String) : ofUtf8Lossy (utf8 text) = text := by
  have hbytes := utf8_ofList text.toList
  rw [String.ofList_toList] at hbytes
  rw [ofUtf8Lossy, hbytes, lossyChars_flatMap, String.ofList_toList]

/-! ## Zeros at the end -/

/-- Zeros at the end are dropped, however many there are. -/
theorem trimNulls_append_replicate (bytes : Bytes) (count : Nat) :
    (bytes ++ List.replicate count 0).trimNulls = bytes.trimNulls := by
  rw [Bytes.trimNulls, List.reverse_append, List.reverse_replicate, List.dropWhile_append]
  simp [Bytes.trimNulls]

/-- What is left without the zeros at the end, and these zeros, are all bytes. -/
theorem trimNulls_append_zeros (bytes : Bytes) :
    bytes.trimNulls ++ List.replicate (bytes.length - bytes.trimNulls.length) 0 = bytes := by
  have hsplit : bytes.trimNulls ++ (bytes.reverse.takeWhile (· == 0)).reverse = bytes := by
    rw [Bytes.trimNulls, ← List.reverse_append, List.takeWhile_append_dropWhile, List.reverse_reverse]
  have hzeros : (bytes.reverse.takeWhile (· == 0)).reverse =
      List.replicate (bytes.length - bytes.trimNulls.length) 0 := by
    rw [List.eq_replicate_iff]
    constructor
    · have htotal := congrArg List.length hsplit
      rw [List.length_append] at htotal
      omega
    · intro b hb
      have hzero := List.mem_takeWhile_imp (List.mem_reverse.mp hb)
      exact eq_of_beq hzero
  rw [← hzeros, hsplit]

/-- No character but the zero character ends with a zero byte. -/
theorem exists_last_utf8EncodeChar {c : Char} (h : c ≠ '\x00') :
    ∃ front last, String.utf8EncodeChar c = front ++ [last] ∧ last ≠ 0 := by
  have hpositive : c.val.toNat ≠ 0 := by
    intro hzero
    have hofNat := Char.ofNat_toNat c
    rw [show c.toNat = 0 from hzero] at hofNat
    exact h hofNat.symm
  have hlast : UInt8.ofNat (c.val.toNat % 64 + 128) ≠ 0 := by
    intro hzero
    have htoNat := congrArg UInt8.toNat hzero
    rw [toNat_continuation (Nat.mod_lt _ (by decide))] at htoNat
    exact Nat.succ_ne_zero _ htoNat
  unfold String.utf8EncodeChar
  simp only
  split
  · refine ⟨[], _, rfl, fun hzero => ?_⟩
    have htoNat := congrArg UInt8.toNat hzero
    rw [UInt8.toNat_ofNat', UInt8.toNat_zero] at htoNat
    omega
  · split
    · exact ⟨[_], _, rfl, hlast⟩
    · split
      · exact ⟨[_, _], _, rfl, hlast⟩
      · exact ⟨[_, _, _], _, rfl, hlast⟩

/-- Zeros at the end of a text's bytes are zero characters at its end. -/
theorem trimNulls_flatMap (chars : List Char) :
    Bytes.trimNulls (chars.flatMap String.utf8EncodeChar) =
      (chars.rdropWhile (· == '\x00')).flatMap String.utf8EncodeChar := by
  have htrim : ∀ bytes : Bytes, bytes.trimNulls = bytes.rdropWhile (· == 0) := fun _ => rfl
  induction chars using List.reverseRecOn with
  | nil => rfl
  | append_singleton chars c ih =>
    rw [List.flatMap_append, List.flatMap_singleton]
    by_cases hc : c = '\x00'
    · subst hc
      have hzero : String.utf8EncodeChar '\x00' = [0] := rfl
      rw [hzero, htrim, List.rdropWhile_concat_pos _ _ _ (by decide), ← htrim, ih,
        List.rdropWhile_concat_pos _ _ _ (by decide)]
    · obtain ⟨front, last, hcode, hlast⟩ := exists_last_utf8EncodeChar hc
      rw [hcode, ← List.append_assoc, htrim, List.rdropWhile_concat_neg _ _ _ (by simpa using hlast),
        List.rdropWhile_concat_neg _ _ _ (by simpa using hc), List.flatMap_append,
        List.flatMap_singleton, hcode, List.append_assoc]

/-- The bytes of a text without the zeros at its end are the bytes of a text. -/
theorem trimNulls_utf8 (text : String) :
    (utf8 text).trimNulls = utf8 (String.ofList (text.toList.rdropWhile (· == '\x00'))) := by
  have hbytes := utf8_ofList text.toList
  rw [String.ofList_toList] at hbytes
  rw [hbytes, trimNulls_flatMap, utf8_ofList]

theorem trimNulls_utf8_of_getLast? {text : String} (h : text.toList.getLast? ≠ some '\x00') :
    (utf8 text).trimNulls = utf8 text := by
  have hsame : text.toList.rdropWhile (· == '\x00') = text.toList := by
    refine List.rdropWhile_eq_self_iff.mpr fun hne => ?_
    rw [List.getLast?_eq_some_getLast hne] at h
    simpa using h
  rw [trimNulls_utf8, hsame, String.ofList_toList]

/-- Zeros behind a text are a text. -/
theorem utf8_append_zeros (name : String) (count : Nat) :
    utf8 (.ofList (name.toList ++ List.replicate count '\x00')) =
      utf8 name ++ List.replicate count 0 := by
  have hname := utf8_ofList name.toList
  rw [String.ofList_toList] at hname
  rw [utf8_ofList, List.flatMap_append, hname]
  congr 1
  induction count with
  | zero => rfl
  | succ count ih =>
    rw [List.replicate_succ, List.flatMap_cons, ih]
    rfl

end Text

end NovelScript
