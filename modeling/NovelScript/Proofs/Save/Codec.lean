import Mathlib.Algebra.Order.BigOperators.Group.List
import Mathlib.Algebra.Order.Group.Nat
import NovelScript.Proofs.Text.Utf8
import NovelScript.Save.Codec

/-! # Codecs read what they write

A value that was written is read back whatever bytes follow it, as long as its code is not so long
that lengths inside it cannot be counted in 64 bits. Codecs that are put together keep this. -/

namespace NovelScript

namespace Codec

variable {α β : Type}

/-- The codec reads a value back, if it can count the bytes of its code. -/
def Reads (c : Codec α) (a : α) : Prop :=
  (c.encode a).length < UInt64.size → ∀ rest, c.decode (c.encode a ++ rest) = some (a, rest)

/-! ## Numbers -/

theorem encodeNat_ne_nil (n : Nat) : encodeNat n ≠ [] := by
  unfold encodeNat
  split
  · exact List.cons_ne_nil _ _
  · exact List.cons_ne_nil _ _

/-- A number is read in as many bytes as are allowed, if it fits into them. -/
theorem decodeNat_encodeNat {greatest : Nat} (hgreatest : greatest < 128) {width n : Nat}
    (hn : n < (greatest + 1) * 128 ^ width) (rest : Bytes) :
    decodeNat greatest (width + 1) (encodeNat n ++ rest) = some (n, rest) := by
  induction width generalizing n with
  | zero =>
    have hsmall : n < 128 := by omega
    have hbyte : (UInt8.ofNat n).toNat = n := by simp; omega
    rw [encodeNat, if_pos hsmall, List.singleton_append, decodeNat, hbyte, if_pos hsmall, if_neg]
    omega
  | succ width ih =>
    rw [encodeNat]
    by_cases hsmall : n < 128
    · have hbyte : (UInt8.ofNat n).toNat = n := by simp; omega
      rw [if_pos hsmall, List.singleton_append, decodeNat, hbyte, if_pos hsmall, if_neg]
      omega
    · have hbyte : (UInt8.ofNat (n % 128 + 128)).toNat = n % 128 + 128 := by simp; omega
      have hrest : n / 128 < (greatest + 1) * 128 ^ width := by
        rw [Nat.pow_succ, ← Nat.mul_assoc] at hn
        omega
      rw [if_neg hsmall, List.cons_append, decodeNat, hbyte, if_neg (by omega), ih hrest]
      simp only
      congr 2
      omega

theorem decode_nat64 {n : Nat} (h : n < UInt64.size) (rest : Bytes) :
    nat64.decode (encodeNat n ++ rest) = some (n, rest) :=
  decodeNat_encodeNat (by decide) h rest

theorem reads_nat64 {n : Nat} (h : n < UInt64.size) : nat64.Reads n :=
  fun _ => decode_nat64 h

theorem reads_nat32 {n : Nat} (h : n < UInt32.size) : nat32.Reads n :=
  fun _ rest => decodeNat_encodeNat (by decide) h rest

theorem reads_nat16 {n : Nat} (h : n < UInt16.size) : nat16.Reads n :=
  fun _ rest => decodeNat_encodeNat (by decide) h rest

theorem reads_byte (b : UInt8) : byte.Reads b := fun _ _ => rfl

/-- What goes back and forth is read as what it comes from. -/
theorem Reads.mapping {c : Codec α} {forth : α → Option β} {back : β → α} {b : β}
    (h : c.Reads (back b)) (hforth : forth (back b) = some b) :
    (c.mapping forth back).Reads b := by
  intro hlength rest
  simp only [Codec.mapping, h hlength rest, hforth, Option.map_some]

theorem reads_uint64 (n : UInt64) : uint64.Reads n :=
  (reads_nat64 n.toNat_lt).mapping (by simp)

theorem reads_uint16 (n : UInt16) : uint16.Reads n :=
  (reads_nat16 n.toNat_lt).mapping (by simp)

theorem toFolded_lt (n : Int64) : toFolded n < UInt64.size := by
  have hlt := n.toInt_lt
  have hle := n.le_toInt
  simp only [toFolded, UInt64.size]
  split <;> omega

theorem ofFolded_toFolded (n : Int64) : ofFolded (toFolded n) = n := by
  have hlt := n.toInt_lt
  have hle := n.le_toInt
  by_cases hsign : 0 ≤ n.toInt
  · have hfold : toFolded n = 2 * n.toInt.toNat := if_pos hsign
    have hhalf : ((2 * n.toInt.toNat : Nat) : Int) / 2 = n.toInt := by omega
    rw [ofFolded, hfold, if_pos (by omega), hhalf, Int64.ofInt_toInt]
  · have hfold : toFolded n = 2 * (-(n.toInt + 1)).toNat + 1 := if_neg hsign
    have hhalf : -(((2 * (-(n.toInt + 1)).toNat + 1) / 2 : Nat) : Int) - 1 = n.toInt := by omega
    rw [ofFolded, hfold, if_neg (by omega), hhalf, Int64.ofInt_toInt]

theorem reads_int64 (n : Int64) : int64.Reads n :=
  (reads_nat64 (toFolded_lt n)).mapping (congrArg some (ofFolded_toFolded n))

theorem reads_bool (b : Bool) : bool.Reads b := by
  refine Reads.mapping (reads_byte _) ?_
  cases b with
  | false => rfl
  | true => rfl

/-! ## Codecs put together -/

theorem Reads.pair {first : Codec α} {second : Codec β} {p : α × β} (h₁ : first.Reads p.1)
    (h₂ : second.Reads p.2) : (first.pair second).Reads p := by
  intro hlength rest
  simp only [Codec.pair, List.length_append] at hlength
  simp only [Codec.pair, List.append_assoc, h₁ (by omega), h₂ (by omega), Option.bind_eq_bind,
    Option.bind_some]
  rfl

theorem Reads.option {c : Codec α} {o : Option α} (h : ∀ a ∈ o, c.Reads a) : c.option.Reads o := by
  intro hlength rest
  cases o with
  | none => rfl
  | some a =>
    simp only [Codec.option, List.length_cons] at hlength
    have hread := h a rfl (by omega) rest
    simp [Codec.option, hread]

theorem decodeMany_encode {c : Codec α} {values : List α}
    (h : ∀ a ∈ values, ∀ rest, c.decode (c.encode a ++ rest) = some (a, rest)) (rest : Bytes) :
    c.decodeMany values.length (values.flatMap c.encode ++ rest) = some (values, rest) := by
  induction values with
  | nil => rfl
  | cons a values ih =>
    have hfirst := h a List.mem_cons_self
    have hothers := ih fun b hb => h b (List.mem_cons_of_mem _ hb)
    rw [List.flatMap_cons, List.append_assoc, List.length_cons, decodeMany, hfirst]
    simp only [Option.bind_eq_bind, Option.bind_some, hothers]
    rfl

/-- Values that take a byte at least are no more than their bytes. -/
theorem length_le_flatMap {f : α → Bytes} {values : List α} (h : ∀ a ∈ values, f a ≠ []) :
    values.length ≤ (values.flatMap f).length := by
  have hpositive : ∀ i ∈ values.map (fun a => (f a).length), 1 ≤ i := by
    intro i hi
    obtain ⟨a, ha, rfl⟩ := List.mem_map.mp hi
    exact List.length_pos_iff.mpr (h a ha)
  have hle := List.length_le_sum_of_one_le _ hpositive
  rwa [List.length_map, ← List.length_flatMap] at hle

/-- A list is read back, since its values can be counted if their bytes can. -/
theorem Reads.list {c : Codec α} {values : List α} (h : ∀ a ∈ values, c.Reads a)
    (hcode : ∀ a ∈ values, c.encode a ≠ []) : c.list.Reads values := by
  intro hlength rest
  simp only [Codec.list, List.length_append] at hlength
  have hcount := length_le_flatMap hcode
  have hfits : values.length < UInt64.size := by omega
  have hvalues : ∀ a ∈ values, ∀ rest, c.decode (c.encode a ++ rest) = some (a, rest) := by
    intro a ha
    have hle := List.le_sum_of_mem (List.mem_map_of_mem (f := fun a => (c.encode a).length) ha)
    rw [← List.length_flatMap] at hle
    exact h a ha (by omega)
  simp only [Codec.list, List.append_assoc, decode_nat64 hfits, Option.bind_eq_bind,
    Option.bind_some]
  exact decodeMany_encode hvalues rest

theorem decode_bytes (content rest : Bytes) :
    (Codec.bytes content.length).decode (content ++ rest) = some (content, rest) := by
  simp [Codec.bytes]

theorem reads_text (s : String) : text.Reads s := by
  intro hlength rest
  simp only [text, List.length_append] at hlength
  have hfits : (Text.utf8 s).length < UInt64.size := by omega
  simp only [text, List.append_assoc, decode_nat64 hfits, Option.bind_eq_bind, Option.bind_some,
    decode_bytes, Text.ofUtf8?_utf8]
  rfl

end Codec

end NovelScript
