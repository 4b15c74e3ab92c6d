import NovelScript.Proofs.Bytes.Progress
import NovelScript.Text.Codec

/-! # Text with escapes

A run of text consists of characters of Shift_JIS and of escapes. The codec that knows escapes looks
at bytes and not at characters: a byte that opens an escape is taken for one also where it is the
second byte of a character. A run is read as its characters if and only if no character has such a
second byte. -/

namespace NovelScript

namespace Text.ShiftJis

/-- A character and the bytes that stand for it. -/
inductive Encoded where
  | single (b : UInt8) (char : Char) (placed : single? b = some char)
  | double (lead trail : UInt8) (char : Char) (placed : double? lead trail = some char)

namespace Encoded

def char : Encoded → Char
  | single _ char _ => char
  | double _ _ char _ => char

/-- The byte that the character starts with. -/
def first : Encoded → UInt8
  | single b _ _ => b
  | double lead _ _ _ => lead

/-- The second byte of the character, if it has two. -/
def trail? : Encoded → Option UInt8
  | single .. => none
  | double _ trail _ _ => some trail

def bytes (e : Encoded) : Bytes := e.first :: e.trail?.toList

end Encoded

/-- A byte that opens a character of two bytes is no character by itself. -/
theorem single?_of_leadRank? {b : UInt8} {rank : Nat} (h : leadRank? b = some rank) :
    single? b = none := by
  have hdisjoint : ∀ n < 256, (leadRank? (UInt8.ofNat n)).isSome = true →
      single? (UInt8.ofNat n) = none := by
    decide +kernel
  have hb := hdisjoint b.toNat b.toNat_lt
  rw [UInt8.ofNat_toNat, h] at hb
  exact hb rfl

theorem le_of_trailRank? {b : UInt8} {rank : Nat} (h : trailRank? b = some rank) : 0x40 ≤ b := by
  unfold trailRank? at h
  split at h
  · rename_i hlow
    exact hlow.1
  · split at h
    · rename_i hhigh
      exact UInt8.le_trans (by decide) hhigh.1
    · cases h

theorem single?_of_double? {lead trail : UInt8} {c : Char} (h : double? lead trail = some c) :
    single? lead = none := by
  obtain ⟨rank, hlead, -⟩ := Option.bind_eq_some_iff.mp h
  exact single?_of_leadRank? hlead

theorem le_of_double? {lead trail : UInt8} {c : Char} (h : double? lead trail = some c) :
    0x40 ≤ trail := by
  obtain ⟨_, -, htrail⟩ := Option.bind_eq_some_iff.mp h
  obtain ⟨rank, htrail, -⟩ := Option.bind_eq_some_iff.mp htrail
  exact le_of_trailRank? htrail

/-- The bytes of one character in front of others are that character. -/
theorem decodeChars?_bytes_append (e : Encoded) (rest : Bytes) :
    decodeChars? (e.bytes ++ rest) = (decodeChars? rest).map (e.char :: ·) := by
  cases e with
  | single b c hplaced =>
    have hbytes : (Encoded.single b c hplaced).bytes = [b] := rfl
    cases rest with
    | nil => simp [hbytes, decodeChars?, Encoded.char, hplaced]
    | cons next rest => simp [hbytes, decodeChars?, Encoded.char, hplaced]
  | double lead trail c hplaced =>
    have hbytes : (Encoded.double lead trail c hplaced).bytes = [lead, trail] := rfl
    simp [hbytes, decodeChars?, Encoded.char, hplaced, single?_of_double? hplaced]

/-- Characters in a row are decoded one after the other. -/
theorem decodeChars?_flatMap_append (list : List Encoded) (rest : Bytes) :
    decodeChars? (list.flatMap Encoded.bytes ++ rest) =
      (decodeChars? rest).map (list.map Encoded.char ++ ·) := by
  induction list with
  | nil => simp
  | cons e list ih =>
    rw [List.flatMap_cons, List.append_assoc, decodeChars?_bytes_append, ih, Option.map_map]
    rfl

end Text.ShiftJis

open Text.ShiftJis (Encoded)

/-- The text of characters in a row. -/
theorem decodeShiftJis_flatMap (list : List Encoded) (offset : Nat) :
    decodeShiftJis (list.flatMap Encoded.bytes) offset =
      .ok (String.ofList (list.map Encoded.char)) := by
  have hchars := Text.ShiftJis.decodeChars?_flatMap_append list []
  rw [List.append_nil] at hchars
  simp [decodeShiftJis, Text.ShiftJis.decode?, hchars, Text.ShiftJis.decodeChars?]

/-- Characters in a row with half a character behind them have no text. -/
theorem decodeShiftJis_halved (list : List Encoded) {lead : UInt8}
    (h : Text.ShiftJis.single? lead = none) (offset : Nat) :
    ∃ flaw, decodeShiftJis (list.flatMap Encoded.bytes ++ [lead]) offset =
      .error (.undecodable offset flaw) := by
  have hchars := Text.ShiftJis.decodeChars?_flatMap_append list [lead]
  simp [decodeShiftJis, Text.ShiftJis.decode?, hchars, Text.ShiftJis.decodeChars?, h]

theorem isTextByte_of_escapedChar? {code : UInt8} {c : Char} (h : escapedChar? code = some c) :
    isTextByte code = true := by
  have hcode : code = 0x4A ∨ code = 0x4B ∨ code = 0x4C := by
    grind [escapedChar?]
  rcases hcode with rfl | rfl | rfl <;> decide

theorem isTextByte_of_le {b : UInt8} (h : 0x40 ≤ b) : isTextByte b = true := by
  have hlow : 0x20 ≤ b := UInt8.le_trans (by decide) h
  simp [isTextByte, hlow]

/-- A character of a text: an escape, or one of Shift_JIS whose first byte is a byte of text and
opens no escape. -/
inductive Glyph where
  | encoded (e : Encoded) (isText : isTextByte e.first = true) (opensNone : e.first ≠ escapeLead)
  | escape (code : UInt8) (char : Char) (known : escapedChar? code = some char)

namespace Glyph

def char : Glyph → Char
  | encoded e _ _ => e.char
  | escape _ char _ => char

def bytes : Glyph → Bytes
  | encoded e _ _ => e.bytes
  | escape code _ _ => [escapeLead, code]

/-- The second byte of the character looks like the start of an escape. -/
def HidesEscape : Glyph → Prop
  | encoded e _ _ => e.trail? = some escapeLead
  | escape .. => False

end Glyph

namespace TextCodec

variable {start limit pos : Nat} {text : String} {pending rest : Bytes}

/-- A byte of text that opens no escape waits for the bytes behind it. -/
theorem scan_text {b : UInt8} (htext : isTextByte b = true) (hopens : b ≠ escapeLead) :
    escaped.scan start limit pos text pending (b :: rest) =
      escaped.scan start limit (pos + 1) text (pending ++ [b]) rest := by
  rw [scan.eq_def]
  simp [htext, hopens]

/-- The bytes of a character wait if none of them opens an escape. -/
theorem scan_encoded {e : Encoded} (htext : isTextByte e.first = true)
    (hopens : e.first ≠ escapeLead) (htrail : e.trail? ≠ some escapeLead) :
    escaped.scan start limit pos text pending (e.bytes ++ rest) =
      escaped.scan start limit (pos + e.bytes.length) text (pending ++ e.bytes) rest := by
  cases e with
  | single b c hplaced => exact scan_text htext hopens
  | double lead trail c hplaced =>
    have htrailText := isTextByte_of_le (Text.ShiftJis.le_of_double? hplaced)
    have htrailOpens : trail ≠ escapeLead := fun h => htrail (congrArg some h)
    have hscan : escaped.scan start limit pos text pending (lead :: trail :: rest) =
        escaped.scan start limit (pos + 1) text (pending ++ [lead]) (trail :: rest) :=
      scan_text htext hopens
    rw [scan_text htrailText htrailOpens, List.append_assoc] at hscan
    exact hscan

/-- At an escape the characters that wait are decoded. -/
theorem scan_escape (held : List Encoded) {code : UInt8} {c : Char}
    (hknown : escapedChar? code = some c) :
    escaped.scan start limit pos text (held.flatMap Encoded.bytes)
        (escapeLead :: code :: rest) =
      escaped.scan start limit (pos + 2)
        (text ++ String.ofList (held.map Encoded.char ++ [c])) [] rest := by
  have htext : isTextByte escapeLead = true := by decide
  have hcode := isTextByte_of_escapedChar? hknown
  have hpush (tail : String) : (text ++ tail).push c = text ++ (tail ++ String.ofList [c]) := by
    rw [← String.append_assoc]
    exact String.toList_injective (by simp)
  simp [scan, htext, hcode, hknown, decodeShiftJis_flatMap, hpush, String.ofList_append]

/-- At the end of the run the characters that wait are decoded. -/
theorem scan_end (held : List Encoded) {b : UInt8} (hb : isTextByte b = false) :
    escaped.scan start limit pos text (held.flatMap Encoded.bytes) (b :: rest) =
      (.ok (text ++ String.ofList (held.map Encoded.char), b), pos + 1) := by
  rw [scan.eq_def]
  simp [hb, decodeShiftJis_flatMap, Except.map]

/-- The second byte of a character, taken for the start of an escape: what waits ends with half a
character, which has no text. -/
theorem scan_hidden (held : List Encoded) {lead code : UInt8}
    (hlead : Text.ShiftJis.single? lead = none) (htext : isTextByte lead = true)
    (hopens : lead ≠ escapeLead) :
    ∃ offset flaw, (escaped.scan start limit pos text (held.flatMap Encoded.bytes)
      (lead :: escapeLead :: code :: rest)).1 = .error (.undecodable offset flaw) := by
  have hescape : isTextByte escapeLead = true := by decide
  rw [scan_text htext hopens]
  by_cases hcode : isTextByte code = false
  · exact ⟨pos + 1, .brokenEscape code, by simp [scan, hescape, hcode]⟩
  · cases hknown : escapedChar? code with
    | none => exact ⟨pos + 1, .unknownEscape code, by simp [scan, hescape, hcode, hknown]⟩
    | some c =>
      obtain ⟨flaw, hhalved⟩ := decodeShiftJis_halved held hlead start
      exact ⟨start, flaw, by simp [scan, hescape, hcode, hknown, hhalved]⟩

/-- A run none of whose characters looks as if it held an escape is read as its characters. -/
theorem scan_glyphs (glyphs : List Glyph) (hclear : ∀ g ∈ glyphs, ¬ g.HidesEscape) {b : UInt8}
    (hb : isTextByte b = false) (pos : Nat) (text : String) (held : List Encoded) :
    escaped.scan start limit pos text (held.flatMap Encoded.bytes)
        (glyphs.flatMap Glyph.bytes ++ b :: rest) =
      (.ok (text ++ String.ofList (held.map Encoded.char ++ glyphs.map Glyph.char), b),
        pos + (glyphs.flatMap Glyph.bytes).length + 1) := by
  induction glyphs generalizing pos text held with
  | nil => simpa using scan_end held hb
  | cons g glyphs ih =>
    have hothers : ∀ g ∈ glyphs, ¬ g.HidesEscape := fun g hg =>
      hclear g (List.mem_cons_of_mem _ hg)
    cases g with
    | encoded e htext hopens =>
      have htrail : e.trail? ≠ some escapeLead := hclear _ List.mem_cons_self
      have hheld : held.flatMap Encoded.bytes ++ e.bytes =
          (held ++ [e]).flatMap Encoded.bytes := by
        simp
      rw [List.flatMap_cons, List.append_assoc, Glyph.bytes, scan_encoded htext hopens htrail,
        hheld, ih hothers]
      simp [Glyph.char, Nat.add_assoc, Nat.add_comm]
    | escape code c hknown =>
      rw [List.flatMap_cons, List.append_assoc, Glyph.bytes, List.cons_append, List.cons_append,
        List.nil_append, scan_escape held hknown]
      have hih := ih hothers (pos + 2) (text ++ String.ofList (held.map Encoded.char ++ [c])) []
      rw [List.flatMap_nil] at hih
      have hchars : text ++ String.ofList (held.map Encoded.char ++ [c]) ++
          String.ofList ([].map Encoded.char ++ glyphs.map Glyph.char) =
            text ++ String.ofList (held.map Encoded.char ++
              (Glyph.escape code c hknown :: glyphs).map Glyph.char) := by
        rw [String.append_assoc, ← String.ofList_append]
        simp [Glyph.char]
      have hlength : pos + 2 + (glyphs.flatMap Glyph.bytes).length + 1 =
          pos + ([escapeLead, code] ++ glyphs.flatMap Glyph.bytes).length + 1 := by
        rw [List.length_append, ← Nat.add_assoc]
        rfl
      rw [hih, hchars, hlength]

/-- A run with a character that looks as if it held an escape is refused. -/
theorem scan_glyphs_undecodable (glyphs : List Glyph) (hhides : ∃ g ∈ glyphs, g.HidesEscape)
    (b : UInt8) (held : List Encoded) :
    ∃ offset flaw, (escaped.scan start limit pos text (held.flatMap Encoded.bytes)
      (glyphs.flatMap Glyph.bytes ++ b :: rest)).1 = .error (.undecodable offset flaw) := by
  induction glyphs generalizing pos text held with
  | nil =>
    obtain ⟨g, hg, -⟩ := hhides
    cases hg
  | cons g glyphs ih =>
    rw [List.flatMap_cons, List.append_assoc]
    by_cases hhere : g.HidesEscape
    · cases g with
      | encoded e htext hopens =>
        cases e with
        | single b c hplaced => cases hhere
        | double lead trail c hplaced =>
          obtain rfl : trail = escapeLead := Option.some.inj hhere
          -- There is a byte behind the character, if only the one that ends the run.
          obtain ⟨code, others, hbehind⟩ : ∃ code others,
              glyphs.flatMap Glyph.bytes ++ b :: rest = code :: others :=
            List.exists_cons_of_ne_nil (by simp)
          rw [hbehind]
          exact scan_hidden held (Text.ShiftJis.single?_of_double? hplaced) htext hopens
      | escape code c hknown => exact hhere.elim
    · have hothers : ∃ g ∈ glyphs, g.HidesEscape := by
        obtain ⟨g', hg', hhides'⟩ := hhides
        rcases List.mem_cons.mp hg' with rfl | hg'
        · exact absurd hhides' hhere
        · exact ⟨g', hg', hhides'⟩
      cases g with
      | encoded e htext hopens =>
        have hheld : held.flatMap Encoded.bytes ++ e.bytes =
            (held ++ [e]).flatMap Encoded.bytes := by
          simp
        rw [Glyph.bytes, scan_encoded htext hopens hhere, hheld]
        exact ih hothers _
      | escape code c hknown =>
        rw [Glyph.bytes, List.cons_append, List.cons_append, List.nil_append,
          scan_escape held hknown]
        exact ih hothers []

/-- A run with a character that looks as if it held an escape is refused, by the codec that knows
escapes. -/
theorem read_undecodable {glyphs : List Glyph} {b : UInt8} {c : Cursor}
    (hrest : c.rest = glyphs.flatMap Glyph.bytes ++ b :: rest)
    (hhides : ∃ g ∈ glyphs, g.HidesEscape) :
    ∃ offset flaw, (escaped.read.runOn c).1 = .error (.undecodable offset flaw) := by
  obtain ⟨offset, flaw, hscan⟩ :
      ∃ offset flaw, (escaped.scan c.pos c.limit c.pos "" [] c.rest).1 =
        .error (.undecodable offset flaw) := by
    rw [hrest]
    exact scan_glyphs_undecodable glyphs hhides b []
  exact ⟨offset, flaw, hscan⟩

/-- Characters and escapes in front of a byte that is none of text are read as the characters they
stand for, with that byte as the end, if and only if no character has a second byte that looks like
the start of an escape. -/
theorem read_glyphs_iff (glyphs : List Glyph) {b : UInt8} (rest : Bytes) {c : Cursor}
    (hb : isTextByte b = false) (hrest : c.rest = glyphs.flatMap Glyph.bytes ++ b :: rest) :
    escaped.read.runOn c =
        (.ok (String.ofList (glyphs.map Glyph.char), b),
          { c with pos := c.pos + (glyphs.flatMap Glyph.bytes).length + 1 }) ↔
      ∀ g ∈ glyphs, ¬ g.HidesEscape := by
  constructor
  · intro hread g hg hhides
    obtain ⟨offset, flaw, hrefused⟩ := read_undecodable hrest ⟨g, hg, hhides⟩
    rw [hread] at hrefused
    cases hrefused
  · intro hclear
    have hscan : escaped.scan c.pos c.limit c.pos "" [] c.rest =
        (.ok ("" ++ String.ofList ([] ++ glyphs.map Glyph.char), b),
          c.pos + (glyphs.flatMap Glyph.bytes).length + 1) := by
      rw [hrest]
      exact scan_glyphs glyphs hclear hb c.pos "" []
    simp [Reader.runOn, read, hscan]

/-- The kana yo is read in front of an escape. The small yo has the start of an escape as its second
byte and is not read. -/
theorem read_refuses_small_yo :
    let large := Cursor.ofView (.ofBytes [0x83, 0x88, 0x87, 0x4B, 0x00])
    let small := Cursor.ofView (.ofBytes [0x83, 0x87, 0x00])
    escaped.read.runOn large = (.ok ("\u30e8\u00fc", 0), { large with pos := 5 }) ∧
      escaped.read.runOn small ≠ (.ok ("\u30e7", 0), { small with pos := 3 }) := by
  intro large small
  have hlarge : Text.ShiftJis.double? 0x83 0x88 = some '\u30e8' := by decide +kernel
  have hsmall : Text.ShiftJis.double? 0x83 0x87 = some '\u30e7' := by decide +kernel
  have htext : isTextByte 0x83 = true := by decide
  have hopens : (0x83 : UInt8) ≠ escapeLead := by decide
  constructor
  · have hiff := read_glyphs_iff [.encoded (.double 0x83 0x88 '\u30e8' hlarge) htext hopens,
      .escape 0x4B '\u00fc' (by decide)] [] (by decide) (show large.rest = _ from rfl)
    refine hiff.mpr fun g hg => ?_
    rcases List.mem_cons.mp hg with rfl | hg
    · exact (by decide : ¬ some (0x88 : UInt8) = some escapeLead)
    · obtain rfl := List.mem_singleton.mp hg
      exact id
  · intro hread
    have hiff := read_glyphs_iff [.encoded (.double 0x83 0x87 '\u30e7' hsmall) htext hopens] []
      (by decide) (show small.rest = _ from rfl)
    exact hiff.mp hread _ List.mem_cons_self rfl

end TextCodec

end NovelScript
