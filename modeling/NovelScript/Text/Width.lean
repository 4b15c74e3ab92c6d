/-! # Column widths

The number of columns that text takes on a terminal. -/

namespace NovelScript.Text

/-- The stretches of characters that take two columns. -/
def wideRuns : List (Nat × Nat) :=
  [(0x1100, 0x115F), (0x2329, 0x232A), (0x2E80, 0x2E99), (0x2E9B, 0x2EF3), (0x2F00, 0x2FD5),
   (0x2FF0, 0x303E), (0x3041, 0x3096), (0x3099, 0x30FF), (0x3105, 0x312F), (0x3131, 0x318E),
   (0x3190, 0x31E3), (0x31EF, 0x321E), (0x3220, 0x3247), (0x3250, 0xA48C), (0xA490, 0xA4C6),
   (0xA960, 0xA97C), (0xAC00, 0xD7A3), (0xF900, 0xFAFF), (0xFE10, 0xFE19), (0xFE30, 0xFE52),
   (0xFE54, 0xFE66), (0xFE68, 0xFE6B), (0xFF01, 0xFF60), (0xFFE0, 0xFFE6), (0x20000, 0x2FFFD),
   (0x30000, 0x3FFFD)]

/-- The columns of a character: none for a control character, two for a wide one. -/
def charColumns (c : Char) : Nat :=
  let n := c.toNat
  if n < 0x20 ∨ (0x7F ≤ n ∧ n < 0xA0) then 0
  else if wideRuns.any fun (least, greatest) => least ≤ n && n ≤ greatest then 2
  else 1

/-- The columns of a text. -/
def columns (text : String) : Nat :=
  text.toList.foldr (fun c n => charColumns c + n) 0

end NovelScript.Text
