import NovelScript.Bytes.Hex

/-! # Quoted text

How strings and bytes from a script are shown inside messages and listings. -/

namespace NovelScript.Text

/-- Whether a character is shown as itself: not a control or format character, not a separator
other than the blank, not for private use. -/
def isShown (c : Char) : Bool :=
  let n := c.toNat
  !(n < 0x20 || (0x7F ≤ n && n ≤ 0xA0) || n == 0xAD || n == 0x1680 ||
    (0x2000 ≤ n && n ≤ 0x200F) || (0x2028 ≤ n && n ≤ 0x202F) || (0x205F ≤ n && n ≤ 0x206F) ||
    n == 0x3000 || (0xE000 ≤ n && n ≤ 0xF8FF) || n == 0xFEFF || (0xFFF0 ≤ n && n ≤ 0xFFFB) ||
    0xF0000 ≤ n)

/-- One character inside double quotes. -/
def quotedChar (c : Char) : String :=
  if c = '\t' then "\\t"
  else if c = '\r' then "\\r"
  else if c = '\n' then "\\n"
  else if c = '"' then "\\\""
  else if c = '\\' then "\\\\"
  else if c = '\x00' then "\\0"
  else if isShown c then c.toString
  else "\\u\x7b" ++ String.ofList (Nat.toDigits 16 c.toNat) ++ "\x7d"

/-- A string in double quotes. -/
def quoted (text : String) : String :=
  "\"" ++ String.join (text.toList.map quotedChar) ++ "\""

/-- Strings in double quotes, as a bracketed list. -/
def quotedList (texts : List String) : String :=
  "[" ++ ", ".intercalate (texts.map quoted) ++ "]"

/-- One byte shown as ASCII text. -/
def escapedByte (b : UInt8) : String :=
  if b = 0x09 then "\\t"
  else if b = 0x0D then "\\r"
  else if b = 0x0A then "\\n"
  else if b = 0x27 then "\\'"
  else if b = 0x22 then "\\\""
  else if b = 0x5C then "\\\\"
  else if 0x20 ≤ b ∧ b ≤ 0x7E then (Char.ofNat b.toNat).toString
  else "\\x" ++ hexByte b

/-- Bytes shown as ASCII text. -/
def escaped (bytes : Bytes) : String :=
  String.join (bytes.map escapedByte)

end NovelScript.Text
