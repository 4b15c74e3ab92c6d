import NovelScript.Bytes.Hex
import NovelScript.Toml

/-! # Written TOML

Texts and lines of a document in the style that needs the fewest escapes. -/

namespace NovelScript.Toml

/-- How a text is quoted. -/
structure TextStyle where
  /-- Apostrophes, between which nothing is escaped. -/
  literal : Bool
  /-- Three quotes instead of one. -/
  triple : Bool
  /-- A line break behind the opening quotes. -/
  broken : Bool
deriving DecidableEq, Repr

/-- Control characters, which only an escape can stand for; a tab and a line break apart. -/
def needsEscape (c : Char) : Bool :=
  c ≠ '\t' && c ≠ '\n' && (c.toNat < 0x20 || c.toNat = 0x7F)

/-- The length of the longest run of apostrophes. `run` is the length of the one in front. -/
def longestRun : (run : Nat) → List Char → Nat
  | run, [] => run
  | run, c :: rest => if c = '\'' then longestRun (run + 1) rest else max run (longestRun 0 rest)

/-- The style of a text. Apostrophes are for texts with quotation marks or backslashes that could
stand between apostrophes as they are. -/
def styleOf (text : String) : TextStyle :=
  let cs := text.toList
  let broken := cs.contains '\n'
  let singles := longestRun 0 cs
  let literal := (cs.contains '"' || cs.contains '\\') && !cs.any needsEscape && singles < 3 &&
    cs.getLast? ≠ some '\''
  ⟨literal, broken || (literal && 1 ≤ singles), broken⟩

/-- A character between quotation marks. -/
def quotedChar (broken : Bool) (c : Char) : String :=
  if c = '\x08' then "\\b"
  else if c = '\t' then "\\t"
  else if c = '\n' then (if broken then "\n" else "\\n")
  else if c = '\x0c' then "\\f"
  else if c = '\r' then "\\r"
  else if c = '"' then "\\\""
  else if c = '\\' then "\\\\"
  else if needsEscape c then
    "\\u00" ++ (hexByte (UInt8.ofNat c.toNat)).map Char.toUpper
  else c.toString

/-- A text with its quotes. -/
def writeText (text : String) : String :=
  let style := styleOf text
  let quote := if style.literal then "'" else "\""
  let quotes := if style.triple then quote ++ quote ++ quote else quote
  let body :=
    if style.literal then text
    else String.join (text.toList.map (quotedChar style.broken))
  quotes ++ (if style.broken then "\n" else "") ++ body ++ quotes

/-- A text, a number or a flag. Numbers are words of 64 bits with a sign. -/
def writeScalar? : Toml → Option String
  | .text value => some (writeText value)
  | .int value => if isWord value then some (toString value) else none
  | .bool value => some (if value then "true" else "false")
  | _ => none

/-- A header and the keys below it. -/
def writeSection? (name : String) (entries : Entries) : Option String := do
  let lines ← entries.mapM fun (key, value) => do
    return key ++ " = " ++ (← writeScalar? value) ++ "\n"
  return "[" ++ name ++ "]\n" ++ String.join lines

/-- Sections with an empty line between neighbours. -/
def writeSections? (sections : List (String × Entries)) : Option String := do
  let texts ← sections.mapM fun (name, entries) => writeSection? name entries
  return "\n".intercalate texts

end NovelScript.Toml
