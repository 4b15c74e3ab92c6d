import NovelScript.Bytes.Hex
import NovelScript.Document

/-! # JSON

Documents as JSON, indented by two blanks for each level. -/

namespace NovelScript.Document

/-- One character inside a JSON string. -/
def jsonChar (c : Char) : String :=
  if c = '"' then "\\\""
  else if c = '\\' then "\\\\"
  else if c = '\n' then "\\n"
  else if c = '\r' then "\\r"
  else if c = '\t' then "\\t"
  else if c = '\x08' then "\\b"
  else if c = '\x0c' then "\\f"
  else if c.toNat < 0x20 then "\\u00" ++ hexByte (UInt8.ofNat c.toNat)
  else c.toString

def jsonString (text : String) : String :=
  "\"" ++ String.join (text.toList.map jsonChar) ++ "\""

/-- A line break and the blanks of a level. -/
def lineBreak (level : Nat) : String := "\n".pushn ' ' (2 * level)

/-- Items in brackets, each on a line of its own. -/
def bracketed (left right : String) (level : Nat) (items : List String) : String :=
  if items.isEmpty then left ++ right
  else
    left ++ ",".intercalate (items.map (lineBreak (level + 1) ++ ·)) ++ lineBreak level ++ right

mutual

/-- A document at a level. -/
def jsonAt (level : Nat) : Document → String
  | .null => "null"
  | .int value => toString value
  | .float bits => shortestText bits
  | .text value => jsonString value
  | .list items => bracketed "[" "]" level (jsonItems (level + 1) items)
  | .object fields => bracketed "\x7b" "\x7d" level (jsonFields (level + 1) fields)
  | .tagged name value =>
    bracketed "\x7b" "\x7d" level [jsonString name ++ ": " ++ jsonAt (level + 1) value]

def jsonItems (level : Nat) : List Document → List String
  | [] => []
  | item :: rest => jsonAt level item :: jsonItems level rest

def jsonFields (level : Nat) : List (String × Document) → List String
  | [] => []
  | (name, value) :: rest =>
    (jsonString name ++ ": " ++ jsonAt level value) :: jsonFields level rest

end

/-- A document as indented JSON. -/
def toJson (d : Document) : String := jsonAt 0 d

end NovelScript.Document
