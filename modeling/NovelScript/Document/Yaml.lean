import NovelScript.Bytes.Hex
import NovelScript.Document

/-! # YAML

Documents as YAML in block style. Sequences stand as deep as the key they belong to. A string is
written without quotes where it cannot be taken for something else. -/

namespace NovelScript.Document

/-- Words that older readers take for truth values. -/
def truthWords : List String :=
  ["y", "Y", "yes", "Yes", "YES", "n", "N", "no", "No", "NO", "true", "True", "TRUE", "false",
   "False", "FALSE", "on", "On", "ON", "off", "Off", "OFF"]

/-- Words that stand for the empty value and for numbers that are not finite. -/
def otherWords : List String :=
  ["", "null", "Null", "NULL", "~", ".inf", ".Inf", ".INF", "+.inf", "+.Inf", "+.INF", "-.inf",
   "-.Inf", "-.INF", ".nan", ".NaN", ".NAN"]

/-- The characters behind a sign. -/
def withoutSign : List Char → List Char
  | '+' :: rest => rest
  | '-' :: rest => rest
  | cs => cs

/-- Whether characters are digits of a base behind its mark. -/
def isBased (mark : Char) (isDigit : Char → Bool) : List Char → Bool
  | '0' :: m :: digits => m == mark && !digits.isEmpty && digits.all isDigit
  | _ => false

/-- Whether characters are the exponent of a decimal, or none. -/
def isExponent : List Char → Bool
  | [] => true
  | e :: rest =>
    let digits := withoutSign rest
    (e == 'e' || e == 'E') && !digits.isEmpty && digits.all Char.isDigit

/-- Whether characters are an unsigned decimal. -/
def isDecimal (cs : List Char) : Bool :=
  let whole := cs.takeWhile Char.isDigit
  match cs.dropWhile Char.isDigit with
  | '.' :: rest =>
    let part := rest.takeWhile Char.isDigit
    !(whole.isEmpty && part.isEmpty) && isExponent (rest.dropWhile Char.isDigit)
  | rest => !whole.isEmpty && isExponent rest

/-- Whether a text reads as a number. -/
def readsAsNumber (text : String) : Bool :=
  let cs := withoutSign text.toList
  isDecimal cs || isBased 'x' (hexValue? · |>.isSome) cs ||
    isBased 'o' (fun c => '0' ≤ c && c ≤ '7') cs || isBased 'b' (fun c => c == '0' || c == '1') cs

/-- Whether a character can be written without an escape. -/
def isYamlPrintable (c : Char) : Bool :=
  let n := c.toNat
  n == 0x0A || (0x20 ≤ n && n ≤ 0x7E) || (0xA0 ≤ n && n ≤ 0xFFFD && n != 0xFEFF) || 0x10000 ≤ n

/-- Characters that no plain text may start with. -/
def startIndicators : List Char :=
  ['#', ',', '[', ']', '\x7b', '\x7d', '&', '*', '!', '|', '>', '\x27', '"', '%', '@', '\x60']

/-- Whether the next character is a blank or there is none. -/
def blankNext : List Char → Bool
  | [] => true
  | c :: _ => c == ' ' || c == '\t' || c == '\n'

/-- Whether a mark inside a text would end it; `blankBefore` tells about the character before. -/
def hasInnerMark (blankBefore : Bool) : List Char → Bool
  | [] => false
  | c :: rest =>
    (c == ':' && blankNext rest) || (c == '#' && blankBefore) || hasInnerMark (c == ' ') rest

/-- Whether a text can stand without quotes as far as its marks go. -/
def isPlain (text : String) : Bool :=
  match text.toList with
  | [] => false
  | c :: rest =>
    !(startIndicators.contains c || ((c == '?' || c == ':' || c == '-') && blankNext rest) ||
      text.startsWith "---" || text.startsWith "..." || c == ' ' || text.endsWith " " ||
      hasInnerMark (c == ' ') rest)

/-- Upper-case base sixteen with at least `width` digits. -/
def upperHex (width n : Nat) : String :=
  let digits := String.ofList ((Nat.toDigits 16 n).map Char.toUpper)
  "".pushn '0' (width - digits.length) ++ digits

/-- One character inside double quotes. -/
def yamlEscaped (c : Char) : String :=
  let n := c.toNat
  if c = '"' then "\\\""
  else if c = '\\' then "\\\\"
  else if n = 0x00 then "\\0"
  else if n = 0x07 then "\\a"
  else if n = 0x08 then "\\b"
  else if n = 0x09 then "\\t"
  else if n = 0x0A then "\\n"
  else if n = 0x0B then "\\v"
  else if n = 0x0C then "\\f"
  else if n = 0x0D then "\\r"
  else if n = 0x1B then "\\e"
  else if n = 0x85 then "\\N"
  else if n = 0xA0 then "\\_"
  else if n = 0x2028 then "\\L"
  else if n = 0x2029 then "\\P"
  else if isYamlPrintable c then c.toString
  else if n ≤ 0xFF then "\\x" ++ upperHex 2 n
  else if n ≤ 0xFFFF then "\\u" ++ upperHex 4 n
  else "\\U" ++ upperHex 8 n

def doubleQuoted (text : String) : String :=
  "\"" ++ String.join (text.toList.map yamlEscaped) ++ "\""

def singleQuoted (text : String) : String := "'" ++ text.replace "'" "''" ++ "'"

/-- Lines in a block of their own; the mark says how many line breaks end the text, and a text that
is one line break counts as ending in several. -/
def literalBlock (indent : Nat) (text : String) : String :=
  let cs := text.toList
  let trailing := (cs.reverse.takeWhile (· == '\n')).length
  let body := String.ofList (cs.take (cs.length - trailing))
  let hint := if blankNext (cs.take 1) then "2" else ""
  let mark := if trailing = 0 then "-" else if trailing = 1 && !body.isEmpty then "" else "+"
  let line (l : String) := "\n" ++ (if l.isEmpty then l else "".pushn ' ' indent ++ l)
  "|" ++ hint ++ mark ++ String.join ((body.splitOn "\n").map line) ++ "".pushn '\n' (trailing - 1)

/-- A string; `indent` is how deep the lines of a block stand. -/
def yamlString (indent : Nat) (text : String) : String :=
  if truthWords.contains text then singleQuoted text
  else if text.contains '\n' then
    if text.toList.all isYamlPrintable && !text.endsWith " " && (text.splitOn " \n").length == 1 then
      literalBlock indent text
    else doubleQuoted text
  else if !text.toList.all isYamlPrintable then doubleQuoted text
  else if otherWords.contains text || readsAsNumber text || !isPlain text then singleQuoted text
  else text

def indentation (indent : Nat) : String := "".pushn ' ' indent

mutual

/-- What stands behind a key or a dash: on the same line, or on lines of its own from `indent` on
for fields and from `listIndent` on for items. -/
def yamlValue (indent listIndent : Nat) : Document → String
  | .null => " null\n"
  | .int value => " " ++ toString value ++ "\n"
  | .float bits => " " ++ shortestText bits ++ "\n"
  | .text value => " " ++ yamlString indent value ++ "\n"
  | .list [] => " []\n"
  | .list (item :: items) => "\n" ++ yamlItems listIndent (item :: items)
  | .object [] => " \x7b\x7d\n"
  | .object (field :: fields) => "\n" ++ yamlFields indent (field :: fields)
  | .tagged name value => " !" ++ name ++ yamlValue indent listIndent value

/-- The items of a sequence, each behind a dash. -/
def yamlItems (indent : Nat) : List Document → String
  | [] => ""
  | .object (field :: fields) :: rest =>
    indentation indent ++ "- " ++ yamlFirstField (indent + 2) (field :: fields) ++
      yamlItems indent rest
  | item :: rest =>
    indentation indent ++ "-" ++ yamlValue (indent + 2) (indent + 2) item ++ yamlItems indent rest

/-- Fields whose first key stands behind a dash. -/
def yamlFirstField (indent : Nat) : List (String × Document) → String
  | [] => ""
  | (name, value) :: rest =>
    name ++ ":" ++ yamlValue (indent + 2) indent value ++ yamlFields indent rest

/-- Fields, each on lines of its own. -/
def yamlFields (indent : Nat) : List (String × Document) → String
  | [] => ""
  | (name, value) :: rest =>
    indentation indent ++ name ++ ":" ++ yamlValue (indent + 2) indent value ++
      yamlFields indent rest

end

/-- A document of fields as YAML. -/
def toYaml : Document → String
  | .object fields => yamlFields 0 fields
  | d => (yamlValue 0 0 d).trimAsciiStart.toString

end NovelScript.Document
