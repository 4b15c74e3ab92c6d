import NovelScript.Bytes.Hex
import NovelScript.Toml

/-! # TOML scalars

Texts, numbers, dates and times as TOML writes them. A reader takes what it reads from the front of
the characters and gives the rest. -/

namespace NovelScript.Toml

/-- A reader of the characters in front. -/
abbrev Scan (α : Type) := List Char → Option (α × List Char)

def isBlank (c : Char) : Bool := c = ' ' || c = '\t'

/-- The characters behind the blanks in front. -/
def skipBlanks (input : List Char) : List Char := input.dropWhile isBlank

/-- Characters that may stand in comments and in texts: all but control characters. -/
def isPlain (c : Char) : Bool := c = '\t' || (0x20 ≤ c.toNat && c.toNat ≠ 0x7F)

/-- A line break. -/
def newline? : List Char → Option (List Char)
  | '\n' :: rest => some rest
  | '\r' :: '\n' :: rest => some rest
  | _ => none

/-- The characters behind an expected text. -/
def expect? (text : String) (input : List Char) : Option (List Char) :=
  if text.toList.isPrefixOf input then some (input.drop text.length) else none

/-- A character by its number in base sixteen. -/
def codePoint? (digits : List Char) : Option Char := do
  let values ← digits.mapM hexValue?
  let n := values.foldl (fun n digit => 16 * n + digit) 0
  if n.isValidChar then some (Char.ofNat n) else none

/-- What is behind a backslash. -/
def escape : Scan Char
  | 'b' :: rest => some ('\x08', rest)
  | 't' :: rest => some ('\t', rest)
  | 'n' :: rest => some ('\n', rest)
  | 'f' :: rest => some ('\x0c', rest)
  | 'r' :: rest => some ('\r', rest)
  | '"' :: rest => some ('"', rest)
  | '\\' :: rest => some ('\\', rest)
  | 'u' :: rest =>
    if rest.length < 4 then none else (codePoint? (rest.take 4)).map fun c => (c, rest.drop 4)
  | 'U' :: rest =>
    if rest.length < 8 then none else (codePoint? (rest.take 8)).map fun c => (c, rest.drop 8)
  | _ => none

/-- The rest of a text in quotation marks on one line. The fuel is the number of characters. -/
def basicRest : (fuel : Nat) → Scan (List Char)
  | 0, _ => none
  | fuel + 1, input =>
    match input with
    | '"' :: rest => some ([], rest)
    | '\\' :: rest => do
      let (c, rest) ← escape rest
      let (others, rest) ← basicRest fuel rest
      return (c :: others, rest)
    | c :: rest => do
      guard (isPlain c)
      let (others, rest) ← basicRest fuel rest
      return (c :: others, rest)
    | [] => none

/-- The rest of a text in apostrophes on one line. -/
def literalRest : Scan (List Char)
  | [] => none
  | c :: rest => do
    if c = '\'' then return ([], rest)
    else
      guard (isPlain c)
      let (others, rest) ← literalRest rest
      return (c :: others, rest)

/-- The end of a text of several lines: three quotes, in front of which one or two more may stand
that belong to the text. -/
def tripleEnd? (quote : Char) (input : List Char) : Option (List Char × List Char) :=
  let quotes := (input.takeWhile (· == quote)).length
  if 3 ≤ quotes then
    let extra := min quotes 5 - 3
    some (List.replicate extra quote, input.drop (extra + 3))
  else none

/-- The characters behind blanks and line breaks. -/
def skipSpace : (fuel : Nat) → List Char → List Char
  | 0, input => input
  | fuel + 1, input =>
    match newline? (skipBlanks input) with
    | some rest => skipSpace fuel rest
    | none => skipBlanks input

/-- The rest of a text of several lines. A line break is one character whatever stands for it, and
a backslash at the end of a line takes away all blanks and line breaks behind it. -/
def tripleRest (quote : Char) (escapes : Bool) : (fuel : Nat) → Scan (List Char)
  | 0, _ => none
  | fuel + 1, input =>
    match tripleEnd? quote input with
    | some (extra, rest) => some (extra, rest)
    | none =>
      match newline? input with
      | some rest => do
        let (others, rest) ← tripleRest quote escapes fuel rest
        return ('\n' :: others, rest)
      | none =>
        match input with
        | [] => none
        | c :: rest =>
          if escapes && c = '\\' then
            match newline? (skipBlanks rest) with
            | some rest => tripleRest quote escapes fuel (skipSpace rest.length rest)
            | none => do
              let (c, rest) ← escape rest
              let (others, rest) ← tripleRest quote escapes fuel rest
              return (c :: others, rest)
          else do
            guard (isPlain c)
            let (others, rest) ← tripleRest quote escapes fuel rest
            return (c :: others, rest)

/-- A text of several lines, behind its opening quotes. A line break right there is left out. -/
def triple (quote : Char) (escapes : Bool) : Scan String := fun input =>
  (tripleRest quote escapes (input.length + 1) ((newline? input).getD input)).map
    fun (cs, rest) => (String.ofList cs, rest)

/-- A text on one line. -/
def lineText : Scan String
  | '"' :: rest =>
    (basicRest (rest.length + 1) rest).map fun (cs, rest) => (String.ofList cs, rest)
  | '\'' :: rest => (literalRest rest).map fun (cs, rest) => (String.ofList cs, rest)
  | _ => none

/-- A text. -/
def anyText : Scan String
  | '"' :: '"' :: '"' :: rest => triple '"' true rest
  | '\'' :: '\'' :: '\'' :: rest => triple '\'' false rest
  | input => lineText input

/-- Digits with single underscores between them. `after` says that a digit was read before. -/
def digitRun (isDigit : Char → Bool) : (after : Bool) → List Char → List Char × List Char
  | _, [] => ([], [])
  | after, c :: rest =>
    if isDigit c then
      let (digits, others) := digitRun isDigit true rest
      (c :: digits, others)
    else if after && c = '_' then
      match rest with
      | d :: _ =>
        if isDigit d then digitRun isDigit false rest else ([], c :: rest)
      | [] => ([], c :: rest)
    else ([], c :: rest)

/-- The number of digits in a base. -/
def natOf (base : Nat) (digits : List Char) : Nat :=
  digits.foldl (fun n c => base * n + (hexValue? c).getD 0) 0

/-- A whole number in another base, behind its mark. -/
def radixInt (base : Nat) (isDigit : Char → Bool) : Scan Int := fun input =>
  let (digits, rest) := digitRun isDigit false input
  let n : Int := natOf base digits
  if digits.isEmpty || !isWord n then none else some (n, rest)

/-- The digits of a decimal number without needless zeros in front. -/
def decimalDigits (input : List Char) : Option (List Char × List Char) :=
  match input with
  | '0' :: rest => some (['0'], rest)
  | _ =>
    let (digits, rest) := digitRun Char.isDigit false input
    if digits.isEmpty then none else some (digits, rest)

/-- A sign, if there is one. -/
def sign : List Char → Option Bool × List Char
  | '+' :: rest => (some false, rest)
  | '-' :: rest => (some true, rest)
  | input => (none, input)

/-- A whole number. -/
def wholeNumber : Scan Int
  | '0' :: 'x' :: rest => radixInt 16 (fun c => (hexValue? c).isSome) rest
  | '0' :: 'o' :: rest => radixInt 8 (fun c => '0' ≤ c && c ≤ '7') rest
  | '0' :: 'b' :: rest => radixInt 2 (fun c => c = '0' || c = '1') rest
  | input => do
    let (negative, input) := sign input
    let (digits, rest) ← decimalDigits input
    let n : Int := natOf 10 digits
    let n := if negative = some true then -n else n
    if isWord n then some (n, rest) else none

/-- What is behind a fraction. -/
def fraction? : List Char → Option (List Char)
  | '.' :: rest =>
    let (digits, rest) := digitRun Char.isDigit false rest
    if digits.isEmpty then none else some rest
  | _ => none

/-- What is behind an exponent. -/
def exponent? : List Char → Option (List Char)
  | c :: rest =>
    if c = 'e' || c = 'E' then
      let (digits, rest) := digitRun Char.isDigit false (sign rest).2
      if digits.isEmpty then none else some rest
    else none
  | [] => none

/-- What is behind a number with a fraction or an exponent. -/
def float? (input : List Char) : Option (List Char) := do
  let input := (sign input).2
  match (expect? "inf" input).or (expect? "nan" input) with
  | some rest => return rest
  | none =>
    let (_, rest) ← decimalDigits input
    match fraction? rest with
    | some rest => return (exponent? rest).getD rest
    | none => exponent? rest

/-- A number of exactly `count` digits. -/
def fixedNat (count : Nat) : Scan Nat := fun input =>
  let digits := input.take count
  if digits.length = count && digits.all Char.isDigit then
    some (natOf 10 digits, input.drop count)
  else none

/-- The number of days in a month. -/
def daysIn (year month : Nat) : Nat :=
  if month = 2 then
    if year % 4 = 0 && (year % 100 ≠ 0 || year % 400 = 0) then 29 else 28
  else if month = 4 || month = 6 || month = 9 || month = 11 then 30
  else 31

/-- What is behind a date. -/
def date? (input : List Char) : Option (List Char) := do
  let (year, rest) ← fixedNat 4 input
  let rest ← expect? "-" rest
  let (month, rest) ← fixedNat 2 rest
  guard (1 ≤ month && month ≤ 12)
  let rest ← expect? "-" rest
  let (day, rest) ← fixedNat 2 rest
  guard (1 ≤ day && day ≤ daysIn year month)
  return rest

/-- What is behind a time of day. -/
def time? (input : List Char) : Option (List Char) := do
  let (hour, rest) ← fixedNat 2 input
  guard (hour ≤ 23)
  let rest ← expect? ":" rest
  let (minute, rest) ← fixedNat 2 rest
  guard (minute ≤ 59)
  let rest ← expect? ":" rest
  let (second, rest) ← fixedNat 2 rest
  guard (second ≤ 60)
  match rest with
  | '.' :: rest =>
    let behind := rest.dropWhile Char.isDigit
    guard (behind.length < rest.length)
    return behind
  | _ => return rest

/-- What is behind the distance from universal time. -/
def zone? (input : List Char) : Option (List Char) :=
  match input with
  | 'Z' :: rest | 'z' :: rest => some rest
  | c :: rest => do
    guard (c = '+' || c = '-')
    let (hour, rest) ← fixedNat 2 rest
    guard (hour ≤ 23)
    let rest ← expect? ":" rest
    let (minute, rest) ← fixedNat 2 rest
    guard (minute ≤ 59)
    return rest
  | [] => none

/-- What is behind a date, a time of day, or both. -/
def moment? (input : List Char) : Option (List Char) :=
  match date? input with
  | none => time? input
  | some afterDate =>
    match afterDate with
    | c :: rest =>
      if c = 'T' || c = 't' || c = ' ' then
        match time? rest with
        | some afterTime => some ((zone? afterTime).getD afterTime)
        | none => some afterDate
      else some afterDate
    | [] => some afterDate

end NovelScript.Toml
