import NovelScript.Toml
import NovelScript.Toml.Scalar

/-! # TOML documents

A document is a sequence of lines: keys with values, headers, comments. -/

namespace NovelScript.Toml

def isBareKeyChar (c : Char) : Bool :=
  c.isAlphanum || c = '_' || c = '-'

/-- One part of a key. -/
def keyPart : Scan String := fun input =>
  match lineText input with
  | some found => some found
  | none =>
    let bare := input.takeWhile isBareKeyChar
    if bare.isEmpty then none else some (String.ofList bare, input.drop bare.length)

/-- A dotted key: its parts up to the last one, and the last one. -/
def dottedKey : (fuel : Nat) → Scan (List String × String)
  | 0, _ => none
  | fuel + 1, input => do
    let (part, rest) ← keyPart (skipBlanks input)
    match skipBlanks rest with
    | '.' :: rest =>
      let ((path, key), rest) ← dottedKey fuel rest
      return ((part :: path, key), rest)
    | rest => return (([], part), rest)

/-- What is behind a comment, if there is one. Control characters are refused. -/
def skipComment (input : List Char) : Option (List Char) :=
  match input with
  | '#' :: rest =>
    let behind := rest.dropWhile isPlain
    if behind.isEmpty || (newline? behind).isSome then some behind else none
  | _ => some input

/-- What is behind blanks, comments and line breaks. -/
def skipGaps : (fuel : Nat) → List Char → Option (List Char)
  | 0, input => some input
  | fuel + 1, input => do
    let rest ← skipComment (skipBlanks input)
    match newline? rest with
    | some rest => skipGaps fuel rest
    | none => return rest

/-- A value that holds no others. -/
def scalar : Scan Toml := fun input =>
  match input with
  | [] => none
  | c :: _ =>
    if c = '"' || c = '\'' then (anyText input).map fun (value, rest) => (.text value, rest)
    else if c = 't' then (expect? "true" input).map fun rest => (.bool true, rest)
    else if c = 'f' then (expect? "false" input).map fun rest => (.bool false, rest)
    else if c.isDigit || c = '+' || c = '-' || c = 'i' || c = 'n' then
      match moment? input with
      | some rest => some (.moment, rest)
      | none =>
        match float? input with
        | some rest => some (.float, rest)
        | none => (wholeNumber input).map fun (n, rest) => (.int n, rest)
    else none

mutual

/-- A value. The fuel is the number of characters. -/
def anyValue : (fuel : Nat) → Scan Toml
  | 0, _ => none
  | fuel + 1, input =>
    match input with
    | '[' :: rest => do
      let rest ← skipGaps rest.length rest
      let (items, rest) ← arrayItems fuel rest
      return (.array items, rest)
    | '\x7b' :: rest => do
      let (pairs, rest) ← match skipBlanks rest with
        | '\x7d' :: rest => pure ([], rest)
        | rest => tablePairs fuel rest
      return (← ofPairs pairs, rest)
    | input => scalar input

/-- The items of an array up to its closing bracket. -/
def arrayItems : (fuel : Nat) → Scan (List Toml)
  | 0, _ => none
  | fuel + 1, input =>
    match input with
    | ']' :: rest => some ([], rest)
    | input => do
      let (item, rest) ← anyValue fuel input
      match ← skipGaps rest.length rest with
      | ',' :: rest =>
        let rest ← skipGaps rest.length rest
        let (others, rest) ← arrayItems fuel rest
        return (item :: others, rest)
      | ']' :: rest => return ([item], rest)
      | _ => none

/-- The keys and values of a table in braces up to the closing one. -/
def tablePairs : (fuel : Nat) → Scan (List (List String × String × Toml))
  | 0, _ => none
  | fuel + 1, input => do
    let ((path, key), rest) ← dottedKey (input.length + 1) input
    let rest ← expect? "=" rest
    let (value, rest) ← anyValue fuel (skipBlanks rest)
    match skipBlanks rest with
    | ',' :: rest =>
      let (others, rest) ← tablePairs fuel rest
      return ((path, key, value) :: others, rest)
    | '\x7d' :: rest => return ([(path, key, value)], rest)
    | _ => none

end

/-- A document so far, and the table that was opened last. -/
structure Draft where
  root : Entries
  header : List String

/-- What is behind the end of a line. -/
def lineEnd (input : List Char) : Option (List Char) := do
  match ← skipComment (skipBlanks input) with
  | [] => return []
  | rest => newline? rest

/-- A header or a key with its value. -/
def entry (draft : Draft) : List Char → Option (Draft × List Char)
  | '[' :: '[' :: rest => do
    let ((path, key), rest) ← dottedKey (rest.length + 1) rest
    let rest ← expect? "]]" rest
    return (⟨← openTables path key draft.root, path ++ [key]⟩, rest)
  | '[' :: rest => do
    let ((path, key), rest) ← dottedKey (rest.length + 1) rest
    let rest ← expect? "]" rest
    return (⟨← openTable path key draft.root, path ++ [key]⟩, rest)
  | input => do
    let ((path, key), rest) ← dottedKey (input.length + 1) input
    let rest ← expect? "=" rest
    let rest := skipBlanks rest
    let (value, rest) ← anyValue (2 * rest.length + 1) rest
    return (⟨← setBelow draft.header path key value draft.root, draft.header⟩, rest)

/-- The lines of a document. -/
def lines (draft : Draft) : (fuel : Nat) → List Char → Option Entries
  | 0, _ => none
  | fuel + 1, input => do
    match ← skipGaps input.length input with
    | [] => return draft.root
    | rest =>
      let (draft, rest) ← entry draft rest
      lines draft fuel (← lineEnd rest)

/-- The document of a text. A byte-order mark in front is left out. -/
def ofText? (text : String) : Option Toml :=
  let input := match text.toList with
    | '\uFEFF' :: rest => rest
    | input => input
  (lines ⟨[], []⟩ (input.length + 1) input).map (.table .header)

end NovelScript.Toml
