/-! # TOML values

The values of a TOML document, and the rules by which headers and dotted keys build up its tables. A
table can be opened by one header only, and what a key has set cannot be set again. -/

namespace NovelScript

/-- What has brought a table into being. -/
inductive TableOrigin where
  | header
  /-- A header of a table below it. -/
  | implied
  /-- A dotted key. -/
  | dotted
  /-- Braces. -/
  | braces
deriving DecidableEq, Repr

/-- A value. -/
inductive Toml where
  | text (value : String)
  | int (value : Int)
  /-- A number with a fraction or an exponent; its value is not kept. -/
  | float
  | bool (value : Bool)
  /-- A date or a time; which one is not kept. -/
  | moment
  | array (items : List Toml)
  | table (origin : TableOrigin) (entries : List (String × Toml))
  /-- The tables that double-bracket headers have opened, the last one first. -/
  | tables (items : List (List (String × Toml)))

namespace Toml

/-- Whole numbers are words of 64 bits with a sign. -/
def isWord (n : Int) : Bool := Int64.minValue.toInt ≤ n && n ≤ Int64.maxValue.toInt

/-- The entries of a table. -/
abbrev Entries := List (String × Toml)

/-- A list of entries with the one of a key changed, or added at the end. -/
def setEntry (key : String) (value : Toml) : Entries → Entries
  | [] => [(key, value)]
  | (other, v) :: rest =>
    if other = key then (key, value) :: rest else (other, v) :: setEntry key value rest

/-- Changes the entries that a path of keys leads to. Tables on the way that are not there yet are
made. A dotted key does not lead through a table that a header has opened. -/
def modifyAt (dotted : Bool) (change : Entries → Option Entries) :
    (path : List String) → Entries → Option Entries
  | [], entries => change entries
  | key :: path, entries => do
    let value ← match entries.lookup key with
      | none =>
        let inner ← modifyAt dotted change path []
        pure (.table (if dotted then .dotted else .implied) inner)
      | some (.table .braces _) => none
      | some (.table .header inner) =>
        if dotted then none
        else (modifyAt dotted change path inner).map (.table .header)
      | some (.table origin inner) => (modifyAt dotted change path inner).map (.table origin)
      | some (.tables (last :: others)) =>
        (modifyAt dotted change path last).map fun last => .tables (last :: others)
      | some _ => none
    return setEntry key value entries

/-- Whether a dotted path leads to a table that dotted keys have made. The path that leads nowhere
does so too. -/
def leadsToDotted : (path : List String) → Entries → Bool
  | [], _ => false
  | [key], entries =>
    match entries.lookup key with
    | none | some (.table .dotted _) => true
    | _ => false
  | key :: path, entries =>
    match entries.lookup key with
    | none => true
    | some (.table _ inner) => leadsToDotted path inner
    | some (.tables (last :: _)) => leadsToDotted path last
    | _ => false

/-- Adds an entry for a new key. -/
def addNew (key : String) (value : Toml) (entries : Entries) : Option Entries :=
  if (entries.lookup key).isSome then none else some (entries ++ [(key, value)])

/-- Sets the value of a dotted key. -/
def setDotted (path : List String) (key : String) (value : Toml) (entries : Entries) :
    Option Entries :=
  if path.isEmpty || leadsToDotted path entries then
    modifyAt true (addNew key value) path entries
  else none

/-- Opens the table of a header. -/
def openTable (path : List String) (key : String) (root : Entries) : Option Entries :=
  modifyAt false (fun entries =>
    match entries.lookup key with
    | none => some (entries ++ [(key, .table .header [])])
    | some (.table .implied inner) => some (setEntry key (.table .header inner) entries)
    | some _ => none) path root

/-- Opens one more table of a double-bracket header. -/
def openTables (path : List String) (key : String) (root : Entries) : Option Entries :=
  modifyAt false (fun entries =>
    match entries.lookup key with
    | none => some (entries ++ [(key, .tables [[]])])
    | some (.tables items) => some (setEntry key (.tables ([] :: items)) entries)
    | some _ => none) path root

/-- Sets the value of a dotted key below the table that was opened last. -/
def setBelow (header path : List String) (key : String) (value : Toml) (root : Entries) :
    Option Entries :=
  modifyAt false (setDotted path key value) header root

/-- The table in braces of dotted keys and values. -/
def ofPairs (pairs : List (List String × String × Toml)) : Option Toml :=
  (pairs.foldlM (fun entries (path, key, value) => setDotted path key value entries) []).map
    (.table .braces)

end Toml

end NovelScript
