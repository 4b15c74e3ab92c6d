import NovelScript.Bytes.Cursor
import NovelScript.Opcode.Shape

/-! # Opcode tables

A table maps the first byte of an opcode to a definition or to a sub-table for the second byte.
The entries of a table are kept in ascending order of their bytes, one for each byte. -/

namespace NovelScript

/-- What a table holds for a byte. -/
inductive OpcodeEntry (α : Type) where
  | leaf (definition : OpcodeDef α)
  | sub (entries : List (UInt8 × OpcodeEntry α))

/-- An opcode table. -/
structure OpcodeTable (α : Type) where
  entries : List (UInt8 × OpcodeEntry α)

variable {α : Type}

namespace OpcodeTable

/-- The table without entries. -/
def empty : OpcodeTable α := ⟨[]⟩

/-- Puts an entry into an ordered list, in place of one with the same byte. -/
def insertInto (op : UInt8) (entry : OpcodeEntry α) :
    List (UInt8 × OpcodeEntry α) → List (UInt8 × OpcodeEntry α)
  | [] => [(op, entry)]
  | (other, e) :: rest =>
    if op < other then (op, entry) :: (other, e) :: rest
    else if op = other then (op, entry) :: rest
    else (other, e) :: insertInto op entry rest

/-- The table with `entry` for `op`. -/
def insert (t : OpcodeTable α) (op : UInt8) (entry : OpcodeEntry α) : OpcodeTable α :=
  ⟨insertInto op entry t.entries⟩

/-- The entry for a byte. -/
def entry? (t : OpcodeTable α) (op : UInt8) : Option (OpcodeEntry α) :=
  t.entries.lookup op

/-- The table with each definition as the entry for its byte; of two for one byte the later one
stays. -/
def define (t : OpcodeTable α) (defs : List (OpcodeDef α)) : OpcodeTable α :=
  defs.foldl (fun t d => t.insert d.op (.leaf d)) t

/-- The table of a list of definitions. -/
def ofDefs (defs : List (OpcodeDef α)) : OpcodeTable α := empty.define defs

/-- The table with `sub` as the sub-table under `group`. -/
def insertSub (t : OpcodeTable α) (group : UInt8) (sub : OpcodeTable α) : OpcodeTable α :=
  t.insert group (.sub sub.entries)

/-- The sub-table under `group`. -/
def sub? (t : OpcodeTable α) (group : UInt8) : Option (OpcodeTable α) :=
  match t.entry? group with
  | some (.sub entries) => some ⟨entries⟩
  | _ => none

/-- The table with the definitions put into the sub-table under `group`, which is new if there
was none. -/
def defineSub (t : OpcodeTable α) (group : UInt8) (defs : List (OpcodeDef α)) : OpcodeTable α :=
  t.insertSub group (((t.sub? group).getD empty).define defs)

/-- The part of a table for the listed bytes. -/
def select (t : OpcodeTable α) (ops : List UInt8) : OpcodeTable α :=
  ops.foldl (fun chosen op =>
    match t.entry? op with
    | some entry => chosen.insert op entry
    | none => chosen) empty

def size (t : OpcodeTable α) : Nat := t.entries.length

def isEmpty (t : OpcodeTable α) : Bool := t.entries.isEmpty

end OpcodeTable

mutual

/-- The definitions under one byte, with the bytes that select them. -/
def OpcodeEntry.definitions (op : UInt8) :
    OpcodeEntry α → List (OpcodePath × OpcodeDef α)
  | .leaf d => [(.direct op, d)]
  | .sub entries => (OpcodeTable.definitionsOf entries).map fun (inner, d) =>
      (.nested op inner.op, d)

/-- The definitions of a list of entries. -/
def OpcodeTable.definitionsOf :
    List (UInt8 × OpcodeEntry α) → List (OpcodePath × OpcodeDef α)
  | [] => []
  | (op, e) :: rest => e.definitions op ++ OpcodeTable.definitionsOf rest

end

mutual

/-- An entry in words. -/
def OpcodeEntry.describe : OpcodeEntry α → String
  | .leaf d => "Leaf(" ++ d.name ++ ")"
  | .sub entries =>
    "Sub(\x7b" ++ ", ".intercalate (OpcodeTable.describeEntries entries) ++ "\x7d)"

/-- Each entry of a list in words. -/
def OpcodeTable.describeEntries : List (UInt8 × OpcodeEntry α) → List String
  | [] => []
  | (op, e) :: rest =>
    (toString op ++ ": " ++ e.describe) :: OpcodeTable.describeEntries rest

end

namespace OpcodeTable

/-- Every definition of a table, with the bytes that select it. -/
def definitions (t : OpcodeTable α) : List (OpcodePath × OpcodeDef α) :=
  definitionsOf t.entries

/-- A table in words. -/
def describe (t : OpcodeTable α) : String :=
  "\x7b" ++ ", ".intercalate (describeEntries t.entries) ++ "\x7d"

/-- Reads the bytes of an opcode and finds its definition. -/
def lookup (t : OpcodeTable α) : Reader (OpcodePath × OpcodeDef α) := do
  let offset ← Reader.pos
  let first ← Reader.u8
  match t.entry? first with
  | some (.leaf d) => return (.direct first, d)
  | some (.sub entries) =>
    let second ← Reader.u8
    match entries.lookup second with
    | some (.leaf d) => return (.nested first second, d)
    | _ => Reader.fail (.unknownOpcode (.nested first second) offset)
  | none => Reader.fail (.unknownOpcode (.direct first) offset)

end OpcodeTable

end NovelScript
