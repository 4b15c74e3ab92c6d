import NovelScript.Bytes.Hex

/-! # Opcode paths

The opcode bytes that select a definition: one byte for a direct opcode, two for one that stands
in a sub-table. -/

namespace NovelScript

/-- One or two opcode bytes. -/
structure OpcodePath where
  group : Option UInt8
  op : UInt8
deriving DecidableEq, Repr

namespace OpcodePath

/-- The path of a one-byte opcode. -/
def direct (op : UInt8) : OpcodePath := ⟨none, op⟩

/-- The path of a two-byte opcode. -/
def nested (group op : UInt8) : OpcodePath := ⟨some group, op⟩

/-- The opcode bytes, in the order in which a script holds them. -/
def bytes (path : OpcodePath) : Bytes :=
  path.group.toList ++ [path.op]

/-- The opcode bytes in base sixteen, joined by a dash. -/
def text (path : OpcodePath) : String :=
  "-".intercalate (path.bytes.map hexByte)

/-- Direct opcodes come first; then paths are ordered by their bytes. -/
def rank (path : OpcodePath) : Nat :=
  match path.group with
  | none => path.op.toNat
  | some group => 256 * (group.toNat + 1) + path.op.toNat

end OpcodePath

end NovelScript
