import NovelScript.Decimal.Shortest

/-! # Documents

Structured data that is written as JSON or as YAML. -/

namespace NovelScript

/-- A document. Fields keep their order. -/
inductive Document where
  | null
  | int (value : Int)
  /-- A finite number of double precision, by its bits. -/
  | float (bits : UInt64)
  | text (value : String)
  | list (items : List Document)
  | object (fields : List (String × Document))
  /-- An alternative that carries data, by its name. -/
  | tagged (name : String) (value : Document)

namespace Document

def ofOption {α : Type} (f : α → Document) : Option α → Document
  | none => .null
  | some a => f a

end Document

end NovelScript
