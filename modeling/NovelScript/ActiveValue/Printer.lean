import NovelScript.ActiveValue.Basic

/-! # Written values

The symbols of operator bytes, and active values as text: as formulas for a reader, and as the full
structure for messages. -/

namespace NovelScript

/-- The symbols that operator bytes have between their operands. -/
def binarySymbols : List (UInt8 × String) :=
  [(0x01, "*"), (0x02, "/"), (0x03, "+"), (0x04, "-"), (0x05, "%"), (0x06, "<<"), (0x07, ">>"),
   (0x08, "&"), (0x09, "^"), (0x0a, "|"), (0x0c, "=="), (0x0d, "!="), (0x0e, "<="), (0x0f, ">="),
   (0x10, "<"), (0x11, ">")]

/-- The symbols that memory operations have between their cell and their value. -/
def assignmentSymbols : List (UInt8 × String) :=
  [(0x14, "="), (0x15, "*="), (0x16, "/="), (0x17, "+="), (0x18, "-="), (0x19, "%="),
   (0x1a, "<<="), (0x1b, ">>="), (0x1c, "&="), (0x1d, "|="), (0x1e, "^=")]

/-- The operator that draws a random number below its operand. -/
def randomOp : UInt8 := 0x33

/-- The text of an operator byte that has no symbol. -/
def unknownSymbol (op : UInt8) : String := "~" ++ toString op ++ "~"

namespace Element

/-- An operator of one operand. -/
def unaryText (op : UInt8) (operand : String) : String :=
  if op = memorySelector then "mem[" ++ operand ++ "]"
  else if op = engineStateSelector then "e17gstate[" ++ operand ++ "]"
  else if op = randomOp then "<random(" ++ operand ++ ")>"
  else unknownSymbol op

/-- An operator between its operands. -/
def binarySymbol (op : UInt8) : String := (binarySymbols.lookup op).getD (unknownSymbol op)

/-- What a memory operation does with its cell. -/
def assignmentText (op : UInt8) (value : String) : String :=
  if op = 0x20 then "+= 1"
  else if op = 0x21 then "-= 1"
  else
    match assignmentSymbols.lookup op with
    | some symbol => symbol ++ " " ++ value
    | none => unknownSymbol op

/-- The cell of a memory operation. -/
def cellText (target : Option UInt8) (address : String) : String :=
  match target with
  | none => "(?)" ++ address
  | some selector =>
    if selector = memorySelector then "mem[" ++ address ++ "]"
    else if selector = engineStateSelector then "e17gstate[" ++ address ++ "]"
    else "(" ++ toString selector ++ ")" ++ address

/-- A node as a formula. -/
def text : Element → String
  | .literal value => toString value
  | .operator op precedence =>
    if arity op = ⟨0, 0⟩ then unknownSymbol op
    else "<op " ++ hexByteMarked op ++ " p" ++ toString precedence ++ ">"
  | .unary op _ x => unaryText op x.text
  | .binary op _ x y => "(" ++ x.text ++ " " ++ binarySymbol op ++ " " ++ y.text ++ ")"
  | .memop op _ target address value =>
    "(" ++ cellText target address.text ++ " " ++ assignmentText op value.text ++ ")"
  | .missing => "MissingData"

/-- An operator with all its parts; `operands` is the text of its operand list. -/
def operatorStructure (op precedence : UInt8) (operands : String) : String :=
  "Operator(Operator \x7b op_type: " ++ toString op ++ ", precedence: " ++ toString precedence ++
    ", operands: " ++ operands ++ " \x7d)"

/-- A node with all its parts. -/
def structureText : Element → String
  | .literal value => "Literal(" ++ toString value ++ ")"
  | .operator op p => operatorStructure op p "None"
  | .unary op p x => operatorStructure op p ("Some([" ++ x.structureText ++ "])")
  | .binary op p x y =>
    operatorStructure op p ("Some([" ++ x.structureText ++ ", " ++ y.structureText ++ "])")
  | .memop op p target address value =>
    "Memop(Memop \x7b op_type: " ++ toString op ++ ", precedence: " ++ toString p ++
      ", target: " ++ optionText target ++ ", address: " ++ address.structureText ++
      ", value: " ++
      (if isStepByte op then "None" else "Some(" ++ value.structureText ++ ")") ++ " \x7d)"
  | .missing => "Missing"

end Element

namespace ActiveValue

/-- Nodes as formulas. -/
def listText (elements : List Element) : String :=
  "[" ++ ", ".intercalate (elements.map Element.text) ++ "]"

/-- A value as formulas: its nodes, and before them the memory operation if it has one. -/
def text (v : ActiveValue) : String :=
  match v.memopIndex with
  | none => listText v.elements
  | some _ => "<" ++ listText v.values ++ " / " ++ listText v.elements ++ ">"

/-- A value with all its parts. -/
def structureText (v : ActiveValue) : String :=
  "ActiveValue \x7b elements: [" ++ ", ".intercalate (v.elements.map Element.structureText) ++
    "], memop: " ++ optionText v.memopIndex ++ " \x7d"

end ActiveValue

end NovelScript
