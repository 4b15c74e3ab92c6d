import NovelScript.Fault

/-! # Active values

Active values are the small expressions that stand as operands in a script. An encoded value is a
flat sequence of symbols. Reduction gives each operator its operands by descending precedence and
binds at most one memory operation to its address and its value. -/

namespace NovelScript

/-- One item of an encoded value. -/
inductive Symbol where
  | literal (value : Int32)
  | operator (op precedence : UInt8)
  | memop (op precedence : UInt8)
deriving DecidableEq, Repr

/-- A node of a reduced value. -/
inductive Element where
  | literal (value : Int32)
  /-- An operator that has no operands, or none yet. -/
  | operator (op precedence : UInt8)
  | unary (op precedence : UInt8) (operand : Element)
  | binary (op precedence : UInt8) (first second : Element)
  /-- A write to memory. The value of an increment or decrement is `missing`. -/
  | memop (op precedence : UInt8) (target : Option UInt8) (address value : Element)
  /-- An operand that the encoded value does not supply. -/
  | missing
deriving DecidableEq, Repr

/-- How many operands an operator takes from in front of it and from behind it. -/
structure Arity where
  before : Nat
  after : Nat
deriving DecidableEq, Repr

/-- The arity of an operator byte. -/
def arity (op : UInt8) : Arity :=
  if op = 11 then ⟨0, 1⟩
  else if 1 ≤ op ∧ op ≤ 17 then ⟨1, 1⟩
  else if op = 40 ∨ op = 41 ∨ op = 43 ∨ op = 45 ∨ op = 51 then ⟨0, 1⟩
  else if op = 42 ∨ op = 44 ∨ op = 46 then ⟨0, 2⟩
  else ⟨0, 0⟩

/-- Operator bytes that write memory. -/
def isMemopByte (op : UInt8) : Bool := 20 ≤ op && op ≤ 33

/-- Operator bytes that stand for no operation. -/
def isPlaceholderByte (op : UInt8) : Bool := 0x2f ≤ op && op ≤ 0x32

/-- The operator that a placeholder byte is read as. -/
def placeholderOp : UInt8 := 255

/-- The increment and the decrement, which have no value of their own. -/
def isStepByte (op : UInt8) : Bool := op == 0x20 || op == 0x21

/-- The address-space selector of main memory. -/
def memorySelector : UInt8 := 0x28

namespace Element

/-- The node of a symbol before reduction. -/
def ofSymbol : Symbol → Element
  | .literal value => .literal value
  | .operator op precedence => .operator op precedence
  | .memop op precedence => .memop op precedence none .missing .missing

/-- The precedence of an operator or a memory operation. -/
def precedence? : Element → Option UInt8
  | .operator _ p | .unary _ p _ | .binary _ p _ _ | .memop _ p _ _ _ => some p
  | .literal _ | .missing => none

/-- The operator byte, with or without operands. -/
def operatorByte? : Element → Option UInt8
  | .operator op _ | .unary op _ _ | .binary op _ _ _ => some op
  | .literal _ | .memop .. | .missing => none

def isMemop : Element → Bool
  | .memop .. => true
  | _ => false

/-- The operands of an operator that has some. -/
def operands? : Element → Option (List Element)
  | .unary _ _ x => some [x]
  | .binary _ _ x y => some [x, y]
  | _ => none

/-- The symbols of a node in the order in which they were encoded: first the operands from in
front, then the operator, then the operands from behind. A memory operation counts as one symbol,
and a missing operand as none. -/
def symbols : Element → List Symbol
  | .literal value => [.literal value]
  | .operator op p => [.operator op p]
  | .unary op p x =>
    if (arity op).before = 0 then .operator op p :: x.symbols else x.symbols ++ [.operator op p]
  | .binary op p x y =>
    if (arity op).before = 0 then .operator op p :: (x.symbols ++ y.symbols)
    else x.symbols ++ .operator op p :: y.symbols
  | .memop op p _ _ _ => [.memop op p]
  | .missing => []

end Element

/-- A reduced active value: its nodes, and the place of the memory operation among them. -/
structure ActiveValue where
  elements : List Element
  memopIndex : Option Nat
deriving DecidableEq, Repr

namespace ActiveValue

/-- A value of literals only. -/
def ofLiterals (values : List Int32) : ActiveValue :=
  ⟨values.map .literal, none⟩

def isEmpty (v : ActiveValue) : Bool := v.elements.isEmpty

/-- The nodes that evaluation visits: the memory operation alone, if there is one. -/
def values (v : ActiveValue) : List Element :=
  match v.memopIndex with
  | some index => v.elements[index]?.toList
  | none => v.elements

/-- The memory operation. -/
def memop? (v : ActiveValue) : Option Element :=
  v.memopIndex.bind (v.elements[·]?)

end ActiveValue

end NovelScript
