import NovelScript.ActiveValue.Printer

/-! # Evaluation

The meaning of active values over 64-bit words that wrap around. Evaluation reads memory, draws
random numbers and writes at most one memory cell through a context. -/

namespace NovelScript

/-- What evaluation may ask of the state around it. -/
class ValueContext (σ : Type) where
  readCell : σ → Int64 → Except Fault Int64
  writeCell : σ → Int64 → Int64 → Except Fault σ
  /-- A number between zero and a bound, the bound excluded. -/
  draw : σ → Int64 → Except Fault (Int64 × σ)

/-- The context of a value that must not depend on any state. -/
structure NoState where
deriving DecidableEq, Repr

instance : ValueContext NoState where
  readCell _ address := .error (.evaluation (.constantRead address))
  writeCell _ address _ := .error (.evaluation (.constantWrite address))
  draw _ _ := .error (.evaluation .constantRandom)

/-- A computation on a context that may fail and keeps what it did to the context before. -/
abbrev Evaluation (σ : Type) := ExceptT Fault (StateM σ)

/-- The state of the engine that values can ask for: entry seven says whether a movie still
plays, which none ever does. -/
def engineState (index : Int64) : Except Fault Int64 :=
  if index = 7 then .ok 0 else .error (.evaluation (.engineState index))

/-- The operations on two numbers. -/
inductive Arithmetic where
  | mul | div | add | sub | mod | shl | shr | and | xor | or
  | eq | ne | le | ge | lt | gt
deriving DecidableEq, Repr

namespace Arithmetic

/-- The operation that an operator byte stands for. -/
def ofByte? (op : UInt8) : Option Arithmetic :=
  if op = 0x01 then some .mul
  else if op = 0x02 then some .div
  else if op = 0x03 then some .add
  else if op = 0x04 then some .sub
  else if op = 0x05 then some .mod
  else if op = 0x06 then some .shl
  else if op = 0x07 then some .shr
  else if op = 0x08 then some .and
  else if op = 0x09 then some .xor
  else if op = 0x0a then some .or
  else if op = 0x0c then some .eq
  else if op = 0x0d then some .ne
  else if op = 0x0e then some .le
  else if op = 0x0f then some .ge
  else if op = 0x10 then some .lt
  else if op = 0x11 then some .gt
  else none

/-- Division, truncated toward zero. -/
def divide (a b : Int64) : Except Fault Int64 :=
  if b = 0 then .error (.evaluation (.divisionByZero a)) else .ok (a / b)

/-- The remainder that has the sign of the divisor. -/
def modulo (a b : Int64) : Except Fault Int64 :=
  if b = 0 then .error (.evaluation (.moduloByZero a))
  else
    let r := a % b
    if r ≠ 0 ∧ (decide (r < 0)) ≠ (decide (b < 0)) then .ok (r + b) else .ok r

/-- A shift to the left; a shift by the word size or more leaves nothing. -/
def shiftLeft (a b : Int64) : Except Fault Int64 :=
  if b < 0 then .error (.evaluation (.negativeShift b))
  else if 64 ≤ b then .ok 0
  else .ok (a <<< b)

/-- A shift to the right that keeps the sign. -/
def shiftRight (a b : Int64) : Except Fault Int64 :=
  if b < 0 then .error (.evaluation (.negativeShift b))
  else if 64 ≤ b then .ok (if a < 0 then -1 else 0)
  else .ok (a >>> b)

/-- One for true and zero for false. -/
def flag (condition : Bool) : Int64 := if condition then 1 else 0

/-- The result of a binary operation. -/
def apply : Arithmetic → Int64 → Int64 → Except Fault Int64
  | .mul, a, b => .ok (a * b)
  | .div, a, b => divide a b
  | .add, a, b => .ok (a + b)
  | .sub, a, b => .ok (a - b)
  | .mod, a, b => modulo a b
  | .shl, a, b => shiftLeft a b
  | .shr, a, b => shiftRight a b
  | .and, a, b => .ok (a &&& b)
  | .xor, a, b => .ok (a ^^^ b)
  | .or, a, b => .ok (a ||| b)
  | .eq, a, b => .ok (flag (a == b))
  | .ne, a, b => .ok (flag (a != b))
  | .le, a, b => .ok (flag (a ≤ b))
  | .ge, a, b => .ok (flag (b ≤ a))
  | .lt, a, b => .ok (flag (a < b))
  | .gt, a, b => .ok (flag (b < a))

end Arithmetic

/-- The ways in which a memory operation uses its value. -/
inductive Assignment where
  | set
  | compound (operation : Arithmetic)
deriving DecidableEq, Repr

namespace Assignment

/-- The assignment of a memory operation byte. -/
def ofByte? (op : UInt8) : Option Assignment :=
  if op = 0x14 then some .set
  else if op = 0x15 then some (.compound .mul)
  else if op = 0x16 then some (.compound .div)
  else if op = 0x17 then some (.compound .add)
  else if op = 0x18 then some (.compound .sub)
  else if op = 0x19 then some (.compound .mod)
  else if op = 0x1a then some (.compound .shl)
  else if op = 0x1b then some (.compound .shr)
  else if op = 0x1c then some (.compound .and)
  else if op = 0x1d then some (.compound .or)
  else if op = 0x1e then some (.compound .xor)
  else none

end Assignment

namespace Evaluation

variable {σ : Type}

/-- Fails and leaves the context alone. -/
def fail {α : Type} (fault : Fault) : Evaluation σ α :=
  fun s => (.error fault, s)

/-- A result that does not depend on the context. -/
def lift {α : Type} (result : Except Fault α) : Evaluation σ α :=
  fun s => (result, s)

variable [ValueContext σ]

def readCell (address : Int64) : Evaluation σ Int64 :=
  fun s => (ValueContext.readCell s address, s)

def writeCell (address value : Int64) : Evaluation σ Unit := fun s =>
  match ValueContext.writeCell s address value with
  | .ok s' => (.ok (), s')
  | .error fault => (.error fault, s)

def draw (bound : Int64) : Evaluation σ Int64 := fun s =>
  match ValueContext.draw s bound with
  | .ok (value, s') => (.ok value, s')
  | .error fault => (.error fault, s)

end Evaluation

/-- The outcome of one node of a value. -/
inductive ValueResult where
  | number (value : Int64)
  | write (address value : Int64)
deriving DecidableEq, Repr

/-- The number of a result that has one. -/
def ValueResult.toNumber : ValueResult → Except Fault Int64
  | .number value => .ok value
  | .write address _ => .error (.malformedValue (.gotWrite address))

namespace Element

open Evaluation

variable {σ : Type} [ValueContext σ]

/-- The operators of one operand: a memory cell, an entry of the engine state, a random number. -/
def applyUnary (op : UInt8) (x : Int64) : Evaluation σ Int64 :=
  if op = memorySelector then readCell x
  else if op = engineStateSelector then lift (engineState x)
  else if op = randomOp then draw x
  else fail (.evaluation (.operator op))

/-- The operators of two operands. -/
def applyBinary (op : UInt8) (x y : Int64) : Evaluation σ Int64 :=
  match Arithmetic.ofByte? op with
  | some operation => lift (operation.apply x y)
  | none => fail (.evaluation (.operator op))

/-- The number that a node stands for. -/
def eval : Element → Evaluation σ Int64
  | .literal value => pure value.toInt64
  | .operator op _ => fail (.evaluation (.noOperands op))
  | .unary op _ x => do
    let a ← x.eval
    applyUnary op a
  | .binary op _ x y => do
    let a ← x.eval
    let b ← y.eval
    applyBinary op a b
  | .memop .. => fail (.malformedValue .nestedMemop)
  | .missing => fail (.evaluation .missingOperand)

/-- The new content of a cell that holds `current`. -/
def updated (op : UInt8) (current : Int64) (value : Element) : Evaluation σ Int64 :=
  if op = 0x20 then pure (current + 1)
  else if op = 0x21 then pure (current - 1)
  else do
    let operand ← value.eval
    match Assignment.ofByte? op with
    | some .set => pure operand
    | some (.compound operation) => lift (operation.apply current operand)
    | none => fail (.evaluation (.memop op))

/-- The outcome of a node that stands at the top of a value. -/
def evalTop : Element → Evaluation σ ValueResult
  | .memop op _ target address value => do
    if target ≠ some memorySelector then fail (.evaluation (.target target))
    else
      let cell ← address.eval
      let current ← readCell cell
      let content ← updated op current value
      writeCell cell content
      return .write cell content
  | e => return .number (← e.eval)

end Element

namespace ActiveValue

variable {σ : Type} [ValueContext σ]

/-- The outcomes of nodes, one after the other. -/
def evalAll : List Element → Evaluation σ (List ValueResult)
  | [] => pure []
  | e :: rest => do
    let first ← e.evalTop
    let others ← evalAll rest
    return first :: others

/-- The outcomes of all nodes that evaluation visits; `expected` is how many there have to be. -/
def evaluate (v : ActiveValue) (expected : Option Nat) : Evaluation σ (List ValueResult) :=
  match expected with
  | some asked =>
    if asked = v.values.length then evalAll v.values
    else Evaluation.fail (.malformedValue (.wrongCount v.text asked v.values.length))
  | none => evalAll v.values

/-- The number of a value that is one number. -/
def evaluateOne (v : ActiveValue) : Evaluation σ Int64 := do
  match ← v.evaluate (some 1) with
  | [result] => Evaluation.lift result.toNumber
  | results => Evaluation.fail (.malformedValue (.wrongCount v.text 1 results.length))

/-- The numbers of a value that depends on no state. -/
def constantValues (v : ActiveValue) : Except Fault (List Int64) := do
  let results ← (v.evaluate none : Evaluation NoState _) ⟨⟩ |>.1
  results.mapM ValueResult.toNumber

end ActiveValue

end NovelScript
