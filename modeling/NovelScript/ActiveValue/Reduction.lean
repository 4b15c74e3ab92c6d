import NovelScript.ActiveValue.Decoder
import NovelScript.Bytes.Cursor

/-! # Reduction

Operators take their operands level by level, from the highest precedence down to one; operators
of precedence zero take none. Within a level they are served from left to right. A stretch of a
value is reduced on its own: an operator finds no operands in front of the stretch, but may take
operands from behind it. -/

namespace NovelScript

namespace ActiveValue

/-- A stretch in the middle of a pass. `done` is what lies behind the pass, last node first;
`ahead` is what lies in front of it, to the end of the value; of both together only the first
`span` nodes belong to the stretch. -/
structure Pass where
  done : List Element
  ahead : List Element
  span : Nat
deriving DecidableEq, Repr

/-- An operator with the operands found for it. -/
def attach (op precedence : UInt8) : List Element → Element
  | [x] => .unary op precedence x
  | x :: y :: _ => .binary op precedence x y
  | [] => .operator op precedence

/-- Whether a stretch has `count` nodes in front of an operator to give. -/
def suppliesBefore (count : Nat) (done : List Element) : Bool := count ≤ done.length

/-- The operands from in front of an operator; they are missing if there are too few. -/
def operandsBefore (count : Nat) (done : List Element) : List Element :=
  if suppliesBefore count done then (done.take count).reverse else List.replicate count .missing

/-- How many nodes an operator takes from in front of it. -/
def takenBefore (count : Nat) (done : List Element) : Nat :=
  if suppliesBefore count done then count else 0

/-- The operands from behind an operator, filled up with missing ones. -/
def operandsAfter (count : Nat) (ahead : List Element) : List Element :=
  ahead.take count ++ List.replicate (count - ahead.length) .missing

/-- Serves every operator of one precedence level among the nodes ahead in the stretch. -/
def servePass (level : UInt8) (done : List Element) (span : Nat) :
    List Element → Except Fault Pass
  | [] => .ok ⟨done, [], span⟩
  | e :: ahead =>
    if span ≤ done.length then .ok ⟨done, e :: ahead, span⟩
    else if e.precedence? = some level then
      match e.operatorByte? with
      | none => .error (.malformedValue (.memopInOperands level))
      | some op =>
        let before := (arity op).before
        let after := (arity op).after
        if before = 0 ∧ after = 0 then servePass level (e :: done) span ahead
        else
          let taken := takenBefore before done
          let operands := operandsBefore before done ++ operandsAfter after ahead
          servePass level (attach op level operands :: done.drop taken) (span - taken - after)
            (ahead.drop after)
    else servePass level (e :: done) span ahead
termination_by ahead => ahead.length

/-- The precedence levels that take operands, highest first. -/
def levels : List UInt8 :=
  (List.range 255).reverse.map fun n => UInt8.ofNat (n + 1)

/-- Serves one level from the start of a stretch. Gives the nodes and the stretch's new span. -/
def serveLevel (stretch : List Element × Nat) (level : UInt8) :
    Except Fault (List Element × Nat) := do
  let pass ← servePass level [] stretch.2 stretch.1
  return (pass.done.reverse ++ pass.ahead, pass.span)

/-- Reduces the first `span` nodes of `elements`. -/
def reduceStretch (elements : List Element) (span : Nat) : Except Fault (List Element) :=
  (levels.foldlM serveLevel (elements, span)).map (·.1)

/-- Gives the memory operation at `index` its target, address and value. -/
def bindMemop (elements : List Element) (index : Nat) : List Element :=
  match elements[index]? with
  | some (.memop op precedence ..) =>
    let target := if index < 2 then none else elements[0]?.bind (·.operatorByte?)
    let address := if index < 2 then .missing else elements[1]?.getD .missing
    let value := if isStepByte op then .missing else elements[index + 1]?.getD .missing
    elements.set index (.memop op precedence target address value)
  | _ => elements

/-- Reduces a sequence of nodes to an active value. -/
def reduce (elements : List Element) : Except Fault ActiveValue :=
  let memops := elements.countP (·.isMemop)
  if 1 < memops then .error (.malformedValue (.manyMemops memops))
  else
    match elements.findIdx? (·.isMemop) with
    | none => do
      let reduced ← reduceStretch elements elements.length
      return ⟨reduced, none⟩
    | some first => do
      let behind := elements.drop (first + 1)
      let behind ← reduceStretch behind behind.length
      let elements := elements.take (first + 1) ++ behind
      let tail ← reduceStretch (elements.drop 1) (first - 1)
      let elements := elements.take 1 ++ tail
      match elements.findIdx? (·.isMemop) with
      | none => .error (.malformedValue .memopConsumed)
      | some index =>
        if elements.length = index + 1 ∨ elements.length = index + 2 then
          return ⟨bindMemop elements index, some index⟩
        else .error (.malformedValue (.leftovers elements.length index))

/-- Reads one active value. -/
def read : Reader ActiveValue := fun c =>
  match Symbol.decode c.limit c.rest with
  | .error fault => (.error fault, c)
  | .ok (symbols, rest) =>
    (reduce (symbols.map Element.ofSymbol), { c with pos := c.limit - rest.length })

end ActiveValue

end NovelScript
