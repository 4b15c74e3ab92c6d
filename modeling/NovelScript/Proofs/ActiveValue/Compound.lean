import NovelScript.Proofs.ActiveValue.Effects

/-! # Compound assignments

A memory operation with an operator of its own reads its cell, operates and writes: it does what a
plain assignment does to the same cell, of the operation on the content of the cell and the value.
The plain assignment evaluates the address twice, so the address must not draw a random number. -/

namespace NovelScript

namespace Arithmetic

/-- The symbol of an operation. -/
def symbol : Arithmetic → String
  | .mul => "*"
  | .div => "/"
  | .add => "+"
  | .sub => "-"
  | .mod => "%"
  | .shl => "<<"
  | .shr => ">>"
  | .and => "&"
  | .xor => "^"
  | .or => "|"
  | .eq => "=="
  | .ne => "!="
  | .le => "<="
  | .ge => ">="
  | .lt => "<"
  | .gt => ">"

/-- The operation that is written with a symbol. -/
def ofSymbol? (symbol : String) : Option Arithmetic :=
  [mul, div, add, sub, mod, shl, shr, and, xor, or, eq, ne, le, ge, lt, gt].find?
    fun operation => operation.symbol == symbol

theorem ofSymbol?_symbol (operation : Arithmetic) : ofSymbol? operation.symbol = some operation := by
  cases operation <;> decide

theorem symbol_inj {a b : Arithmetic} (h : a.symbol = b.symbol) : a = b := by
  have hsame := ofSymbol?_symbol a
  rw [h, ofSymbol?_symbol] at hsame
  exact (Option.some.inj hsame).symm

theorem symbol_ne_unknown (operation : Arithmetic) (op : UInt8) :
    unknownSymbol op ≠ operation.symbol := by
  intro h
  have hhead := congrArg (·.toList.head?) h
  cases operation <;> simp [unknownSymbol, symbol] at hhead

/-- The symbol under which an operator is shown is that of the operation by which it is evaluated. -/
theorem lookup_binarySymbols (op : UInt8) : binarySymbols.lookup op = (ofByte? op).map symbol := by
  have hall : ∀ byte : Fin 256, binarySymbols.lookup (UInt8.ofFin byte) =
      (ofByte? (UInt8.ofFin byte)).map symbol := by
    decide +kernel
  exact hall op.toFin

end Arithmetic

namespace Element

/-- The memory operation `code` is shown as the operator `op` with an equals sign. -/
def ShownAs (code op : UInt8) : Prop :=
  ∀ value, assignmentText code value = binarySymbol op ++ "= " ++ value

/-- The content of the cell at an address. -/
def cellAt (p : UInt8) (address : Element) : Element := .unary memorySelector p address

/-- A memory operation on the cell at an address. -/
def assign (code p : UInt8) (address value : Element) : Element :=
  .memop code p (some memorySelector) address value

end Element

namespace Assignment

/-- Ten memory operations have an operation of their own, each one that is an operator as well. -/
theorem exists_compound {code : UInt8} (hlow : 0x15 ≤ code) (hhigh : code ≤ 0x1e) :
    ∃ operation op, ofByte? code = some (.compound operation) ∧
      Arithmetic.ofByte? op = some operation := by
  have hcases : code = 0x15 ∨ code = 0x16 ∨ code = 0x17 ∨ code = 0x18 ∨ code = 0x19 ∨
      code = 0x1a ∨ code = 0x1b ∨ code = 0x1c ∨ code = 0x1d ∨ code = 0x1e := by
    grind
  rcases hcases with rfl | rfl | rfl | rfl | rfl | rfl | rfl | rfl | rfl | rfl
  · exact ⟨.mul, 0x01, rfl, rfl⟩
  · exact ⟨.div, 0x02, rfl, rfl⟩
  · exact ⟨.add, 0x03, rfl, rfl⟩
  · exact ⟨.sub, 0x04, rfl, rfl⟩
  · exact ⟨.mod, 0x05, rfl, rfl⟩
  · exact ⟨.shl, 0x06, rfl, rfl⟩
  · exact ⟨.shr, 0x07, rfl, rfl⟩
  · exact ⟨.and, 0x08, rfl, rfl⟩
  · exact ⟨.or, 0x0a, rfl, rfl⟩
  · exact ⟨.xor, 0x09, rfl, rfl⟩

variable {code op : UInt8} {operation : Arithmetic}

theorem ne_step_of_compound (h : ofByte? code = some (.compound operation)) :
    code ≠ 0x20 ∧ code ≠ 0x21 := by
  constructor
  · rintro rfl
    cases h
  · rintro rfl
    cases h

/-- The symbol of an assignment: that of its operation, if it has one, and an equals sign. -/
def symbol : Assignment → String
  | .set => "="
  | .compound operation => operation.symbol ++ "="

/-- The symbol under which a memory operation is shown is that of the assignment by which it is
evaluated. -/
theorem lookup_assignmentSymbols (code : UInt8) :
    assignmentSymbols.lookup code = (ofByte? code).map symbol := by
  have hall : ∀ byte : Fin 256, assignmentSymbols.lookup (UInt8.ofFin byte) =
      (ofByte? (UInt8.ofFin byte)).map symbol := by
    decide +kernel
  exact hall code.toFin

/-- The symbols of memory operations and operators fit together as their operations do. -/
theorem shownAs_iff (h : ofByte? code = some (.compound operation)) :
    Element.ShownAs code op ↔ Arithmetic.ofByte? op = some operation := by
  obtain ⟨hinc, hdec⟩ := ne_step_of_compound h
  have htext (value : String) :
      Element.assignmentText code value = operation.symbol ++ "= " ++ value := by
    have hequals : operation.symbol ++ "=" ++ " " = operation.symbol ++ "= " := String.append_assoc
    simp only [Element.assignmentText, if_neg hinc, if_neg hdec, lookup_assignmentSymbols, h,
      Option.map_some, symbol, hequals]
  rw [Element.ShownAs]
  simp only [htext, Element.binarySymbol, Arithmetic.lookup_binarySymbols]
  constructor
  · intro hshown
    have hempty := congrArg String.toList (hshown "")
    simp only [String.toList_append] at hempty
    have hsymbol := String.toList_injective
      (List.append_cancel_right (List.append_cancel_right hempty))
    cases hop : Arithmetic.ofByte? op with
    | none =>
      rw [hop] at hsymbol
      exact absurd hsymbol.symm (operation.symbol_ne_unknown op)
    | some other =>
      rw [hop] at hsymbol
      rw [Arithmetic.symbol_inj hsymbol]
  · intro hop value
    rw [hop]
    rfl

end Assignment

namespace Evaluation

variable {σ α β : Type}

/-- An evaluation that leaves the state as it is, whatever it comes to. -/
def Leaves (e : Evaluation σ α) : Prop := ∀ s, (e s).2 = s

theorem Leaves.lift (result : Except Fault α) : Leaves (Evaluation.lift result : Evaluation σ α) :=
  fun _ => rfl

theorem Leaves.fail (fault : Fault) : Leaves (Evaluation.fail fault : Evaluation σ α) :=
  fun _ => rfl

theorem Leaves.bind {e : Evaluation σ α} {f : α → Evaluation σ β} (h : Leaves e)
    (hrest : ∀ a, Leaves (f a)) : Leaves (e >>= f) := by
  intro s
  have hs := h s
  rw [bind_apply]
  rcases hrun : e s with ⟨outcome, s₁⟩
  rw [hrun] at hs
  cases outcome with
  | error fault => exact hs
  | ok a => exact (hrest a s₁).trans hs

end Evaluation

open Evaluation

namespace Element

variable {σ : Type} [ValueContext σ] {a : Element}

/-- Evaluating a node changes a state by drawing random numbers only. -/
theorem leaves_eval (h : ¬a.AsksRandom) : Leaves (a.eval : Evaluation σ Int64) := by
  induction a with
  | literal value => exact .lift (.ok value.toInt64)
  | operator op p => exact .fail _
  | unary op p x ih =>
    have hx : ¬x.AsksRandom := fun hasks => h (asksRandom_unary (.inr hasks))
    have hop : op ≠ randomOp := fun hop => h (asksRandom_unary (.inl hop))
    refine (ih hx).bind fun cell => ?_
    simp only [applyUnary, if_neg hop]
    split
    · exact fun _ => rfl
    · split
      · exact .lift _
      · exact .fail _
  | binary op p x y ihx ihy =>
    have hx : ¬x.AsksRandom := fun hasks => h (asksRandom_binary (.inl hasks))
    have hy : ¬y.AsksRandom := fun hasks => h (asksRandom_binary (.inr hasks))
    refine (ihx hx).bind fun b => (ihy hy).bind fun c => ?_
    unfold applyBinary
    split
    · exact .lift _
    · exact .fail _
  | memop op p target address value => exact .fail _
  | missing => exact .fail _

/-- Two memory operations on a cell do the same if what they put into it is the same. -/
theorem evalTop_assign_congr {code code' : UInt8} {value value' : Element} (p p' : UInt8) (s : σ)
    (ha : ¬a.AsksRandom)
    (h : ∀ cell current, a.eval s = (.ok cell, s) → ValueContext.readCell s cell = .ok current →
      updated code current value s = updated code' current value' s) :
    (assign code p a value).evalTop s = (assign code' p' a value').evalTop s := by
  have hleaves := leaves_eval ha s
  simp only [assign, evalTop, ne_eq, not_true_eq_false, if_false, bind_apply]
  rcases hcell : a.eval s with ⟨outcome, s₁⟩
  obtain rfl : s₁ = s := by rwa [hcell] at hleaves
  cases outcome with
  | error fault => rfl
  | ok cell =>
    cases hcurrent : ValueContext.readCell s₁ cell with
    | error fault => simp only [readCell, hcurrent]
    | ok current => simp only [readCell, hcurrent, h cell current hcell hcurrent]

/-- What a compound assignment puts into its cell. -/
theorem updated_compound {code : UInt8} {operation : Arithmetic}
    (hcode : Assignment.ofByte? code = some (.compound operation)) (current : Int64)
    (value : Element) : (updated code current value : Evaluation σ Int64) = (do
      let operand ← value.eval
      lift (operation.apply current operand)) := by
  obtain ⟨hinc, hdec⟩ := Assignment.ne_step_of_compound hcode
  simp only [updated, if_neg hinc, if_neg hdec, hcode]

/-- What a plain assignment puts into its cell. -/
theorem updated_set (current : Int64) (value : Element) :
    (updated 0x14 current value : Evaluation σ Int64) = value.eval :=
  bind_pure value.eval

/-- An operator on the content of a cell and a value. -/
theorem eval_binary_cellAt {op : UInt8} {operation : Arithmetic} {s : σ} {cell current : Int64}
    (hop : Arithmetic.ofByte? op = some operation) (hcell : a.eval s = (.ok cell, s))
    (hcurrent : ValueContext.readCell s cell = .ok current) (q r : UInt8) (value : Element) :
    (binary op q (cellAt r a) value).eval s = (do
      let operand ← value.eval
      lift (operation.apply current operand) : Evaluation σ Int64) s := by
  have hread : (cellAt r a).eval s = (.ok current, s) := by
    rw [cellAt, eval, bind_apply, hcell]
    simp only [applyUnary, if_true, readCell, hcurrent]
  rw [eval, bind_apply, hread]
  simp only [applyBinary, hop]

/-- Two nodes do the same to every state, and so do values whose memory operations they are. -/
def SameEffect (e e' : Element) : Prop :=
  ∀ s : PlayState, e.evalTop s = e'.evalTop s ∧
    ∀ v v' : ActiveValue, v.memop? = some e → v'.memop? = some e' →
      v.evaluate none s = v'.evaluate none s

theorem SameEffect.of_evalTop {e e' : Element} (h : ∀ s : PlayState, e.evalTop s = e'.evalTop s) :
    SameEffect e e' := by
  intro s
  refine ⟨h s, fun v v' hv hv' => ?_⟩
  have hvalues {w : ActiveValue} {node : Element} (hw : w.memop? = some node) :
      w.values = [node] := by
    obtain ⟨i, hi, hnode⟩ := Option.bind_eq_some_iff.mp hw
    simp only [ActiveValue.values, hi, hnode, Option.toList_some]
  simp only [ActiveValue.evaluate, hvalues hv, hvalues hv', ActiveValue.evalAll, bind_apply, h s]

/-- A memory operation with an operator in its symbol does what the plain assignment of that
operator does, of the content of the cell and the value. The increment and the decrement do what the
plain assignment of the content plus and minus one does. The address draws no random number. -/
theorem assign_reads_operates_writes (ha : ¬a.AsksRandom) (value : Element) (p p' q r : UInt8) :
    (∀ code, 0x15 ≤ code → code ≤ 0x1e → (∃ op, ShownAs code op) ∧ ∀ op, ShownAs code op →
      SameEffect (assign code p a value) (assign 0x14 p' a (.binary op q (cellAt r a) value))) ∧
    SameEffect (assign 0x20 p a value)
      (assign 0x14 p' a (.binary 0x03 q (cellAt r a) (.literal 1))) ∧
    SameEffect (assign 0x21 p a value)
      (assign 0x14 p' a (.binary 0x04 q (cellAt r a) (.literal 1))) := by
  refine ⟨fun code hlow hhigh => ?_, .of_evalTop fun s => ?_, .of_evalTop fun s => ?_⟩
  · obtain ⟨operation, op, hcode, hop⟩ := Assignment.exists_compound hlow hhigh
    refine ⟨⟨op, (Assignment.shownAs_iff hcode).mpr hop⟩, fun op hshown => ?_⟩
    refine .of_evalTop fun s => evalTop_assign_congr p p' s ha fun cell current hcell hcurrent => ?_
    rw [updated_compound hcode, updated_set,
      eval_binary_cellAt ((Assignment.shownAs_iff hcode).mp hshown) hcell hcurrent]
  · have hadd : Arithmetic.ofByte? 0x03 = some .add := rfl
    refine evalTop_assign_congr p p' s ha fun cell current hcell hcurrent => ?_
    rw [updated_set, eval_binary_cellAt hadd hcell hcurrent]
    rfl
  · have hsub : Arithmetic.ofByte? 0x04 = some .sub := rfl
    refine evalTop_assign_congr p p' s ha fun cell current hcell hcurrent => ?_
    rw [updated_set, eval_binary_cellAt hsub hcell hcurrent]
    rfl

/-- An exclusive or of the cell that another cell points to, with a random number. -/
theorem assign_reads_operates_writes_xor :
    let a : Element := .unary memorySelector 9 (.literal 3)
    let value : Element := .unary randomOp 9 (.literal 10)
    ¬a.AsksRandom ∧ ShownAs 0x1e 0x09 ∧
      SameEffect (assign 0x1e 0 a value) (assign 0x14 0 a (.binary 0x09 5 (cellAt 7 a) value)) := by
  intro a value
  have ha : ¬a.AsksRandom := by
    rintro ⟨p, hp⟩
    simp [a, symbols, memorySelector, randomOp, arity] at hp
  have hcode : Assignment.ofByte? 0x1e = some (.compound .xor) := rfl
  have hshown : ShownAs 0x1e 0x09 := (Assignment.shownAs_iff hcode).mpr rfl
  have hassign := (assign_reads_operates_writes ha value 0 0 5 7).1 0x1e (by decide) (by decide)
  exact ⟨ha, hshown, hassign.2 0x09 hshown⟩

end Element

end NovelScript
