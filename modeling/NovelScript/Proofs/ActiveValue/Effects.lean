import NovelScript.Proofs.ActiveValue.Conservation
import NovelScript.Proofs.Play.Memory

/-! # Effects of values

The nodes of a value that was read are evaluated to numbers, and on the way nothing happens to a
state but that random numbers are drawn where the value asks for one. Only a memory operation
writes, and it does so when nothing can go wrong any more: there is one at most, it stands at the
top, and an address that could be read can be written. -/

namespace NovelScript

/-- An operator that draws a random number is among the symbols of the node. -/
def Element.AsksRandom (e : Element) : Prop := ∃ p, Symbol.operator randomOp p ∈ e.symbols

namespace Evaluation

variable {α β : Type}

/-- An outcome with a property, or an evaluation that went wrong. -/
def Gives (R : α → Prop) : Except Fault α → Prop
  | .ok a => R a
  | .error fault => ∃ flaw, fault = .evaluation flaw

/-- An evaluation that keeps its hands off the state, except that it draws random numbers if it
`may`. What it comes to has a property. -/
def Reckons (may : Prop) (R : α → Prop) (e : Evaluation PlayState α) : Prop :=
  ∀ s, ∃ outcome rng, e s = (outcome, { s with rng := rng }) ∧ (rng = s.rng ∨ may) ∧
    Gives R outcome

/-- An evaluation that fails like one that only reckons, or writes a cell of a state that has all of
them. -/
def Writes (may : Prop) (e : Evaluation PlayState ValueResult) : Prop :=
  ∀ s, s.memory.size = memoryCells → ∃ rng, (rng = s.rng ∨ may) ∧
    ((∃ flaw, e s = (.error (.evaluation flaw), { s with rng := rng })) ∨
      ∃ (address value : Int64) (i : Nat) (h : i < s.memory.size), address.toInt = i ∧
        e s = (.ok (.write address value), { s with memory := s.memory.set i value h, rng := rng }))

variable {may : Prop} {R : α → Prop} {Q : β → Prop}

theorem Gives.ite {p : Prop} [Decidable p] {x y : Except Fault α} (hx : Gives R x)
    (hy : Gives R y) : Gives R (if p then x else y) := by
  by_cases h : p
  · rwa [if_pos h]
  · rwa [if_neg h]

theorem Reckons.pure {a : α} (h : R a) : Reckons may R (Pure.pure a) :=
  fun s => ⟨.ok a, s.rng, rfl, .inl rfl, h⟩

theorem Reckons.fail (flaw : EvaluationFlaw) : Reckons may R (Evaluation.fail (.evaluation flaw)) :=
  fun s => ⟨_, s.rng, rfl, .inl rfl, flaw, rfl⟩

theorem Reckons.lift {result : Except Fault α} (h : Gives R result) :
    Reckons may R (Evaluation.lift result) :=
  fun s => ⟨result, s.rng, rfl, .inl rfl, h⟩

theorem Reckons.bind {e : Evaluation PlayState α} {f : α → Evaluation PlayState β}
    (he : Reckons may R e) (hf : ∀ a, R a → Reckons may Q (f a)) : Reckons may Q (e >>= f) := by
  intro s
  obtain ⟨outcome, rng, hrun, hrng, hgives⟩ := he s
  rw [bind_apply, hrun]
  cases outcome with
  | error fault => exact ⟨_, rng, rfl, hrng, hgives⟩
  | ok a =>
    obtain ⟨outcome, rng', hrun', hrng', hgives'⟩ := hf a hgives { s with rng := rng }
    refine ⟨outcome, rng', hrun', ?_, hgives'⟩
    rcases hrng with rfl | hmay
    · exact hrng'
    · exact .inr hmay

theorem Reckons.ite {p : Prop} [Decidable p] {x y : Evaluation PlayState α}
    (hx : p → Reckons may R x) (hy : ¬p → Reckons may R y) :
    Reckons may R (if p then x else y) := by
  by_cases h : p
  · rw [if_pos h]
    exact hx h
  · rw [if_neg h]
    exact hy h

theorem Reckons.mono {more : Prop} {e : Evaluation PlayState α} (he : Reckons may R e)
    (h : may → more) : Reckons more R e := by
  intro s
  obtain ⟨outcome, rng, hrun, hrng, hgives⟩ := he s
  exact ⟨outcome, rng, hrun, hrng.imp_right h, hgives⟩

/-- Going on behind what only reckons, for a write at the end. -/
theorem Reckons.writes {e : Evaluation PlayState α} {f : α → Evaluation PlayState ValueResult}
    (he : Reckons may R e) (hf : ∀ a, R a → Writes may (f a)) : Writes may (e >>= f) := by
  intro s hcells
  obtain ⟨outcome, rng, hrun, hrng, hgives⟩ := he s
  rw [bind_apply, hrun]
  cases outcome with
  | error fault =>
    obtain ⟨flaw, rfl⟩ := hgives
    exact ⟨rng, hrng, .inl ⟨flaw, rfl⟩⟩
  | ok a =>
    obtain ⟨rng', hrng', hend⟩ := hf a hgives { s with rng := rng } hcells
    refine ⟨rng', ?_, hend⟩
    rcases hrng with rfl | hmay
    · exact hrng'
    · exact .inr hmay

theorem reckons_readCell (address : Int64) : Reckons may (fun _ => True) (readCell address) := by
  intro s
  refine ⟨s.readCell address, s.rng, rfl, .inl rfl, ?_⟩
  rw [PlayState.readCell]
  rcases PlayState.cell_cases address with ⟨i, -, -, hcell⟩ | ⟨flaw, hcell⟩
  · rw [hcell]
    trivial
  · rw [hcell]
    exact ⟨flaw, rfl⟩

theorem reckons_draw (hmay : may) (bound : Int64) : Reckons may (fun _ => True) (draw bound) := by
  intro s
  simp only [draw, ValueContext.draw, PlayState.draw]
  by_cases h : bound ≤ 0
  · rw [if_pos h]
    exact ⟨_, s.rng, rfl, .inl rfl, _, rfl⟩
  · rw [if_neg h]
    exact ⟨_, _, rfl, .inr hmay, trivial⟩

theorem writes_writeCell (address value : Int64) :
    Writes may (do
      writeCell address value
      return .write address value) := by
  intro s hcells
  refine ⟨s.rng, .inl rfl, ?_⟩
  rw [bind_apply]
  simp only [writeCell, ValueContext.writeCell]
  rcases (PlayState.guarded_iff s).mpr (Nat.le_of_eq hcells.symm) address value with
    ⟨i, hi, hplace, -, hwrite⟩ | ⟨flaw, -, hwrite⟩
  · rw [hwrite]
    exact .inr ⟨address, value, i, hi, hplace, rfl⟩
  · rw [hwrite]
    exact .inl ⟨flaw, rfl⟩

theorem gives_engineState (index : Int64) : Gives (fun _ => True) (engineState index) :=
  .ite trivial ⟨_, rfl⟩

end Evaluation

open Evaluation

theorem Arithmetic.gives_apply (operation : Arithmetic) (a b : Int64) :
    Gives (fun _ => True) (operation.apply a b) := by
  cases operation with
  | div => exact .ite ⟨_, rfl⟩ trivial
  | mod => exact .ite ⟨_, rfl⟩ (.ite trivial trivial)
  | shl => exact .ite ⟨_, rfl⟩ (.ite trivial trivial)
  | shr => exact .ite ⟨_, rfl⟩ (.ite trivial trivial)
  | _ => trivial

namespace Element

theorem asksRandom_unary {p : UInt8} {x : Element} {op : UInt8} (h : op = randomOp ∨ x.AsksRandom) :
    (unary op p x).AsksRandom := by
  rcases h with rfl | ⟨q, hq⟩
  · exact ⟨p, by rw [symbols]; split <;> simp⟩
  · exact ⟨q, by rw [symbols]; split <;> simp [hq]⟩

theorem asksRandom_binary {op p : UInt8} {x y : Element} (h : x.AsksRandom ∨ y.AsksRandom) :
    (binary op p x y).AsksRandom := by
  rcases h with ⟨q, hq⟩ | ⟨q, hq⟩
  · exact ⟨q, by rw [symbols]; split <;> simp [hq]⟩
  · exact ⟨q, by rw [symbols]; split <;> simp [hq]⟩

/-- A node without a memory operation, itself or below it, is reckoned. -/
theorem reckons_eval {e : Element} (h : ∀ node ∈ e :: e.descendants, node.isMemop = false) :
    Reckons e.AsksRandom (fun _ => True) (e.eval : Evaluation PlayState Int64) := by
  induction e with
  | literal value => exact .pure trivial
  | operator op p => exact .fail _
  | unary op p x ih =>
    have hx := ih fun node hnode => h node (List.mem_cons_of_mem _ hnode)
    refine (hx.mono fun hasks => asksRandom_unary (.inr hasks)).bind fun a _ => ?_
    refine .ite (fun _ => reckons_readCell a) fun _ => ?_
    refine .ite (fun _ => .lift (gives_engineState a)) fun _ => ?_
    exact .ite (fun hop => reckons_draw (asksRandom_unary (.inl hop)) a) fun _ => .fail _
  | binary op p x y ihx ihy =>
    have hx := ihx fun node hnode =>
      h node (List.mem_cons_of_mem _ (List.mem_append_left _ hnode))
    have hy := ihy fun node hnode =>
      h node (List.mem_cons_of_mem _ (List.mem_append_right _ hnode))
    refine (hx.mono fun hasks => asksRandom_binary (.inl hasks)).bind fun a _ => ?_
    refine (hy.mono fun hasks => asksRandom_binary (.inr hasks)).bind fun b _ => ?_
    unfold applyBinary
    split
    · exact .lift (Arithmetic.gives_apply _ a b)
    · exact .fail _
  | memop op p target address value => cases h _ List.mem_cons_self
  | missing => exact .fail _

theorem reckons_updated (op : UInt8) (current : Int64) {value : Element}
    (h : ∀ node ∈ value :: value.descendants, node.isMemop = false) :
    Reckons value.AsksRandom (fun _ => True)
      (updated op current value : Evaluation PlayState Int64) := by
  refine .ite (fun _ => .pure trivial) fun _ => .ite (fun _ => .pure trivial) fun _ => ?_
  refine (reckons_eval h).bind fun operand _ => ?_
  split
  · exact .pure trivial
  · exact .lift (Arithmetic.gives_apply _ current operand)
  · exact .fail _

/-- A memory operation reckons its address and what comes into the cell before it writes. -/
theorem writes_evalTop {op p : UInt8} {target : Option UInt8} {address value : Element}
    (h : ∀ node ∈ (memop op p target address value).descendants, node.isMemop = false) :
    Writes (address.AsksRandom ∨ value.AsksRandom)
      ((memop op p target address value).evalTop : Evaluation PlayState ValueResult) := by
  obtain ⟨haddress, hvalue⟩ := List.forall_mem_append.mp h
  simp only [evalTop]
  split
  · exact fun s _ => ⟨s.rng, .inl rfl, .inl ⟨_, rfl⟩⟩
  · refine ((reckons_eval haddress).mono .inl).writes fun cell _ => ?_
    refine (reckons_readCell cell).writes fun current _ => ?_
    exact ((reckons_updated op current hvalue).mono .inr).writes fun content _ =>
      writes_writeCell cell content

theorem reckons_evalTop {e : Element} (h : ∀ node ∈ e :: e.descendants, node.isMemop = false) :
    Reckons e.AsksRandom (fun result => ∃ number, result = .number number)
      (e.evalTop : Evaluation PlayState ValueResult) := by
  have hnumber := (reckons_eval h).bind (Q := fun result => ∃ number, result = .number number)
    (f := fun a => Pure.pure (ValueResult.number a)) fun a _ => .pure ⟨a, rfl⟩
  cases e with
  | memop op p target address value => cases h _ List.mem_cons_self
  | _ => exact hnumber

end Element

namespace ActiveValue

/-- Nodes without a memory operation come to numbers, one for each. -/
theorem reckons_evalAll {elements : List Element}
    (h : ∀ e ∈ elements, ∀ node ∈ e :: e.descendants, node.isMemop = false) :
    Reckons (∃ e ∈ elements, e.AsksRandom)
      (fun results => ∃ numbers : List Int64,
        results = numbers.map .number ∧ numbers.length = elements.length)
      (evalAll elements : Evaluation PlayState (List ValueResult)) := by
  induction elements with
  | nil => exact .pure ⟨[], rfl, rfl⟩
  | cons e rest ih =>
    obtain ⟨he, hrest⟩ := List.forall_mem_cons.mp h
    have hfirst := (Element.reckons_evalTop he).mono fun hasks =>
      (⟨e, List.mem_cons_self, hasks⟩ : ∃ x ∈ e :: rest, x.AsksRandom)
    have hothers := (ih hrest).mono fun ⟨x, hx, hasks⟩ =>
      (⟨x, List.mem_cons_of_mem e hx, hasks⟩ : ∃ x ∈ e :: rest, x.AsksRandom)
    refine hfirst.bind ?_
    rintro _ ⟨number, rfl⟩
    refine hothers.bind ?_
    rintro _ ⟨numbers, rfl, hlength⟩
    exact .pure ⟨number :: numbers, rfl, congrArg (· + 1) hlength⟩

/-- What the evaluation of a value has done to a state: random numbers are drawn only if the value
asks for them, and one cell is written if the value has a memory operation and nothing failed. -/
structure Evaluated (v : ActiveValue) (s : PlayState)
    (run : Except Fault (List ValueResult) × PlayState) : Prop where
  frame : run.2 = { s with memory := run.2.memory, rng := run.2.rng }
  rng : (∀ p, Symbol.operator randomOp p ∉ v.elements.flatMap Element.symbols) → run.2.rng = s.rng
  failed : ∀ fault, run.1 = .error fault →
    run.2.memory = s.memory ∧ fault ≠ .malformedValue .nestedMemop
  reckoned : ∀ results, run.1 = .ok results → v.memopIndex = none →
    run.2.memory = s.memory ∧ ∃ numbers : List Int64,
      results = numbers.map .number ∧ numbers.length = v.elements.length
  written : ∀ results, run.1 = .ok results → v.memopIndex.isSome →
    ∃ (address value : Int64) (i : Nat) (h : i < s.memory.size), results = [.write address value] ∧
      address.toInt = i ∧ i < memoryCells ∧ run.2.memory = s.memory.set i value h

variable {v : ActiveValue} {s : PlayState}

/-- A refusal leaves everything as it is. -/
theorem Evaluated.refused {fault : Fault} (h : fault ≠ .malformedValue .nestedMemop) :
    Evaluated v s (.error fault, s) where
  frame := rfl
  rng _ := rfl
  failed _ heq := by
    cases heq
    exact ⟨rfl, h⟩
  reckoned _ heq := by cases heq
  written _ heq := by cases heq

theorem rng_eq {rng : Pcg32} (h : rng = s.rng ∨ ∃ e ∈ v.elements, e.AsksRandom)
    (hnever : ∀ p, Symbol.operator randomOp p ∉ v.elements.flatMap Element.symbols) :
    rng = s.rng := by
  refine h.resolve_right ?_
  rintro ⟨e, he, p, hp⟩
  exact hnever p (List.mem_flatMap.mpr ⟨e, he, hp⟩)

/-- Without a memory operation at the top there is none at all. -/
theorem Reduced.not_isMemop (h : v.Reduced) (hnone : v.memopIndex = none) :
    ∀ e ∈ v.elements, ∀ node ∈ e :: e.descendants, node.isMemop = false := by
  intro e he node hnode
  rcases List.mem_cons.mp hnode with rfl | hnode
  · obtain ⟨i, hi⟩ := List.getElem?_of_mem he
    have honly := h.only i node hi
    simpa [hnone] using honly
  · exact h.top e he node hnode

theorem Reduced.evaluated_plain (h : v.Reduced) (hnone : v.memopIndex = none) :
    Evaluated v s (evalAll v.elements s) := by
  obtain ⟨outcome, rng, hrun, hrng, hgives⟩ := reckons_evalAll (h.not_isMemop hnone) s
  rw [hrun]
  refine ⟨rfl, rng_eq hrng, fun fault hfault => ?_, fun results hresults _ => ?_, ?_⟩
  · cases hfault
    obtain ⟨flaw, rfl⟩ := hgives
    exact ⟨rfl, nofun⟩
  · cases hresults
    exact ⟨rfl, hgives⟩
  · intro _ _ hsome
    rw [hnone] at hsome
    cases hsome

/-- The address and the value of a memory operation are nodes of the value, or missing. -/
theorem Reduced.memop_parts {i : Nat} {op p : UInt8} {target : Option UInt8}
    {address value : Element} (h : v.Reduced) (hi : v.memopIndex = some i)
    (hmemop : v.elements[i]? = some (.memop op p target address value)) :
    (address = .missing ∨ address ∈ v.elements) ∧ (value = .missing ∨ value ∈ v.elements) := by
  have hplace : ∀ j : Nat, v.elements[j]?.getD Element.missing = Element.missing ∨
      v.elements[j]?.getD Element.missing ∈ v.elements := by
    intro j
    cases hj : v.elements[j]? with
    | none => exact .inl rfl
    | some e => exact .inr (List.mem_of_getElem? hj)
  obtain ⟨op', p', target', hbound⟩ := h.bound i hi
  obtain ⟨rfl, rfl, rfl, rfl, rfl⟩ := Element.memop.inj (Option.some.inj (hmemop.symm.trans hbound))
  constructor
  · split
    · exact .inl rfl
    · exact hplace 1
  · split
    · exact .inl rfl
    · exact hplace (i + 1)

theorem Reduced.evaluated_memop (h : v.Reduced) {i : Nat} (hi : v.memopIndex = some i)
    (hcells : s.memory.size = memoryCells) : Evaluated v s (evalAll v.elements[i]?.toList s) := by
  obtain ⟨op, p, target, hbound⟩ := h.bound i hi
  generalize (if i < 2 then .missing else v.elements[1]?.getD .missing) = address at hbound
  generalize (if isStepByte op then .missing else v.elements[i + 1]?.getD .missing) = value at hbound
  obtain ⟨haddress, hvalue⟩ := h.memop_parts hi hbound
  -- the memory operation counts as one symbol, but what it has under it stands at the top as well
  have hparts : address.AsksRandom ∨ value.AsksRandom → ∃ e ∈ v.elements, e.AsksRandom := by
    have hmissing : ¬Element.missing.AsksRandom := fun ⟨_, hp⟩ => List.not_mem_nil hp
    rintro (hasks | hasks)
    · rcases haddress with rfl | hmem
      · exact absurd hasks hmissing
      · exact ⟨address, hmem, hasks⟩
    · rcases hvalue with rfl | hmem
      · exact absurd hasks hmissing
      · exact ⟨value, hmem, hasks⟩
  have hunder := h.top _ (List.mem_of_getElem? hbound)
  obtain ⟨rng, hrng, hend⟩ := Element.writes_evalTop hunder s hcells
  have hkept := rng_eq (v := v) (hrng.imp_right hparts)
  rw [hbound, Option.toList_some, evalAll, bind_apply]
  rcases hend with ⟨flaw, hrun⟩ | ⟨cell, content, j, hj, hplace, hrun⟩
  · rw [hrun]
    refine ⟨rfl, hkept, fun fault hfault => ?_, fun _ hresults => ?_, fun _ hresults => ?_⟩
    · cases hfault
      exact ⟨rfl, nofun⟩
    · cases hresults
    · cases hresults
  · rw [hrun]
    refine ⟨rfl, hkept, fun fault hfault => ?_, fun _ _ hnone => ?_, fun _ hresults _ => ?_⟩
    · cases hfault
    · rw [hi] at hnone
      cases hnone
    · cases hresults
      exact ⟨cell, content, j, hj, rfl, hplace, hcells ▸ hj, rfl⟩

/-- Evaluating a value that was read, in a state with all memory cells, touches nothing but memory
and the random numbers to come, and these only if the value asks for one. If it fails, memory stays
as it is; otherwise a value without a memory operation gives a number for each node and writes
nothing, and a memory operation writes the one cell that it reports. -/
theorem evaluated_of_read {c c' : Cursor} (h : read.runOn c = (.ok v, c'))
    (hcells : s.memory.size = memoryCells) (expected : Option Nat) :
    Evaluated v s (v.evaluate expected s) := by
  have hreduced := reduced_of_read h
  have hall : Evaluated v s (evalAll v.values s) := by
    unfold values
    cases hi : v.memopIndex with
    | none => exact hreduced.evaluated_plain hi
    | some i => exact hreduced.evaluated_memop hi hcells
  cases expected with
  | none => exact hall
  | some asked =>
    simp only [evaluate]
    split
    · exact hall
    · exact .refused nofun

/-- Adding two to cell five of a memory of zeros. -/
theorem evaluated_of_read_add :
    let c := Cursor.ofView (View.ofBytes [0x28, 0, 0x85, 7, 0x17, 0, 0x82, 7, 0])
    let v : ActiveValue := ⟨[.operator 0x28 0, .literal 5,
      .memop 0x17 0 (some 0x28) (.literal 5) (.literal 2), .literal 2], some 2⟩
    let s := PlayState.new "OP00" 1
    read.runOn c = (.ok v, { c with pos := 9 }) ∧ s.memory.size = memoryCells ∧
      (v.evaluate (some 1) s).1 = .ok [.write 5 2] ∧ Evaluated v s (v.evaluate (some 1) s) := by
  intro c v s
  have hread : read.runOn c = (.ok v, { c with pos := 9 }) := by decide +kernel
  have hcells : s.memory.size = memoryCells := Array.size_replicate
  have hrun : (v.evaluate (some 1) s).1 = .ok [.write 5 2] := by decide +kernel
  exact ⟨hread, hcells, hrun, evaluated_of_read hread hcells (some 1)⟩

end ActiveValue

end NovelScript
