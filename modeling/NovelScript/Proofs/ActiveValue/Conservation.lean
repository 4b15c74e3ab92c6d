import NovelScript.Proofs.ActiveValue.Passes
import NovelScript.Proofs.ActiveValue.Sources

/-! # Conservation

Reduction moves symbols under operators and leaves them in order: read from left to right, the nodes
of a value are the symbols that were decoded. An operator has no operands or as many as its arity
says, and a memory operation stands nowhere but at the top. -/

namespace NovelScript

def Symbol.isMemop : Symbol → Bool
  | .memop .. => true
  | _ => false

namespace Element

/-- The nodes under a node. -/
def descendants : Element → List Element
  | .unary _ _ x => x :: x.descendants
  | .binary _ _ x y => x :: x.descendants ++ y :: y.descendants
  | .memop _ _ _ address value => address :: address.descendants ++ value :: value.descendants
  | .literal _ | .operator .. | .missing => []

/-- A node that, where it is an operator with operands, has as many as its arity says. -/
def Fits (e : Element) : Prop :=
  ∀ op operands, e.operatorByte? = some op → e.operands? = some operands →
    operands.length = (arity op).before + (arity op).after

/-- The symbols of an operator with operands: those of the operands from in front, the operator, and
those of the operands from behind. -/
theorem symbols_eq {e : Element} {op p : UInt8} {operands : List Element}
    (hop : e.operatorByte? = some op) (hp : e.precedence? = some p)
    (hoperands : e.operands? = some operands) (hfits : e.Fits) :
    e.symbols = (operands.take (arity op).before).flatMap symbols ++
      .operator op p :: (operands.drop (arity op).before).flatMap symbols := by
  have hlength := hfits op operands hop hoperands
  cases e <;> cases hop <;> cases hp <;> cases hoperands <;>
    rcases arity_cases op with harity | harity | harity | harity <;>
    simp_all [symbols]

/-- A memory operation at a node or under its operators is among the symbols. -/
theorem exists_isMemop {e node : Element} (hnode : node ∈ e :: e.descendants)
    (hmemop : node.isMemop = true) : ∃ s ∈ e.symbols, s.isMemop = true := by
  induction e with
  | literal value => simp_all [descendants, isMemop]
  | operator op p => simp_all [descendants, isMemop]
  | unary op p x ih =>
    rcases List.mem_cons.mp hnode with rfl | hnode
    · cases hmemop
    · obtain ⟨s, hs, hsmemop⟩ := ih hnode
      refine ⟨s, ?_, hsmemop⟩
      rw [symbols]
      split <;> simp [hs]
  | binary op p x y ihx ihy =>
    rcases List.mem_cons.mp hnode with rfl | hnode
    · cases hmemop
    · obtain ⟨s, hs, hsmemop⟩ : ∃ s ∈ x.symbols ++ y.symbols, s.isMemop = true := by
        rcases List.mem_append.mp hnode with hnode | hnode
        · obtain ⟨s, hs, hsmemop⟩ := ihx hnode
          exact ⟨s, List.mem_append_left _ hs, hsmemop⟩
        · obtain ⟨s, hs, hsmemop⟩ := ihy hnode
          exact ⟨s, List.mem_append_right _ hs, hsmemop⟩
      refine ⟨s, ?_, hsmemop⟩
      rw [symbols]
      split
      · exact List.mem_cons_of_mem _ hs
      · rcases List.mem_append.mp hs with hs | hs
        · exact List.mem_append_left _ hs
        · exact List.mem_append_right _ (List.mem_cons_of_mem _ hs)
  | memop op p target address value => exact ⟨_, List.mem_singleton_self _, rfl⟩
  | missing => simp_all [descendants, isMemop]

end Element

namespace ActiveValue

open Element

/-! ## Serving an operator -/

variable {op p : UInt8} {operands : List Element}

theorem operands?_attach (hsome : 1 ≤ operands.length) (hmost : operands.length ≤ 2) :
    (attach op p operands).operands? = some operands := by
  match operands with
  | [_] | [_, _] => rfl

theorem descendants_attach (hmost : operands.length ≤ 2) :
    (attach op p operands).descendants = operands.flatMap fun x => x :: x.descendants := by
  match operands with
  | [] => rfl
  | [x] => simp [attach, descendants]
  | [x, y] => simp [attach, descendants]

theorem length_operands (harity : arity op ≠ ⟨0, 0⟩)
    (hlength : operands.length = (arity op).before + (arity op).after) :
    1 ≤ operands.length ∧ operands.length ≤ 2 := by
  rcases arity_cases op with h | h | h | h <;> simp_all

theorem length_servedOperands (op : UInt8) (done ahead : List Element) :
    (operandsBefore (arity op).before done ++ operandsAfter (arity op).after ahead).length =
      (arity op).before + (arity op).after := by
  rw [List.length_append, length_operandsBefore, length_operandsAfter]

theorem operands?_served (level : UInt8) (done ahead : List Element) (harity : arity op ≠ ⟨0, 0⟩) :
    (servedNode op level done ahead).operands? =
      some (operandsBefore (arity op).before done ++ operandsAfter (arity op).after ahead) := by
  obtain ⟨hsome, hmost⟩ := length_operands harity (length_servedOperands op done ahead)
  exact operands?_attach hsome hmost

theorem descendants_served (level : UInt8) (done ahead : List Element)
    (harity : arity op ≠ ⟨0, 0⟩) :
    (servedNode op level done ahead).descendants =
      (operandsBefore (arity op).before done ++ operandsAfter (arity op).after ahead).flatMap
        fun x => x :: x.descendants := by
  obtain ⟨-, hmost⟩ := length_operands harity (length_servedOperands op done ahead)
  exact descendants_attach hmost

theorem fits_served (level : UInt8) (done ahead : List Element) (harity : arity op ≠ ⟨0, 0⟩) :
    (servedNode op level done ahead).Fits := by
  intro op' operands hop hoperands
  rw [operatorByte?_served] at hop
  rw [operands?_served level done ahead harity] at hoperands
  cases hop
  cases hoperands
  exact length_servedOperands op done ahead

theorem symbols_operandsBefore (count : Nat) (done : List Element) :
    (operandsBefore count done).flatMap symbols =
      (done.take (takenBefore count done)).reverse.flatMap symbols := by
  unfold operandsBefore takenBefore
  split
  · rfl
  · simp [symbols]

theorem symbols_operandsAfter (count : Nat) (ahead : List Element) :
    (operandsAfter count ahead).flatMap symbols = (ahead.take count).flatMap symbols := by
  simp [operandsAfter, symbols]

theorem mem_operandsBefore {count : Nat} {done : List Element} {x : Element}
    (h : x ∈ operandsBefore count done) : x ∈ done ∨ x = .missing := by
  unfold operandsBefore at h
  split at h
  · exact .inl (List.mem_of_mem_take (List.mem_reverse.mp h))
  · exact .inr (List.eq_of_mem_replicate h)

theorem mem_operandsAfter {count : Nat} {ahead : List Element} {x : Element}
    (h : x ∈ operandsAfter count ahead) : x ∈ ahead ∨ x = .missing := by
  rcases List.mem_append.mp h with h | h
  · exact .inl (List.mem_of_mem_take h)
  · exact .inr (List.eq_of_mem_replicate h)

theorem nodes_served (op level : UInt8) (done ahead : List Element) (span : Nat) :
    (Pass.served op level done ahead span).nodes =
      (done.drop (takenBefore (arity op).before done)).reverse ++
        servedNode op level done ahead :: ahead.drop (arity op).after := by
  simp [Pass.nodes, Pass.served]

/-- Nodes with the operands of their arity throughout. -/
def Fitting (nodes : List Element) : Prop :=
  ∀ e ∈ nodes, ∀ node ∈ e :: e.descendants, node.Fits

/-- Nodes that have come from others without a loss: read in order they are the same, and if all of
the others fit they do. -/
structure Conserves (elements nodes : List Element) : Prop where
  symbols : nodes.flatMap symbols = elements.flatMap symbols
  fits : Fitting elements → Fitting nodes

theorem Conserves.refl (elements : List Element) : Conserves elements elements := ⟨rfl, id⟩

theorem Conserves.trans {elements nodes others : List Element} (h : Conserves elements nodes)
    (hothers : Conserves nodes others) : Conserves elements others :=
  ⟨hothers.symbols.trans h.symbols, fun helements => hothers.fits (h.fits helements)⟩

theorem Conserves.append {front front' back back' : List Element} (hfront : Conserves front front')
    (hback : Conserves back back') : Conserves (front ++ back) (front' ++ back') where
  symbols := by rw [List.flatMap_append, List.flatMap_append, hfront.symbols, hback.symbols]
  fits := by
    intro h
    obtain ⟨hfits, hfits'⟩ := List.forall_mem_append.mp h
    exact List.forall_mem_append.mpr ⟨hfront.fits hfits, hback.fits hfits'⟩

theorem fits_of_bare {e : Element} (h : e.operands? = none) : e.Fits := by
  intro op operands _ hoperands
  rw [h] at hoperands
  cases hoperands

/-- An operator that is served has the symbols of its operands around its own. -/
theorem symbols_served (level : UInt8) (done ahead : List Element) (harity : arity op ≠ ⟨0, 0⟩) :
    (servedNode op level done ahead).symbols =
      (done.take (takenBefore (arity op).before done)).reverse.flatMap symbols ++
        .operator op level :: (ahead.take (arity op).after).flatMap symbols := by
  have hbefore := length_operandsBefore (arity op).before done
  rw [symbols_eq (operatorByte?_served ..) (precedence?_served ..)
    (operands?_served level done ahead harity) (fits_served level done ahead harity),
    List.take_left' hbefore, List.drop_left' hbefore, symbols_operandsBefore,
    symbols_operandsAfter]

/-- Serving an operator moves its operands under it. -/
theorem served_conserves (level : UInt8) (done ahead : List Element) (span : Nat)
    (harity : arity op ≠ ⟨0, 0⟩) :
    Conserves (Pass.nodes ⟨done, .operator op level :: ahead, span⟩)
      (Pass.served op level done ahead span).nodes where
  symbols := by
    have hdone : done.reverse = (done.drop (takenBefore (arity op).before done)).reverse ++
        (done.take (takenBefore (arity op).before done)).reverse := by
      rw [← List.reverse_append, List.take_append_drop]
    have hahead : ahead.flatMap symbols = (ahead.take (arity op).after).flatMap symbols ++
        (ahead.drop (arity op).after).flatMap symbols := by
      rw [← List.flatMap_append, List.take_append_drop]
    rw [nodes_served, Pass.nodes, hdone]
    simp only [List.flatMap_append, List.flatMap_cons, symbols_served level done ahead harity,
      hahead, Element.symbols, List.append_assoc, List.cons_append, List.nil_append]
  fits := by
    intro h
    have hold : Fitting (done ++ ahead) := by
      intro e he
      refine h e ?_
      rcases List.mem_append.mp he with he | he
      · exact List.mem_append_left _ (List.mem_reverse.mpr he)
      · exact List.mem_append_right _ (List.mem_cons_of_mem _ he)
    intro e he node hnode
    rw [nodes_served, List.mem_append, List.mem_cons, List.mem_reverse] at he
    rcases he with he | rfl | he
    · exact hold e (List.mem_append_left _ (List.mem_of_mem_drop he)) node hnode
    · rcases List.mem_cons.mp hnode with rfl | hnode
      · exact fits_served level done ahead harity
      · rw [descendants_served level done ahead harity] at hnode
        obtain ⟨x, hx, hnode⟩ := List.mem_flatMap.mp hnode
        have hplace : x ∈ done ++ ahead ∨ x = .missing := by
          rcases List.mem_append.mp hx with hx | hx
          · exact (mem_operandsBefore hx).imp_left (List.mem_append_left _)
          · exact (mem_operandsAfter hx).imp_left (List.mem_append_right _)
        rcases hplace with hx | rfl
        · exact hold x hx node hnode
        · obtain rfl := List.mem_singleton.mp hnode
          exact fits_of_bare rfl
    · exact hold e (List.mem_append_right _ (List.mem_of_mem_drop he)) node hnode

/-- Reducing a stretch conserves the nodes of the value. -/
theorem reduceStretch_conserves {elements reduced : List Element} {span : Nat}
    (h : reduceStretch elements span = .ok reduced)
    (hbare : ∀ e ∈ elements.take span, e.operands? = none) : Conserves elements reduced := by
  obtain ⟨pass, rfl, -, hkept⟩ := reduceStretch_induct
    (K := fun _ pass => Conserves elements pass.nodes)
    (fun _ _ _ _ _ hspan _ _ hkept => by simpa [Pass.nodes] using hkept)
    (fun _ _ _ _ _ _ harity hkept => hkept.trans (served_conserves _ _ _ _ harity))
    (fun _ hkept => by simpa [Pass.nodes, Pass.start] using hkept) h hbare
    (by simpa [Pass.nodes, Pass.start] using Conserves.refl elements)
  exact hkept

/-! ## Whole values -/

/-- The memory operation at `index` is bound: its address is a copy of the second node, and its
value, unless it is a step, a copy of the node behind it. -/
def BoundAt (elements : List Element) (index : Nat) : Prop :=
  ∃ op p target, elements[index]? = some (.memop op p target
    (if index < 2 then .missing else elements[1]?.getD .missing)
    (if isStepByte op then .missing else elements[index + 1]?.getD .missing))

/-- What reduction gives: operators with the operands of their arity, and no memory operation but
the one at the top that is bound. -/
structure Reduced (v : ActiveValue) : Prop where
  fits : ∀ e ∈ v.elements, ∀ node ∈ e :: e.descendants, node.Fits
  top : ∀ e ∈ v.elements, ∀ node ∈ e.descendants, node.isMemop = false
  only : ∀ i e, v.elements[i]? = some e → (e.isMemop = true ↔ v.memopIndex = some i)
  bound : ∀ i, v.memopIndex = some i → BoundAt v.elements i

theorem operands?_ofSymbol (s : Symbol) : (ofSymbol s).operands? = none := by
  cases s <;> rfl

theorem isMemop_ofSymbol (s : Symbol) : (ofSymbol s).isMemop = s.isMemop := by
  cases s <;> rfl

theorem flatMap_symbols_ofSymbol (symbols : List Symbol) :
    (symbols.map ofSymbol).flatMap Element.symbols = symbols := by
  have hsingle : ∀ s : Symbol, (ofSymbol s).symbols = [s] := by
    intro s
    cases s <;> rfl
  simp [List.flatMap_map, hsingle]

theorem fitting_ofSymbol (symbols : List Symbol) : Fitting (symbols.map ofSymbol) := by
  intro e he node hnode
  obtain ⟨s, -, rfl⟩ := List.mem_map.mp he
  rcases List.mem_cons.mp hnode with rfl | hnode
  · exact fits_of_bare (operands?_ofSymbol s)
  · have hmissing : node = .missing := by
      cases s <;> simp_all [ofSymbol, descendants]
    exact fits_of_bare (hmissing ▸ rfl)

theorem countP_ofSymbol (symbols : List Symbol) :
    (symbols.map ofSymbol).countP (·.isMemop) = symbols.countP (·.isMemop) := by
  rw [List.countP_map]
  exact List.countP_congr fun s _ => by simp [isMemop_ofSymbol]

/-- A node in order with others has a memory operation, itself or below it, only if one is among the
symbols. -/
theorem countP_pos_of_isMemop {nodes : List Element} {e node : Element} (he : e ∈ nodes)
    (hnode : node ∈ e :: e.descendants) (hmemop : node.isMemop = true) :
    0 < (nodes.flatMap Element.symbols).countP (·.isMemop) := by
  obtain ⟨s, hs, hsmemop⟩ := exists_isMemop hnode hmemop
  exact List.countP_pos_iff.mpr ⟨s, List.mem_flatMap.mpr ⟨e, he, hs⟩, hsmemop⟩

/-- A memory operation at the top is the only one if there is one among the symbols. -/
theorem not_isMemop_of_count {before after : List Element} {memop : Element}
    (hmemop : memop.isMemop = true)
    (honce : ((before ++ memop :: after).flatMap Element.symbols).countP (·.isMemop) ≤ 1) :
    ∀ e ∈ before ++ after, ∀ node ∈ e :: e.descendants, node.isMemop = false := by
  have hone : memop.symbols.countP (·.isMemop) = 1 := by
    cases memop <;> cases hmemop
    rfl
  intro e he node hnode
  by_contra hnested
  have hpositive := countP_pos_of_isMemop he hnode (by simpa using hnested)
  simp only [List.flatMap_append, List.flatMap_cons, List.countP_append, hone] at honce hpositive
  omega

/-- The node that a memory operation behind `before` has its address from. -/
def addressFrom (before : List Element) : Element :=
  if before.length < 2 then .missing else before[1]?.getD .missing

/-- The node that a memory operation in front of `after` has its value from. -/
def valueFrom (op : UInt8) (after : List Element) : Element :=
  if isStepByte op then .missing else after[0]?.getD .missing

theorem addressFrom_cases (before : List Element) :
    addressFrom before = .missing ∨ addressFrom before ∈ before := by
  unfold addressFrom
  split
  · exact .inl rfl
  · rename_i hlength
    have hsecond : 1 < before.length := by omega
    rw [List.getElem?_eq_getElem hsecond]
    exact .inr (List.getElem_mem hsecond)

theorem valueFrom_cases (op : UInt8) (after : List Element) :
    valueFrom op after = .missing ∨ valueFrom op after ∈ after := by
  unfold valueFrom
  split
  · exact .inl rfl
  · cases after with
    | nil => exact .inl rfl
    | cons value after => exact .inr List.mem_cons_self

theorem second_eq_addressFrom (before after : List Element) (memop : Element) :
    (if before.length < 2 then .missing else (before ++ memop :: after)[1]?.getD .missing) =
      addressFrom before := by
  unfold addressFrom
  split
  · rfl
  · rw [List.getElem?_append_left (by omega)]

theorem getElem?_behind (before after : List Element) (memop : Element) :
    (before ++ memop :: after)[before.length + 1]? = after[0]? := by
  rw [List.getElem?_append_right (Nat.le_add_right _ _), Nat.add_sub_cancel_left,
    List.getElem?_cons_succ]

theorem bindMemop_append (before after : List Element) (op p : UInt8) (target : Option UInt8)
    (address value : Element) :
    ∃ target', bindMemop (before ++ .memop op p target address value :: after) before.length =
      before ++ .memop op p target' (addressFrom before) (valueFrom op after) :: after := by
  generalize hmemop : Element.memop op p target address value = memop
  have hplace : (before ++ memop :: after)[before.length]? = some memop := by simp
  have hset : ∀ x, (before ++ memop :: after).set before.length x = before ++ x :: after := by
    intro x
    rw [List.set_append_right _ _ (Nat.le_refl _), Nat.sub_self, List.set_cons_zero]
  have hsecond := second_eq_addressFrom before after memop
  have hbehind := getElem?_behind before after memop
  subst hmemop
  simp only [bindMemop, hplace, hset, hsecond, hbehind]
  exact ⟨_, rfl⟩

/-- A memory operation with nodes in front of it and at most one behind it is bound to copies of
them. -/
theorem bindMemop_reduced {before after : List Element} {memop : Element}
    (hfits : Fitting (before ++ memop :: after)) (hmemop : memop.isMemop = true)
    (honce : ((before ++ memop :: after).flatMap Element.symbols).countP (·.isMemop) ≤ 1) :
    (bindMemop (before ++ memop :: after) before.length).flatMap Element.symbols =
        (before ++ memop :: after).flatMap Element.symbols ∧
      Reduced ⟨bindMemop (before ++ memop :: after) before.length, some before.length⟩ := by
  cases memop with
  | memop op p target address value =>
    have hplain := not_isMemop_of_count hmemop honce
    obtain ⟨hfront, hrest⟩ := List.forall_mem_append.mp hfits
    obtain ⟨-, hback⟩ := List.forall_mem_cons.mp hrest
    obtain ⟨target', hbound⟩ := bindMemop_append before after op p target address value
    -- what is under the memory operation is a copy of something around it, or missing
    have hcopies : ∀ node ∈ (Element.memop op p target' (addressFrom before)
        (valueFrom op after)).descendants,
        node.Fits ∧ node.isMemop = false := by
      have hcopy : ∀ x, (x = .missing ∨ x ∈ before ++ after) → ∀ node ∈ x :: x.descendants,
          node.Fits ∧ node.isMemop = false := by
        rintro x (rfl | hx) node hnode
        · obtain rfl := List.mem_singleton.mp hnode
          exact ⟨fits_of_bare rfl, rfl⟩
        · exact ⟨List.forall_mem_append.mpr ⟨hfront, hback⟩ x hx node hnode, hplain x hx node hnode⟩
      intro node hnode
      rcases List.mem_append.mp hnode with hnode | hnode
      · exact hcopy _ ((addressFrom_cases before).imp_right (List.mem_append_left _)) node hnode
      · exact hcopy _ ((valueFrom_cases op after).imp_right (List.mem_append_right _)) node hnode
    rw [hbound]
    refine ⟨by simp [Element.symbols], ?_, ?_, ?_, ?_⟩
    · refine List.forall_mem_append.mpr ⟨hfront, List.forall_mem_cons.mpr ⟨?_, hback⟩⟩
      exact List.forall_mem_cons.mpr ⟨fits_of_bare rfl, fun node hnode => (hcopies node hnode).1⟩
    · have hunder : ∀ e ∈ before ++ after, ∀ node ∈ e.descendants, node.isMemop = false :=
        fun e he node hnode => hplain e he node (List.mem_cons_of_mem e hnode)
      obtain ⟨hunder, hunder'⟩ := List.forall_mem_append.mp hunder
      exact List.forall_mem_append.mpr ⟨hunder, List.forall_mem_cons.mpr
        ⟨fun node hnode => (hcopies node hnode).2, hunder'⟩⟩
    · intro i e hi
      rcases Nat.lt_trichotomy i before.length with hlt | rfl | hgt
      · rw [List.getElem?_append_left hlt] at hi
        have he := hplain e (List.mem_append_left _ (List.mem_of_getElem? hi)) e List.mem_cons_self
        simp [he, Nat.ne_of_gt hlt]
      · have he : e = .memop op p target' (addressFrom before) (valueFrom op after) := by
          simpa using hi.symm
        simp [he, isMemop]
      · obtain ⟨j, rfl⟩ := Nat.exists_eq_add_of_lt hgt
        rw [List.getElem?_append_right (by omega)] at hi
        have hj : after[j]? = some e := by
          rwa [Nat.add_assoc, Nat.add_sub_cancel_left, List.getElem?_cons_succ] at hi
        have he := hplain e (List.mem_append_right _ (List.mem_of_getElem? hj)) e List.mem_cons_self
        simp [he]
        omega
    · intro i hi
      cases hi
      refine ⟨op, p, target', ?_⟩
      rw [second_eq_addressFrom, getElem?_behind]
      simp [valueFrom]
  | _ => cases hmemop

/-- Reducing symbols conserves them. -/
theorem reduced_of_reduce {symbols : List Symbol} {v : ActiveValue}
    (h : reduce (symbols.map ofSymbol) = .ok v) :
    v.elements.flatMap Element.symbols = symbols ∧ v.Reduced := by
  have hstart := flatMap_symbols_ofSymbol symbols
  have hfits := fitting_ofSymbol symbols
  have hbare : ∀ e ∈ symbols.map ofSymbol, e.operands? = none := by
    intro e he
    obtain ⟨s, -, rfl⟩ := List.mem_map.mp he
    exact operands?_ofSymbol s
  rcases reduce_cases h with ⟨hindex, hplain, hreduced⟩ |
    ⟨front, memop, back, behind, tail, heq, hplain, hbehind, htail, before, bound, after, hwhole,
      hbound, -, rfl⟩
  · have hkept := reduceStretch_conserves hreduced fun e he => hbare e (List.mem_of_mem_take he)
    have hsymbols := hkept.symbols.trans hstart
    have hnone : ∀ e ∈ v.elements, ∀ node ∈ e :: e.descendants, node.isMemop = false := by
      intro e he node hnode
      by_contra hnested
      have hpositive := countP_pos_of_isMemop he hnode (by simpa using hnested)
      rw [hsymbols, ← countP_ofSymbol, List.countP_eq_zero.mpr (by simpa using hplain)] at hpositive
      cases hpositive
    refine ⟨hsymbols, hkept.fits hfits, ?_, ?_, ?_⟩
    · exact fun e he node hnode => hnone e he node (List.mem_cons_of_mem e hnode)
    · intro i e hi
      have hfree := hnone e (List.mem_of_getElem? hi) e List.mem_cons_self
      simp [hfree, hindex]
    · intro i hi
      rw [hindex] at hi
      cases hi
  · have hbacked : Conserves (front ++ memop :: back) (front ++ memop :: behind) := by
      have hkept := reduceStretch_conserves hbehind fun e he =>
        hbare e (heq ▸ by simp [List.mem_of_mem_take he])
      exact (Conserves.refl front).append ((Conserves.refl [memop]).append hkept)
    have hfronted : Conserves (front ++ memop :: behind) (before ++ bound :: after) := by
      have hkept := reduceStretch_conserves htail fun e he => by
        have hfront : e ∈ front := by
          cases front with
          | nil => simp at he
          | cons first front => simp_all
        exact hbare e (heq ▸ List.mem_append_left _ hfront)
      have hjoined := (Conserves.refl ((front ++ memop :: behind).take 1)).append hkept
      rwa [List.take_append_drop, hwhole] at hjoined
    have hkept := (heq ▸ hbacked).trans hfronted
    have hsymbols := hkept.symbols.trans hstart
    have honce : symbols.countP (·.isMemop) ≤ 1 := by
      obtain ⟨hfront, hback⟩ := List.forall_mem_append.mp hplain
      rw [← countP_ofSymbol, heq, List.countP_append, List.countP_cons,
        List.countP_eq_zero.mpr (by simpa using hfront),
        List.countP_eq_zero.mpr (by simpa using hback)]
      split <;> omega
    obtain ⟨hbind, hreduced⟩ := bindMemop_reduced (hkept.fits hfits) hbound (hsymbols.symm ▸ honce)
    exact ⟨hbind.trans hsymbols, hreduced⟩

/-- A value that was read comes from symbols in a row. -/
theorem read_eq_ok {c c' : Cursor} {v : ActiveValue} (h : read.runOn c = (.ok v, c')) :
    ∃ symbols code rest, c.rest = code ++ 0 :: rest ∧ Symbol.Sources symbols code ∧
      reduce (symbols.map ofSymbol) = .ok v := by
  simp only [Reader.runOn, read] at h
  split at h
  · cases (Prod.mk.inj h).1
  · rename_i symbols rest hdecode
    obtain ⟨code, hcode, hsources⟩ := Symbol.sources_of_decode hdecode
    exact ⟨symbols, code, rest, hcode, hsources, (Prod.mk.inj h).1⟩

theorem reduced_of_read {c c' : Cursor} {v : ActiveValue} (h : read.runOn c = (.ok v, c')) :
    v.Reduced := by
  obtain ⟨_, _, _, -, -, hreduce⟩ := read_eq_ok h
  exact (reduced_of_reduce hreduce).2

/-- Reading loses, doubles and reorders nothing. The nodes of a value, read from left to right, are
the symbols that its code is made of; operators have the operands of their arity or none; and the
memory operation, if there is one, stands at the top, bound to copies of its address and value. -/
theorem read_conserves {c c' : Cursor} {v : ActiveValue} (h : read.runOn c = (.ok v, c')) :
    (∃ code rest, c.rest = code ++ 0 :: rest ∧
      Symbol.Sources (v.elements.flatMap Element.symbols) code) ∧ v.Reduced := by
  obtain ⟨symbols, code, rest, hrest, hsources, hreduce⟩ := read_eq_ok h
  obtain ⟨hsymbols, hreduced⟩ := reduced_of_reduce hreduce
  exact ⟨⟨code, rest, hrest, hsymbols.symm ▸ hsources⟩, hreduced⟩

/-- An addition to memory whose value is a product without its first factor. -/
theorem read_conserves_gap :
    let c := Cursor.ofView (View.ofBytes [0x28, 0, 0x85, 7, 0x17, 0, 0x01, 5, 0x83, 7, 0])
    let v : ActiveValue := ⟨[.operator 0x28 0, .literal 5,
      .memop 0x17 0 (some 0x28) (.literal 5) (.binary 0x01 5 .missing (.literal 3)),
      .binary 0x01 5 .missing (.literal 3)], some 2⟩
    read.runOn c = (.ok v, { c with pos := 11 }) ∧ (∃ code rest, c.rest = code ++ 0 :: rest ∧
      Symbol.Sources (v.elements.flatMap Element.symbols) code) ∧ v.Reduced := by
  intro c v
  have hread : read.runOn c = (.ok v, { c with pos := 11 }) := by decide +kernel
  exact ⟨hread, read_conserves hread⟩

end ActiveValue

end NovelScript
