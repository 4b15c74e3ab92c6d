import NovelScript.Proofs.ActiveValue.Layers

/-! # Passes of reduction

What one pass over a stretch does, once for all: it goes past nodes and serves bare operators of its
level, one after the other. Whatever both kinds of step keep holds when the pass ends, and whatever
passes keep holds when the stretch is reduced. -/

namespace NovelScript

theorem arity_cases (op : UInt8) :
    arity op = ⟨0, 0⟩ ∨ arity op = ⟨0, 1⟩ ∨ arity op = ⟨1, 1⟩ ∨ arity op = ⟨0, 2⟩ := by
  unfold arity
  split_ifs <;> simp

namespace Element

/-- A node that has operands only if its precedence lies above `n`. -/
def Above (n : Nat) (e : Element) : Prop :=
  e.operands? = none ∨ ∃ p, e.precedence? = some p ∧ n < p.toNat

theorem Above.mono {m n : Nat} {e : Element} (h : e.Above n) (hmn : m ≤ n) : e.Above m :=
  h.imp_right fun ⟨p, hp, hn⟩ => ⟨p, hp, Nat.lt_of_le_of_lt hmn hn⟩

/-- An operator of a level that is not served yet is bare. -/
theorem Above.eq_operator {level op : UInt8} {e : Element} (h : e.Above level.toNat)
    (hlevel : e.precedence? = some level) (hop : e.operatorByte? = some op) :
    e = .operator op level := by
  cases e <;> simp_all [Above, precedence?, operatorByte?, operands?]

end Element

namespace ActiveValue

open Element

/-- An operator with its operands, taken from the nodes around it. -/
def servedNode (op level : UInt8) (done ahead : List Element) : Element :=
  attach op level (operandsBefore (arity op).before done ++ operandsAfter (arity op).after ahead)

namespace Pass

/-- The nodes of the value. -/
def nodes (pass : Pass) : List Element := pass.done.reverse ++ pass.ahead

/-- The nodes of the stretch that the pass still has to visit. -/
def inside (pass : Pass) : List Element := pass.ahead.take (pass.span - pass.done.length)

/-- There is nothing more to visit. -/
def Ended (pass : Pass) : Prop := pass.ahead = [] ∨ pass.span ≤ pass.done.length

/-- Only nodes that were served have operands, behind the pass those above level `n` and ahead those
above the next one. -/
structure Ordered (n : Nat) (pass : Pass) : Prop where
  done : ∀ e ∈ pass.done, e.Above n
  inside : ∀ e ∈ pass.inside, e.Above (n + 1)

/-- A pass behind an operator that was served. -/
def served (op level : UInt8) (done ahead : List Element) (span : Nat) : Pass where
  done := servedNode op level done ahead :: done.drop (takenBefore (arity op).before done)
  ahead := ahead.drop (arity op).after
  span := span - takenBefore (arity op).before done - (arity op).after

/-- A pass in front of the first node. -/
def start (elements : List Element) (span : Nat) : Pass := ⟨[], elements, span⟩

end Pass

variable {n : Nat} {level : UInt8}

theorem Pass.inside_cons {done ahead : List Element} {e : Element} {span : Nat}
    (hspan : done.length < span) :
    Pass.inside ⟨done, e :: ahead, span⟩ = e :: Pass.inside ⟨e :: done, ahead, span⟩ := by
  obtain ⟨room, rfl⟩ := Nat.exists_eq_add_of_lt hspan
  have hroom : done.length + room + 1 - done.length = room + 1 := by omega
  have hless : done.length + room + 1 - (done.length + 1) = room := by omega
  simp only [Pass.inside, List.length_cons, hroom, hless, List.take_succ_cons]

theorem Pass.Ordered.skip {done ahead : List Element} {e : Element} {span : Nat}
    (h : Pass.Ordered n ⟨done, e :: ahead, span⟩) (hspan : done.length < span) :
    e.Above (n + 1) ∧ Pass.Ordered n ⟨e :: done, ahead, span⟩ := by
  have hinside := h.inside
  rw [Pass.inside_cons hspan] at hinside
  obtain ⟨he, hrest⟩ := List.forall_mem_cons.mp hinside
  exact ⟨he, List.forall_mem_cons.mpr ⟨he.mono (Nat.le_succ n), h.done⟩, hrest⟩

theorem precedence?_served (op level : UInt8) (done ahead : List Element) :
    (servedNode op level done ahead).precedence? = some level := by
  unfold servedNode
  generalize operandsBefore _ done ++ operandsAfter _ ahead = operands
  match operands with
  | [] | [_] | _ :: _ :: _ => rfl

theorem operatorByte?_served (op level : UInt8) (done ahead : List Element) :
    (servedNode op level done ahead).operatorByte? = some op := by
  unfold servedNode
  generalize operandsBefore _ done ++ operandsAfter _ ahead = operands
  match operands with
  | [] | [_] | _ :: _ :: _ => rfl

theorem length_operandsBefore (count : Nat) (done : List Element) :
    (operandsBefore count done).length = count := by
  unfold operandsBefore suppliesBefore
  split
  · simp_all
  · simp

theorem length_operandsAfter (count : Nat) (ahead : List Element) :
    (operandsAfter count ahead).length = count := by
  simp [operandsAfter]
  omega

theorem takenBefore_le (count : Nat) (done : List Element) :
    takenBefore count done ≤ done.length := by
  unfold takenBefore suppliesBefore
  split
  · simp_all
  · exact Nat.zero_le _

/-- What is left of the stretch behind the operands was in the stretch before. -/
theorem Pass.inside_served_subset (op level : UInt8) (done ahead : List Element) (span : Nat) :
    (Pass.served op level done ahead span).inside ⊆
      Pass.inside ⟨done, .operator op level :: ahead, span⟩ := by
  intro x hx
  have htaken := takenBefore_le (arity op).before done
  simp only [Pass.inside, Pass.served, List.length_cons, List.length_drop] at hx
  generalize hroom : span - takenBefore (arity op).before done - (arity op).after -
    (done.length - takenBefore (arity op).before done + 1) = room at hx
  have hpositive : 0 < room := by
    rcases Nat.eq_zero_or_pos room with rfl | hpositive
    · simp at hx
    · exact hpositive
  rw [List.take_drop] at hx
  have hmem : x ∈ (Element.operator op level :: ahead).take ((arity op).after + room + 1) := by
    rw [List.take_succ_cons]
    exact List.mem_cons_of_mem _ (List.mem_of_mem_drop hx)
  refine List.take_subset_take_left _ ?_ hmem
  simp only
  omega

theorem Pass.Ordered.served {done ahead : List Element} {op : UInt8} {span : Nat}
    (h : Pass.Ordered n ⟨done, .operator op level :: ahead, span⟩) (hlevel : level.toNat = n + 1) :
    Pass.Ordered n (Pass.served op level done ahead span) where
  done := by
    rintro x (_ | ⟨_, hx⟩)
    · exact .inr ⟨level, precedence?_served .., by omega⟩
    · exact h.done x (List.mem_of_mem_drop hx)
  inside := fun x hx => h.inside x (Pass.inside_served_subset op level done ahead span hx)

/-- What holds at the start of a pass and is kept when a node is passed over and when an operator is
served holds at its end. -/
theorem servePass_induct (hlevel : level.toNat = n + 1) {K : Pass → Prop}
    (skip : ∀ {done ahead : List Element} {e : Element} {span : Nat}, done.length < span →
      e.Above (n + 1) → (∀ op, e = .operator op level → arity op = ⟨0, 0⟩) →
      K ⟨done, e :: ahead, span⟩ → K ⟨e :: done, ahead, span⟩)
    (serve : ∀ {done ahead : List Element} {op : UInt8} {span : Nat}, done.length < span →
      arity op ≠ ⟨0, 0⟩ → K ⟨done, .operator op level :: ahead, span⟩ →
      K (Pass.served op level done ahead span))
    {done ahead : List Element} {span : Nat} {pass : Pass}
    (h : servePass level done span ahead = .ok pass) (hordered : Pass.Ordered n ⟨done, ahead, span⟩)
    (hstart : K ⟨done, ahead, span⟩) : K pass ∧ pass.Ordered n ∧ pass.Ended := by
  fun_induction servePass level done span ahead with
  | case1 =>
    cases h
    exact ⟨hstart, hordered, .inl rfl⟩
  | case2 done span e ahead hspan =>
    cases h
    exact ⟨hstart, hordered, .inr hspan⟩
  | case3 => cases h
  | case4 done span e ahead hspan hprecedence op hop before after hnone ih =>
    have hspan := Nat.not_le.mp hspan
    obtain ⟨habove, hnext⟩ := hordered.skip hspan
    refine ih h hnext (skip hspan habove ?_ hstart)
    rintro op' rfl
    cases hop
    exact congrArg₂ Arity.mk hnone.1 hnone.2
  | case5 done span e ahead hspan hprecedence op hop before after hsome taken operands ih =>
    have hspan := Nat.not_le.mp hspan
    have habove := (hordered.skip hspan).1
    obtain rfl : e = .operator op level := (hlevel ▸ habove).eq_operator hprecedence hop
    have harity : arity op ≠ ⟨0, 0⟩ := fun hzero =>
      hsome ⟨congrArg Arity.before hzero, congrArg Arity.after hzero⟩
    exact ih h (hordered.served hlevel) (serve hspan harity hstart)
  | case6 done span e ahead hspan hprecedence ih =>
    have hspan := Nat.not_le.mp hspan
    obtain ⟨habove, hnext⟩ := hordered.skip hspan
    refine ih h hnext (skip hspan habove ?_ hstart)
    rintro op rfl
    exact absurd rfl hprecedence

/-- When a pass has ended, it has visited all of its stretch. -/
theorem Pass.inside_start_subset {pass : Pass} (hended : pass.Ended) :
    (Pass.start pass.nodes pass.span).inside ⊆ pass.done := by
  intro e he
  simp only [Pass.inside, Pass.start, List.length_nil, Nat.sub_zero, Pass.nodes] at he
  rcases hended with hahead | hspan
  · rw [hahead, List.append_nil] at he
    exact List.mem_reverse.mp (List.mem_of_mem_take he)
  · rw [List.take_append_of_le_length (by simpa using hspan)] at he
    exact List.mem_reverse.mp (List.mem_of_mem_take he)

theorem Pass.Ordered.next {pass : Pass} (h : pass.Ordered (n + 1)) (hended : pass.Ended) :
    (Pass.start pass.nodes pass.span).Ordered n where
  done := by simp [Pass.start]
  inside := fun e he => h.done e (Pass.inside_start_subset hended he)

section Induction

variable {K : Nat → Pass → Prop}
  (skip : ∀ {n : Nat} {level : UInt8}, level.toNat = n + 1 →
    ∀ {done ahead : List Element} {e : Element} {span : Nat}, done.length < span →
      e.Above (n + 1) → (∀ op, e = .operator op level → arity op = ⟨0, 0⟩) →
      K n ⟨done, e :: ahead, span⟩ → K n ⟨e :: done, ahead, span⟩)
  (serve : ∀ {n : Nat} {level : UInt8}, level.toNat = n + 1 →
    ∀ {done ahead : List Element} {op : UInt8} {span : Nat}, done.length < span →
      arity op ≠ ⟨0, 0⟩ → K n ⟨done, .operator op level :: ahead, span⟩ →
      K n (Pass.served op level done ahead span))
  (next : ∀ {n : Nat} {pass : Pass}, pass.Ended → K (n + 1) pass →
    K n (.start pass.nodes pass.span))

include skip serve next

omit next in
theorem serveLevel_induct {n : Nat} {level : UInt8} (hlevel : level.toNat = n + 1)
    {elements : List Element} {span : Nat} {stretch : List Element × Nat}
    (h : serveLevel (elements, span) level = .ok stretch)
    (hordered : (Pass.start elements span).Ordered n) (hstart : K n (.start elements span)) :
    ∃ pass, stretch = (pass.nodes, pass.span) ∧ K n pass ∧ pass.Ordered n ∧ pass.Ended := by
  obtain ⟨pass, hpass, hstretch⟩ := exceptBind_eq_ok h
  cases hstretch
  exact ⟨pass, rfl, servePass_induct hlevel (skip hlevel) (serve hlevel) hpass hordered hstart⟩

theorem foldlM_induct {n : Nat} (hn : n < 255) {elements : List Element} {span : Nat}
    {stretch : List Element × Nat}
    (h : ((List.range (n + 1)).reverse.map fun k => UInt8.ofNat (k + 1)).foldlM serveLevel
      (elements, span) = .ok stretch)
    (hordered : (Pass.start elements span).Ordered n) (hstart : K n (.start elements span)) :
    ∃ pass, stretch.1 = pass.nodes ∧ pass.Ended ∧ K 0 pass := by
  have hlevel : ∀ k < 255, (UInt8.ofNat (k + 1)).toNat = k + 1 := by
    intro k hk
    rw [UInt8.toNat_ofNat', Nat.mod_eq_of_lt (by omega)]
  induction n generalizing elements span with
  | zero =>
    obtain ⟨served, hserved, hend⟩ := exceptBind_eq_ok h
    cases hend
    obtain ⟨pass, rfl, hkept, -, hended⟩ :=
      serveLevel_induct skip serve (hlevel 0 hn) hserved hordered hstart
    exact ⟨pass, rfl, hended, hkept⟩
  | succ n ih =>
    rw [List.range_succ, List.reverse_append, List.reverse_singleton, List.singleton_append,
      List.map_cons, List.foldlM_cons] at h
    obtain ⟨served, hserved, hrest⟩ := exceptBind_eq_ok h
    obtain ⟨pass, rfl, hkept, hordered, hended⟩ :=
      serveLevel_induct skip serve (hlevel (n + 1) hn) hserved hordered hstart
    exact ih (by omega) hrest (hordered.next hended) (next hended hkept)

/-- What holds in front of a stretch of bare operators and is kept by the steps of its passes and
from the end of a pass to the start of the next one holds when the stretch is reduced. In a pass of
level `n + 1` it is said for `n`. -/
theorem reduceStretch_induct {elements reduced : List Element} {span : Nat}
    (h : reduceStretch elements span = .ok reduced)
    (hbare : ∀ e ∈ elements.take span, e.operands? = none)
    (hstart : K 254 (.start elements span)) :
    ∃ pass, reduced = pass.nodes ∧ pass.Ended ∧ K 0 pass := by
  obtain ⟨stretch, hstretch, rfl⟩ : ∃ stretch, levels.foldlM serveLevel (elements, span) =
      .ok stretch ∧ reduced = stretch.1 := by
    cases hfold : levels.foldlM serveLevel (elements, span) with
    | error fault => rw [reduceStretch, hfold] at h; cases h
    | ok stretch => rw [reduceStretch, hfold] at h; cases h; exact ⟨stretch, rfl, rfl⟩
  refine foldlM_induct skip serve next (by decide) hstretch ⟨?_, ?_⟩ hstart
  · simp [Pass.start]
  · intro e he
    exact .inl (hbare e (by simpa [Pass.inside, Pass.start] using he))

end Induction

/-! ## Whole values -/

theorem findIdx?_eq_some_split {elements : List Element} {index : Nat}
    (h : elements.findIdx? (·.isMemop) = some index) :
    ∃ front memop back, elements = front ++ memop :: back ∧ front.length = index ∧
      memop.isMemop = true ∧ ∀ e ∈ front, e.isMemop = false := by
  obtain ⟨hindex, hmemop, hfront⟩ := List.findIdx?_eq_some_iff_getElem.mp h
  refine ⟨elements.take index, elements[index], elements.drop (index + 1), ?_, ?_, hmemop, ?_⟩
  · rw [List.getElem_cons_drop, List.take_append_drop]
  · exact List.length_take_of_le (Nat.le_of_lt hindex)
  · intro e he
    obtain ⟨j, hj, rfl⟩ := List.mem_take_iff_getElem.mp he
    simpa using hfront j (by omega)

/-- Reduction of a sequence without a memory operation is that of one stretch. With one, what is
behind it is a stretch, and what is in front of it, the first node left out, another; the memory
operation has to be still there then, with one node behind it at most. -/
theorem reduce_cases {elements : List Element} {v : ActiveValue} (h : reduce elements = .ok v) :
    (v.memopIndex = none ∧ (∀ e ∈ elements, e.isMemop = false) ∧
      reduceStretch elements elements.length = .ok v.elements) ∨
    ∃ front memop back behind tail, elements = front ++ memop :: back ∧
      (∀ e ∈ front ++ back, e.isMemop = false) ∧
      reduceStretch back back.length = .ok behind ∧
      reduceStretch ((front ++ memop :: behind).drop 1) (front.length - 1) = .ok tail ∧
      ∃ before bound after, (front ++ memop :: behind).take 1 ++ tail = before ++ bound :: after ∧
        bound.isMemop = true ∧ after.length ≤ 1 ∧
        v = ⟨bindMemop (before ++ bound :: after) before.length, some before.length⟩ := by
  simp only [reduce] at h
  split at h
  · cases h
  rename_i hmany
  split at h
  · rename_i hnone
    obtain ⟨reduced, hreduced, hv⟩ := exceptBind_eq_ok h
    cases hv
    exact .inl ⟨rfl, by simpa using hnone, hreduced⟩
  · rename_i first hfirst
    obtain ⟨front, memop, back, rfl, rfl, hmemop, hfront⟩ := findIdx?_eq_some_split hfirst
    have hback : ∀ e ∈ back, e.isMemop = false := by
      have hzero : back.countP (·.isMemop) = 0 := by
        rw [List.countP_append, List.countP_cons, hmemop] at hmany
        simp only [if_true] at hmany
        omega
      simpa [List.countP_eq_zero] using hzero
    have hdrop : (front ++ memop :: back).drop (front.length + 1) = back := by simp
    have htake : (front ++ memop :: back).take (front.length + 1) = front ++ [memop] := by
      simp [List.take_append]
    obtain ⟨behind, hbehind, h⟩ := exceptBind_eq_ok h
    obtain ⟨tail, htail, h⟩ := exceptBind_eq_ok h
    rw [hdrop] at hbehind
    rw [htake, List.append_assoc, List.singleton_append] at htail h
    split at h
    · cases h
    · rename_i index hindex
      obtain ⟨before, bound, after, heq, rfl, hbound, -⟩ := findIdx?_eq_some_split hindex
      split at h
      · rename_i hlength
        cases h
        rw [heq] at hlength ⊢
        simp only [List.length_append, List.length_cons] at hlength
        refine .inr ⟨front, memop, back, behind, tail, rfl, ?_, hbehind, htail, before, bound,
          after, heq, hbound, by omega, rfl⟩
        exact List.forall_mem_append.mpr ⟨hfront, hback⟩
      · cases h

end ActiveValue

end NovelScript
