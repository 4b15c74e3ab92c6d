import NovelScript.Proofs.ActiveValue.Conservation

/-! # Reach of reduction

The stretch that a pass scans shrinks by all operands that an operator asks for from behind, also by
those that are not there. So behind an operator that asked for more than there was, the stretch ends
too early by as much as is missing, two nodes at most. One of them is the last node, which is the
one that lacks operands; the other is the node in front of it, and if that is an operator of a lower
level, no pass gets to it any more. -/

namespace NovelScript

namespace Element

/-- How many operands from behind a node lacks: its own that are missing, and those that its own
operands from behind lack. -/
def lacking : Element → Nat
  | .missing => 1
  | .unary _ _ x => x.lacking
  | .binary op _ x y => (if (arity op).before = 0 then x.lacking else 0) + y.lacking
  | .literal _ | .operator .. | .memop .. => 0

/-- How many operands from behind nodes lack together. -/
def deficit : List Element → Nat
  | [] => 0
  | e :: rest => e.lacking + deficit rest

theorem deficit_append (front back : List Element) :
    deficit (front ++ back) = deficit front + deficit back := by
  induction front with
  | nil => simp [deficit]
  | cons e rest ih => simp [deficit, ih, Nat.add_assoc]

theorem deficit_reverse (nodes : List Element) : deficit nodes.reverse = deficit nodes := by
  induction nodes with
  | nil => rfl
  | cons e rest ih => simp [deficit, deficit_append, ih, Nat.add_comm]

theorem deficit_replicate_missing (count : Nat) :
    deficit (List.replicate count .missing) = count := by
  induction count with
  | zero => rfl
  | succ count ih => rw [List.replicate_succ, deficit, ih, lacking, Nat.add_comm]

theorem deficit_eq_zero_iff {nodes : List Element} :
    deficit nodes = 0 ↔ ∀ e ∈ nodes, e.lacking = 0 := by
  induction nodes with
  | nil => simp [deficit]
  | cons e rest ih => simp [deficit, ih]

theorem lacking_eq {e : Element} {op : UInt8} {operands : List Element}
    (hop : e.operatorByte? = some op) (hoperands : e.operands? = some operands) (hfits : e.Fits) :
    e.lacking = deficit (operands.drop (arity op).before) := by
  have hlength := hfits op operands hop hoperands
  cases e <;> cases hop <;> cases hoperands <;>
    rcases arity_cases op with harity | harity | harity | harity <;>
    simp_all [lacking, deficit]

/-- A node that has all its operands from in front, if it has operands. -/
def Led (e : Element) : Prop :=
  ∀ op operands, e.operatorByte? = some op → e.operands? = some operands →
    .missing ∉ operands.take (arity op).before

/-- A node that is no operator above level `n` still without its operands. -/
def Settled (n : Nat) (e : Element) : Prop :=
  ∀ op p, e = .operator op p → arity op ≠ ⟨0, 0⟩ → p.toNat ≤ n

theorem Settled.skip {n : Nat} {level : UInt8} {e : Element} (h : e.Settled (n + 1))
    (hlevel : level.toNat = n + 1) (hplain : ∀ op, e = .operator op level → arity op = ⟨0, 0⟩) :
    e.Settled n := by
  intro op p he harity
  have hp := h op p he harity
  have hother : p.toNat ≠ n + 1 := by
    intro hp
    obtain rfl : p = level := UInt8.toNat_inj.mp (hp.trans hlevel.symm)
    exact harity (hplain op he)
  omega

end Element

namespace ActiveValue

open Element

/-- What holds in a pass of level `n + 1`. The stretch is shorter than the value by the operands
that are missing at its end, which are at most two and which the last node alone lacks. -/
structure Pass.Reaching (n : Nat) (pass : Pass) : Prop where
  span : pass.span = pass.nodes.length - deficit pass.nodes
  atMost : deficit pass.nodes ≤ 2
  inner : ∀ e ∈ pass.nodes.dropLast, e.lacking = 0
  /-- An operator that is still bare in front of the node that lacks operands was not reached
  before. -/
  cut : ∀ op p last front, pass.nodes.reverse = last :: .operator op p :: front →
    arity op ≠ ⟨0, 0⟩ → 0 < last.lacking → ∃ q, last.precedence? = some q ∧ p < q
  led : ∀ e ∈ pass.nodes.tail, e.Led
  done : ∀ e ∈ pass.done, e.Settled n
  inside : ∀ e ∈ pass.inside, e.Settled (n + 1)

variable {n : Nat} {op level : UInt8} {done ahead : List Element} {span : Nat}

theorem Pass.nodes_skip (done ahead : List Element) (e : Element) (span : Nat) :
    Pass.nodes ⟨e :: done, ahead, span⟩ = Pass.nodes ⟨done, e :: ahead, span⟩ := by
  simp [Pass.nodes]

theorem Pass.Reaching.skip {e : Element} (h : Pass.Reaching n ⟨done, e :: ahead, span⟩)
    (hlevel : level.toNat = n + 1) (hspan : done.length < span)
    (hplain : ∀ op, e = .operator op level → arity op = ⟨0, 0⟩) :
    Pass.Reaching n ⟨e :: done, ahead, span⟩ := by
  obtain ⟨hshort, hmost, hinner, hcut, hled, hdone, hinside⟩ := h
  rw [← Pass.nodes_skip] at hshort hmost hinner hcut hled
  rw [Pass.inside_cons hspan] at hinside
  obtain ⟨he, hrest⟩ := List.forall_mem_cons.mp hinside
  exact ⟨hshort, hmost, hinner, hcut, hled,
    List.forall_mem_cons.mpr ⟨he.skip hlevel hplain, hdone⟩, hrest⟩

/-! ## Serving an operator -/

/-- A served operator lacks what its operands from behind lack, and those that are not there. -/
theorem lacking_served (level : UInt8) (done ahead : List Element) (harity : arity op ≠ ⟨0, 0⟩) :
    (servedNode op level done ahead).lacking =
      deficit (ahead.take (arity op).after) + ((arity op).after - ahead.length) := by
  rw [lacking_eq (operatorByte?_served ..) (operands?_served level done ahead harity)
    (fits_served level done ahead harity), List.drop_left' (length_operandsBefore ..),
    operandsAfter, deficit_append, deficit_replicate_missing]

/-- An operator that is served behind another node has its operand from in front. -/
theorem led_served (level : UInt8) (ahead : List Element) (harity : arity op ≠ ⟨0, 0⟩)
    (hdone : ∀ e ∈ done, e.lacking = 0)
    (hrest : done.drop (takenBefore (arity op).before done) ≠ []) :
    (servedNode op level done ahead).Led := by
  intro op' operands hop hoperands hmissing
  rw [operatorByte?_served] at hop
  rw [operands?_served level done ahead harity] at hoperands
  cases hop
  cases hoperands
  rw [List.take_left' (length_operandsBefore ..)] at hmissing
  have hsupplies : suppliesBefore (arity op).before done = true := by
    have hpositive : 0 < done.length := List.length_pos_iff.mpr fun hnil => hrest (by simp [hnil])
    have hbefore : (arity op).before ≤ 1 := by
      rcases arity_cases op with h | h | h | h <;> simp [h]
    simpa [suppliesBefore] using hbefore.trans hpositive
  rw [operandsBefore, if_pos hsupplies] at hmissing
  have hlacks := hdone _ (List.mem_of_mem_take (List.mem_reverse.mp hmissing))
  cases hlacks

theorem deficit_served (level : UInt8) (ahead : List Element) (span : Nat)
    (harity : arity op ≠ ⟨0, 0⟩) (hdone : ∀ e ∈ done, e.lacking = 0) :
    deficit (Pass.served op level done ahead span).nodes =
      deficit (Pass.nodes ⟨done, .operator op level :: ahead, span⟩) +
        ((arity op).after - ahead.length) := by
  have hrest : ∀ e ∈ done.drop (takenBefore (arity op).before done), e.lacking = 0 :=
    fun e he => hdone e (List.mem_of_mem_drop he)
  have hahead : deficit ahead =
      deficit (ahead.take (arity op).after) + deficit (ahead.drop (arity op).after) := by
    rw [← deficit_append, List.take_append_drop]
  rw [nodes_served, Pass.nodes]
  simp only [deficit_append, deficit_reverse, deficit, lacking_served level done ahead harity,
    deficit_eq_zero_iff.mpr hdone, deficit_eq_zero_iff.mpr hrest, hahead, lacking]
  omega

/-- Of the nodes of a pass behind an operator that was served only the last one lacks operands. -/
theorem inner_served (harity : arity op ≠ ⟨0, 0⟩)
    (hinner : ∀ e ∈ (Pass.nodes ⟨done, .operator op level :: ahead, span⟩).dropLast,
      e.lacking = 0) :
    ∀ e ∈ (Pass.served op level done ahead span).nodes.dropLast, e.lacking = 0 := by
  simp only [Pass.nodes, List.dropLast_append_cons] at hinner
  obtain ⟨hdone, hbehind⟩ := List.forall_mem_append.mp hinner
  rw [nodes_served, List.dropLast_append_cons]
  refine List.forall_mem_append.mpr ⟨fun e he => hdone e ?_, ?_⟩
  · exact List.mem_reverse.mpr (List.mem_of_mem_drop (List.mem_reverse.mp he))
  cases hback : ahead.drop (arity op).after with
  | nil => simp
  | cons x back =>
    have hahead : ahead = ahead.take (arity op).after ++ x :: back := by
      rw [← hback, List.take_append_drop]
    have hlong : (arity op).after < ahead.length := by
      by_contra hshort
      rw [List.drop_eq_nil_of_le (Nat.not_lt.mp hshort)] at hback
      cases hback
    rw [hahead, ← List.cons_append, List.dropLast_append_cons] at hbehind
    obtain ⟨htaken, hrest⟩ := List.forall_mem_append.mp hbehind
    obtain ⟨-, htaken⟩ := List.forall_mem_cons.mp htaken
    rw [List.dropLast_cons_cons]
    refine List.forall_mem_cons.mpr ⟨?_, hrest⟩
    rw [lacking_served level done ahead harity, deficit_eq_zero_iff.mpr htaken]
    omega

theorem served_ne_operator {op' p : UInt8} (harity : arity op ≠ ⟨0, 0⟩) :
    servedNode op level done ahead ≠ .operator op' p := by
  intro heq
  have hoperands := operands?_served level done ahead harity
  rw [heq] at hoperands
  cases hoperands

/-- Behind an operator that was served, the last two nodes are the same as before, or that operator
is one of them. As the last one it has a higher level than an operator in front of it that is still
bare. -/
theorem cut_served {op' p : UInt8} {last : Element} {front : List Element}
    (h : Pass.Reaching n ⟨done, .operator op level :: ahead, span⟩) (hlevel : level.toNat = n + 1)
    (harity : arity op ≠ ⟨0, 0⟩)
    (hnodes : (Pass.served op level done ahead span).nodes.reverse =
      last :: .operator op' p :: front)
    (harity' : arity op' ≠ ⟨0, 0⟩) (hlacks : 0 < last.lacking) :
    ∃ q, last.precedence? = some q ∧ p < q := by
  rw [nodes_served, List.reverse_append, List.reverse_cons, List.reverse_reverse,
    List.append_assoc, List.singleton_append] at hnodes
  have hahead : ahead.reverse =
      (ahead.drop (arity op).after).reverse ++ (ahead.take (arity op).after).reverse := by
    rw [← List.reverse_append, List.take_append_drop]
  -- by how many nodes are left behind the operator
  match hback : (ahead.drop (arity op).after).reverse with
  | [] =>
    rw [hback, List.nil_append] at hnodes
    obtain ⟨rfl, hrest⟩ := List.cons.inj hnodes
    have hmem : Element.operator op' p ∈ done :=
      List.mem_of_mem_drop (hrest ▸ List.mem_cons_self)
    have hp := h.done _ hmem op' p rfl harity'
    exact ⟨level, precedence?_served .., UInt8.lt_iff_toNat_lt.mpr (by omega)⟩
  | [x] =>
    rw [hback] at hnodes
    exact absurd (List.cons.inj (List.cons.inj hnodes).2).1 (served_ne_operator harity)
  | x :: y :: back =>
    rw [hback] at hnodes
    obtain ⟨rfl, hnext⟩ := List.cons.inj hnodes
    obtain rfl := (List.cons.inj hnext).1
    rw [hback] at hahead
    refine h.cut op' p x (back ++ (ahead.take (arity op).after).reverse ++
      .operator op level :: done) ?_ harity' hlacks
    simp [Pass.nodes, hahead]

/-- Behind the first node, operands from in front are never missing. -/
theorem ledNodes_served (harity : arity op ≠ ⟨0, 0⟩) (hdone : ∀ e ∈ done, e.lacking = 0)
    (hled : ∀ e ∈ (Pass.nodes ⟨done, .operator op level :: ahead, span⟩).tail, e.Led) :
    ∀ e ∈ (Pass.served op level done ahead span).nodes.tail, e.Led := by
  have hahead : ∀ e ∈ ahead.drop (arity op).after, e.Led := by
    intro e he
    refine hled e ?_
    have hmem := List.mem_of_mem_drop he
    cases hdone : done.reverse <;> simp [Pass.nodes, hdone, hmem]
  rw [nodes_served]
  cases hrest : (done.drop (takenBefore (arity op).before done)).reverse with
  | nil => exact hahead
  | cons first rest =>
    have hrest' : done.drop (takenBefore (arity op).before done) ≠ [] := by
      intro hnil
      simp [hnil] at hrest
    have hsplit : done.reverse = first :: rest ++
        (done.take (takenBefore (arity op).before done)).reverse := by
      rw [← hrest, ← List.reverse_append, List.take_append_drop]
    rw [Pass.nodes, hsplit] at hled
    refine List.forall_mem_append.mpr ⟨fun e he => hled e (by simp [he]), ?_⟩
    exact List.forall_mem_cons.mpr ⟨led_served level ahead harity hdone hrest', hahead⟩

theorem Pass.Reaching.served (h : Pass.Reaching n ⟨done, .operator op level :: ahead, span⟩)
    (hlevel : level.toNat = n + 1) (hspan : done.length < span) (harity : arity op ≠ ⟨0, 0⟩) :
    Pass.Reaching n (Pass.served op level done ahead span) := by
  have hdone : ∀ e ∈ done, e.lacking = 0 := by
    intro e he
    have hinner := h.inner
    rw [Pass.nodes, List.dropLast_append_cons] at hinner
    exact hinner e (List.mem_append_left _ (List.mem_reverse.mpr he))
  have hdeficit := deficit_served level ahead span harity hdone
  have htaken := takenBefore_le (arity op).before done
  have hafter : (arity op).after ≤ 2 := by
    rcases arity_cases op with h | h | h | h <;> simp [h]
  have hlength : (Pass.nodes ⟨done, .operator op level :: ahead, span⟩).length =
      done.length + ahead.length + 1 := by
    simp [Pass.nodes, Nat.add_assoc]
  have hshort := h.span
  have hmost := h.atMost
  simp only at hshort
  refine ⟨?_, ?_, inner_served harity h.inner, ?_, ?_, ?_, ?_⟩
  · have hlength' : (Pass.served op level done ahead span).nodes.length =
        done.length - takenBefore (arity op).before done + (ahead.length - (arity op).after) + 1 := by
      simp [nodes_served, Nat.add_assoc]
    rw [hdeficit, hlength']
    simp only [Pass.served]
    omega
  · -- where a pass still scans there are as many nodes ahead as operands missing, so the operator
    -- finds more than it lacks or ends up with no more missing than it asked for
    rw [hdeficit]
    omega
  · exact fun op' p last front => cut_served h hlevel harity
  · exact ledNodes_served harity hdone h.led
  · refine List.forall_mem_cons.mpr ⟨?_, fun e he => h.done e (List.mem_of_mem_drop he)⟩
    exact fun op' p heq _ => absurd heq (served_ne_operator harity)
  · exact fun e he => h.inside e (Pass.inside_served_subset op level done ahead span he)

/-! ## From pass to pass -/

theorem Pass.nodes_start (elements : List Element) (span : Nat) :
    (Pass.start elements span).nodes = elements := rfl

theorem Pass.Reaching.next {pass : Pass} (h : pass.Reaching (n + 1)) (hended : pass.Ended) :
    (Pass.start pass.nodes pass.span).Reaching n where
  span := h.span
  atMost := h.atMost
  inner := h.inner
  cut := h.cut
  led := h.led
  done := by simp [Pass.start]
  inside := fun e he => h.done e (Pass.inside_start_subset hended he)

theorem Pass.Reaching.first {elements : List Element}
    (hbare : ∀ e ∈ elements, e.operands? = none ∧ e ≠ .missing) :
    (Pass.start elements elements.length).Reaching 254 := by
  have hlacks : ∀ e ∈ elements, e.lacking = 0 := by
    intro e he
    obtain ⟨hoperands, hmissing⟩ := hbare e he
    cases e <;> simp_all [operands?, lacking]
  have hled : ∀ e ∈ elements, e.Led := by
    intro e he op operands _ hoperands
    rw [(hbare e he).1] at hoperands
    cases hoperands
  have hdeficit : deficit elements = 0 := deficit_eq_zero_iff.mpr hlacks
  refine ⟨?_, ?_, fun e he => hlacks e (List.mem_of_mem_dropLast he), ?_, fun e he =>
    hled e (List.mem_of_mem_tail he), by simp [Pass.start], fun e _ op p _ _ => ?_⟩
  · rw [Pass.nodes_start, hdeficit]
    rfl
  · rw [Pass.nodes_start, hdeficit]
    exact Nat.zero_le 2
  · intro op p last front hnodes _ hpositive
    rw [Pass.nodes_start] at hnodes
    have hlast : last ∈ elements := List.mem_reverse.mp (hnodes ▸ List.mem_cons_self)
    rw [hlacks last hlast] at hpositive
    cases hpositive
  · have hp := p.toNat_lt
    omega

theorem reduceStretch_reaching {elements reduced : List Element}
    (h : reduceStretch elements elements.length = .ok reduced)
    (hbare : ∀ e ∈ elements, e.operands? = none ∧ e ≠ .missing) :
    ∃ pass : Pass, reduced = pass.nodes ∧ pass.Ended ∧ pass.Reaching 0 :=
  reduceStretch_induct (K := Pass.Reaching)
    (fun hlevel _ _ _ _ hspan _ hplain h => h.skip hlevel hspan hplain)
    (fun hlevel _ _ _ _ hspan harity h => h.served hlevel hspan harity)
    (fun hended h => h.next hended) h (fun e he => (hbare e (List.mem_of_mem_take he)).1)
    (.first hbare)

/-! ## Whole values -/

/-- The operator at a place has as many operands as its arity says. From in front one is missing
only at the start of the value, and from behind only at its end. -/
def SuppliedAt (elements : List Element) (i : Nat) : Prop :=
  ∃ e op operands, elements[i]? = some e ∧ e.operatorByte? = some op ∧
    e.operands? = some operands ∧ operands.length = (arity op).before + (arity op).after ∧
    (.missing ∈ operands.take (arity op).before → i = 0) ∧
    (.missing ∈ operands.drop (arity op).before → i + 1 = elements.length)

/-- The operator at a place was not reached: it is bare and stands in front of a last node of a
higher level that lacks two operands. -/
def CutOffAt (elements : List Element) (i : Nat) : Prop :=
  ∃ op p last q, elements.drop i = [.operator op p, last] ∧ last.precedence? = some q ∧ p < q ∧
    last.lacking = 2

/-- A bare operator stands where the last pass did not get to. -/
theorem Pass.Reaching.cutOffAt {pass : Pass} {p : UInt8} {i : Nat} (h : pass.Reaching 0)
    (hended : pass.Ended) (hi : pass.nodes[i]? = some (.operator op p)) (hp : 0 < p)
    (harity : arity op ≠ ⟨0, 0⟩) : CutOffAt pass.nodes i := by
  obtain ⟨hlt, hget⟩ := List.getElem?_eq_some_iff.mp hi
  have hunreached : pass.span ≤ i := by
    by_contra hreached
    have hinside : Element.operator op p ∈ (Pass.start pass.nodes pass.span).inside :=
      List.mem_take_iff_getElem.mpr ⟨i, by simp [Pass.start]; omega, hget⟩
    have hzero := h.done _ (Pass.inside_start_subset hended hinside) op p rfl harity
    have hpositive := UInt8.lt_iff_toNat_lt.mp hp
    simp only [UInt8.toNat_zero] at hpositive
    omega
  have hnodes : pass.nodes = pass.nodes.take i ++ .operator op p :: pass.nodes.drop (i + 1) := by
    rw [← hget, List.getElem_cons_drop, List.take_append_drop]
  have hlength := List.length_take_of_le (Nat.le_of_lt hlt)
  generalize pass.nodes.take i = front at hnodes hlength
  generalize pass.nodes.drop (i + 1) = back at hnodes
  have hinner := h.inner
  rw [hnodes, List.dropLast_append_cons] at hinner
  obtain ⟨hfront, -⟩ := List.forall_mem_append.mp hinner
  have hdeficit : deficit pass.nodes = deficit back := by
    rw [hnodes, deficit_append, deficit, deficit_eq_zero_iff.mpr hfront, lacking,
      Nat.zero_add, Nat.zero_add]
  have hshort := h.span
  have hmost := h.atMost
  rw [hdeficit, hnodes, List.length_append, List.length_cons] at hshort
  rw [hdeficit] at hmost
  -- the operator is one of the last two nodes, and as it lacks nothing itself, not the last one
  cases back with
  | nil =>
    rw [deficit, List.length_nil] at hshort
    omega
  | cons last more =>
    cases more with
    | nil =>
      rw [deficit, deficit, Nat.add_zero] at hshort hmost
      rw [List.length_singleton] at hshort
      have hlacks : last.lacking = 2 := by omega
      have hreverse : pass.nodes.reverse = last :: .operator op p :: front.reverse := by
        simp [hnodes]
      obtain ⟨q, hq, hpq⟩ := h.cut op p last _ hreverse harity (by omega)
      exact ⟨op, p, last, q, by rw [hnodes, List.drop_left' hlength], hq, hpq, hlacks⟩
    | cons x more =>
      simp only [List.length_cons] at hshort
      omega

/-- An operator with operands has those that there were nodes for. -/
theorem Pass.Reaching.suppliedAt {pass : Pass} {i : Nat} {e : Element} {operands : List Element}
    (h : pass.Reaching n) (hi : pass.nodes[i]? = some e) (hfits : e.Fits)
    (hop : e.operatorByte? = some op) (hoperands : e.operands? = some operands) :
    SuppliedAt pass.nodes i := by
  obtain ⟨hlt, hget⟩ := List.getElem?_eq_some_iff.mp hi
  refine ⟨e, op, operands, hi, hop, hoperands, hfits op operands hop hoperands, ?_, ?_⟩
  · intro hmissing
    by_contra hbehind
    obtain ⟨j, rfl⟩ := Nat.exists_eq_succ_of_ne_zero hbehind
    have htail : e ∈ pass.nodes.tail := List.mem_of_getElem? (List.getElem?_tail ▸ hi)
    exact h.led e htail op operands hop hoperands hmissing
  · intro hmissing
    by_contra hinner
    have hfront : e ∈ pass.nodes.dropLast := by
      rw [List.dropLast_eq_take]
      exact List.mem_take_iff_getElem.mpr ⟨i, by omega, hget⟩
    have hlacks := h.inner e hfront
    rw [lacking_eq hop hoperands hfits] at hlacks
    have hmissing := deficit_eq_zero_iff.mp hlacks _ hmissing
    cases hmissing

/-- In a value without a memory operation, an operator at the top that is not of level zero and that
takes operands has been given them, as far as there were any, if and only if it was not cut off. -/
theorem supplied_iff_of_read {c c' : Cursor} {v : ActiveValue} {i : Nat} {e : Element} {p : UInt8}
    (h : read.runOn c = (.ok v, c')) (hnone : v.memopIndex = none) (hi : v.elements[i]? = some e)
    (hop : e.operatorByte? = some op) (hp : e.precedence? = some p) (hpositive : 0 < p)
    (harity : arity op ≠ ⟨0, 0⟩) : SuppliedAt v.elements i ↔ ¬CutOffAt v.elements i := by
  constructor
  · rintro ⟨e, op, operands, hi, -, hoperands, -⟩ ⟨op', p', last, q, hdrop, -⟩
    have hbare : v.elements[i]? = some (.operator op' p') := by
      rw [← List.head?_drop, hdrop, List.head?_cons]
    rw [hbare] at hi
    cases hi
    cases hoperands
  · intro hreached
    obtain ⟨symbols, code, rest, -, -, hreduce⟩ := read_eq_ok h
    have hfits := (reduced_of_read h).fits e (List.mem_of_getElem? hi) e List.mem_cons_self
    rcases reduce_cases hreduce with ⟨-, -, hstretch⟩ |
      ⟨_, _, _, _, _, -, -, -, -, _, _, _, -, -, -, rfl⟩
    · obtain ⟨pass, heq, hended, hreaching⟩ := reduceStretch_reaching hstretch fun x hx => by
        obtain ⟨s, -, rfl⟩ := List.mem_map.mp hx
        cases s <;> exact ⟨rfl, nofun⟩
      rw [heq] at hi hreached ⊢
      cases hoperands : e.operands? with
      | some operands => exact hreaching.suppliedAt hi hfits hop hoperands
      | none =>
        obtain rfl : e = .operator op p := by
          cases e <;> simp_all [operands?, operatorByte?, precedence?]
        exact absurd (hreaching.cutOffAt hended hi hpositive harity) hreached
    · cases hnone

/-- An operator of level five with one operand from behind, and one of level nine with two at the
end: what the second one lacks keeps the first one from getting it. -/
theorem supplied_iff_of_read_cut :
    let c := Cursor.ofView (View.ofBytes [0x28, 5, 0x2a, 9, 0])
    let v : ActiveValue := ⟨[.operator 0x28 5, .binary 0x2a 9 .missing .missing], none⟩
    read.runOn c = (.ok v, { c with pos := 5 }) ∧ v.memopIndex = none ∧ arity 0x28 = ⟨0, 1⟩ ∧
      ¬SuppliedAt v.elements 0 := by
  intro c v
  have hread : read.runOn c = (.ok v, { c with pos := 5 }) := by decide +kernel
  have hcut : CutOffAt v.elements 0 :=
    ⟨0x28, 5, .binary 0x2a 9 .missing .missing, 9, rfl, rfl, by decide, by decide⟩
  have hbare : v.elements[0]? = some (.operator 0x28 5) := rfl
  have hiff := supplied_iff_of_read hread rfl hbare rfl rfl (by decide) (by decide)
  exact ⟨hread, rfl, by decide, fun hsupplied => hiff.mp hsupplied hcut⟩

end ActiveValue

end NovelScript
