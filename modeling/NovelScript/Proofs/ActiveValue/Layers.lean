import NovelScript.Proofs.ActiveValue.Codes

/-! # Reading values back

Trees whose operators bind by their precedences are what reduction makes of their symbols. The
proof follows the levels: the layer of a tree at a level holds its subtrees above the level as
single nodes and everything else as bare symbols, and serving the next level turns one layer into
the one below it. -/

namespace NovelScript

namespace Element

/-- The precedences of the operators of a tree. -/
def precedences : Element → List UInt8
  | .operator _ p => [p]
  | .unary _ p x => p :: x.precedences
  | .binary _ p x y => p :: (x.precedences ++ y.precedences)
  | .literal _ | .memop .. | .missing => []

/-- Trees in which operators nearer to the root bind less. Operators of equal precedence nest to
the left only, where one stands between its operands, and not at all behind each other. -/
inductive Layered : Element → Prop where
  | literal (value : Int32) : Layered (.literal value)
  | front {op p : UInt8} {x : Element} (harity : arity op = ⟨0, 1⟩) (hp : 1 ≤ p)
      (hx : Layered x) (habove : ∀ q ∈ x.precedences, p < q) : Layered (.unary op p x)
  | frontPair {op p : UInt8} {x y : Element} (harity : arity op = ⟨0, 2⟩) (hp : 1 ≤ p)
      (hx : Layered x) (hy : Layered y) (hxabove : ∀ q ∈ x.precedences, p < q)
      (hyabove : ∀ q ∈ y.precedences, p < q) : Layered (.binary op p x y)
  | between {op p : UInt8} {x y : Element} (harity : arity op = ⟨1, 1⟩) (hp : 1 ≤ p)
      (hx : Layered x) (hy : Layered y) (hxabove : ∀ q ∈ x.precedences, p ≤ q)
      (hyabove : ∀ q ∈ y.precedences, p < q) : Layered (.binary op p x y)

/-- The precedence at the root; a literal ranks above every operator. -/
def rank : Element → Nat
  | .unary _ p _ | .binary _ p _ _ => p.toNat
  | _ => 256

/-- The nodes that a tree consists of once all levels above `n` are served. -/
def layer (n : Nat) : Element → List Element
  | .unary op p x => if n < p.toNat then [.unary op p x] else .operator op p :: x.layer n
  | .binary op p x y =>
    if n < p.toNat then [.binary op p x y]
    else if (arity op).before = 0 then .operator op p :: (x.layer n ++ y.layer n)
    else x.layer n ++ .operator op p :: y.layer n
  | e => [e]

theorem layer_of_lt_rank {n : Nat} {t : Element} (h : n < t.rank) : t.layer n = [t] := by
  cases t with
  | unary op p x => simp only [layer, rank] at h ⊢; rw [if_pos h]
  | binary op p x y => simp only [layer, rank] at h ⊢; rw [if_pos h]
  | _ => rfl

theorem layer_front {n : Nat} {op p : UInt8} {x : Element} (h : p.toNat ≤ n) :
    (Element.unary op p x).layer n = .operator op p :: x.layer n := by
  rw [layer, if_neg (by omega)]

theorem layer_frontPair {n : Nat} {op p : UInt8} {x y : Element} (harity : arity op = ⟨0, 2⟩)
    (h : p.toNat ≤ n) :
    (Element.binary op p x y).layer n = .operator op p :: (x.layer n ++ y.layer n) := by
  rw [layer, if_neg (by omega), harity, if_pos rfl]

theorem layer_between {n : Nat} {op p : UInt8} {x y : Element} (harity : arity op = ⟨1, 1⟩)
    (h : p.toNat ≤ n) :
    (Element.binary op p x y).layer n = x.layer n ++ .operator op p :: y.layer n := by
  rw [layer, if_neg (by omega), harity, if_neg (by decide)]

theorem Layered.lt_rank {t : Element} (ht : Layered t) {n : Nat} (hn : n < 256)
    (h : ∀ q ∈ t.precedences, n < q.toNat) : n < t.rank := by
  cases ht with
  | literal => exact hn
  | front => exact h _ (by simp [precedences])
  | frontPair => exact h _ (by simp [precedences])
  | between => exact h _ (by simp [precedences])

/-- A tree whose operators all lie above a level is one node there. -/
theorem Layered.layer_above {t : Element} (ht : Layered t) {n : Nat} (hn : n < 256)
    (habove : ∀ q ∈ t.precedences, n < q.toNat) : t.layer n = [t] :=
  layer_of_lt_rank (ht.lt_rank hn habove)

/-- Before any level is served a tree is its bare symbols. -/
theorem Layered.layer_top {t : Element} (ht : Layered t) :
    t.layer 255 = t.symbols.map Element.ofSymbol := by
  have hbyte : ∀ p : UInt8, p.toNat ≤ 255 := fun p => Nat.le_of_lt_succ p.toNat_lt
  induction ht with
  | literal => rfl
  | @front op p x harity _ _ _ ih =>
    simp [layer_front (hbyte p), symbols, harity, ih, ofSymbol]
  | @frontPair op p x y harity _ _ _ _ _ ihx ihy =>
    simp [layer_frontPair harity (hbyte p), symbols, harity, ihx, ihy, ofSymbol]
  | @between op p x y harity _ _ _ _ _ ihx ihy =>
    simp [layer_between harity (hbyte p), symbols, harity, ihx, ihy, ofSymbol]

/-- After all levels a tree is one node. -/
theorem Layered.layer_zero {t : Element} (ht : Layered t) : t.layer 0 = [t] := by
  apply layer_of_lt_rank
  cases ht with
  | literal => exact Nat.zero_lt_succ _
  | front _ hp => exact hp
  | frontPair _ hp => exact hp
  | between _ hp => exact hp

end Element

namespace ActiveValue

open Element

/-- A node that is not of the level is passed over. -/
theorem servePass_skip {level : UInt8} {e : Element} (he : e.precedence? ≠ some level)
    {done ahead : List Element} {span : Nat} (hspan : done.length < span) :
    servePass level done span (e :: ahead) = servePass level (e :: done) span ahead := by
  rw [servePass, if_neg (by omega), if_neg he]

/-- An operator of the level takes its operands. -/
theorem servePass_serve {level op : UInt8} {done ahead : List Element} {span : Nat}
    (hspan : done.length < span) (harity : (arity op).before ≠ 0 ∨ (arity op).after ≠ 0) :
    servePass level done span (.operator op level :: ahead) =
      servePass level
        (attach op level (operandsBefore (arity op).before done ++
          operandsAfter (arity op).after ahead) :: done.drop (takenBefore (arity op).before done))
        (span - takenBefore (arity op).before done - (arity op).after)
        (ahead.drop (arity op).after) := by
  have hlevel : (Element.operator op level).precedence? = some level := rfl
  rw [servePass, if_neg (by omega), if_pos hlevel]
  simp only [operatorByte?]
  rw [if_neg (by omega)]

theorem servePass_front {level op : UInt8} (harity : arity op = ⟨0, 1⟩) {x : Element}
    {done ahead : List Element} {span : Nat} (hspan : done.length < span) :
    servePass level done span (.operator op level :: x :: ahead) =
      servePass level (.unary op level x :: done) (span - 1) ahead := by
  rw [servePass_serve hspan (by simp [harity]), harity]
  simp [operandsBefore, operandsAfter, takenBefore, suppliesBefore, attach]

theorem servePass_frontPair {level op : UInt8} (harity : arity op = ⟨0, 2⟩) {x y : Element}
    {done ahead : List Element} {span : Nat} (hspan : done.length < span) :
    servePass level done span (.operator op level :: x :: y :: ahead) =
      servePass level (.binary op level x y :: done) (span - 2) ahead := by
  rw [servePass_serve hspan (by simp [harity]), harity]
  simp [operandsBefore, operandsAfter, takenBefore, suppliesBefore, attach]

theorem servePass_between {level op : UInt8} (harity : arity op = ⟨1, 1⟩) {x y : Element}
    {done ahead : List Element} {span : Nat} (hspan : done.length + 1 < span) :
    servePass level (x :: done) span (.operator op level :: y :: ahead) =
      servePass level (.binary op level x y :: done) (span - 2) ahead := by
  rw [servePass_serve (by simpa using hspan) (by simp [harity]), harity]
  simp [operandsBefore, operandsAfter, takenBefore, suppliesBefore, attach, Nat.sub_sub]

theorem operator_precedence_ne {op p level : UInt8} (h : p.toNat < level.toNat) :
    (Element.operator op p).precedence? ≠ some level := by
  simp only [precedence?, ne_eq, Option.some.injEq]
  rintro rfl
  omega

/-- A tree above the level is one node already, and is passed over. -/
theorem servePass_whole {level : UInt8} {n : Nat} (hlevel : level.toNat = n + 1) {t : Element}
    (ht : Layered t) (hrank : n + 1 < t.rank) {done ahead : List Element} {span span' extra : Nat}
    (hspan : span = done.length + (t.layer (n + 1)).length + extra)
    (hspan' : span' = done.length + (t.layer n).length + extra) :
    servePass level done span (t.layer (n + 1) ++ ahead) =
      servePass level ((t.layer n).reverse ++ done) span' ahead := by
  have hne : t.precedence? ≠ some level := by
    intro h
    cases ht <;> simp_all [precedence?, rank]
  rw [layer_of_lt_rank hrank] at hspan ⊢
  rw [layer_of_lt_rank (Nat.lt_of_succ_lt hrank)] at hspan' ⊢
  rw [List.singleton_append, servePass_skip hne (by simp at hspan; omega), hspan, hspan']
  rfl

/-- Serving the level above `n` turns the layer of a tree at that level into the layer below. What
lies behind the tree in the stretch, `extra` nodes, stays in the stretch. -/
theorem servePass_layer {level : UInt8} {n : Nat} (hlevel : level.toNat = n + 1) {t : Element}
    (ht : Layered t) {done ahead : List Element} {span : Nat} (span' extra : Nat)
    (hspan : span = done.length + (t.layer (n + 1)).length + extra)
    (hspan' : span' = done.length + (t.layer n).length + extra) :
    servePass level done span (t.layer (n + 1) ++ ahead) =
      servePass level ((t.layer n).reverse ++ done) span' ahead := by
  have hn : n + 1 < 256 := hlevel ▸ level.toNat_lt
  -- at each node the operator waits for a lower level, is served now, or was served before
  induction ht generalizing done ahead span span' extra with
  | literal value => exact servePass_whole hlevel (.literal value) hn hspan hspan'
  | @front op p x harity hp hx habove ih =>
    rcases Nat.lt_trichotomy p.toNat (n + 1) with hlt | heq | hgt
    · rw [layer_front (by omega)] at hspan ⊢
      rw [layer_front (by omega)] at hspan' ⊢
      simp only [List.length_cons] at hspan hspan'
      rw [List.cons_append, servePass_skip (operator_precedence_ne (by omega)) (by omega),
        ih span' extra (by simp only [List.length_cons]; omega)
          (by simp only [List.length_cons]; omega)]
      simp
    · obtain rfl : p = level := UInt8.toNat_inj.mp (heq.trans hlevel.symm)
      have hxnode : x.layer (n + 1) = [x] := hx.layer_above hn (fun q hq => heq ▸ habove q hq)
      have hnode : (Element.unary op p x).layer n = [.unary op p x] :=
        layer_of_lt_rank (by simp only [rank]; omega)
      rw [layer_front (by omega), hxnode] at hspan ⊢
      rw [hnode] at hspan' ⊢
      simp only [List.length_cons, List.length_nil] at hspan hspan'
      obtain rfl : span' = span - 1 := by omega
      exact servePass_front harity (by omega)
    · exact servePass_whole hlevel (.front harity hp hx habove) hgt hspan hspan'
  | @frontPair op p x y harity hp hx hy hxabove hyabove ihx ihy =>
    rcases Nat.lt_trichotomy p.toNat (n + 1) with hlt | heq | hgt
    · rw [layer_frontPair harity (by omega)] at hspan ⊢
      rw [layer_frontPair harity (by omega)] at hspan' ⊢
      simp only [List.length_cons, List.length_append] at hspan hspan'
      rw [List.cons_append, servePass_skip (operator_precedence_ne (by omega)) (by omega),
        List.append_assoc,
        ihx (done.length + 1 + (x.layer n).length + (y.layer (n + 1)).length + extra)
          ((y.layer (n + 1)).length + extra)
          (by simp only [List.length_cons]; omega) (by simp only [List.length_cons]; omega),
        ihy span' extra
          (by simp only [List.length_cons, List.length_append, List.length_reverse]; omega)
          (by simp only [List.length_cons, List.length_append, List.length_reverse]; omega)]
      simp
    · obtain rfl : p = level := UInt8.toNat_inj.mp (heq.trans hlevel.symm)
      have hxnode : x.layer (n + 1) = [x] := hx.layer_above hn (fun q hq => heq ▸ hxabove q hq)
      have hynode : y.layer (n + 1) = [y] := hy.layer_above hn (fun q hq => heq ▸ hyabove q hq)
      have hnode : (Element.binary op p x y).layer n = [.binary op p x y] :=
        layer_of_lt_rank (by simp only [rank]; omega)
      rw [layer_frontPair harity (by omega), hxnode, hynode] at hspan ⊢
      rw [hnode] at hspan' ⊢
      simp only [List.length_cons, List.length_append, List.length_nil] at hspan hspan'
      obtain rfl : span' = span - 2 := by omega
      exact servePass_frontPair harity (by omega)
    · exact servePass_whole hlevel (.frontPair harity hp hx hy hxabove hyabove) hgt hspan hspan'
  | @between op p x y harity hp hx hy hxabove hyabove ihx ihy =>
    rcases Nat.lt_trichotomy p.toNat (n + 1) with hlt | heq | hgt
    · rw [layer_between harity (by omega)] at hspan ⊢
      rw [layer_between harity (by omega)] at hspan' ⊢
      simp only [List.length_cons, List.length_append] at hspan hspan'
      rw [List.append_assoc,
        ihx (done.length + (x.layer n).length + ((y.layer (n + 1)).length + 1 + extra))
          ((y.layer (n + 1)).length + 1 + extra) (by omega) rfl,
        List.cons_append, servePass_skip (operator_precedence_ne (by omega))
          (by simp only [List.length_append, List.length_reverse]; omega),
        ihy span' extra
          (by simp only [List.length_cons, List.length_append, List.length_reverse]; omega)
          (by simp only [List.length_cons, List.length_append, List.length_reverse]; omega)]
      simp
    · obtain rfl : p = level := UInt8.toNat_inj.mp (heq.trans hlevel.symm)
      -- operators of the same level on the left are served earlier in the pass
      have hxnode : x.layer n = [x] :=
        hx.layer_above (by omega) (fun q hq =>
          Nat.lt_of_lt_of_le (by omega) (UInt8.le_iff_toNat_le.mp (hxabove q hq)))
      have hynode : y.layer (n + 1) = [y] := hy.layer_above hn (fun q hq => heq ▸ hyabove q hq)
      have hnode : (Element.binary op p x y).layer n = [.binary op p x y] :=
        layer_of_lt_rank (by simp only [rank]; omega)
      rw [layer_between harity (by omega), hynode] at hspan ⊢
      rw [hnode] at hspan' ⊢
      simp only [List.length_cons, List.length_append, List.length_nil] at hspan hspan'
      rw [List.append_assoc,
        ihx (done.length + 1 + (2 + extra)) (2 + extra) (by omega)
          (by rw [hxnode]; rfl), hxnode, List.reverse_singleton, List.singleton_append]
      obtain rfl : span' = done.length + 1 + (2 + extra) - 2 := by omega
      exact servePass_between harity (by omega)
    · exact servePass_whole hlevel (.between harity hp hx hy hxabove hyabove) hgt hspan hspan'

/-- The nodes that a sequence of trees consists of once all levels above `n` are served. -/
def layers (n : Nat) (trees : List Element) : List Element := trees.flatMap (layer n)

theorem layers_zero {trees : List Element} (htrees : ∀ t ∈ trees, Layered t) :
    layers 0 trees = trees := by
  induction trees with
  | nil => rfl
  | cons t trees ih =>
    rw [layers, List.flatMap_cons, (htrees t List.mem_cons_self).layer_zero,
      List.singleton_append]
    exact congrArg _ (ih fun u hu => htrees u (List.mem_cons_of_mem t hu))

theorem layers_top {trees : List Element} (htrees : ∀ t ∈ trees, Layered t) :
    layers 255 trees = (trees.flatMap symbols).map ofSymbol := by
  induction trees with
  | nil => rfl
  | cons t trees ih =>
    rw [layers, List.flatMap_cons, List.flatMap_cons, List.map_append,
      (htrees t List.mem_cons_self).layer_top]
    exact congrArg _ (ih fun u hu => htrees u (List.mem_cons_of_mem t hu))

theorem servePass_layers {level : UInt8} {n : Nat} (hlevel : level.toNat = n + 1)
    {trees : List Element} (htrees : ∀ t ∈ trees, Layered t) (done ahead : List Element) :
    servePass level done (done.length + (layers (n + 1) trees).length)
        (layers (n + 1) trees ++ ahead) =
      .ok ⟨(layers n trees).reverse ++ done, ahead, done.length + (layers n trees).length⟩ := by
  induction trees generalizing done with
  | nil =>
    cases ahead with
    | nil => simp [layers, servePass]
    | cons e ahead => simp [layers, servePass]
  | cons t trees ih =>
    have ht := htrees t List.mem_cons_self
    have hcons : ∀ m, layers m (t :: trees) = t.layer m ++ layers m trees := fun _ => rfl
    rw [hcons, hcons, List.append_assoc, List.length_append, List.length_append,
      servePass_layer hlevel ht
        (((t.layer n).reverse ++ done).length + (layers (n + 1) trees).length)
        (layers (n + 1) trees).length (by omega) (by simp only [List.length_append, List.length_reverse]; omega),
      ih (fun u hu => htrees u (List.mem_cons_of_mem t hu))]
    simp only [List.length_append, List.length_reverse, List.reverse_append, List.append_assoc]
    congr 2
    omega

/-- Serving a level over a stretch of trees gives their next layer and leaves the rest alone. -/
theorem serveLevel_layers {level : UInt8} {n : Nat} (hlevel : level.toNat = n + 1)
    {trees : List Element} (htrees : ∀ t ∈ trees, Layered t) (ahead : List Element) :
    serveLevel (layers (n + 1) trees ++ ahead, (layers (n + 1) trees).length) level =
      .ok (layers n trees ++ ahead, (layers n trees).length) := by
  have h := servePass_layers hlevel htrees [] ahead
  simp only [List.length_nil, Nat.zero_add, List.append_nil] at h
  simp only [serveLevel, h]
  simp [bind, Except.bind, pure, Except.pure]

theorem foldlM_layers {trees : List Element} (htrees : ∀ t ∈ trees, Layered t)
    (ahead : List Element) {n : Nat} (hn : n < 256) :
    ((List.range n).reverse.map fun k => UInt8.ofNat (k + 1)).foldlM serveLevel
        (layers n trees ++ ahead, (layers n trees).length) =
      .ok (layers 0 trees ++ ahead, (layers 0 trees).length) := by
  induction n with
  | zero => rfl
  | succ n ih =>
    have hlevel : (UInt8.ofNat (n + 1)).toNat = n + 1 := by
      rw [UInt8.toNat_ofNat', Nat.mod_eq_of_lt hn]
    rw [List.range_succ, List.reverse_append, List.reverse_singleton, List.singleton_append,
      List.map_cons, List.foldlM_cons, serveLevel_layers hlevel htrees]
    exact ih (by omega)

/-- A stretch of bare trees reduces to the trees. -/
theorem reduceStretch_layers {trees : List Element} (htrees : ∀ t ∈ trees, Layered t)
    (ahead : List Element) :
    reduceStretch (layers 255 trees ++ ahead) (layers 255 trees).length = .ok (trees ++ ahead) := by
  unfold reduceStretch levels
  rw [foldlM_layers htrees ahead (by decide), layers_zero htrees]
  rfl

end ActiveValue

end NovelScript
