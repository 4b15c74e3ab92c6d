import NovelScript.Proofs.ActiveValue.Layers

/-! # Reading undoes encoding

Reading the code of a sequence of trees gives the trees, and reading the code of a memory operation
between its address and its value gives the operation bound to both. -/

namespace NovelScript

namespace Element

theorem Layered.not_isMemop {t : Element} (ht : Layered t) (n : Nat) :
    ∀ e ∈ t.layer n, e.isMemop = false := by
  induction ht with
  | literal value => simp [layer, isMemop]
  | @front op p x _ _ _ _ ih =>
    intro e he
    rw [layer] at he
    split at he
    · obtain rfl := List.mem_singleton.mp he
      rfl
    · rcases List.mem_cons.mp he with rfl | he
      · rfl
      · exact ih e he
  | @frontPair op p x y _ _ _ _ _ _ ihx ihy =>
    intro e he
    grind [layer, isMemop]
  | @between op p x y _ _ _ _ _ _ ihx ihy =>
    intro e he
    grind [layer, isMemop]

end Element

namespace ActiveValue

open Element

theorem layers_not_isMemop {trees : List Element} (htrees : ∀ t ∈ trees, Layered t) (n : Nat) :
    ∀ e ∈ layers n trees, e.isMemop = false := by
  intro e he
  obtain ⟨t, ht, het⟩ := List.mem_flatMap.mp he
  exact (htrees t ht).not_isMemop n e het

theorem reduce_trees {trees : List Element} (htrees : ∀ t ∈ trees, Layered t) :
    reduce (layers 255 trees) = .ok ⟨trees, none⟩ := by
  have hnone := layers_not_isMemop htrees 255
  have hcount : (layers 255 trees).countP (·.isMemop) = 0 := by
    rw [List.countP_eq_zero]
    intro e he
    simp [hnone e he]
  have hfind : (layers 255 trees).findIdx? (·.isMemop) = none := by
    rw [List.findIdx?_eq_none_iff]
    exact hnone
  have hreduce := reduceStretch_layers htrees []
  rw [List.append_nil, List.append_nil] at hreduce
  simp only [reduce, hcount, hfind, hreduce]
  rfl

/-- The value that a memory operation is bound to when `value` stands behind it. -/
def boundValue (op : UInt8) (value : Option Element) : Element :=
  if isStepByte op then .missing else value.getD .missing

theorem findIdx?_isMemop {front : List Element} {memop : Element} (back : List Element)
    (hfront : ∀ e ∈ front, e.isMemop = false) (hmemop : memop.isMemop = true) :
    (front ++ memop :: back).findIdx? (·.isMemop) = some front.length := by
  rw [List.findIdx?_append, List.findIdx?_eq_none_iff.mpr hfront, List.findIdx?_cons, hmemop]
  simp

theorem countP_isMemop {front back : List Element} {memop : Element}
    (hfront : ∀ e ∈ front, e.isMemop = false) (hmemop : memop.isMemop = true)
    (hback : ∀ e ∈ back, e.isMemop = false) :
    (front ++ memop :: back).countP (·.isMemop) = 1 := by
  have hzero : ∀ l : List Element, (∀ e ∈ l, e.isMemop = false) → l.countP (·.isMemop) = 0 := by
    intro l hl
    rw [List.countP_eq_zero]
    intro e he
    simp [hl e he]
  rw [List.countP_append, List.countP_cons, hzero front hfront, hzero back hback, hmemop]
  rfl

/-- A memory operation between bare trees is bound to the trees. -/
theorem reduce_memop {selector p₀ op p : UInt8} {address : Element} {value : Option Element}
    (haddress : Layered address) (hvalue : ∀ t ∈ value, Layered t) :
    reduce (.operator selector p₀ :: (layers 255 [address] ++
        .memop op p none .missing .missing :: layers 255 value.toList)) =
      .ok ⟨.operator selector p₀ :: address ::
        .memop op p (some selector) address (boundValue op value) :: value.toList, some 2⟩ := by
  have haddresses : ∀ t ∈ [address], Layered t := by simpa using haddress
  have hvalues : ∀ t ∈ value.toList, Layered t := by simpa using hvalue
  have hback := layers_not_isMemop hvalues 255
  have hfront : ∀ e ∈ Element.operator selector p₀ :: layers 255 [address], e.isMemop = false := by
    intro e he
    rcases List.mem_cons.mp he with rfl | he
    · rfl
    · exact layers_not_isMemop haddresses 255 e he
  have hmemop : (Element.memop op p none .missing .missing).isMemop = true := rfl
  have hnode : address.isMemop = false := by
    have := haddress.not_isMemop 0 address
    rw [haddress.layer_zero] at this
    exact this List.mem_cons_self
  have hreduceBack := reduceStretch_layers hvalues []
  have hreduceFront := reduceStretch_layers haddresses
    (.memop op p none .missing .missing :: value.toList)
  rw [List.append_nil, List.append_nil] at hreduceBack
  have hcount := countP_isMemop hfront hmemop hback
  have hindex := findIdx?_isMemop (layers 255 value.toList) hfront hmemop
  rw [List.cons_append] at hcount hindex
  have hdrop : (Element.operator selector p₀ :: (layers 255 [address] ++
      .memop op p none .missing .missing :: layers 255 value.toList)).drop
        ((Element.operator selector p₀ :: layers 255 [address]).length + 1) =
      layers 255 value.toList := by
    simp
  have htake : (Element.operator selector p₀ :: (layers 255 [address] ++
      .memop op p none .missing .missing :: layers 255 value.toList)).take
        ((Element.operator selector p₀ :: layers 255 [address]).length + 1) =
      .operator selector p₀ :: (layers 255 [address] ++ [.memop op p none .missing .missing]) := by
    simp [List.take_append]
  have hspan : (Element.operator selector p₀ :: layers 255 [address]).length - 1 =
      (layers 255 [address]).length := by simp
  have hfinal : (Element.operator selector p₀ :: address ::
      .memop op p none .missing .missing :: value.toList).findIdx? (·.isMemop) = some 2 := by
    have hpair : ∀ e ∈ [Element.operator selector p₀, address], e.isMemop = false := by
      intro e he
      rcases List.mem_cons.mp he with rfl | he
      · rfl
      · obtain rfl := List.mem_singleton.mp he
        exact hnode
    exact findIdx?_isMemop _ hpair hmemop
  simp only [reduce, hcount, hindex, hdrop, htake, hreduceBack, hspan, hreduceFront, hfinal, bind,
    Except.bind, pure, Except.pure, List.cons_append, List.append_assoc, List.nil_append,
    List.drop_succ_cons, List.drop_zero, List.take_succ_cons, List.take_zero]
  cases value with
  | none => simp [bindMemop, boundValue, operatorByte?]
  | some v => simp [bindMemop, boundValue, operatorByte?]

/-- Reading moves the cursor behind the zero byte that ends the code. -/
theorem read_of_decode {c : Cursor} (hlimit : c.limit ≤ c.view.stop) {symbols : List Symbol}
    {code rest : Bytes} (hcode : Symbol.Codes symbols code) (hrest : c.rest = code ++ 0 :: rest) :
    read.runOn c =
      (reduce (symbols.map ofSymbol), { c with pos := c.pos + code.length + 1 }) := by
  have hlength : c.rest.length = code.length + (rest.length + 1) := by
    rw [hrest]
    simp
  have hbounds := c.view.inBounds
  have hpos : c.limit - rest.length = c.pos + code.length + 1 := by
    simp only [Cursor.rest, Array.length_toList, Array.size_extract] at hlength
    simp only [View.stop] at hlimit
    omega
  simp only [Reader.runOn, read, hrest, Symbol.decode_codes hcode, hpos]

/-- Reading undoes encoding. Behind any code of layered trees, of whatever widths and pad bytes, and
the zero byte that ends it, the trees stand as the nodes of the value and nothing of it is left. The
same holds of a memory operation between an address and a value, which it is bound to. -/
theorem read_undoes_codes (c : Cursor) (hlimit : c.limit ≤ c.view.stop) (code rest : Bytes)
    (hrest : c.rest = code ++ 0 :: rest) :
    (∀ trees : List Element, (∀ t ∈ trees, Layered t) →
      Symbol.Codes (trees.flatMap symbols) code →
        read.runOn c = (.ok ⟨trees, none⟩, { c with pos := c.pos + code.length + 1 })) ∧
    (∀ (selector p₀ op p : UInt8) (address : Element) (value : Option Element),
      Layered address → (∀ t ∈ value, Layered t) →
      Symbol.Codes (.operator selector p₀ ::
        (address.symbols ++ .memop op p :: value.toList.flatMap symbols)) code →
        read.runOn c =
          (.ok ⟨.operator selector p₀ :: address ::
              .memop op p (some selector) address (boundValue op value) :: value.toList, some 2⟩,
            { c with pos := c.pos + code.length + 1 })) := by
  refine ⟨?_, ?_⟩
  · intro trees htrees hcode
    rw [read_of_decode hlimit hcode hrest, ← layers_top htrees, reduce_trees htrees]
  · intro selector p₀ op p address value haddress hvalue hcode
    have haddresses : ∀ t ∈ [address], Layered t := by simpa using haddress
    have hvalues : ∀ t ∈ value.toList, Layered t := by simpa using hvalue
    have hsymbols : (Symbol.operator selector p₀ ::
        (address.symbols ++ .memop op p :: value.toList.flatMap symbols)).map ofSymbol =
        .operator selector p₀ :: (layers 255 [address] ++
          .memop op p none .missing .missing :: layers 255 value.toList) := by
      rw [layers_top haddresses, layers_top hvalues]
      simp [ofSymbol]
    rw [read_of_decode hlimit hcode hrest, hsymbols, reduce_memop haddress hvalue]

/-- The product of the sum of three and four with two, each literal in a width of its own. The sum
binds before the product since it carries the higher precedence. -/
theorem read_sum_times :
    let c := Cursor.ofView (View.ofBytes
      [0x83, 7, 0x03, 2, 0xa0, 4, 7, 0x01, 1, 0xc0, 2, 0, 7, 0])
    read.runOn c =
      (.ok ⟨[.binary 1 1 (.binary 3 2 (.literal 3) (.literal 4)) (.literal 2)], none⟩,
        { c with pos := 14 }) := by
  intro c
  have hsum : Layered (.binary 3 2 (.literal 3) (.literal 4)) :=
    .between rfl (by decide) (.literal 3) (.literal 4) (by simp [precedences])
      (by simp [precedences])
  have htree : Layered (.binary 1 1 (.binary 3 2 (.literal 3) (.literal 4)) (.literal 2)) :=
    .between rfl (by decide) hsum (.literal 2) (by simp [precedences]) (by simp [precedences])
  have hcode : Symbol.Codes
      ([Element.binary 1 1 (.binary 3 2 (.literal 3) (.literal 4)) (.literal 2)].flatMap symbols)
      [0x83, 7, 0x03, 2, 0xa0, 4, 7, 0x01, 1, 0xc0, 2, 0, 7] :=
    .cons (.literal (.inline 0x83 7 (by decide) (by decide)))
      (.cons (.operator 2 (by decide) (by decide) (by decide))
        (.cons (.literal (.byte 0xa0 4 7 (by decide) (by decide)))
          (.cons (.operator 1 (by decide) (by decide) (by decide))
            (.cons (.literal (.pair 0xc0 2 7 (by decide) (by decide))) .nil))))
  exact (read_undoes_codes c (by decide) _ [] (by decide)).1 _ (by simpa using htree) hcode

end ActiveValue

end NovelScript
