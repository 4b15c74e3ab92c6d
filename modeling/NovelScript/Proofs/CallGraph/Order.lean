import Mathlib.Data.Prod.Lex
import Mathlib.Data.String.Basic
import NovelScript.CallGraph

/-! # Order in call graphs

A graph holds each of its nodes once, in ascending order, and each of its edges. Whatever is added to a
graph keeps this so. -/

namespace NovelScript

/-- The items of a list ascend, so that each of them is there once. -/
def Ascending {α : Type} (before : α → α → Bool) (list : List α) : Prop :=
  list.Pairwise fun a b => before a b = true

section
variable {α κ : Type} [LinearOrder κ] {before : α → α → Bool} {key : α → κ} {list : List α}

/-- Where the order is that of keys, no item comes before itself. -/
theorem Ascending.nodup (hbefore : ∀ a b, before a b = true ↔ key a < key b)
    (h : Ascending before list) : list.Nodup := by
  apply h.imp
  rintro a b hab rfl
  exact lt_irrefl _ ((hbefore a a).mp hab)

/-- Where the order is that of keys, an item that is put in its place leaves the list ascending. -/
theorem Ascending.insert [BEq α] [LawfulBEq α]
    (hbefore : ∀ a b, before a b = true ↔ key a < key b) (hkey : key.Injective)
    (h : Ascending before list) (item : α) : Ascending before (insertOrdered before item list) := by
  induction list with
  | nil => exact List.pairwise_singleton _ _
  | cons other rest ih =>
    obtain ⟨hother, hrest⟩ := List.pairwise_cons.mp h
    rw [insertOrdered]
    split
    · exact h
    · rename_i hnew
      split
      · rename_i hbelow
        refine List.pairwise_cons.mpr ⟨fun b hb => ?_, h⟩
        rcases List.mem_cons.mp hb with rfl | hb
        · exact hbelow
        · rw [hbefore] at hbelow ⊢
          exact hbelow.trans ((hbefore other b).mp (hother b hb))
      · rename_i hnotBelow
        have habove : before other item = true := by
          rw [hbefore] at hnotBelow ⊢
          refine lt_of_le_of_ne (not_lt.mp hnotBelow) fun hsame => hnew ?_
          exact beq_iff_eq.mpr (hkey hsame).symm
        refine List.pairwise_cons.mpr ⟨fun b hb => ?_, ih hrest⟩
        rcases mem_insertOrdered.mp hb with rfl | hb
        · exact habove
        · exact hother b hb

/-- Items that are put in their places one after the other are all there. -/
theorem mem_foldl_insertOrdered {β : Type} [BEq α] [LawfulBEq α] {f : β → α} {items : List β}
    {a : α} : a ∈ items.foldl (fun list item => insertOrdered before (f item) list) list ↔
      a ∈ list ∨ ∃ item ∈ items, f item = a := by
  induction items generalizing list with
  | nil => simp
  | cons item items ih =>
    rw [List.foldl_cons, ih, mem_insertOrdered]
    simp only [List.mem_cons, exists_eq_or_imp]
    grind

theorem Ascending.foldl_insert {β : Type} [BEq α] [LawfulBEq α]
    (hbefore : ∀ a b, before a b = true ↔ key a < key b) (hkey : key.Injective)
    (h : Ascending before list) (f : β → α) (items : List β) :
    Ascending before (items.foldl (fun list item => insertOrdered before (f item) list) list) := by
  induction items generalizing list with
  | nil => exact h
  | cons item items ih => exact ih (h.insert hbefore hkey (f item))

end

namespace ChunkNode

/-- A node as a pair, script first. -/
def key (n : ChunkNode) : String ×ₗ Nat := toLex (n.script, n.chunk)

theorem key_injective : key.Injective := by
  intro a b h
  obtain ⟨hscript, hchunk⟩ := Prod.mk.inj (toLex.injective h)
  cases a
  cases b
  simp_all

theorem before_iff (a b : ChunkNode) : a.before b = true ↔ a.key < b.key := by
  simp [before, key, Prod.Lex.toLex_lt_toLex]

/-- An edge as a pair of pairs, its start first. -/
def edgeKey (edge : ChunkNode × ChunkNode) : (String ×ₗ Nat) ×ₗ (String ×ₗ Nat) :=
  toLex (edge.1.key, edge.2.key)

theorem edgeKey_injective : edgeKey.Injective := by
  intro a b h
  obtain ⟨hstart, hend⟩ := Prod.mk.inj (toLex.injective h)
  exact Prod.ext (key_injective hstart) (key_injective hend)

theorem edgeBefore_iff (a b : ChunkNode × ChunkNode) :
    edgeBefore a b = true ↔ edgeKey a < edgeKey b := by
  simp [edgeBefore, edgeKey, Prod.Lex.toLex_lt_toLex, before_iff, key_injective.eq_iff]

end ChunkNode

theorem Ascending.insertNode {nodes : List ChunkNode} (h : Ascending ChunkNode.before nodes)
    (node : ChunkNode) : Ascending ChunkNode.before (insertOrdered ChunkNode.before node nodes) :=
  h.insert ChunkNode.before_iff ChunkNode.key_injective node

namespace CallGraph

variable {g : CallGraph}

/-- The nodes and the edges of a graph are each there once and in order. -/
structure Ordered (g : CallGraph) : Prop where
  nodes : Ascending ChunkNode.before g.nodes
  edges : Ascending ChunkNode.edgeBefore g.edges

theorem ordered_empty : empty.Ordered := ⟨.nil, .nil⟩

theorem Ordered.addNode (h : g.Ordered) (node : ChunkNode) : (g.addNode node).Ordered :=
  ⟨h.nodes.insertNode node, h.edges⟩

theorem Ordered.addEdge (h : g.Ordered) (current : ChunkNode) (e : Edge) :
    (g.addEdge current e).Ordered :=
  ⟨h.nodes, h.edges.insert ChunkNode.edgeBefore_iff ChunkNode.edgeKey_injective _⟩

theorem Ordered.addTokens (h : g.Ordered) (s : Script) (index : Nat) (tokens : List Token) :
    (g.addTokens s index tokens).Ordered := by
  unfold CallGraph.addTokens
  generalize tokens.flatMap (·.edges s) = edges
  induction edges generalizing g with
  | nil => exact h
  | cons e edges ih => exact ih (h.addEdge (nodeOf s index) e)

theorem Ordered.addChunk (h : g.Ordered) (s : Script) (known : DataChunks) (index : Nat)
    (tokens : List Token) : (g.addChunk s known index tokens).Ordered := by
  have htokens := h.addTokens s index tokens
  unfold CallGraph.addChunk
  split
  · exact h
  · simp only
    split
    · exact (htokens.addEdge _ _).addNode _
    · exact htokens.addNode _

theorem Ordered.addPartialChunk (h : g.Ordered) (s : Script) (known : DataChunks) (index : Nat)
    (tokens : List Token) : (g.addPartialChunk s known index tokens).Ordered := by
  unfold CallGraph.addPartialChunk
  split
  · exact h
  · exact (h.addTokens s index tokens).addNode _

/-- A graph that was put together from the empty one. -/
inductive Built : CallGraph → Prop where
  | empty : Built empty
  | addNode {g : CallGraph} (node : ChunkNode) : Built g → Built (g.addNode node)
  | addEdge {g : CallGraph} (current : ChunkNode) (e : Edge) : Built g → Built (g.addEdge current e)
  | addChunk {g : CallGraph} (s : Script) (known : DataChunks) (index : Nat) (tokens : List Token) :
    Built g → Built (g.addChunk s known index tokens)
  | addPartialChunk {g : CallGraph} (s : Script) (known : DataChunks) (index : Nat)
    (tokens : List Token) : Built g → Built (g.addPartialChunk s known index tokens)

theorem Built.ordered (h : g.Built) : g.Ordered := by
  induction h with
  | empty => exact ordered_empty
  | addNode node _ ih => exact ih.addNode node
  | addEdge current e _ ih => exact ih.addEdge current e
  | addChunk s known index tokens _ ih => exact ih.addChunk s known index tokens
  | addPartialChunk s known index tokens _ ih => exact ih.addPartialChunk s known index tokens

end CallGraph

end NovelScript
