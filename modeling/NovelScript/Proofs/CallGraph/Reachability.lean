import Mathlib.Logic.Relation
import NovelScript.Proofs.CallGraph.Order

/-! # Reachable nodes

The search along the edges of a graph finds the nodes to which a path leads, and no others. At any time
each edge from a node that was seen leads to one that was seen or is in the queue, so that nothing is
missed when the queue is empty. -/

namespace NovelScript.CallGraph

variable {edges : List (ChunkNode × ChunkNode)} {seen queue : List ChunkNode}
  {node start : ChunkNode}

/-- A path of edges, of any number of them, leads from one node to another. -/
def Leads (edges : List (ChunkNode × ChunkNode)) : ChunkNode → ChunkNode → Prop :=
  Relation.ReflTransGen fun a b => (a, b) ∈ edges

theorem mem_leaving {edge : ChunkNode × ChunkNode} :
    edge ∈ leaving node edges ↔ edge ∈ edges ∧ edge.1 = node := by
  simp [leaving]

/-- Each edge from a node that was seen leads to one that was seen or waits in the queue. -/
def Followed (edges : List (ChunkNode × ChunkNode)) (seen queue : List ChunkNode) : Prop :=
  ∀ a b, (a, b) ∈ edges → a ∈ seen → b ∈ seen ∨ b ∈ queue

/-- With an empty queue no path leads out of what was seen. -/
theorem Followed.closed (h : Followed edges seen []) {a b : ChunkNode} (ha : a ∈ seen)
    (hpath : Leads edges a b) : b ∈ seen := by
  induction hpath with
  | refl => exact ha
  | tail _ hedge ih => exact (h _ _ hedge ih).resolve_right List.not_mem_nil

/-- A node that was seen before may leave the queue. -/
theorem Followed.skip (h : Followed edges seen (node :: queue)) (hseen : node ∈ seen) :
    Followed edges seen queue := by
  intro a b hedge ha
  rcases h a b hedge ha with hb | hb
  · exact .inl hb
  · rcases List.mem_cons.mp hb with rfl | hb
    · exact .inl hseen
    · exact .inr hb

/-- A node may count as seen once the ends of its edges are in the queue. -/
theorem Followed.visit (h : Followed edges seen (node :: queue)) :
    Followed edges (insertOrdered ChunkNode.before node seen)
      (queue ++ (leaving node edges).map (·.2)) := by
  intro a b hedge ha
  rw [mem_insertOrdered, List.mem_append]
  rcases mem_insertOrdered.mp ha with rfl | ha
  · exact .inr (.inr (List.mem_map.mpr ⟨(a, b), mem_leaving.mpr ⟨hedge, rfl⟩, rfl⟩))
  · rcases h a b hedge ha with hb | hb
    · exact .inl (.inr hb)
    · rcases List.mem_cons.mp hb with rfl | hb
      · exact .inl (.inl rfl)
      · exact .inr (.inl hb)

/-- The search finds the nodes to which a path leads from what was seen or is in the queue. -/
theorem mem_explore (h : Followed edges seen queue) {found : ChunkNode} :
    found ∈ explore edges seen queue ↔
      ∃ origin, (origin ∈ seen ∨ origin ∈ queue) ∧ Leads edges origin found := by
  fun_induction explore edges seen queue with
  | case1 seen =>
    constructor
    · exact fun hfound => ⟨found, .inl hfound, .refl⟩
    · rintro ⟨origin, horigin, hpath⟩
      exact h.closed (horigin.resolve_right List.not_mem_nil) hpath
  | case2 seen node queue hseen ih =>
    rw [ih (h.skip hseen)]
    constructor
    · rintro ⟨origin, horigin, hpath⟩
      exact ⟨origin, horigin.imp_right (List.mem_cons_of_mem _), hpath⟩
    · rintro ⟨origin, horigin, hpath⟩
      refine ⟨origin, ?_, hpath⟩
      rcases horigin with horigin | horigin
      · exact .inl horigin
      · rcases List.mem_cons.mp horigin with rfl | horigin
        · exact .inl hseen
        · exact .inr horigin
  | case3 seen node queue hnew ih =>
    rw [ih h.visit]
    constructor
    · rintro ⟨origin, horigin, hpath⟩
      rw [mem_insertOrdered, List.mem_append] at horigin
      rcases horigin with (rfl | hseen) | (hqueue | hnext)
      · exact ⟨origin, .inr List.mem_cons_self, hpath⟩
      · exact ⟨origin, .inl hseen, hpath⟩
      · exact ⟨origin, .inr (List.mem_cons_of_mem _ hqueue), hpath⟩
      · obtain ⟨⟨a, b⟩, hleaving, rfl⟩ := List.mem_map.mp hnext
        obtain ⟨hedge, rfl⟩ := mem_leaving.mp hleaving
        exact ⟨a, .inr List.mem_cons_self, .head hedge hpath⟩
    · rintro ⟨origin, horigin, hpath⟩
      refine ⟨origin, ?_, hpath⟩
      rw [mem_insertOrdered, List.mem_append]
      rcases horigin with hseen | hqueue
      · exact .inl (.inr hseen)
      · rcases List.mem_cons.mp hqueue with rfl | hqueue
        · exact .inl (.inl rfl)
        · exact .inr (.inl hqueue)

theorem ascending_explore (h : Ascending ChunkNode.before seen) :
    Ascending ChunkNode.before (explore edges seen queue) := by
  fun_induction explore edges seen queue with
  | case1 seen => exact h
  | case2 seen node queue _ ih => exact ih h
  | case3 seen node queue _ ih => exact ih (h.insertNode node)

/-- The nodes that are reached are those to which a path leads. -/
theorem mem_reachableFrom {g : CallGraph} :
    node ∈ g.reachableFrom start ↔ Leads g.edges start node := by
  have hstart : Followed g.edges [] [start] := fun _ _ _ ha => absurd ha List.not_mem_nil
  rw [reachableFrom, mem_explore hstart]
  simp

/-! ## Graphs by what was added to them -/

/-- What is added to a graph: a node, or the edge of a step that is taken in a chunk. -/
inductive Addition where
  | node (node : ChunkNode)
  | edge (current : ChunkNode) (e : Edge)

def add (g : CallGraph) : Addition → CallGraph
  | .node node => g.addNode node
  | .edge current e => g.addEdge current e

/-- The graph to which all this was added, one after the other. -/
def ofAdditions (additions : List Addition) : CallGraph := additions.foldl add empty

/-- An edge from one node to the other was added. -/
def Added (additions : List Addition) (a b : ChunkNode) : Prop :=
  ∃ current e, .edge current e ∈ additions ∧ e.resolve current = (a, b)

theorem mem_edges_foldl_add {additions : List Addition} {g : CallGraph} {a b : ChunkNode} :
    (a, b) ∈ (additions.foldl add g).edges ↔ (a, b) ∈ g.edges ∨ Added additions a b := by
  induction additions generalizing g with
  | nil => simp [Added]
  | cons addition additions ih =>
    rw [List.foldl_cons, ih]
    cases addition with
    | node node => simp [add, addNode, Added]
    | edge current e =>
      simp only [add, mem_edges_addEdge, Added, List.mem_cons, Addition.edge.injEq]
      grind

/-- The nodes that are reached in a graph are those to which a path of added edges leads, each of them
once and in order. -/
theorem reachableFrom_ofAdditions (additions : List Addition) (start : ChunkNode) :
    Ascending ChunkNode.before ((ofAdditions additions).reachableFrom start) ∧
      ∀ node, node ∈ (ofAdditions additions).reachableFrom start ↔
        Relation.ReflTransGen (Added additions) start node := by
  refine ⟨ascending_explore .nil, fun node => ?_⟩
  have hedges : (fun a b => (a, b) ∈ (ofAdditions additions).edges) = Added additions := by
    funext a b
    rw [ofAdditions, mem_edges_foldl_add]
    simp [empty]
  rw [mem_reachableFrom, Leads, hedges]

end NovelScript.CallGraph
