import NovelScript.Script.Listing

/-! # Call graphs

Which chunk leads to which. The nodes are event chunks of script files; an edge stands for a jump, or
for a chunk that runs on into the next one. -/

namespace NovelScript

/-- An event chunk of a script file. -/
structure ChunkNode where
  script : String
  chunk : Nat
deriving DecidableEq, Repr

namespace ChunkNode

def text (n : ChunkNode) : String := n.script ++ ":" ++ toString n.chunk

/-- Nodes are ordered by script and then by chunk. -/
def before (a b : ChunkNode) : Bool :=
  a.script < b.script || (a.script == b.script && a.chunk < b.chunk)

/-- Edges are ordered by where they start and then by where they lead to. -/
def edgeBefore (a b : ChunkNode × ChunkNode) : Bool :=
  a.1.before b.1 || (a.1 == b.1 && a.2.before b.2)

end ChunkNode

/-- The edge that a step stands for in a chunk: what the step leaves open is taken from there. -/
def Edge.resolve (e : Edge) (current : ChunkNode) : ChunkNode × ChunkNode :=
  let source := match e.source with
    | some (script, chunk) => ⟨script, chunk⟩
    | none => current
  (source, ⟨e.script.getD current.script, e.chunk.getD current.chunk⟩)

/-- The list with an item in its place; one that is there already is not put in again. -/
def insertOrdered {α : Type} [BEq α] (before : α → α → Bool) (item : α) : List α → List α
  | [] => [item]
  | other :: rest =>
    if item == other then other :: rest
    else if before item other then item :: other :: rest
    else other :: insertOrdered before item rest

theorem mem_insertOrdered {α : Type} [BEq α] [LawfulBEq α] {before : α → α → Bool} {a item : α}
    {list : List α} : a ∈ insertOrdered before item list ↔ a = item ∨ a ∈ list := by
  induction list with
  | nil => simp [insertOrdered]
  | cons other rest ih =>
    rw [insertOrdered]
    split
    · rename_i hsame
      obtain rfl := eq_of_beq hsame
      simp
    · split
      · simp
      · rw [List.mem_cons, ih, List.mem_cons]
        exact or_left_comm

/-- Nodes and edges, each once and in order. The ends of an edge need not be nodes. -/
structure CallGraph where
  nodes : List ChunkNode
  edges : List (ChunkNode × ChunkNode)
deriving DecidableEq, Repr

/-- Some numbers about a graph. -/
structure GraphStats where
  nodes : Nat
  edges : Nat
  scripts : Nat
  /-- Edges of which an end is no node. -/
  dangling : Nat
deriving DecidableEq, Repr

namespace CallGraph

/-- The graph without nodes and edges. -/
def empty : CallGraph := ⟨[], []⟩

def addNode (g : CallGraph) (node : ChunkNode) : CallGraph :=
  { g with nodes := insertOrdered ChunkNode.before node g.nodes }

/-- Adds the edge of a step that is taken in a chunk. -/
def addEdge (g : CallGraph) (current : ChunkNode) (e : Edge) : CallGraph :=
  { g with edges := insertOrdered ChunkNode.edgeBefore (e.resolve current) g.edges }

theorem mem_edges_addEdge {g : CallGraph} {current : ChunkNode} {e : Edge}
    {edge : ChunkNode × ChunkNode} :
    edge ∈ (g.addEdge current e).edges ↔ edge = e.resolve current ∨ edge ∈ g.edges :=
  mem_insertOrdered

def contains (g : CallGraph) (node : ChunkNode) : Bool := g.nodes.contains node

/-- The node of a chunk of a script file. -/
def nodeOf (s : Script) (index : Nat) : ChunkNode := ⟨Text.lower s.name, index⟩

/-- Adds the edges of tokens. -/
def addTokens (g : CallGraph) (s : Script) (index : Nat) (tokens : List Token) : CallGraph :=
  (tokens.flatMap (·.edges s)).foldl (fun g e => g.addEdge (nodeOf s index) e) g

/-- Whether a chunk runs on into the next one: its last token does not end it, and the next chunk
is there and holds code. -/
def fallsThrough (s : Script) (known : DataChunks) (index : Nat) (tokens : List Token) : Bool :=
  !known.contains (index + 1) && !(tokens.getLast?.any (·.endsChunk)) &&
    index + 1 < s.events.length

/-- Adds a chunk that could be read, unless it is known to hold data. -/
def addChunk (g : CallGraph) (s : Script) (known : DataChunks) (index : Nat)
    (tokens : List Token) : CallGraph :=
  if known.contains index then g
  else
    let g := g.addTokens s index tokens
    let g :=
      if fallsThrough s known index tokens then g.addEdge (nodeOf s index) (.toChunk (index + 1))
      else g
    g.addNode (nodeOf s index)

/-- Adds a chunk of which only the tokens in front could be read. -/
def addPartialChunk (g : CallGraph) (s : Script) (known : DataChunks) (index : Nat)
    (tokens : List Token) : CallGraph :=
  if known.contains index then g
  else (g.addTokens s index tokens).addNode (nodeOf s index)

/-- The scripts of nodes, each once and in order. -/
def scriptsOf (nodes : List ChunkNode) : List String :=
  nodes.foldl (fun scripts node => insertOrdered (fun a b => decide (a < b)) node.script scripts) []

/-- The nodes by script. -/
def byScript (g : CallGraph) : List (String × List ChunkNode) :=
  (scriptsOf g.nodes).map fun script => (script, g.nodes.filter (·.script == script))

/-- The edges that start at a node. -/
def leaving (node : ChunkNode) (edges : List (ChunkNode × ChunkNode)) :
    List (ChunkNode × ChunkNode) :=
  edges.filter fun edge => edge.1 == node

/-- The edges that start at a node that was not seen yet. -/
def ahead (seen : List ChunkNode) (edges : List (ChunkNode × ChunkNode)) :
    List (ChunkNode × ChunkNode) :=
  edges.filter fun edge => !seen.contains edge.1

/-- Once a node is seen, the edges that leave it are no longer ahead. -/
theorem length_ahead_insertOrdered {node : ChunkNode} {seen : List ChunkNode}
    (hnew : node ∉ seen) (edges : List (ChunkNode × ChunkNode)) :
    (ahead (insertOrdered ChunkNode.before node seen) edges).length +
      (leaving node edges).length = (ahead seen edges).length := by
  induction edges with
  | nil => rfl
  | cons edge rest ih =>
    simp only [ahead, leaving, List.filter_cons, List.contains_eq_mem, mem_insertOrdered,
      Bool.decide_or, Bool.not_or] at ih ⊢
    by_cases hnode : edge.1 = node
    · simp [hnode, hnew]
      omega
    · by_cases hseen : edge.1 ∈ seen <;> simp [hnode, hseen] <;> omega

/-- Follows edges from the nodes in the queue. A node counts as seen when its turn comes; until
then it may be in the queue more than once. -/
def explore (edges : List (ChunkNode × ChunkNode)) (seen : List ChunkNode) :
    (queue : List ChunkNode) → List ChunkNode
  | [] => seen
  | node :: queue =>
    if node ∈ seen then explore edges seen queue
    else
      explore edges (insertOrdered ChunkNode.before node seen)
        (queue ++ (leaving node edges).map (·.2))
termination_by queue => (ahead seen edges).length + queue.length
decreasing_by
  · simp
  · have := length_ahead_insertOrdered ‹node ∉ seen› edges
    simp only [List.length_append, List.length_map, List.length_cons]
    omega

/-- The nodes that can be reached from one along edges, itself among them. -/
def reachableFrom (g : CallGraph) (start : ChunkNode) : List ChunkNode :=
  explore g.edges [] [start]

/-- Whether an end of an edge is no node. -/
def isDangling (g : CallGraph) (edge : ChunkNode × ChunkNode) : Bool :=
  !g.contains edge.1 || !g.contains edge.2

def stats (g : CallGraph) : GraphStats where
  nodes := g.nodes.length
  edges := g.edges.length
  scripts := (scriptsOf g.nodes).length
  dangling := g.edges.countP g.isDangling

end CallGraph

end NovelScript
