import NovelScript.CallGraph

/-! # Graphs as DOT

A call graph in the language of graph drawing tools: the edges, and then the nodes in a cluster for
each script. -/

namespace NovelScript.CallGraph

/-- A name inside quotation marks, which it must not contain. -/
def dotName (text : String) : String := text.map fun c => if c = '"' then '\'' else c

def dotNode (node : ChunkNode) : String :=
  "\"" ++ dotName node.script ++ ":" ++ toString node.chunk ++ "\""

def dotEdge (edge : ChunkNode × ChunkNode) : String :=
  "    " ++ dotNode edge.1 ++ " -> " ++ dotNode edge.2 ++ ";"

/-- The declaration of a node. -/
def dotKnown (node : ChunkNode) : String :=
  "        " ++ dotNode node ++ " [label=\"es" ++ toString node.chunk ++ "\"];"

/-- The declaration of an end of an edge that is no node. -/
def dotUnknown (node : ChunkNode) : String :=
  "        " ++ dotNode node ++ " [label=\"es" ++ toString node.chunk ++ "?\" color=red];"

/-- The ends of edges that are no nodes, each once and in order. -/
def unknownEnds (g : CallGraph) : List ChunkNode :=
  (g.edges.flatMap fun edge => [edge.1, edge.2]).foldl
    (fun ends node => if g.contains node then ends else insertOrdered ChunkNode.before node ends) []

/-- The lines of a script's cluster. A cluster without a known node is red. -/
def dotCluster (script : String) (known unknown : List ChunkNode) : List String :=
  ["    subgraph \"cluster_" ++ dotName script ++ "\" \x7b",
    "        label=\"" ++ dotName script ++ "\";"] ++
  (if known.isEmpty then ["        color=red;"]
    else ["        style=filled;", "        color=lightgrey;"]) ++
  known.map dotKnown ++ unknown.map dotUnknown ++ ["    \x7d"]

/-- The clusters of the scripts that have nodes, and then those of all others. -/
def dotClusters (g : CallGraph) : List String :=
  let unknown := g.unknownEnds
  let scripts := scriptsOf g.nodes
  let others := (scriptsOf unknown).filter fun script => !scripts.contains script
  (scripts ++ others).flatMap fun script =>
    dotCluster script (g.nodes.filter (·.script == script)) (unknown.filter (·.script == script))

/-- The lines of a graph. -/
def dotLines (g : CallGraph) : List String :=
  "digraph main \x7b" :: g.edges.map dotEdge ++ g.dotClusters ++ ["\x7d"]

/-- A graph as text. -/
def toDot (g : CallGraph) : String := String.join (g.dotLines.map (· ++ "\n"))

end NovelScript.CallGraph
