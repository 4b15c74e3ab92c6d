import Mathlib.Data.List.Nodup
import NovelScript.CallGraph.Dot
import NovelScript.Proofs.CallGraph.Order

/-! # Drawn graphs

The drawing of a graph has one cluster for each script, and in it one line for each node of the script
and for each end of an edge that is no node. Names that hold neither quotation marks nor line breaks
stand in the drawing as they are, so that its lines can be told apart. -/

namespace NovelScript

/-- The pieces of a text between its line breaks. -/
def Text.linesOf (text : String) : List String :=
  (text.toList.splitOn '\n').map String.ofList

/-- Lines that are each followed by a line break are the lines of their text. -/
theorem Text.linesOf_join {lines : List String} (h : ∀ line ∈ lines, '\n' ∉ line.toList) :
    linesOf (String.join (lines.map (· ++ "\n"))) = lines ++ [""] := by
  have hsplit : (String.join (lines.map (· ++ "\n"))).toList.splitOn '\n' =
      lines.map String.toList ++ [[]] := by
    induction lines with
    | nil => rfl
    | cons line lines ih =>
      have hline := h line List.mem_cons_self
      have hrest := ih fun other hother => h other (List.mem_cons_of_mem _ hother)
      have hchars : (String.join ((line :: lines).map (· ++ "\n"))).toList =
          line.toList ++ '\n' :: (String.join (lines.map (· ++ "\n"))).toList := by
        simp
      rw [hchars, List.splitOn_append_cons_self_of_not_mem hline, hrest]
      rfl
  rw [linesOf, hsplit, List.map_append, List.map_map]
  simp [Function.comp_def]

/-- What stands in front of the first mark, and what stands behind it. -/
theorem append_cons_inj_of_not_mem {α : Type} {mark : α} {a b x y : List α} (ha : mark ∉ a)
    (hb : mark ∉ b) (h : a ++ mark :: x = b ++ mark :: y) : a = b ∧ x = y := by
  induction a generalizing b with
  | nil =>
    cases b with
    | nil => exact ⟨rfl, (List.cons.inj h).2⟩
    | cons first b => exact absurd ((List.cons.inj h).1 ▸ List.mem_cons_self) hb
  | cons first a ih =>
    cases b with
    | nil => exact absurd ((List.cons.inj h).1 ▸ List.mem_cons_self) ha
    | cons other b =>
      obtain ⟨rfl, hrest⟩ := List.cons.inj h
      obtain ⟨rfl, rfl⟩ := ih (fun hmem => ha (List.mem_cons_of_mem _ hmem))
        (fun hmem => hb (List.mem_cons_of_mem _ hmem)) hrest
      exact ⟨rfl, rfl⟩

/-- In the digits of a number there are digits only. -/
theorem not_mem_toDigits {c : Char} (hc : c.isDigit = false) (n : Nat) :
    c ∉ Nat.toDigits 10 n := by
  intro hmem
  have hdigit := Nat.isDigit_of_mem_toDigits (by decide) (by decide) hmem
  rw [hc] at hdigit
  cases hdigit

namespace ChunkNode

/-- The name of a node inside quotation marks. -/
def quoted (n : ChunkNode) : String := "\"" ++ n.text ++ "\""

/-- A name that stands in a drawing as it is. -/
def Plain (name : String) : Prop := '"' ∉ name.toList ∧ '\n' ∉ name.toList

variable {a b : ChunkNode}

/-- The last colon of a node's name stands in front of the number of its chunk. -/
theorem text_injective : text.Injective := by
  intro a b h
  have hchars : a.script.toList ++ ':' :: (toString a.chunk).toList =
      b.script.toList ++ ':' :: (toString b.chunk).toList := by
    simpa [text] using congrArg String.toList h
  have hreverse := congrArg List.reverse hchars
  simp only [List.reverse_append, List.reverse_cons, List.append_assoc, List.singleton_append]
    at hreverse
  have hdigits (n : Nat) : ':' ∉ (toString n).toList.reverse := by
    simpa using not_mem_toDigits rfl n
  obtain ⟨hchunk, hscript⟩ := append_cons_inj_of_not_mem (hdigits _) (hdigits _) hreverse
  have hchunk : a.chunk = b.chunk := by
    have hvalue := congrArg (Nat.ofDigitChars 10 · 0) (List.reverse_inj.mp hchunk)
    simpa [Nat.toString_eq_ofList_toDigits] using hvalue
  have hscript := String.toList_inj.mp (List.reverse_inj.mp hscript)
  cases a
  cases b
  simp_all

theorem Plain.text (h : Plain a.script) : Plain a.text := by
  have hquote := not_mem_toDigits (show '"'.isDigit = false from rfl) a.chunk
  have hbreak := not_mem_toDigits (show '\n'.isDigit = false from rfl) a.chunk
  simp [Plain, ChunkNode.text, h.1, h.2, hquote, hbreak]

/-- The quoted name of a node can be told from what follows it. -/
theorem quoted_append_inj (ha : Plain a.script) (hb : Plain b.script) {x y : List Char}
    (h : a.quoted.toList ++ x = b.quoted.toList ++ y) : a = b ∧ x = y := by
  have hchars : a.text.toList ++ '"' :: x = b.text.toList ++ '"' :: y := by
    simpa [quoted] using h
  obtain ⟨htext, hrest⟩ := append_cons_inj_of_not_mem ha.text.1 hb.text.1 hchars
  exact ⟨text_injective (String.toList_inj.mp htext), hrest⟩

end ChunkNode

namespace CallGraph

open ChunkNode

variable {g : CallGraph} {node : ChunkNode} {script : String}

/-- A node of the graph, or an end of one of its edges. -/
def Mentions (g : CallGraph) (node : ChunkNode) : Prop :=
  node ∈ g.nodes ∨ ∃ edge ∈ g.edges, node = edge.1 ∨ node = edge.2

instance (g : CallGraph) (node : ChunkNode) : Decidable (g.Mentions node) :=
  inferInstanceAs (Decidable (_ ∨ _))

/-- The line of an edge. -/
def edgeLine (edge : ChunkNode × ChunkNode) : String :=
  "    " ++ edge.1.quoted ++ " -> " ++ edge.2.quoted ++ ";"

/-- The line that declares a node. What is no node of the graph is red and has a question mark. -/
def declaration (g : CallGraph) (node : ChunkNode) : String :=
  "        " ++ node.quoted ++
    if node ∈ g.nodes then " [label=\"es" ++ toString node.chunk ++ "\"];"
    else " [label=\"es" ++ toString node.chunk ++ "?\" color=red];"

/-- The line declares the node, whatever it says of it. -/
def declares (node : ChunkNode) (line : String) : Bool :=
  ("        " ++ node.quoted ++ " [").toList.isPrefixOf line.toList

/-- The lines of a cluster around inner lines. -/
def clusterOf (script : String) (inner : List String) : List String :=
  ("    subgraph \"cluster_" ++ script ++ "\" \x7b") :: inner ++ ["    \x7d"]

/-! ## Scripts and ends -/

theorem mem_scriptsOf {nodes : List ChunkNode} :
    script ∈ scriptsOf nodes ↔ ∃ node ∈ nodes, node.script = script := by
  rw [scriptsOf, mem_foldl_insertOrdered]
  simp

theorem nodup_scriptsOf (nodes : List ChunkNode) : (scriptsOf nodes).Nodup := by
  have hbefore (a b : String) : decide (a < b) = true ↔ id a < id b := decide_eq_true_iff
  exact (Ascending.foldl_insert hbefore Function.injective_id .nil _ nodes).nodup hbefore

theorem unknownEnds_eq (g : CallGraph) :
    g.unknownEnds = ((g.edges.flatMap fun edge => [edge.1, edge.2]).filter (!g.contains ·)).foldl
      (fun ends node => insertOrdered ChunkNode.before node ends) [] := by
  rw [unknownEnds, List.foldl_filter]
  congr 1
  funext ends node
  cases g.contains node <;> rfl

theorem mem_unknownEnds : node ∈ g.unknownEnds ↔
    node ∉ g.nodes ∧ ∃ edge ∈ g.edges, node = edge.1 ∨ node = edge.2 := by
  rw [unknownEnds_eq]
  refine (mem_foldl_insertOrdered (f := id)).trans ?_
  simp [contains, and_comm]

theorem nodup_unknownEnds (g : CallGraph) : g.unknownEnds.Nodup := by
  rw [unknownEnds_eq]
  exact (Ascending.foldl_insert before_iff key_injective .nil id _).nodup before_iff

/-- A node of the graph is no unknown end, and one or the other is whatever is mentioned. -/
theorem mentions_iff : g.Mentions node ↔ node ∈ g.nodes ∨ node ∈ g.unknownEnds := by
  rw [Mentions, mem_unknownEnds]
  by_cases h : node ∈ g.nodes <;> simp [h]

/-! ## Lines -/

theorem dotName_of_plain (h : Plain script) : dotName script = script := by
  apply String.toList_inj.mp
  rw [dotName, String.toList_map]
  refine (List.map_congr_left fun c hc => ?_).trans (List.map_id _)
  have hquote : c ≠ '"' := fun hquote => h.1 (hquote ▸ hc)
  exact if_neg hquote

theorem dotNode_of_plain (h : Plain node.script) : dotNode node = node.quoted := by
  rw [dotNode, dotName_of_plain h, quoted, ChunkNode.text]
  simp [String.append_assoc]

/-- The inner lines of a cluster: what it is called and looks like, and its declarations. -/
def innerLines (g : CallGraph) (script : String) : List String :=
  ("        label=\"" ++ dotName script ++ "\";") ::
  ((if (g.nodes.filter (·.script == script)).isEmpty then ["        color=red;"]
    else ["        style=filled;", "        color=lightgrey;"]) ++
  (g.nodes.filter (·.script == script)).map dotKnown ++
  (g.unknownEnds.filter (·.script == script)).map dotUnknown)

/-- The scripts that have a cluster. -/
def drawnScripts (g : CallGraph) : List String :=
  scriptsOf g.nodes ++
    (scriptsOf g.unknownEnds).filter fun script => !(scriptsOf g.nodes).contains script

theorem mem_drawnScripts :
    script ∈ g.drawnScripts ↔ ∃ node, g.Mentions node ∧ node.script = script := by
  simp only [drawnScripts, List.mem_append, List.mem_filter, mem_scriptsOf, mentions_iff,
    Bool.not_eq_true', List.contains_eq_mem, decide_eq_false_iff_not]
  grind

theorem nodup_drawnScripts (g : CallGraph) : g.drawnScripts.Nodup := by
  refine List.nodup_append.mpr ⟨nodup_scriptsOf _, (nodup_scriptsOf _).filter _, ?_⟩
  rintro script hknown _ hother rfl
  simp [hknown] at hother

/-- The names of all scripts that a graph mentions are plain. -/
def PlainNames (g : CallGraph) : Prop := ∀ node, g.Mentions node → Plain node.script

section
variable (hnames : g.PlainNames)
include hnames

theorem plain_of_mem_edges {edge : ChunkNode × ChunkNode} (h : edge ∈ g.edges) :
    Plain edge.1.script ∧ Plain edge.2.script :=
  ⟨hnames _ (.inr ⟨edge, h, .inl rfl⟩), hnames _ (.inr ⟨edge, h, .inr rfl⟩)⟩

theorem plain_of_mem_drawnScripts (h : script ∈ g.drawnScripts) : Plain script := by
  obtain ⟨node, hnode, rfl⟩ := mem_drawnScripts.mp h
  exact hnames node hnode

theorem dotLines_eq : g.dotLines =
    "digraph main \x7b" :: g.edges.map edgeLine ++
      g.drawnScripts.flatMap (fun script => clusterOf script (g.innerLines script)) ++
      ["\x7d"] := by
  have hedges : g.edges.map dotEdge = g.edges.map edgeLine := by
    refine List.map_congr_left fun edge hedge => ?_
    obtain ⟨hstart, hend⟩ := plain_of_mem_edges hnames hedge
    rw [dotEdge, dotNode_of_plain hstart, dotNode_of_plain hend, edgeLine]
  have hclusters : g.dotClusters =
      g.drawnScripts.flatMap fun script => clusterOf script (g.innerLines script) := by
    change g.drawnScripts.flatMap _ = _
    refine List.flatMap_congr fun script hscript => ?_
    have hplain := dotName_of_plain (plain_of_mem_drawnScripts hnames hscript)
    simp [dotCluster, clusterOf, innerLines, hplain]
  rw [dotLines, hedges, hclusters]

end

/-! ### No line has a line break inside -/

theorem not_mem_quoted (h : Plain node.script) : '\n' ∉ node.quoted.toList := by
  simp [quoted, h.text.2]

theorem not_mem_edgeLine {edge : ChunkNode × ChunkNode} (hstart : Plain edge.1.script)
    (hend : Plain edge.2.script) : '\n' ∉ (edgeLine edge).toList := by
  simp [edgeLine, not_mem_quoted hstart, not_mem_quoted hend]

theorem not_mem_innerLines (h : Plain script) {line : String} (hline : line ∈ g.innerLines script) :
    '\n' ∉ line.toList := by
  have hdigits (n : Nat) : '\n' ∉ Nat.toDigits 10 n := not_mem_toDigits rfl n
  have hquoted {node : ChunkNode} (hnode : node.script = script) :
      '\n' ∉ (CallGraph.dotNode node).toList := by
    rw [dotNode_of_plain (hnode ▸ h)]
    exact not_mem_quoted (hnode ▸ h)
  simp only [innerLines, dotName_of_plain h, List.mem_cons, List.mem_append, List.mem_map,
    List.mem_filter, beq_iff_eq] at hline
  rcases hline with rfl | (hstyle | ⟨node, ⟨-, hnode⟩, rfl⟩) | ⟨node, ⟨-, hnode⟩, rfl⟩
  · simp [h.2]
  · split at hstyle <;> simp at hstyle <;> rcases hstyle with rfl | rfl <;> simp
  · simp [dotKnown, hquoted hnode, hdigits]
  · simp [dotUnknown, hquoted hnode, hdigits]

/-! ### Which lines declare a node -/

/-- A line that declares a node is indented by eight blanks and goes on with a quotation mark. -/
theorem chars_of_declares {line : String} (h : declares node line = true) :
    line.toList[4]? = some ' ' ∧ line.toList[8]? = some '"' := by
  rw [declares, List.isPrefixOf_iff_prefix] at h
  obtain ⟨rest, hrest⟩ := h
  rw [← hrest]
  simp [quoted]

theorem not_declares {line : String} (h : line.toList[4]? ≠ some ' ' ∨ line.toList[8]? ≠ some '"') :
    declares node line = false :=
  eq_false_of_ne_true fun hdeclares =>
    h.elim (· (chars_of_declares hdeclares).1) (· (chars_of_declares hdeclares).2)

/-- A line that declares one node declares no other. -/
theorem declares_append {other : ChunkNode} {attributes : String} (h : Plain node.script)
    (hother : Plain other.script) (hattributes : " [".toList <+: attributes.toList) :
    declares node ("        " ++ other.quoted ++ attributes) = (other == node) := by
  rw [Bool.eq_iff_iff, declares, List.isPrefixOf_iff_prefix, beq_iff_eq]
  simp only [String.toList_append, List.append_assoc]
  constructor
  · rintro ⟨rest, hrest⟩
    simp only [List.append_assoc] at hrest
    exact (quoted_append_inj h hother (List.append_cancel_left hrest)).1.symm
  · rintro rfl
    exact (List.prefix_append_right_inj _).mpr ((List.prefix_append_right_inj _).mpr hattributes)

theorem declares_dotKnown {other : ChunkNode} (h : Plain node.script)
    (hother : Plain other.script) : declares node (dotKnown other) = (other == node) := by
  have hline : dotKnown other = "        " ++ other.quoted ++
      (" [label=\"es" ++ (toString other.chunk ++ "\"];")) := by
    simp [dotKnown, dotNode_of_plain hother, String.append_assoc]
  rw [hline, declares_append h hother (by simp)]

theorem declares_dotUnknown {other : ChunkNode} (h : Plain node.script)
    (hother : Plain other.script) : declares node (dotUnknown other) = (other == node) := by
  have hline : dotUnknown other = "        " ++ other.quoted ++
      (" [label=\"es" ++ (toString other.chunk ++ "?\" color=red];")) := by
    simp [dotUnknown, dotNode_of_plain hother, String.append_assoc]
  rw [hline, declares_append h hother (by simp)]

/-- Of the lines that stand for nodes of a script, one declares a node of them, and none another. -/
theorem filter_declares_map (line : ChunkNode → String) (nodes : List ChunkNode)
    (hline : ∀ other ∈ nodes, declares node (line other) = (other == node)) (hnodup : nodes.Nodup) :
    (nodes.map line).filter (declares node) = if node ∈ nodes then [line node] else [] := by
  have hfilter : nodes.filter (declares node ∘ line) = nodes.filter (· == node) :=
    List.filter_congr hline
  rw [List.filter_map, hfilter, List.filter_beq]
  split
  · rename_i hmem
    rw [List.count_eq_one_of_mem hnodup hmem]
    rfl
  · rename_i hmem
    rw [List.count_eq_zero_of_not_mem hmem]
    rfl

/-- A list in which one item stands for something, and the others for nothing. -/
theorem flatMap_ite_eq {α β : Type} [DecidableEq α] {items : List α} {item : α}
    (hnodup : items.Nodup) (hmem : item ∈ items) (found : List β) :
    (items.flatMap fun other => if other = item then found else []) = found := by
  induction items with
  | nil => cases hmem
  | cons first items ih =>
    obtain ⟨hfirst, hrest⟩ := List.nodup_cons.mp hnodup
    rw [List.flatMap_cons]
    rcases List.mem_cons.mp hmem with rfl | hmem
    · have hothers : (items.flatMap fun other => if other = item then found else []) = [] :=
        List.flatMap_eq_nil_iff.mpr fun other hother =>
          if_neg fun (hsame : other = item) => hfirst (hsame ▸ hother)
      rw [if_pos rfl, hothers, List.append_nil]
    · rw [if_neg fun (hsame : first = item) => hfirst (hsame ▸ hmem), List.nil_append,
        ih hrest hmem]

theorem declaration_of_mem (h : Plain node.script) (hmem : node ∈ g.nodes) :
    g.declaration node = dotKnown node := by
  simp [declaration, dotKnown, dotNode_of_plain h, hmem, String.append_assoc]

theorem declaration_of_not_mem (h : Plain node.script) (hmem : node ∉ g.nodes) :
    g.declaration node = dotUnknown node := by
  simp [declaration, dotUnknown, dotNode_of_plain h, hmem, String.append_assoc]

section
variable (hordered : g.Ordered) (hnames : g.PlainNames) (hnode : g.Mentions node)
include hordered hnames hnode

/-- Of the lines of a cluster, one declares a node that belongs to its script, and none another. -/
theorem filter_declares_innerLines (script : String) :
    (g.innerLines script).filter (declares node) =
      if script = node.script then [g.declaration node] else [] := by
  have hplain := hnames node hnode
  have hknown := filter_declares_map dotKnown (g.nodes.filter (·.script == script))
    (fun other hother => declares_dotKnown hplain (hnames other (.inl (List.mem_filter.mp hother).1)))
    ((hordered.nodes.nodup before_iff).filter _)
  have hunknown := filter_declares_map dotUnknown (g.unknownEnds.filter (·.script == script))
    (fun other hother => declares_dotUnknown hplain
      (hnames other (mentions_iff.mpr (.inr (List.mem_filter.mp hother).1))))
    (g.nodup_unknownEnds.filter _)
  have hlabel : declares node ("        label=\"" ++ dotName script ++ "\";") = false :=
    not_declares (.inr (by simp))
  have hstyle (isRed : Bool) : (if isRed then ["        color=red;"]
      else ["        style=filled;", "        color=lightgrey;"]).filter (declares node) = [] := by
    cases isRed <;> simp [not_declares]
  rw [innerLines, List.filter_cons_of_neg (by simp [hlabel]), List.filter_append,
    List.filter_append, hstyle, hknown, hunknown]
  simp only [List.mem_filter, beq_iff_eq, eq_comm (a := node.script), List.nil_append]
  by_cases hscript : script = node.script
  · by_cases hmem : node ∈ g.nodes
    · have hunknown : node ∉ g.unknownEnds := fun h => (mem_unknownEnds.mp h).1 hmem
      simp [hscript, hmem, hunknown, declaration_of_mem hplain hmem]
    · have hunknown : node ∈ g.unknownEnds := (mentions_iff.mp hnode).resolve_left hmem
      simp [hscript, hmem, hunknown, declaration_of_not_mem hplain hmem]
  · simp [hscript]

/-- In the whole drawing one line declares a node that is mentioned. -/
theorem filter_declares_dotLines : g.dotLines.filter (declares node) = [g.declaration node] := by
  have hcluster (script : String) : (clusterOf script (g.innerLines script)).filter (declares node) =
      if script = node.script then [g.declaration node] else [] := by
    have hopening : declares node ("    subgraph \"cluster_" ++ script ++ "\" \x7b") = false :=
      not_declares (.inl (by simp))
    have hclosing : declares node "    \x7d" = false := not_declares (.inl (by simp))
    rw [clusterOf, List.cons_append, List.filter_cons_of_neg (by simp [hopening]),
      List.filter_append, filter_declares_innerLines hordered hnames hnode]
    simp [hclosing]
  have hedges : (g.edges.map edgeLine).filter (declares node) = [] := by
    refine List.filter_eq_nil_iff.mpr fun line hline => ?_
    obtain ⟨edge, -, rfl⟩ := List.mem_map.mp hline
    simp [not_declares (.inl (show (edgeLine edge).toList[4]? ≠ some ' ' by simp [edgeLine, quoted]))]
  have hfirst : declares node "digraph main \x7b" = false := not_declares (.inl (by simp))
  have hlast : declares node "\x7d" = false := not_declares (.inl (by simp))
  have honce : g.drawnScripts.flatMap (fun script =>
      if script = node.script then [g.declaration node] else []) = [g.declaration node] :=
    flatMap_ite_eq g.nodup_drawnScripts (mem_drawnScripts.mpr ⟨node, hnode, rfl⟩) _
  rw [dotLines_eq hnames, List.cons_append, List.cons_append,
    List.filter_cons_of_neg (by simp [hfirst]), List.filter_append, List.filter_append, hedges,
    List.filter_flatMap]
  simp only [hcluster, honce]
  simp [hlast]

end

/-! ## The drawing -/

theorem indented_innerLines {line : String} (hline : line ∈ g.innerLines script) :
    "        ".toList <+: line.toList := by
  simp only [innerLines, List.mem_cons, List.mem_append, List.mem_map] at hline
  rcases hline with rfl | (hstyle | ⟨node, -, rfl⟩) | ⟨node, -, rfl⟩
  · simp
  · split at hstyle <;> simp at hstyle <;> rcases hstyle with rfl | rfl <;> simp
  · simp [dotKnown]
  · simp [dotUnknown]

theorem nodup_edgeLines (hordered : g.Ordered) (hnames : g.PlainNames) :
    (g.edges.map edgeLine).Nodup := by
  refine List.Nodup.map_on (fun a ha b hb hline => ?_) (hordered.edges.nodup edgeBefore_iff)
  obtain ⟨hastart, haend⟩ := plain_of_mem_edges hnames ha
  obtain ⟨hbstart, hbend⟩ := plain_of_mem_edges hnames hb
  have hchars := congrArg String.toList hline
  simp only [edgeLine, String.toList_append, List.append_assoc] at hchars
  obtain ⟨hstart, hrest⟩ :=
    quoted_append_inj hastart hbstart (List.append_cancel_left hchars)
  obtain ⟨hend, -⟩ := quoted_append_inj haend hbend (List.append_cancel_left hrest)
  exact Prod.ext hstart hend

theorem linesOf_toDot (hnames : g.PlainNames) : Text.linesOf g.toDot = g.dotLines ++ [""] := by
  refine Text.linesOf_join fun line hline => ?_
  rw [dotLines_eq hnames] at hline
  simp only [List.cons_append, List.mem_cons, List.mem_append, List.mem_map, List.mem_flatMap,
    clusterOf, List.not_mem_nil, or_false] at hline
  rcases hline with rfl | (⟨edge, hedge, rfl⟩ | ⟨script, hscript, rfl | hinner | rfl⟩) | rfl
  · simp
  · obtain ⟨hstart, hend⟩ := plain_of_mem_edges hnames hedge
    exact not_mem_edgeLine hstart hend
  · simp [(plain_of_mem_drawnScripts hnames hscript).2]
  · exact not_mem_innerLines (plain_of_mem_drawnScripts hnames hscript) hinner
  · simp
  · simp

/-- The lines of a drawing are those of the edges, one for each, and then those of the clusters, one
for each script. Each node that is mentioned is declared in one line, which stands in the cluster of its
script and says whether it is a node of the graph. -/
theorem toDot_declares_once (hbuilt : g.Built)
    (hnames : ∀ node, g.Mentions node → Plain node.script) :
    ∃ clusters : List (String × List String),
      Text.linesOf g.toDot = "digraph main \x7b" :: g.edges.map edgeLine ++
        clusters.flatMap (fun cluster => clusterOf cluster.1 cluster.2) ++ ["\x7d", ""] ∧
      (g.edges.map edgeLine).Nodup ∧
      (clusters.map (·.1)).Nodup ∧
      (∀ script, script ∈ clusters.map (·.1) ↔ ∃ node, g.Mentions node ∧ node.script = script) ∧
      (∀ cluster ∈ clusters, ∀ line ∈ cluster.2, "        ".toList <+: line.toList) ∧
      ∀ node, g.Mentions node →
        (Text.linesOf g.toDot).filter (declares node) = [g.declaration node] ∧
        ∃ inner, (node.script, inner) ∈ clusters ∧ g.declaration node ∈ inner := by
  have hordered := hbuilt.ordered
  have hscripts : (g.drawnScripts.map fun script => (script, g.innerLines script)).map (·.1) =
      g.drawnScripts := by
    simp [Function.comp_def]
  refine ⟨g.drawnScripts.map fun script => (script, g.innerLines script), ?_,
    nodup_edgeLines hordered hnames, ?_, ?_, ?_, fun node hnode => ⟨?_, ?_⟩⟩
  · rw [linesOf_toDot hnames, dotLines_eq hnames, List.flatMap_map]
    simp
  · rw [hscripts]
    exact g.nodup_drawnScripts
  · rw [hscripts]
    exact fun script => mem_drawnScripts
  · intro cluster hcluster line hline
    obtain ⟨script, -, rfl⟩ := List.mem_map.mp hcluster
    exact indented_innerLines hline
  · have hempty : declares node "" = false := not_declares (.inl (by simp))
    rw [linesOf_toDot hnames, List.filter_append, filter_declares_dotLines hordered hnames hnode]
    simp [hempty]
  · have hdeclared := filter_declares_innerLines hordered hnames hnode node.script
    rw [if_pos rfl] at hdeclared
    have hmem : g.declaration node ∈ (g.innerLines node.script).filter (declares node) := by
      rw [hdeclared]
      exact List.mem_singleton_self _
    exact ⟨_, List.mem_map.mpr ⟨_, mem_drawnScripts.mpr ⟨node, hnode, rfl⟩, rfl⟩,
      (List.mem_filter.mp hmem).1⟩

/-- In a script a chunk that was read leads to one that was not, and to another script: both ends are
declared in the clusters of their scripts, red and with a question mark. -/
theorem toDot_declares_unknown_ends :
    let g := ((empty.addNode ⟨"a.scr", 0⟩).addEdge ⟨"a.scr", 0⟩ (.toChunk 7)).addEdge ⟨"a.scr", 0⟩
      (.toScript "b.scr")
    (∀ node, g.Mentions node → Plain node.script) ∧
      (Text.linesOf g.toDot).filter (declares ⟨"a.scr", 0⟩) =
        ["        \"a.scr:0\" [label=\"es0\"];"] ∧
      (Text.linesOf g.toDot).filter (declares ⟨"a.scr", 7⟩) =
        ["        \"a.scr:7\" [label=\"es7?\" color=red];"] ∧
      (Text.linesOf g.toDot).filter (declares ⟨"b.scr", 0⟩) =
        ["        \"b.scr:0\" [label=\"es0?\" color=red];"] := by
  intro g
  have hbuilt : g.Built := ((Built.empty.addNode _).addEdge _ _).addEdge _ _
  have hnodes : g.nodes = [⟨"a.scr", 0⟩] := by decide
  have hedges : g.edges = [(⟨"a.scr", 0⟩, ⟨"a.scr", 7⟩), (⟨"a.scr", 0⟩, ⟨"b.scr", 0⟩)] := by decide
  have hnames : ∀ node, g.Mentions node → Plain node.script := by
    intro node hnode
    simp only [Mentions, hnodes, hedges, List.mem_cons, List.not_mem_nil, or_false,
      exists_eq_or_imp, exists_eq_left] at hnode
    rcases hnode with rfl | (rfl | rfl) | rfl | rfl <;> exact ⟨by decide, by decide⟩
  obtain ⟨clusters, -, -, -, -, -, hdeclared⟩ := toDot_declares_once hbuilt hnames
  refine ⟨hnames, ?_, ?_, ?_⟩
  · rw [(hdeclared ⟨"a.scr", 0⟩ (by decide)).1]
    decide
  · rw [(hdeclared ⟨"a.scr", 7⟩ (by decide)).1]
    decide
  · rw [(hdeclared ⟨"b.scr", 0⟩ (by decide)).1]
    decide

end CallGraph

end NovelScript
