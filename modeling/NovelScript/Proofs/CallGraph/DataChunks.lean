import NovelScript.Proofs.CallGraph.Edges

/-! # Data chunks in the graph

The event chunks of a script file are read and entered into the graph one after the other, while
the chunks that hold data become known only as chunks that refer to them are read. So a chunk that
is found to hold data too late is a node, or is run into by the chunk before it. The main statement
says exactly when no data chunk is either. -/

namespace NovelScript

/-! ## What is known when -/

namespace Script

/-- The event chunks known to hold data after the first `count` chunks were read one after the
other, with `known` at the start. -/
def dataAfter (s : Script) (known : DataChunks) : (count : Nat) → DataChunks
  | 0 => known
  | count + 1 =>
    (dataAfter s known count).extend
      (s.tokenizeEvent (dataAfter s known count) count false).targets

/-- What comes of reading an event chunk in its turn. -/
def readInTurn (s : Script) (known : DataChunks) (index : Nat) : Tokenized :=
  s.tokenizeEvent (s.dataAfter known index) index false

/-- A chunk, read in its turn, refers to another for its bytes. -/
def RefersTo (s : Script) (known : DataChunks) (index target : Nat) : Prop :=
  ∃ t ∈ (s.readInTurn known index).tokens, target ∈ t.dataTargets

/-- A token of a chunk, read in its turn, leads to another chunk. -/
def LeadsTo (s : Script) (known : DataChunks) (index target : Nat) : Prop :=
  ∃ t ∈ (s.readInTurn known index).tokens, ∃ e ∈ t.edges s,
    e.resolve (CallGraph.nodeOf s index) = (CallGraph.nodeOf s index, CallGraph.nodeOf s target)

/-- A chunk that is taken for code goes on behind its last token with the next chunk, to which no
token of it leads. -/
structure RunsOn (s : Script) (known : DataChunks) (index : Nat) : Prop where
  code : index ∉ s.dataAfter known (index + 1)
  next : index + 1 < s.events.length
  unclosed : (s.readInTurn known index).tokens.getLast?.any Token.endsChunk = false
  unnamed : ¬ s.LeadsTo known index (index + 1)

/-- A data chunk is known for one when it has been read, and already before it is read if the chunk
before it runs on. -/
def KnownInTime (s : Script) (known : DataChunks) (index : Nat) : Prop :=
  index ∈ s.dataAfter known (index + 1) ∧
    ∀ before, index = before + 1 → s.RunsOn known before → index ∈ s.dataAfter known index

theorem dataAfter_succ (s : Script) (known : DataChunks) (count : Nat) :
    s.dataAfter known (count + 1) =
      (s.dataAfter known count).extend (s.readInTurn known count).targets := rfl

/-- A chunk that can be read refers for their bytes to the chunks that its tokens refer to. -/
theorem targets_tokenizeEvent {s : Script} {known : DataChunks} {index : Nat}
    (hfault : (s.tokenizeEvent known index false).fault = none) :
    (s.tokenizeEvent known index false).targets =
      (s.tokenizeEvent known index false).tokens.flatMap Token.dataTargets := by
  cases hchunk : s.eventChunk index with
  | error fault =>
    rw [s.tokenizeEvent_of_missing hchunk]
    rfl
  | ok chunk =>
    by_cases hdata : index ∈ known
    · rw [s.tokenizeEvent_of_data hdata hchunk]
      rfl
    · have hread : s.tokenizeEvent known index false =
          readTokens (s.readEventToken false) chunk.length (.ofView chunk) := by
        rw [s.tokenizeEvent_of_not_mem hdata]
        simp only [tokenizeEvent, hchunk]
        rfl
      rw [hread] at hfault ⊢
      exact targets_readTokens _ hfault

/-- The chunks known to hold data are those that were known from the start and those that a chunk
in front refers to. -/
theorem mem_dataAfter_iff {s : Script} {known : DataChunks} {count : Nat}
    (hread : ∀ index < count, (s.readInTurn known index).fault = none) {target : Nat} :
    target ∈ s.dataAfter known count ↔
      target ∈ known ∨ ∃ index < count, s.RefersTo known index target := by
  induction count with
  | zero => simp [dataAfter]
  | succ count ih =>
    have hlast : target ∈ (s.readInTurn known count).targets ↔ s.RefersTo known count target := by
      have htargets := targets_tokenizeEvent (hread count (Nat.lt_succ_self count))
      rw [readInTurn, htargets, List.mem_flatMap]
      rfl
    rw [dataAfter_succ, DataChunks.mem_extend, hlast,
      ih fun index hindex => hread index (Nat.lt_succ_of_lt hindex), or_assoc]
    simp only [Nat.lt_succ_iff_lt_or_eq, or_and_right, exists_or, exists_eq_left]

theorem mem_dataAfter_of_le {s : Script} {known : DataChunks} {count more : Nat}
    (hle : count ≤ more) {target : Nat} (h : target ∈ s.dataAfter known count) :
    target ∈ s.dataAfter known more := by
  induction hle with
  | refl => exact h
  | step _ ih =>
    rw [dataAfter_succ, DataChunks.mem_extend]
    exact .inl ih

/-- A chunk that is found to hold data is known in time if it is neither taken for code itself nor
found too late for the chunk before it. -/
theorem knownInTime_iff {s : Script} {known : DataChunks} {index : Nat}
    (hfound : index ∈ s.dataAfter known s.events.length) :
    s.KnownInTime known index ↔
      ¬ (index < s.events.length ∧ index ∉ s.dataAfter known (index + 1)) ∧
        ¬ ∃ before, index = before + 1 ∧ s.RunsOn known before ∧
          index ∉ s.dataAfter known index := by
  refine and_congr ?_ ?_
  · rw [not_and, not_not]
    refine ⟨fun hknown _ => hknown, fun hknown => ?_⟩
    by_cases hindex : index < s.events.length
    · exact hknown hindex
    · exact mem_dataAfter_of_le (by omega) hfound
  · simp only [not_exists, not_and, not_not]

end Script

/-! ## Nodes and edges of single chunks -/

theorem Token.source_of_mem_edges {s : Script} {t : Token} {e : Edge} (h : e ∈ t.edges s) :
    e.source = none := by
  unfold Token.edges at h
  split at h
  · rename_i op _
    rcases List.mem_append.mp h with h | h
    · obtain ⟨operand, -, hoperand⟩ := List.mem_filterMap.mp h
      grind [Edge.toChunk]
    · unfold actionEdges at h
      grind [Edge.toChunk, Edge.toScript]
  · cases h

namespace CallGraph

variable {g : CallGraph} {s : Script} {known : DataChunks} {index : Nat} {tokens : List Token}
  {node : ChunkNode} {edge : ChunkNode × ChunkNode}

theorem nodeOf_inj {index index' : Nat} : nodeOf s index = nodeOf s index' ↔ index = index' := by
  simp [nodeOf]

theorem nodes_addTokens : (g.addTokens s index tokens).nodes = g.nodes := by
  unfold addTokens
  generalize tokens.flatMap (·.edges s) = edges
  induction edges generalizing g with
  | nil => rfl
  | cons e edges ih => exact ih

theorem mem_nodes_addChunk :
    node ∈ (g.addChunk s known index tokens).nodes ↔
      node ∈ g.nodes ∨ index ∉ known ∧ node = nodeOf s index := by
  unfold addChunk
  by_cases hdata : index ∈ known
  · rw [if_pos (List.contains_iff_mem.mpr hdata)]
    simp only [hdata, not_true, false_and, or_false]
  · rw [if_neg (mt List.contains_iff_mem.mp hdata)]
    have hnodes : ∀ graph : CallGraph, graph.nodes = g.nodes →
        (node ∈ (graph.addNode (nodeOf s index)).nodes ↔
          node ∈ g.nodes ∨ node = nodeOf s index) := by
      intro graph hsame
      rw [addNode, mem_insertOrdered, hsame, or_comm]
    simp only [hdata, not_false_eq_true, true_and]
    apply hnodes
    split
    · exact nodes_addTokens
    · exact nodes_addTokens

/-- The edges that a chunk adds: those of its tokens, and one if it runs on into the next chunk. -/
theorem mem_edges_addChunk_known :
    edge ∈ (g.addChunk s known index tokens).edges ↔ edge ∈ g.edges ∨ index ∉ known ∧
      ((∃ t ∈ tokens, ∃ e ∈ t.edges s, edge = e.resolve (nodeOf s index)) ∨
        fallsThrough s known index tokens = true ∧
          edge = (nodeOf s index, nodeOf s (index + 1))) := by
  unfold addChunk
  by_cases hdata : index ∈ known
  · rw [if_pos (List.contains_iff_mem.mpr hdata)]
    simp only [hdata, not_true, false_and, or_false]
  · rw [if_neg (mt List.contains_iff_mem.mp hdata)]
    have hnext : (Edge.toChunk (index + 1)).resolve (nodeOf s index) =
        (nodeOf s index, nodeOf s (index + 1)) := rfl
    simp only [hdata, not_false_eq_true, true_and, addNode]
    by_cases hfalls : fallsThrough s known index tokens = true
    · rw [if_pos hfalls, mem_edges_addEdge, mem_edges_addTokens, hnext]
      simp only [hfalls, true_and]
      rw [or_left_comm, or_comm (a := edge = _)]
    · rw [if_neg hfalls, mem_edges_addTokens]
      simp only [hfalls, Bool.false_eq_true, false_and, or_false]

theorem fallsThrough_iff :
    fallsThrough s known index tokens = true ↔ index + 1 ∉ known ∧
      tokens.getLast?.any Token.endsChunk = false ∧ index + 1 < s.events.length := by
  simp only [fallsThrough, Bool.and_eq_true, Bool.not_eq_true', decide_eq_true_eq, and_assoc,
    List.contains_eq_mem, decide_eq_false_iff_not]

theorem addChunk_bare :
    g.addChunk s known index (tokens.map Token.bare) = g.addChunk s known index tokens := by
  have hedges : g.addTokens s index (tokens.map Token.bare) = g.addTokens s index tokens := by
    rw [addTokens, List.flatMap_map]
    rfl
  have hfalls : fallsThrough s known index (tokens.map Token.bare) =
      fallsThrough s known index tokens := by
    rw [fallsThrough, List.getLast?_map, Option.any_map]
    rfl
  rw [addChunk, addChunk, hedges, hfalls]

/-! ## All chunks in turn -/

/-- The graph with the event chunks of a script file, read one after the other with `known` at the
start. -/
def withScript (g : CallGraph) (s : Script) (known : DataChunks) : CallGraph :=
  addEvents s false (List.range s.events.length) known g

section

variable {Q : CallGraph → Prop} {A : Nat → Prop}
  (hstep : ∀ g index, Q (g.addChunk s (s.dataAfter known (index + 1)) index
    (s.readInTurn known index).tokens) ↔ Q g ∨ A index)
include hstep

theorem holds_addEvents (count first : Nat) :
    Q (addEvents s false (List.range' first count) (s.dataAfter known first) g) ↔
      Q g ∨ ∃ index, first ≤ index ∧ index < first + count ∧ A index := by
  induction count generalizing first g with
  | zero =>
    have hnone : ¬ ∃ index, first ≤ index ∧ index < first + 0 ∧ A index := by
      rintro ⟨index, hfirst, hlast, -⟩
      omega
    simp only [List.range'_zero, addEvents, hnone, or_false]
  | succ count ih =>
    have hrest : addEvents s false (List.range' first (count + 1)) (s.dataAfter known first) g =
        addEvents s false (List.range' (first + 1) count) (s.dataAfter known (first + 1))
          (g.addChunk s (s.dataAfter known (first + 1)) first
            (s.readInTurn known first).tokens) := rfl
    rw [hrest, ih, hstep, or_assoc]
    refine or_congr_right ⟨?_, ?_⟩
    · rintro (hfirst | ⟨index, hle, hlt, hindex⟩)
      · exact ⟨first, Nat.le_refl first, by omega, hfirst⟩
      · exact ⟨index, by omega, by omega, hindex⟩
    · rintro ⟨index, hle, hlt, hindex⟩
      by_cases hsame : index = first
      · exact .inl (hsame ▸ hindex)
      · exact .inr ⟨index, by omega, by omega, hindex⟩

/-- What each chunk in its turn makes true of the graph or leaves as it was, all of them do. -/
theorem holds_withScript :
    Q (g.withScript s known) ↔ Q g ∨ ∃ index < s.events.length, A index := by
  have hall := holds_addEvents (g := g) hstep s.events.length 0
  rw [← List.range_eq_range'] at hall
  simp only [Nat.zero_le, true_and, Nat.zero_add] at hall
  exact hall

end

theorem mem_nodes_withScript :
    node ∈ (g.withScript s known).nodes ↔ node ∈ g.nodes ∨ ∃ index < s.events.length,
      index ∉ s.dataAfter known (index + 1) ∧ node = nodeOf s index :=
  holds_withScript (Q := fun g => node ∈ g.nodes) fun _ _ => mem_nodes_addChunk

theorem mem_edges_withScript :
    edge ∈ (g.withScript s known).edges ↔ edge ∈ g.edges ∨ ∃ index < s.events.length,
      index ∉ s.dataAfter known (index + 1) ∧
        ((∃ t ∈ (s.readInTurn known index).tokens, ∃ e ∈ t.edges s,
            edge = e.resolve (nodeOf s index)) ∨
          fallsThrough s (s.dataAfter known (index + 1)) index
              (s.readInTurn known index).tokens = true ∧
            edge = (nodeOf s index, nodeOf s (index + 1))) :=
  holds_withScript (Q := fun g => edge ∈ g.edges) fun _ _ => mem_edges_addChunk_known

/-- An edge leads into a chunk from the chunk before it, and it is that of no token. -/
def FallsInto (g : CallGraph) (s : Script) (known : DataChunks) (index : Nat) : Prop :=
  ∃ before, index = before + 1 ∧ (nodeOf s before, nodeOf s index) ∈ g.edges ∧
    ¬ s.LeadsTo known before index

/-- A chunk becomes a node if it is not known to hold data after it was read. -/
theorem nodeOf_mem_withScript :
    nodeOf s index ∈ (g.withScript s known).nodes ↔ nodeOf s index ∈ g.nodes ∨
      index < s.events.length ∧ index ∉ s.dataAfter known (index + 1) := by
  rw [mem_nodes_withScript]
  refine or_congr_right ⟨?_, ?_⟩
  · rintro ⟨other, hother, hcode, hnode⟩
    obtain rfl := nodeOf_inj.mp hnode
    exact ⟨hother, hcode⟩
  · rintro ⟨hindex, hcode⟩
    exact ⟨index, hindex, hcode, rfl⟩

/-- Of the edges between two chunks, those come from the file that a token of the first gives, and
one if the first runs on and the second is not known to hold data by then. -/
theorem edge_mem_withScript {before : Nat} (hnone : ¬ s.LeadsTo known before (before + 1)) :
    (nodeOf s before, nodeOf s (before + 1)) ∈ (g.withScript s known).edges ↔
      (nodeOf s before, nodeOf s (before + 1)) ∈ g.edges ∨
        s.RunsOn known before ∧ before + 1 ∉ s.dataAfter known (before + 1) := by
  rw [mem_edges_withScript]
  refine or_congr_right ⟨?_, ?_⟩
  · rintro ⟨index, hindex, hcode, ⟨t, ht, e, he, hedge⟩ | ⟨hfalls, hedge⟩⟩
    · -- The edges of tokens start at the chunk that the tokens are in.
      have hsource : e.resolve (nodeOf s index) =
          (nodeOf s index, (e.resolve (nodeOf s index)).2) := by
        simp only [Edge.resolve, Token.source_of_mem_edges he]
      obtain rfl := nodeOf_inj.mp (Prod.mk.inj (hedge.trans hsource)).1
      exact absurd ⟨t, ht, e, he, hedge.symm⟩ hnone
    · obtain rfl := nodeOf_inj.mp (Prod.mk.inj hedge).1
      obtain ⟨hlate, hgoes, hnext⟩ := fallsThrough_iff.mp hfalls
      exact ⟨⟨hcode, hnext, hgoes, hnone⟩, hlate⟩
  · rintro ⟨hruns, hlate⟩
    have hfalls := fallsThrough_iff.mpr ⟨hlate, hruns.unclosed, hruns.next⟩
    exact ⟨before, Nat.lt_of_succ_lt hruns.next, hruns.code, .inr ⟨hfalls, rfl⟩⟩

/-- A chunk comes to be run into if the chunk before it runs on while it is not known to hold
data. -/
theorem fallsInto_withScript :
    (g.withScript s known).FallsInto s known index ↔ g.FallsInto s known index ∨
      ∃ before, index = before + 1 ∧ s.RunsOn known before ∧ index ∉ s.dataAfter known index := by
  constructor
  · rintro ⟨before, rfl, hedge, hnone⟩
    rcases (edge_mem_withScript hnone).mp hedge with hthere | ⟨hruns, hlate⟩
    · exact .inl ⟨before, rfl, hthere, hnone⟩
    · exact .inr ⟨before, rfl, hruns, hlate⟩
  · rintro (⟨before, rfl, hthere, hnone⟩ | ⟨before, rfl, hruns, hlate⟩)
    · exact ⟨before, rfl, (edge_mem_withScript hnone).mpr (.inl hthere), hnone⟩
    · have hnone := hruns.unnamed
      exact ⟨before, rfl, (edge_mem_withScript hnone).mpr (.inr ⟨hruns, hlate⟩), hnone⟩

end CallGraph

/-! ## The graph of a dump -/

namespace Dump

/-- A chunk that can be read in its turn makes known what it refers to and is added to the
graph. -/
theorem addChunks_event {s : Script} {known : DataChunks} {first : Nat}
    (hread : (s.readInTurn known first).fault = none) (d : Dump) (chunk : View)
    (rest : List View) :
    ∃ d', addChunks s .event first (chunk :: rest) (s.dataAfter known first) d =
        addChunks s .event (first + 1) rest (s.dataAfter known (first + 1)) d' ∧
      d'.graph = d.graph.map (·.addChunk s (s.dataAfter known (first + 1)) first
        (s.readInTurn known first).tokens) := by
  have hcontent := sameGraph_addContent d chunk.bytes
  have hbare := s.tokenizeEvent_capture (s.dataAfter known first) first
    (d.options.raw || s.options.captureRaw)
  rw [addChunks]
  simp only [hcontent.options]
  generalize s.tokenizeEvent (s.dataAfter known first) first
    (d.options.raw || s.options.captureRaw) = read at hbare ⊢
  have hturn : s.readInTurn known first = read.bare := hbare
  have hfault : read.fault = none := by
    rw [hturn] at hread
    exact hread
  have hknown : (s.dataAfter known first).extend read.targets = s.dataAfter known (first + 1) := by
    rw [Script.dataAfter_succ, hturn]
    rfl
  obtain ⟨d', hadd, hgraph, -⟩ := addRead_ok (d.addContent chunk.bytes) s
    (s.dataAfter known (first + 1)) first chunk.bytes hfault
  refine ⟨d', ?_, ?_⟩
  · rw [hknown, hadd]
  · rw [hgraph, hcontent.graph, hturn]
    simp only [Tokenized.bare, CallGraph.addChunk_bare]

/-- The event chunks of a script file that can all be read in their turn are added to the graph of a
dump. -/
theorem addChunks_events {s : Script} {known : DataChunks} (d : Dump) (first : Nat)
    (chunks : List View)
    (hread : ∀ index < first + chunks.length, (s.readInTurn known index).fault = none) :
    ∃ d', addChunks s .event first chunks (s.dataAfter known first) d =
        (.ok (), s.dataAfter known (first + chunks.length), d') ∧
      d'.graph = d.graph.map (CallGraph.addEvents s false (List.range' first chunks.length)
        (s.dataAfter known first)) := by
  induction chunks generalizing first d with
  | nil =>
    have hsame : CallGraph.addEvents s false [] (s.dataAfter known first) = id := rfl
    refine ⟨d, rfl, ?_⟩
    simp only [List.length_nil, List.range'_zero, hsame, Option.map_id, id_eq]
  | cons chunk rest ih =>
    have hlength : first + (chunk :: rest).length = first + 1 + rest.length := by
      rw [List.length_cons]
      omega
    rw [hlength] at hread ⊢
    obtain ⟨next, hnext, hadded⟩ := addChunks_event (hread first (by omega)) d chunk rest
    obtain ⟨d', hrest, hgraph⟩ := ih next (first + 1) hread
    refine ⟨d', hnext.trans hrest, ?_⟩
    rw [hgraph, hadded, Option.map_map]
    rfl

/-- Dumping the event chunks of a script file that can all be read in their turn makes known all
data chunks that they refer to, and adds the chunks to the graph. -/
theorem addScript_events {s : Script} {known : DataChunks}
    (hread : ∀ index < s.events.length, (s.readInTurn known index).fault = none) (d : Dump) :
    ∃ d', d.addScript s known .event = (.ok (), s.dataAfter known s.events.length, d') ∧
      d'.graph = d.graph.map (·.withScript s known) := by
  unfold addScript
  simp only
  by_cases hempty : s.events.isEmpty = true
  · rw [if_pos hempty]
    refine ⟨d, ?_, ?_⟩
    · rw [List.isEmpty_iff.mp hempty]
      rfl
    · have hsame : (fun g : CallGraph => g.withScript s known) = id := by
        unfold CallGraph.withScript
        rw [List.isEmpty_iff.mp hempty]
        rfl
      rw [hsame, Option.map_id, id_eq]
  · rw [if_neg hempty]
    have hheading : ∀ text, SameGraph d (if d.options.tokens then d.write text else d) :=
      fun text => .ite ⟨rfl, rfl⟩
    rw [← Nat.zero_add s.events.length] at hread
    obtain ⟨d', hall, hgraph⟩ := addChunks_events
      (if d.options.tokens then d.write ("-------- tokenized " ++ s.name ++ ":\n") else d)
      0 s.events hread
    rw [Nat.zero_add] at hall
    refine ⟨d', hall, ?_⟩
    rw [hgraph, (hheading _).graph, ← List.range_eq_range']
    rfl

end Dump

namespace CallGraph

/-- Event chunks of a script file that can all be read are entered into a graph. The chunks found to
hold data are those known from the start and those that some chunk refers to for their bytes. None
of them is a node afterwards or is run into by the chunk before it, if and only if none was so from
the start and each became known in time. -/
theorem data_chunks_left_out_iff {s : Script} {known : DataChunks} {d : Dump} {g : CallGraph}
    (hgraph : d.graph = some g)
    (hread : ∀ index < s.events.length, (s.readInTurn known index).fault = none) :
    ∃ found d' g', d.addScript s known .event = (.ok (), found, d') ∧ d'.graph = some g' ∧
      (∀ target, target ∈ found ↔
        target ∈ known ∨ ∃ index < s.events.length, s.RefersTo known index target) ∧
      ((∀ index ∈ found, nodeOf s index ∉ g'.nodes ∧ ¬ g'.FallsInto s known index) ↔
        ∀ index ∈ found, (nodeOf s index ∉ g.nodes ∧ ¬ g.FallsInto s known index) ∧
          s.KnownInTime known index) := by
  obtain ⟨d', hdump, hadded⟩ := Dump.addScript_events hread d
  rw [hgraph] at hadded
  refine ⟨_, d', _, hdump, hadded, fun target => Script.mem_dataAfter_iff hread, ?_⟩
  refine forall₂_congr fun index hfound => ?_
  rw [nodeOf_mem_withScript, fallsInto_withScript, not_or, not_or,
    Script.knownInTime_iff hfound]
  exact and_and_and_comm

/-- Three chunks: one that runs on, one that is read as code, and one that refers to the second for
its bytes. -/
theorem data_chunks_left_out_iff_late :
    let d := Dump.new { DumpOptions.default with callGraph := true }
    ∃ s, Script.parse (.ofBytes [0x53, 0x43, 0x33, 0x00, 48, 0, 0, 0, 48, 0, 0, 0, 24, 0, 0, 0,
        26, 0, 0, 0, 28, 0, 0, 0, 0x10, 0x04, 0x00, 0x06, 0x01, 0x13, 0, 0, 0, 0, 0, 0, 0, 0, 0, 0,
        0, 0, 0, 0, 0, 0, 1, 0]) "test" .ever17 .default = .ok s ∧
      ∃ found d' g', d.addScript s [] .event = (.ok (), found, d') ∧ d'.graph = some g' ∧
        1 ∈ found ∧
        ¬ ∀ index ∈ found, nodeOf s index ∉ g'.nodes ∧ ¬ g'.FallsInto s [] index := by
  intro d
  obtain ⟨s, hparse, hread, hfound, hlate⟩ :
      ∃ s ∈ (Script.parse (.ofBytes [0x53, 0x43, 0x33, 0x00, 48, 0, 0, 0, 48, 0, 0, 0, 24, 0, 0, 0,
        26, 0, 0, 0, 28, 0, 0, 0, 0x10, 0x04, 0x00, 0x06, 0x01, 0x13, 0, 0, 0, 0, 0, 0, 0, 0, 0, 0,
        0, 0, 0, 0, 0, 0, 1, 0]) "test" .ever17 .default).toOption,
        (∀ index < s.events.length, (s.readInTurn [] index).fault = none) ∧
          (∃ index < s.events.length, ∃ t ∈ (s.readInTurn [] index).tokens, 1 ∈ t.dataTargets) ∧
          1 ∉ s.dataAfter [] 2 := by
    decide +kernel
  have hgraph : d.graph = some .empty := rfl
  obtain ⟨found, d', g', hdump, hadded, hmem, hleft⟩ :=
    data_chunks_left_out_iff hgraph hread
  have hdata : 1 ∈ found := (hmem 1).mpr (.inr hfound)
  refine ⟨s, ok_of_toOption hparse, found, d', g', hdump, hadded, hdata, fun hout => ?_⟩
  exact hlate (hleft.mp hout 1 hdata).2.1

end CallGraph

end NovelScript
