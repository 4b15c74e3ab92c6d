import NovelScript.Dump
import NovelScript.Proofs.Script.Chunks

/-! # Edges of a script file

The graph of a script file comes from its event chunks, one after the other. If no operand refers to
a chunk for its bytes, all of them are code, and the edges are those that the tokens of some chunk
give, and those from chunks that run on into the next one. -/

namespace NovelScript

/-- A token leads to the chunk that it jumps to. -/
theorem Token.mem_edges_of_jumpTarget {t : Token} {op : OpToken EventAction} {chunk : Nat}
    (hkind : t.kind = .event op) (htarget : op.jumpTarget? = some chunk) (s : Script) :
    .toChunk chunk ∈ t.edges s := by
  simp only [Token.edges, hkind]
  refine List.mem_append_left _ (List.mem_filterMap.mpr ?_)
  obtain ⟨operand, hmem, hoperand⟩ := List.exists_of_findSome?_eq_some htarget
  refine ⟨operand, hmem, ?_⟩
  split at hoperand
  · rename_i target
    split at hoperand
    · cases hoperand
    · rename_i hcode
      simp only [hcode, Bool.false_eq_true, if_false]
      rw [Option.some.inj hoperand]
  · cases hoperand

namespace CallGraph

variable {g : CallGraph} {s : Script} {index : Nat} {tokens : List Token}
  {edge : ChunkNode × ChunkNode}

theorem mem_edges_addTokens :
    edge ∈ (g.addTokens s index tokens).edges ↔
      edge ∈ g.edges ∨ ∃ t ∈ tokens, ∃ e ∈ t.edges s, edge = e.resolve (nodeOf s index) := by
  have hfold : ∀ (edges : List Edge) (g : CallGraph),
      edge ∈ (edges.foldl (fun g e => g.addEdge (nodeOf s index) e) g).edges ↔
        edge ∈ g.edges ∨ ∃ e ∈ edges, edge = e.resolve (nodeOf s index) := by
    intro edges
    induction edges with
    | nil => simp
    | cons e edges ih =>
      intro g
      rw [List.foldl_cons, ih, mem_edges_addEdge]
      simp only [List.mem_cons, exists_eq_or_imp]
      rw [or_assoc, or_left_comm]
  rw [addTokens, hfold]
  simp only [List.mem_flatMap]
  grind

/-- The edges that leave an event chunk with these tokens. -/
def LeavesChunk (s : Script) (index : Nat) (tokens : List Token)
    (edge : ChunkNode × ChunkNode) : Prop :=
  (∃ t ∈ tokens, ∃ e ∈ t.edges s, edge = e.resolve (nodeOf s index)) ∨
    fallsThrough s [] index tokens = true ∧ edge = (nodeOf s index, nodeOf s (index + 1))

theorem mem_edges_addChunk :
    edge ∈ (g.addChunk s [] index tokens).edges ↔
      edge ∈ g.edges ∨ LeavesChunk s index tokens edge := by
  have hcode : (([] : DataChunks).contains index) = false := rfl
  have hnext : (Edge.toChunk (index + 1)).resolve (nodeOf s index) =
      (nodeOf s index, nodeOf s (index + 1)) := rfl
  simp only [addChunk, hcode, LeavesChunk, Bool.false_eq_true, if_false, addNode]
  by_cases hfalls : fallsThrough s [] index tokens = true
  · rw [if_pos hfalls, mem_edges_addEdge, mem_edges_addTokens, hnext]
    simp only [hfalls, true_and]
    rw [or_left_comm, or_comm (a := edge = _)]
  · rw [if_neg hfalls, mem_edges_addTokens]
    simp only [hfalls, Bool.false_eq_true, false_and, or_false]

/-- Adds event chunks as they are read, one after the other. -/
def addEvents (s : Script) (capture : Bool) : List Nat → DataChunks → CallGraph → CallGraph
  | [], _, g => g
  | index :: rest, known, g =>
    let read := s.tokenizeEvent known index capture
    let known := known.extend read.targets
    addEvents s capture rest known (g.addChunk s known index read.tokens)

/-- The graph of the event chunks of a script file. -/
def ofScript (s : Script) (capture : Bool) : CallGraph :=
  addEvents s capture (List.range s.events.length) [] .empty

end CallGraph

/-! ## Scripts without data -/

/-- All event chunks can be read, and no operand in them refers to a chunk for its bytes. -/
def Script.CodeOnly (s : Script) : Prop :=
  ∀ index < s.events.length, ∃ tokens, (s.tokenizeEvent [] index false).result = .ok tokens ∧
    ∀ t ∈ tokens, ∀ op, t.kind = .event op → ∀ target, .event target ∈ op.operands →
      target.data = false

/-- The event chunks that a token refers to for their bytes. -/
def Token.dataTargets (t : Token) : List Nat :=
  match t.kind with
  | .event op => Script.dataTargets op.operands
  | _ => []

namespace Script

theorem readOp_targets {α : Type} {s : Script} {table : OpcodeTable α}
    {kind : OpToken α → TokenKind} {capture : Bool} {c after : Cursor} {t : Token}
    (h : (s.readOp table kind capture c).outcome = .ok (t, after)) :
    ∃ op, t.kind = kind op ∧
      (s.readOp table kind capture c).targets = dataTargets op.operands := by
  unfold readOp at h ⊢
  split at h
  · cases h
  · simp only at h ⊢
    split at h
    · cases h
    · split at h
      · cases h
      · cases h
        exact ⟨_, rfl, rfl⟩

/-- A chunk that can be read refers for their bytes to the chunks that its tokens refer to. -/
theorem targets_readTokens {s : Script} {capture : Bool} (fuel : Nat) {c : Cursor}
    (hfault : (readTokens (s.readEventToken capture) fuel c).fault = none) :
    (readTokens (s.readEventToken capture) fuel c).targets =
      (readTokens (s.readEventToken capture) fuel c).tokens.flatMap Token.dataTargets := by
  induction fuel generalizing c with
  | zero => rfl
  | succ fuel ih =>
    rw [readTokens] at hfault ⊢
    by_cases hend : c.atEnd = true
    · rw [if_pos hend]
      rfl
    · rw [if_neg hend] at hfault ⊢
      simp only at hfault ⊢
      cases hread : (s.readEventToken capture c).outcome with
      | error fault =>
        rw [hread] at hfault
        cases hfault
      | ok result =>
        obtain ⟨t, after⟩ := result
        obtain ⟨op, hkind, htargets⟩ := readOp_targets hread
        have hfirst : (s.readEventToken capture c).targets = t.dataTargets := by
          rw [Token.dataTargets, hkind]
          exact htargets
        rw [hread] at hfault
        simp only [Tokenized.cons, List.flatMap_cons, hfirst]
        rw [ih hfault]

theorem dataTargets_eq_nil_iff {operands : List Operand} :
    dataTargets operands = [] ↔ ∀ target, .event target ∈ operands → target.data = false := by
  rw [dataTargets, List.filterMap_eq_nil_iff]
  constructor
  · intro h target hmem
    simpa using h (.event target) hmem
  · intro h operand hmem
    cases operand with
    | event target => simp [h target hmem]
    | _ => rfl

theorem lt_of_eventChunk {s : Script} {index : Nat} {chunk : View}
    (h : s.eventChunk index = .ok chunk) : index < s.events.length := by
  unfold eventChunk chunkAt at h
  split at h
  · rename_i hchunk
    exact (List.getElem?_eq_some_iff.mp hchunk).1
  · cases h

theorem lt_of_tokenizeEvent {s : Script} {known : DataChunks} {index : Nat} {capture : Bool}
    {tokens : List Token} (h : (s.tokenizeEvent known index capture).result = .ok tokens) :
    index < s.events.length := by
  cases hchunk : s.eventChunk index with
  | error fault =>
    rw [s.tokenizeEvent_of_missing hchunk] at h
    cases h
  | ok chunk => exact lt_of_eventChunk hchunk

theorem tokenizeEvent_capture (s : Script) (known : DataChunks) (index : Nat) (capture : Bool) :
    s.tokenizeEvent known index false = (s.tokenizeEvent known index capture).bare := by
  cases capture with
  | true => exact s.tokenizeEvent_bare known index
  | false => rw [s.tokenizeEvent_bare]; simp [Tokenized.bare, Token.bare]

/-- In a script file without data, reading a chunk neither fails nor finds data. -/
theorem codeOnly_iff {s : Script} : s.CodeOnly ↔ ∀ index < s.events.length,
    (s.tokenizeEvent [] index false).fault = none ∧
      (s.tokenizeEvent [] index false).targets = [] := by
  have htargets : ∀ {index tokens}, (s.tokenizeEvent [] index false).result = .ok tokens →
      (s.tokenizeEvent [] index false).targets = tokens.flatMap Token.dataTargets := by
    intro index tokens hresult
    obtain ⟨hfault, rfl⟩ := result_eq_ok hresult
    cases hchunk : s.eventChunk index with
    | error fault =>
      rw [s.tokenizeEvent_of_missing hchunk]
      rfl
    | ok chunk =>
      have hread : s.tokenizeEvent [] index false =
          readTokens (s.readEventToken false) chunk.length (.ofView chunk) := by
        simp only [tokenizeEvent, hchunk]
        rfl
      rw [hread] at hfault ⊢
      exact targets_readTokens _ hfault
  constructor
  · intro hs index hindex
    obtain ⟨tokens, hresult, hcode⟩ := hs index hindex
    refine ⟨(result_eq_ok hresult).1, ?_⟩
    rw [htargets hresult, List.flatMap_eq_nil_iff]
    intro t ht
    unfold Token.dataTargets
    split
    · rename_i op hkind
      exact dataTargets_eq_nil_iff.mpr (hcode t ht op hkind)
    · rfl
  · intro h index hindex
    obtain ⟨hfault, hnone⟩ := h index hindex
    have hresult : (s.tokenizeEvent [] index false).result =
        .ok (s.tokenizeEvent [] index false).tokens := by
      rw [Tokenized.result, hfault]
    refine ⟨_, hresult, fun t ht op hkind => ?_⟩
    rw [htargets hresult, List.flatMap_eq_nil_iff] at hnone
    have htoken := hnone t ht
    rw [Token.dataTargets, hkind] at htoken
    exact dataTargets_eq_nil_iff.mp htoken

instance (s : Script) : Decidable s.CodeOnly := decidable_of_iff _ codeOnly_iff.symm

/-- Reading a chunk of a script file without data finds no data chunk, whatever is known. -/
theorem CodeOnly.targets_eq_nil {s : Script} (hs : s.CodeOnly) (known : DataChunks) (index : Nat)
    (capture : Bool) : (s.tokenizeEvent known index capture).targets = [] := by
  have hbare : (s.tokenizeEvent known index capture).targets =
      (s.tokenizeEvent known index false).targets := by
    rw [s.tokenizeEvent_capture known index capture]
    rfl
  rw [hbare]
  cases hchunk : s.eventChunk index with
  | error fault =>
    rw [s.tokenizeEvent_of_missing hchunk]
    rfl
  | ok chunk =>
    by_cases hknown : index ∈ known
    · rw [s.tokenizeEvent_of_data hknown hchunk]
    · rw [s.tokenizeEvent_of_not_mem hknown]
      exact (codeOnly_iff.mp hs index (lt_of_eventChunk hchunk)).2

end Script

namespace CallGraph

theorem LeavesChunk.bare {s : Script} {index : Nat} {tokens : List Token}
    {edge : ChunkNode × ChunkNode} :
    LeavesChunk s index (tokens.map Token.bare) edge ↔ LeavesChunk s index tokens edge := by
  have hfalls : fallsThrough s [] index (tokens.map Token.bare) =
      fallsThrough s [] index tokens := by
    simp only [fallsThrough, List.getLast?_map]
    cases tokens.getLast? with
    | none => rfl
    | some t => rfl
  rw [LeavesChunk, LeavesChunk, hfalls]
  refine or_congr_left ⟨?_, ?_⟩
  · rintro ⟨t, ht, hedge⟩
    obtain ⟨full, hfull, rfl⟩ := List.mem_map.mp ht
    exact ⟨full, hfull, hedge⟩
  · rintro ⟨t, ht, hedge⟩
    exact ⟨t.bare, List.mem_map_of_mem ht, hedge⟩

variable {s : Script} (hs : s.CodeOnly)
include hs

/-- In a script file without data, every chunk adds its edges and no chunk takes any away. -/
theorem mem_edges_addEvents (capture : Bool) (indices : List Nat) (g : CallGraph)
    {edge : ChunkNode × ChunkNode} :
    edge ∈ (addEvents s capture indices [] g).edges ↔ edge ∈ g.edges ∨
      ∃ index ∈ indices, LeavesChunk s index (s.tokenizeEvent [] index false).tokens edge := by
  induction indices generalizing g with
  | nil => simp [addEvents]
  | cons index rest ih =>
    have hknown : DataChunks.extend [] (s.tokenizeEvent [] index capture).targets = [] := by
      rw [hs.targets_eq_nil]
      rfl
    have htokens : (s.tokenizeEvent [] index false).tokens =
        (s.tokenizeEvent [] index capture).tokens.map Token.bare := by
      rw [s.tokenizeEvent_capture [] index capture]
      rfl
    simp only [addEvents, hknown]
    rw [ih, mem_edges_addChunk, or_assoc]
    simp only [List.mem_cons, exists_eq_or_imp, htokens, LeavesChunk.bare]

theorem mem_edges_ofScript (capture : Bool) {edge : ChunkNode × ChunkNode} :
    edge ∈ (ofScript s capture).edges ↔ ∃ index < s.events.length,
      LeavesChunk s index (s.tokenizeEvent [] index false).tokens edge := by
  rw [ofScript, mem_edges_addEvents hs]
  simp only [List.mem_range]
  exact or_iff_right (List.not_mem_nil)

end CallGraph

/-! ## The graph of a dump -/

namespace Dump

/-- From one dump to another neither the graph nor the options have changed. -/
structure SameGraph (d d' : Dump) : Prop where
  graph : d'.graph = d.graph
  options : d'.options = d.options

theorem SameGraph.trans {d d' d'' : Dump} (h : SameGraph d d') (h' : SameGraph d' d'') :
    SameGraph d d'' :=
  ⟨h'.graph.trans h.graph, h'.options.trans h.options⟩

/-- A change that may be left out. -/
theorem SameGraph.ite {condition : Prop} [Decidable condition] {d d' : Dump}
    (h : SameGraph d d') : SameGraph d (if condition then d' else d) := by
  split
  · exact h
  · exact ⟨rfl, rfl⟩

theorem sameGraph_addContent (d : Dump) (content : Bytes) :
    SameGraph d (d.addContent content) := by
  unfold addContent
  simp only
  refine SameGraph.trans ?_ (SameGraph.trans (.ite ?_) (.ite ?_))
  · cases d.options.startLength with
    | some length => exact ⟨rfl, rfl⟩
    | none => exact ⟨rfl, rfl⟩
  · exact ⟨rfl, rfl⟩
  · exact ⟨rfl, rfl⟩

theorem sameGraph_addTokens (d : Dump) (s : Script) (place : Option Place) (tokens : List Token) :
    SameGraph d (d.addTokens s place tokens) := by
  unfold addTokens
  simp only
  refine SameGraph.trans (SameGraph.trans (.ite ?_) (.ite ?_)) (.ite ?_)
  · exact ⟨rfl, rfl⟩
  · exact ⟨rfl, rfl⟩
  · exact ⟨rfl, rfl⟩

/-- A chunk that could be read is added to the graph. -/
theorem addRead_ok (d : Dump) (s : Script) (known : DataChunks) (index : Nat) (content : Bytes)
    {read : Tokenized} (h : read.fault = none) :
    ∃ d', d.addRead s known .event index content read = (.ok (), d') ∧
      d'.graph = d.graph.map (·.addChunk s known index read.tokens) ∧ d'.options = d.options := by
  have hsame := sameGraph_addTokens { d with tally := d.tally.add true content.length } s
    (some ⟨s.name, false, index, none⟩) read.tokens
  unfold addRead
  rw [h]
  refine ⟨_, rfl, ?_, hsame.options⟩
  exact congrArg (Option.map (·.addChunk s known index read.tokens)) hsame.graph

end Dump

end NovelScript
