import Mathlib.Data.List.Count
import Mathlib.Data.List.Perm.Basic
import Mathlib.Data.Option.Basic
import NovelScript.Proofs.Bytes.Progress
import NovelScript.Proofs.Dump.Counts

/-! # The statistics of a dump balance

Chunks that can be read, that fail with tokens in front of the failure or without, and that end the
dump take different ways through the counters. Whatever came of each chunk, the tally has each chunk
that was tried once, and the table of what follows what agrees with the numbers of tokens: each
token has one neighbour on either side, and each list of tokens one boundary on either side. -/

namespace NovelScript

/-! ## Neighbours -/

section

variable {α : Type} (previous : Option α) (items : List α)

/-- Each thing stands in front of one neighbour, and so does what comes before them all. -/
theorem map_fst_neighbours :
    (neighbours previous items).map Prod.fst = previous :: items.map some := by
  induction items generalizing previous with
  | nil => rfl
  | cons item items ih => rw [neighbours, List.map_cons, ih, List.map_cons]

/-- Each thing stands behind one neighbour, and so does the end. -/
theorem map_snd_neighbours :
    (neighbours previous items).map Prod.snd = items.map some ++ [none] := by
  induction items generalizing previous with
  | nil => rfl
  | cons item items ih => rw [neighbours, List.map_cons, ih, List.map_cons, List.cons_append]

end

/-- As often as a thing stands in front of a neighbour it stands behind one, and so does the
boundary. -/
theorem perm_neighbours {α : Type} (lists : List (List α)) :
    ((lists.flatMap (neighbours none)).map Prod.snd).Perm
      ((lists.flatMap (neighbours none)).map Prod.fst) := by
  rw [List.map_flatMap, List.map_flatMap]
  refine List.Perm.flatMap_left lists fun items _ => ?_
  rw [map_fst_neighbours, map_snd_neighbours]
  exact List.perm_append_singleton none (items.map some)

section

variable {α : Type} [BEq α] [LawfulBEq α] (items : List α) (lists : List (List α))

theorem count_map_none : (items.map some).count none = 0 :=
  List.count_eq_zero.mpr (by simp)

/-- In front of a neighbour stands a thing as often as it is in the lists. -/
theorem count_fst_neighbours (item : α) :
    ((lists.flatMap (neighbours none)).map Prod.fst).count (some item) =
      lists.flatten.count item := by
  induction lists with
  | nil => rfl
  | cons first lists ih =>
    rw [List.flatMap_cons, List.map_append, List.count_append, ih, map_fst_neighbours,
      List.count_cons_of_ne (by simp),
      List.count_map_of_injective first some (Option.some_injective α), List.flatten_cons,
      List.count_append]

/-- There are as many boundaries in front as there are lists. -/
theorem count_none_fst_neighbours :
    ((lists.flatMap (neighbours none)).map Prod.fst).count none = lists.length := by
  induction lists with
  | nil => rfl
  | cons first lists ih =>
    rw [List.flatMap_cons, List.map_append, List.count_append, ih, map_fst_neighbours,
      List.count_cons_self, count_map_none, List.length_cons, Nat.add_comm]

end

/-! ## What was tried -/

/-- The bytes of a chunk, and what comes of reading it. -/
structure Attempt where
  content : Bytes
  read : Tokenized

namespace Attempt

/-- The dump ends with this chunk. -/
def ends (o : DumpOptions) (a : Attempt) : Bool := a.read.fault.isSome && !o.continueOnFailure

/-- The tokens that are recorded: all tokens of a chunk that can be read, and those in front of a
failure if there are any and the dump goes on. -/
def recorded (o : DumpOptions) (a : Attempt) : Option (List Token) :=
  if a.read.fault.isNone || o.continueOnFailure && !a.read.tokens.isEmpty then some a.read.tokens
  else none

/-- The chunks that are tried: all, or those up to the one that the dump ends with. -/
def tried (o : DumpOptions) : List Attempt → List Attempt
  | [] => []
  | a :: rest => a :: if a.ends o then [] else tried o rest

end Attempt

namespace Script

/-- The chunks of a kind. -/
def chunksOf (s : Script) : ChunkKind → List View
  | .event => s.events
  | .conversation => s.convs

def tokenizeChunk (s : Script) (kind : ChunkKind) (known : DataChunks) (index : Nat)
    (capture : Bool) : Tokenized :=
  match kind with
  | .event => s.tokenizeEvent known index capture
  | .conversation => s.tokenizeConv index capture

/-- What comes of reading chunks one after the other, from number `index` on. -/
def readsFrom (s : Script) (kind : ChunkKind) (capture : Bool) :
    (index : Nat) → List View → DataChunks → List Attempt
  | _, [], _ => []
  | index, chunk :: rest, known =>
    let read := s.tokenizeChunk kind known index capture
    ⟨chunk.bytes, read⟩ :: readsFrom s kind capture (index + 1) rest (known.extend read.targets)

end Script

/-- A request to dump the chunks of a kind of a script file. `known` are the chunks of it that are
known by then to hold data. -/
structure DumpRequest where
  script : Script
  known : DataChunks
  kind : ChunkKind

/-- The chunks that a request tries. -/
def DumpRequest.attempts (o : DumpOptions) (r : DumpRequest) : List Attempt :=
  Attempt.tried o (r.script.readsFrom r.kind (o.raw || r.script.options.captureRaw) 0
    (r.script.chunksOf r.kind) r.known)

namespace Dump

/-- A dump after requests, whatever came of each. -/
def after (d : Dump) (requests : List DumpRequest) : Dump :=
  requests.foldl (fun d r => (d.addScript r.script r.known r.kind).2.2) d

/-! ## What the counters take in -/

/-- From `d` to `d'` the counters take in chunks of some sizes, and lists of tokens of some
types. -/
structure Takes (sizes : List Nat) (lists : List (List TokenType)) (d d' : Dump) : Prop where
  options : d'.options = d.options
  total : d'.tally.total = d.tally.total + sizes.length
  totalBytes : d'.tally.totalBytes = d.tally.totalBytes + sizes.sum
  types : d.options.tokenFrequency = true → d'.types = d.types.addAll lists.flatten
  follows : d.options.followFrequency = true →
    d'.follows = d.follows.addAll (lists.flatMap (neighbours none))

/-- The counters take in chunks that were tried, and the tokens of them to record. -/
def TakesChunks (attempts : List Attempt) (d d' : Dump) : Prop :=
  Takes (attempts.map (·.content.length))
    ((attempts.filterMap (·.recorded d.options)).map (·.map Token.type)) d d'

namespace Takes

variable {sizes moreSizes : List Nat} {lists moreLists : List (List TokenType)} {d d' d'' : Dump}

theorem refl (d : Dump) : Takes [] [] d d :=
  ⟨rfl, rfl, rfl, fun _ => rfl, fun _ => rfl⟩

theorem trans (h : Takes sizes lists d d') (h' : Takes moreSizes moreLists d' d'') :
    Takes (sizes ++ moreSizes) (lists ++ moreLists) d d'' where
  options := h'.options.trans h.options
  total := by rw [h'.total, h.total, List.length_append, Nat.add_assoc]
  totalBytes := by rw [h'.totalBytes, h.totalBytes, List.sum_append, Nat.add_assoc]
  types hwanted := by
    rw [h'.types (h.options ▸ hwanted), h.types hwanted, List.flatten_append,
      Counts.addAll_append]
  follows hwanted := by
    rw [h'.follows (h.options ▸ hwanted), h.follows hwanted, List.flatMap_append,
      Counts.addAll_append]

/-- A change that no counter notices comes first. -/
theorem quietly_then (h : Takes [] [] d d') (h' : Takes sizes lists d' d'') :
    Takes sizes lists d d'' :=
  h.trans h'

/-- A change that no counter notices comes last. -/
theorem then_quietly (h : Takes sizes lists d d') (h' : Takes [] [] d' d'') :
    Takes sizes lists d d'' := by
  have hboth := h.trans h'
  rw [List.append_nil, List.append_nil] at hboth
  exact hboth

/-- A change that no counter notices may be left out. -/
theorem ite {condition : Prop} [Decidable condition] (h : Takes [] [] d d') :
    Takes [] [] d (if condition then d' else d) := by
  split
  · exact h
  · exact refl d

end Takes

theorem takes_write (d : Dump) (text : String) : Takes [] [] d (d.write text) :=
  ⟨rfl, rfl, rfl, fun _ => rfl, fun _ => rfl⟩

theorem takes_addContent (d : Dump) (content : Bytes) : Takes [] [] d (d.addContent content) := by
  unfold addContent
  simp only
  refine .quietly_then ?_ (.quietly_then (.ite ?_) (.ite ?_))
  · cases d.options.startLength with
    | some length => exact ⟨rfl, rfl, rfl, fun _ => rfl, fun _ => rfl⟩
    | none => exact .refl d
  · exact ⟨rfl, rfl, rfl, fun _ => rfl, fun _ => rfl⟩
  · exact ⟨rfl, rfl, rfl, fun _ => rfl, fun _ => rfl⟩

theorem takes_addToGraph (d : Dump) (kind : ChunkKind) (add : CallGraph → CallGraph) :
    Takes [] [] d (d.addToGraph kind add) := by
  cases kind with
  | event => exact ⟨rfl, rfl, rfl, fun _ => rfl, fun _ => rfl⟩
  | conversation => exact .refl d

theorem takes_addPreError (d : Dump) (tokens : List Token) :
    Takes [] [] d (d.addPreError tokens) := by
  unfold addPreError
  cases d.options.preErrorLength with
  | none => exact .refl d
  | some length => exact ⟨rfl, rfl, rfl, fun _ => rfl, fun _ => rfl⟩

theorem takes_tally (d : Dump) (success : Bool) (size : Nat) :
    Takes [size] [] d { d with tally := d.tally.add success size } where
  options := rfl
  total := by cases success <;> simp [ReadTally.add, ReadTally.total] <;> omega
  totalBytes := by cases success <;> simp [ReadTally.add, ReadTally.totalBytes] <;> omega
  types _ := rfl
  follows _ := rfl

theorem takes_addTokens (d : Dump) (s : Script) (place : Option Place) (tokens : List Token) :
    Takes [] [tokens.map Token.type] d (d.addTokens s place tokens) := by
  unfold addTokens
  simp only
  refine .then_quietly ?_ (.ite (takes_write _ _))
  constructor
  · split <;> split <;> rfl
  · split <;> split <;> rfl
  · split <;> split <;> rfl
  · intro hwanted
    rw [List.flatten_singleton]
    split <;> rfl
  · intro hwanted
    rw [List.flatMap_singleton, if_pos hwanted]
    split <;> rfl

/-- A chunk that was read is taken in once, with the tokens to record, and ends the dump only as it
should. -/
theorem takes_addRead (d : Dump) (s : Script) (known : DataChunks) (kind : ChunkKind) (index : Nat)
    (a : Attempt) :
    ∃ result d', d.addRead s known kind index a.content a.read = (result, d') ∧
      TakesChunks [a] d d' ∧
      if a.ends d.options then ∃ fault, result = .error fault else result = .ok () := by
  have htally : ∀ success, Takes [a.content.length] [] d
      { d with tally := d.tally.add success a.content.length } :=
    fun success => takes_tally d success a.content.length
  unfold addRead TakesChunks Attempt.ends
  simp only [List.map_cons, List.map_nil, List.filterMap_cons, List.filterMap_nil]
  cases hfault : a.read.fault with
  | none =>
    have hrecorded : a.recorded d.options = some a.read.tokens := by
      simp [Attempt.recorded, hfault]
    refine ⟨_, _, rfl, ?_, rfl⟩
    rw [hrecorded]
    exact .then_quietly ((htally true).trans (takes_addTokens _ s _ a.read.tokens))
      (takes_addToGraph _ kind _)
  | some fault =>
    have hfailed := fun text => (htally false).then_quietly (takes_write _ text)
    simp only [write]
    by_cases hgoes : d.options.continueOnFailure = true
    · by_cases hempty : a.read.tokens.isEmpty = true
      · have hrecorded : a.recorded d.options = none := by
          simp [Attempt.recorded, hfault, hempty]
        simp only [hgoes, hempty, hrecorded]
        exact ⟨_, _, rfl, hfailed _, rfl⟩
      · have hrecorded : a.recorded d.options = some a.read.tokens := by
          simp [Attempt.recorded, hgoes, hempty]
        simp only [hgoes, hempty, hrecorded]
        refine ⟨_, _, rfl, ?_, rfl⟩
        exact .then_quietly ((Takes.then_quietly (hfailed _) (takes_addPreError _ _)).trans
          (takes_addTokens _ s none a.read.tokens)) (takes_addToGraph _ kind _)
    · have hrecorded : a.recorded d.options = none := by
        simp [Attempt.recorded, hfault, hgoes]
      simp only [hgoes, hrecorded]
      exact ⟨_, _, rfl, hfailed _, _, rfl⟩

/-! ## All chunks -/

theorem TakesChunks.trans {front back : List Attempt} {d d' d'' : Dump}
    (h : TakesChunks front d d') (h' : TakesChunks back d' d'') :
    TakesChunks (front ++ back) d d'' := by
  have hback := h'
  unfold TakesChunks at hback ⊢
  rw [h.options] at hback
  rw [List.map_append, List.filterMap_append, List.map_append]
  exact Takes.trans h hback

theorem addChunks_cons (s : Script) (kind : ChunkKind) (index : Nat) (chunk : View)
    (rest : List View) (known : DataChunks) (d : Dump) :
    let read := s.tokenizeChunk kind known index (d.options.raw || s.options.captureRaw)
    addChunks s kind index (chunk :: rest) known d =
      match (d.addContent chunk.bytes).addRead s (known.extend read.targets) kind index chunk.bytes
        read with
      | (.error fault, d) => (.error fault, known.extend read.targets, d)
      | (.ok (), d) => addChunks s kind (index + 1) rest (known.extend read.targets) d := by
  intro read
  have hoptions := (takes_addContent d chunk.bytes).options
  cases kind with
  | event =>
    rw [addChunks, hoptions]
    rfl
  | conversation =>
    rw [addChunks, hoptions]
    rfl

/-- Each chunk that is tried is taken in. -/
theorem takes_addChunks (s : Script) (kind : ChunkKind) (index : Nat) (chunks : List View)
    (known : DataChunks) (d : Dump) :
    TakesChunks (Attempt.tried d.options (s.readsFrom kind
        (d.options.raw || s.options.captureRaw) index chunks known)) d
      (addChunks s kind index chunks known d).2.2 := by
  induction chunks generalizing index known d with
  | nil => exact .refl d
  | cons chunk rest ih =>
    let read := s.tokenizeChunk kind known index (d.options.raw || s.options.captureRaw)
    let a : Attempt := ⟨chunk.bytes, read⟩
    have hcontent := takes_addContent d chunk.bytes
    obtain ⟨result, d', hadd, htakes, hresult⟩ := takes_addRead (d.addContent chunk.bytes) s
      (known.extend read.targets) kind index a
    have hchunk : TakesChunks [a] d d' := by
      unfold TakesChunks at htakes
      rw [hcontent.options] at htakes
      exact hcontent.quietly_then htakes
    have hoptions := hchunk.options
    rw [hcontent.options] at hresult
    rw [addChunks_cons, hadd, Script.readsFrom, Attempt.tried]
    change TakesChunks (a :: if a.ends d.options then [] else _) d _
    by_cases hends : a.ends d.options = true
    · rw [if_pos hends] at hresult ⊢
      obtain ⟨fault, rfl⟩ := hresult
      exact hchunk
    · rw [if_neg hends] at hresult ⊢
      subst hresult
      have hrest := ih (index + 1) (known.extend read.targets) d'
      rw [hoptions] at hrest
      exact hchunk.trans hrest

/-- A request takes in the chunks that it tries. -/
theorem takes_addScript (d : Dump) (r : DumpRequest) :
    TakesChunks (r.attempts d.options) d (d.addScript r.script r.known r.kind).2.2 := by
  let begun := if d.options.tokens then d.write ("-------- tokenized " ++ r.script.name ++ ":\n")
    else d
  have hbegun : Takes [] [] d begun := .ite (takes_write d _)
  have hscript : d.addScript r.script r.known r.kind =
      if (r.script.chunksOf r.kind).isEmpty then (.ok (), r.known, d)
      else addChunks r.script r.kind 0 (r.script.chunksOf r.kind) r.known begun := rfl
  rw [hscript]
  by_cases hempty : (r.script.chunksOf r.kind).isEmpty = true
  · rw [if_pos hempty, DumpRequest.attempts, List.isEmpty_iff.mp hempty]
    exact .refl d
  · have hchunks := takes_addChunks r.script r.kind 0 (r.script.chunksOf r.kind) r.known begun
    unfold TakesChunks at hchunks
    rw [hbegun.options] at hchunks
    rw [if_neg hempty]
    exact hbegun.quietly_then hchunks

/-- Requests take in the chunks that they try. -/
theorem takes_after (d : Dump) (requests : List DumpRequest) :
    TakesChunks (requests.flatMap (·.attempts d.options)) d (d.after requests) := by
  induction requests generalizing d with
  | nil => exact .refl d
  | cons r requests ih =>
    have hfirst := takes_addScript d r
    have hrest := ih (d.addScript r.script r.known r.kind).2.2
    rw [hfirst.options] at hrest
    rw [List.flatMap_cons]
    exact hfirst.trans hrest

/-- After any requests to a new dump, whatever came of each and of each chunk: the tally has the
chunks that were tried and their bytes. If the dump counts tokens and what follows what, then each
kind of token is counted as often as it is among the recorded tokens, its row and its column in the
table add up to that number, and the row and the column of the boundary add up to the number of
recorded lists. -/
theorem statistics_balance (o : DumpOptions) (requests : List DumpRequest) :
    let d := (new o).after requests
    let attempts := requests.flatMap (·.attempts o)
    let lists := attempts.filterMap (·.recorded o)
    d.tally.total = attempts.length ∧
      d.tally.totalBytes = (attempts.map (·.content.length)).sum ∧
      (o.tokenFrequency = true → o.followFrequency = true →
        (∀ t, d.types.count t = (lists.flatten.map Token.type).count t ∧
          d.rowSum (some t) = d.types.count t ∧ d.columnSum (some t) = d.types.count t) ∧
        d.rowSum none = lists.length ∧ d.columnSum none = lists.length) := by
  intro d attempts lists
  have htakes : TakesChunks attempts (new o) d := takes_after (new o) requests
  refine ⟨?_, ?_, fun htypes hfollows => ?_⟩
  · rw [htakes.total, List.length_map]
    exact Nat.zero_add _
  · rw [htakes.totalBytes]
    exact Nat.zero_add _
  · have hpairs : d.follows = Counts.empty.addAll
        ((lists.map (·.map Token.type)).flatMap (neighbours none)) := htakes.follows hfollows
    have hcount : ∀ t, d.types.count t = (lists.map (·.map Token.type)).flatten.count t := by
      intro t
      rw [htakes.types htypes, Counts.count_addAll]
      exact Nat.zero_add _
    refine ⟨fun t => ⟨?_, ?_, ?_⟩, ?_, ?_⟩
    · rw [hcount, List.map_flatten]
    · rw [rowSum_eq hpairs, count_fst_neighbours, hcount]
    · rw [columnSum_eq hpairs, (perm_neighbours _).count_eq, count_fst_neighbours, hcount]
    · rw [rowSum_eq hpairs, count_none_fst_neighbours, List.length_map]
    · rw [columnSum_eq hpairs, (perm_neighbours _).count_eq, count_none_fst_neighbours,
        List.length_map]

/-- Two chunks, of which the second fails behind its first token, dumped twice. -/
theorem statistics_balance_failing :
    let o := { DumpOptions.default with
      tokenFrequency := true, followFrequency := true, continueOnFailure := true }
    ∃ s, Script.parse (.ofBytes [0x53, 0x43, 0x33, 0x00, 30, 0, 0, 0, 30, 0, 0, 0, 20, 0, 0, 0,
        27, 0, 0, 0, 0x10, 0x1e, 0x81, 0x00, 0x00, 0x00, 0x06, 0x10, 0x04, 0x77]) "test" .ever17
        .default = .ok s ∧
      let d := (new o).after [⟨s, [], .event⟩, ⟨s, [], .conversation⟩, ⟨s, [], .event⟩]
      let failing : TokenType := .op ⟨some 0x10, 0x04⟩
      d.tally.total = 4 ∧ d.tally.totalBytes = 20 ∧
        d.rowSum (some failing) = 2 ∧ d.columnSum (some failing) = 2 ∧
        d.rowSum none = 4 ∧ d.columnSum none = 4 := by
  intro o
  obtain ⟨s, hparse, hattempts, hbytes, hlists, hfailing⟩ :
      ∃ s ∈ (Script.parse (.ofBytes [0x53, 0x43, 0x33, 0x00, 30, 0, 0, 0, 30, 0, 0, 0, 20, 0, 0, 0,
        27, 0, 0, 0, 0x10, 0x1e, 0x81, 0x00, 0x00, 0x00, 0x06, 0x10, 0x04, 0x77]) "test" .ever17
        .default).toOption,
        let requests : List DumpRequest :=
          [⟨s, [], .event⟩, ⟨s, [], .conversation⟩, ⟨s, [], .event⟩]
        let attempts := requests.flatMap (·.attempts o)
        let lists := attempts.filterMap (·.recorded o)
        attempts.length = 4 ∧ (attempts.map (·.content.length)).sum = 20 ∧ lists.length = 4 ∧
          (lists.flatten.map Token.type).count (.op ⟨some 0x10, 0x04⟩) = 2 := by
    decide +kernel
  obtain ⟨htotal, hsum, hbalance⟩ := statistics_balance o
    [⟨s, [], .event⟩, ⟨s, [], .conversation⟩, ⟨s, [], .event⟩]
  obtain ⟨htypes, hrow, hcolumn⟩ := hbalance rfl rfl
  obtain ⟨hcount, hrowOf, hcolumnOf⟩ := htypes (.op ⟨some 0x10, 0x04⟩)
  have htwo := hcount.trans hfailing
  exact ⟨s, ok_of_toOption hparse, htotal.trans hattempts, hsum.trans hbytes, hrowOf.trans htwo,
    hcolumnOf.trans htwo, hrow.trans hlists, hcolumn.trans hlists⟩

end Dump

end NovelScript
