import NovelScript.Proofs.Script.Tiling
import NovelScript.Script.Listing

/-! # What the tokens of a chunk depend on

The name that a script file was loaded under changes neither how it is parsed nor its tokens. The
known data chunks decide only whether a chunk is read at all, so a chunk that is not one of them has
the tokens that it has when none is known. -/

namespace NovelScript

namespace Script

open Reader

/-- The script file without the name it was loaded under. -/
def anonymous (s : Script) : Script := { s with name := "" }

/-! ## Names -/

theorem mapFault_ok {α : Type} {r : Reader α} {f g : Fault → Fault} {c c' : Cursor} {a : α}
    (h : (r.mapFault f).runOn c = (.ok a, c')) : (r.mapFault g).runOn c = (.ok a, c') := by
  simp only [runOn, mapFault] at h ⊢
  rcases hr : r c with ⟨outcome, after⟩
  rw [hr] at h
  cases outcome with
  | error fault => cases (Prod.mk.inj h).1
  | ok value => exact h

/-- A file that can be parsed under one name can be parsed under any. -/
theorem parse_rename {view : View} {name : String} {title : Title} {options : ParseOptions}
    {s : Script} (h : parse view name title options = .ok s) (other : String) :
    parse view other title options = .ok { s with name := other } := by
  have hread : (read view name title options).runOn (Cursor.ofView view) =
      (.ok s, ((read view name title options).runOn (Cursor.ofView view)).2) := Prod.ext h rfl
  obtain ⟨_, c₁, hmagic, hread⟩ := runOn_bind_ok hread
  obtain ⟨convTable, c₂, hconv, hread⟩ := runOn_bind_ok hread
  obtain ⟨filenameTable, c₃, hfile, hread⟩ := runOn_bind_ok hread
  split at hread
  · cases (Prod.mk.inj hread).1
  · rename_i hsize
    obtain ⟨offsets, c₄, hoffsets, hread⟩ := runOn_bind_ok hread
    obtain ⟨events, c₅, hevents, hread⟩ := runOn_bind_ok hread
    obtain ⟨tables, c₆, htables, hread⟩ := runOn_bind_ok hread
    cases (Prod.mk.inj hread).1
    rw [parse, read, runOn_bind_of_ok (mapFault_ok hmagic), runOn_bind_of_ok hconv,
      runOn_bind_of_ok hfile, if_neg hsize, runOn_bind_of_ok hoffsets, runOn_bind_of_ok hevents,
      runOn_bind_of_ok htables]
    rfl

theorem readField_anonymous (s : Script) (field : Field) :
    s.anonymous.readField field = s.readField field := by
  cases field <;> rfl

theorem readShape_anonymous (s : Script) (shape : List Field) (c : Cursor) :
    s.anonymous.readShape shape c = s.readShape shape c := by
  induction shape generalizing c with
  | nil => rfl
  | cons field shape ih =>
    rw [readShape, readShape, readField_anonymous]
    rcases (s.readField field).runOn c with ⟨outcome, after⟩
    cases outcome with
    | error fault => rfl
    | ok operands => simp only [ih]

theorem readOp_anonymous {α : Type} (s : Script) (table : OpcodeTable α)
    (kind : OpToken α → TokenKind) (capture : Bool) (c : Cursor) :
    s.anonymous.readOp table kind capture c = s.readOp table kind capture c := by
  simp only [readOp, readShape_anonymous]

/-- The name of a script file does not matter for its event chunks. -/
theorem tokenizeEvent_anonymous (s : Script) (known : DataChunks) (index : Nat) (capture : Bool) :
    s.anonymous.tokenizeEvent known index capture = s.tokenizeEvent known index capture := by
  have hread : s.anonymous.readEventToken capture = s.readEventToken capture :=
    funext fun c => s.readOp_anonymous _ _ capture c
  simp only [tokenizeEvent, hread]
  rfl

/-- The name of a script file does not matter for its conversation chunks. -/
theorem tokenizeConv_anonymous (s : Script) (index : Nat) (capture : Bool) :
    s.anonymous.tokenizeConv index capture = s.tokenizeConv index capture := by
  have hread : s.anonymous.readConvToken capture = s.readConvToken capture := by
    funext c
    have hop : s.anonymous.readOp s.anonymous.title.convTable .conv capture c =
        s.readOp s.title.convTable .conv capture c := s.readOp_anonymous _ _ capture c
    simp only [readConvToken, hop]
    rfl
  simp only [tokenizeConv, tokenizeConvPlain, hread]
  rfl

/-- The name of a script file does not show in how its tokens are listed. -/
theorem listed_anonymous (s : Script) (t : Token) : t.listed s.anonymous = t.listed s := by
  have hoperand : ∀ operand : Operand, operand.listed s.anonymous = operand.listed s := by
    intro operand
    cases operand with
    | conversation index => simp only [Operand.listed, convTextLines, tokenizeConv_anonymous]
    | choice entry =>
      match entry with
      | .question id => rfl
      | .candidate none text => rfl
      | .candidate (some display) text => rfl
    | _ => rfl
  have hop : ∀ {α : Type} (op : OpToken α), op.listed s.anonymous = op.listed s := by
    intro α op
    simp only [OpToken.listed, hoperand]
  cases hkind : t.kind with
  | event op => simp only [Token.listed, hkind, hop]
  | conv op => simp only [Token.listed, hkind, hop]
  | _ => simp only [Token.listed, hkind]

section SameFile

variable {s s' : Script} (h : s.anonymous = s'.anonymous)
include h

theorem tokenizeEvent_congr (known : DataChunks) (index : Nat) (capture : Bool) :
    s.tokenizeEvent known index capture = s'.tokenizeEvent known index capture := by
  rw [← tokenizeEvent_anonymous s, h, tokenizeEvent_anonymous]

theorem tokenizeConv_congr (index : Nat) (capture : Bool) :
    s.tokenizeConv index capture = s'.tokenizeConv index capture := by
  rw [← tokenizeConv_anonymous s, h, tokenizeConv_anonymous]

theorem filename_congr (index : Nat) : s.filename index = s'.filename index := by
  have hnames : s.filenames = s'.filenames := congrArg (·.filenames) h
  simp only [filename, hnames]

end SameFile

/-! ## Known data chunks -/

theorem tokenizeEvent_of_not_mem (s : Script) {known : DataChunks} {index : Nat}
    (h : index ∉ known) (capture : Bool) :
    s.tokenizeEvent known index capture = s.tokenizeEvent [] index capture := by
  have hcode : known.contains index = false := by simpa using h
  simp only [tokenizeEvent, hcode, List.contains_nil]
  rfl

theorem tokenizeEvent_of_missing (s : Script) {index : Nat} {fault : Fault}
    (h : s.eventChunk index = .error fault) (known : DataChunks) (capture : Bool) :
    s.tokenizeEvent known index capture = .failed fault := by
  simp only [tokenizeEvent, h]

/-- A chunk that is known to hold data is one token. -/
theorem tokenizeEvent_of_data (s : Script) {known : DataChunks} {index : Nat} (h : index ∈ known)
    {chunk : View} (hchunk : s.eventChunk index = .ok chunk) :
    s.tokenizeEvent known index false = ⟨[⟨chunk.offset, none, .data chunk⟩], none, []⟩ := by
  have hdata : known.contains index = true := by simpa using h
  simp only [tokenizeEvent, hchunk, hdata, if_true]
  rfl

theorem tokenizeEvent_of_mem (s : Script) {known : DataChunks} {index : Nat} (h : index ∈ known)
    {tokens : List Token} (hresult : (s.tokenizeEvent known index false).result = .ok tokens) :
    ∃ chunk : View, tokens = [⟨chunk.offset, none, .data chunk⟩] := by
  cases hchunk : s.eventChunk index with
  | error fault =>
    rw [s.tokenizeEvent_of_missing hchunk] at hresult
    cases hresult
  | ok chunk =>
    rw [s.tokenizeEvent_of_data h hchunk] at hresult
    cases hresult
    exact ⟨chunk, rfl⟩

/-- What is known of other chunks does not matter for a chunk. -/
theorem tokenizeEvent_known (s : Script) {known known' : DataChunks} {index : Nat}
    (h : index ∈ known ↔ index ∈ known') (capture : Bool) :
    s.tokenizeEvent known index capture = s.tokenizeEvent known' index capture := by
  have hcontains : known.contains index = known'.contains index := by
    rw [Bool.eq_iff_iff, List.contains_iff_mem, List.contains_iff_mem]
    exact h
  simp only [tokenizeEvent, hcontains]

theorem result_eq_ok {t : Tokenized} {tokens : List Token} (h : t.result = .ok tokens) :
    t.fault = none ∧ t.tokens = tokens := by
  unfold Tokenized.result at h
  split at h
  · rename_i hfault
    cases h
    exact ⟨hfault, rfl⟩
  · cases h

/-! ## Kinds of tokens -/

/-- The tokens of a chunk that is read are opcodes. -/
theorem kind_of_mem_tokenizeEvent {s : Script} {index : Nat} {capture : Bool} {t : Token}
    (h : t ∈ (s.tokenizeEvent [] index capture).tokens) : ∃ op, t.kind = .event op := by
  unfold tokenizeEvent at h
  split at h
  · cases h
  · exact readTokens_forall (P := fun t => ∃ op, t.kind = .event op) readOp_kind _ _ t h

theorem readConvToken_kind {s : Script} {capture : Bool} {c after : Cursor} {t : Token}
    (h : (s.readConvToken capture c).outcome = .ok (t, after)) (op : OpToken EventAction) :
    t.kind ≠ .event op := by
  unfold readConvToken at h
  simp only at h
  split at h
  · split at h
    · split at h
      · simp only [readTextRun] at h
        split at h
        · cases h
        · obtain ⟨raw, _, h⟩ := exceptBind_eq_ok h
          cases h
          exact fun hkind => by cases hkind
      · cases h
    · cases h
  · obtain ⟨op', hkind⟩ := readOp_kind h
    rw [hkind]
    exact fun hkind => by cases hkind

end Script

theorem DataChunks.mem_extend {known : DataChunks} {targets : List Nat} {i : Nat} :
    i ∈ known.extend targets ↔ i ∈ known ∨ i ∈ targets := by
  induction targets generalizing known with
  | nil => simp [extend]
  | cons target targets ih =>
    have hstep : known.extend (target :: targets) =
        extend (if known.contains target then known else target :: known) targets := rfl
    rw [hstep, ih]
    by_cases h : target ∈ known
    · have hcontains : known.contains target = true := by simpa using h
      simp only [hcontains, if_true, List.mem_cons]
      grind
    · have hcontains : known.contains target = false := by simpa using h
      simp only [hcontains, Bool.false_eq_true, if_false, List.mem_cons]
      grind

namespace Textblock

theorem mem_replacement {g : Grouping} {first t : Token} {others lineTokens out : List Token}
    (hout : replacement g first others lineTokens = .ok out) (ht : t ∈ out) :
    t ∈ first :: others ∨ ∃ block, t.kind = .textblock block := by
  unfold replacement at hout
  obtain ⟨clip, _, hout⟩ := exceptBind_eq_ok hout
  by_cases hempty : (g.keepsEmpty && (linesOf lineTokens).isEmpty && clip.isNone) = true
  · simp only [hempty, if_true] at hout
    cases hout
    exact .inl ht
  · simp only [hempty] at hout
    cases hout
    obtain rfl := List.mem_singleton.mp ht
    exact .inr ⟨_, rfl⟩

/-- Grouping makes blocks of text and otherwise keeps tokens as they are. -/
theorem mem_group {g : Grouping} {tokens out : List Token} {t : Token}
    (hout : group g tokens = .ok out) (ht : t ∈ out) :
    t ∈ tokens ∨ ∃ block, t.kind = .textblock block := by
  induction hn : tokens.length using Nat.strongRecOn generalizing tokens out with
  | ind n ih =>
    cases tokens with
    | nil =>
      rw [group] at hout
      cases hout
      cases ht
    | cons first rest =>
      simp only [List.length_cons] at hn
      obtain ⟨lineTokens, block, after, hreplaced, hafter, rfl⟩ | ⟨after, hafter, rfl⟩ :=
        group_cons hout
      · rcases List.mem_append.mp ht with ht | ht
        · refine (mem_replacement hreplaced ht).imp_left fun hmem => ?_
          rcases List.mem_cons.mp hmem with rfl | hmem
          · exact List.mem_cons_self
          · exact List.mem_cons_of_mem first ((List.takeWhile_prefix _).subset hmem)
        · have hlength := (List.dropWhile_suffix g.continues (l := rest)).length_le
          refine (ih _ (by omega) hafter ht rfl).imp_left fun hmem => ?_
          exact List.mem_cons_of_mem first ((List.dropWhile_suffix _).subset hmem)
      · rcases List.mem_cons.mp ht with rfl | ht
        · exact .inl List.mem_cons_self
        · exact (ih _ (by omega) hafter ht rfl).imp_left (List.mem_cons_of_mem first)

end Textblock

/-- No token of a conversation chunk is an event token. -/
theorem Script.kind_of_mem_tokenizeConv {s : Script} {index : Nat} {capture : Bool}
    {tokens : List Token} (h : (s.tokenizeConv index capture).result = .ok tokens) {t : Token}
    (ht : t ∈ tokens) (op : OpToken EventAction) : t.kind ≠ .event op := by
  obtain ⟨hfault, rfl⟩ := result_eq_ok h
  have hplain : ∀ t ∈ (s.tokenizeConvPlain index capture).tokens, t.kind ≠ .event op := by
    intro t ht
    unfold tokenizeConvPlain at ht
    split at ht
    · cases ht
    · exact readTokens_forall (P := fun t => t.kind ≠ .event op)
        (fun hread => readConvToken_kind hread op) _ _ t ht
  unfold tokenizeConv at hfault ht
  simp only at hfault ht
  split at ht
  · exact hplain t ht
  · split at ht
    · rename_i tokens hgroup
      rcases Textblock.mem_group hgroup ht with ht | ⟨block, hkind⟩
      · exact hplain t ht
      · rw [hkind]
        exact fun hkind => by cases hkind
    · exact hplain t ht

end NovelScript
