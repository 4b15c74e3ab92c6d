import NovelScript.Proofs.ActiveValue.Constants
import NovelScript.Proofs.Play.Memory
import NovelScript.Proofs.Play.Turns

/-! # Writing to memory

Two kinds of tokens write to memory: those that carry out a memory operation, and those that store
an answer. All others ask their values for numbers, and a value that is itself a memory operation
has none. It is refused, but only when it has been carried out: then the token fails with the cell
written. -/

namespace NovelScript

/-- One memory is another with a content put into the cell at an address. -/
def Puts (address content : Int64) (memory memory' : Array Int64) : Prop :=
  ∃ i < memoryCells, address.toInt = i ∧ memory' = memory.setIfInBounds i content

/-- Memory changes if the cell is there and holds something else. -/
theorem Puts.ne_iff {address content : Int64} {memory memory' : Array Int64}
    (h : Puts address content memory memory') :
    memory' ≠ memory ↔ ∃ old, memory[address.toInt.toNat]? = some old ∧ old ≠ content := by
  obtain ⟨i, -, hplace, rfl⟩ := h
  rw [hplace, Int.toNat_natCast]
  constructor
  · intro hne
    by_cases hi : i < memory.size
    · refine ⟨memory[i], Array.getElem?_eq_getElem hi, fun hsame => hne ?_⟩
      rw [Array.setIfInBounds_def, dif_pos hi, ← hsame, Array.set_getElem_self]
    · exact absurd (Array.setIfInBounds_eq_of_size_le (Nat.not_lt.mp hi)) hne
  · rintro ⟨old, hold, hne⟩ hsame
    obtain ⟨hi, -⟩ := Array.getElem?_eq_some_iff.mp hold
    have hcontent : (memory.setIfInBounds i content)[i]? = some content :=
      Array.getElem?_setIfInBounds_self_of_lt hi
    rw [hsame, hold] at hcontent
    exact hne (Option.some.inj hcontent)

/-! ## Values -/

namespace Evaluation

variable {α β : Type}

/-- An evaluation that writes to no memory cell. -/
def Spares (e : Evaluation PlayState α) : Prop := ∀ s, (e s).2.memory = s.memory

/-- An evaluation that writes what it reports, and nothing else. -/
def Reports (e : Evaluation PlayState ValueResult) : Prop := ∀ s,
  (e s).2.memory = s.memory ∧ (∀ address content, (e s).1 ≠ .ok (.write address content)) ∨
    ∃ address content, (e s).1 = .ok (.write address content) ∧
      Puts address content s.memory (e s).2.memory

theorem Spares.bind {e : Evaluation PlayState α} {f : α → Evaluation PlayState β} (he : Spares e)
    (hf : ∀ a, Spares (f a)) : Spares (e >>= f) := by
  intro s
  have hmemory := he s
  rw [bind_apply]
  rcases hrun : e s with ⟨outcome, s'⟩
  rw [hrun] at hmemory
  cases outcome with
  | error fault => exact hmemory
  | ok a => exact (hf a s').trans hmemory

/-- Going on behind an evaluation that writes nothing. -/
theorem Spares.reports {e : Evaluation PlayState α} {f : α → Evaluation PlayState ValueResult}
    (he : Spares e) (hf : ∀ a, Reports (f a)) : Reports (e >>= f) := by
  intro s
  have hmemory := he s
  rw [bind_apply]
  rcases hrun : e s with ⟨outcome, s'⟩
  rw [hrun] at hmemory
  cases outcome with
  | error fault => exact .inl ⟨hmemory, nofun⟩
  | ok a =>
    have hreports := hf a s'
    simp only at hmemory
    rwa [hmemory] at hreports

theorem Reports.fail (fault : Fault) : Reports (Evaluation.fail fault) :=
  fun _ => .inl ⟨rfl, nofun⟩

theorem Reports.number (value : Int64) : Reports (Pure.pure (ValueResult.number value)) :=
  fun _ => .inl ⟨rfl, nofun⟩

theorem sparesLaws : Calculating Spares where
  lift _ _ := rfl
  bind := Spares.bind
  readCell _ _ := rfl
  draw bound s := by
    simp only [draw, ValueContext.draw, PlayState.draw]
    by_cases h : bound ≤ 0
    · rw [if_pos h]
    · rw [if_neg h]

theorem Reports.write (address content : Int64) :
    Reports (do
      writeCell address content
      return .write address content) := by
  intro s
  rw [bind_apply]
  simp only [writeCell, ValueContext.writeCell, PlayState.writeCell]
  rcases PlayState.cell_cases address with ⟨i, hi, hplace, hcell⟩ | ⟨flaw, hcell⟩
  · rw [hcell]
    exact .inr ⟨address, content, rfl, i, hi, hplace, rfl⟩
  · rw [hcell]
    refine .inl ⟨rfl, fun _ _ hresult => ?_⟩
    cases hresult

end Evaluation

open Evaluation

theorem Element.reports_evalTop (e : Element) :
    Reports (e.evalTop : Evaluation PlayState ValueResult) := by
  cases e with
  | memop op p target address value =>
    simp only [evalTop]
    split
    · exact .fail _
    · refine (sparesLaws.eval address).reports fun cell => ?_
      refine (sparesLaws.readCell cell).reports fun current => ?_
      exact (sparesLaws.updated op current value).reports fun content => .write cell content
  | _ => exact (sparesLaws.eval _).reports .number

/-- Only a memory operation reports that it has written something. -/
theorem Element.isMemop_of_write {σ : Type} [ValueContext σ] {e : Element} {s s' : σ}
    {address content : Int64} (h : e.evalTop s = (.ok (.write address content), s')) :
    e.isMemop = true := by
  cases e with
  | memop op p target place value => rfl
  | _ =>
    obtain ⟨a, s₁, -, hresult⟩ := bind_eq_ok h
    cases hresult

namespace ActiveValue

/-- A value of a single node comes to what the node comes to. -/
theorem evaluate_single {v : ActiveValue} {e : Element} (h : v.values = [e]) (s : PlayState) :
    v.evaluate (some 1) s = ((e.evalTop s).1.map fun result => [result], (e.evalTop s).2) := by
  simp only [evaluate, h, List.length_singleton, if_true, evalAll, bind_apply]
  rcases e.evalTop s with ⟨outcome, s'⟩
  cases outcome with
  | error fault => rfl
  | ok result => rfl

/-- Asking a value for its number leaves memory alone, or it is refused because the value is a memory
operation that has been carried out. -/
theorem evaluateOne_memory (v : ActiveValue) (s : PlayState) :
    (v.evaluateOne s).2.memory = s.memory ∨ ∃ address content,
      (v.evaluateOne s).1 = .error (.malformedValue (.gotWrite address)) ∧
        v.evaluate (some 1) s = (.ok [.write address content], (v.evaluateOne s).2) ∧
        Puts address content s.memory (v.evaluateOne s).2.memory := by
  rw [evaluateOne, bind_apply]
  by_cases hcount : 1 = v.values.length
  · obtain ⟨e, hvalues⟩ := List.length_eq_one_iff.mp hcount.symm
    have hreports := e.reports_evalTop s
    rw [evaluate_single hvalues]
    rcases hrun : e.evalTop s with ⟨outcome, s'⟩
    rw [hrun] at hreports
    rcases hreports with ⟨hmemory, hnone⟩ | ⟨address, content, hwrite, hputs⟩
    · match outcome, hnone with
      | .error fault, _ => exact .inl hmemory
      | .ok (.number value), _ => exact .inl hmemory
      | .ok (.write address content), hnone => exact absurd rfl (hnone address content)
    · obtain rfl : outcome = .ok (.write address content) := hwrite
      exact .inr ⟨address, content, rfl, rfl, hputs⟩
  · rw [evaluate, if_neg hcount]
    exact .inl rfl

/-- A value that has written something is a memory operation. -/
theorem isMemop_of_write {v : ActiveValue} {s s' : PlayState} {address content : Int64}
    (h : v.evaluate (some 1) s = (.ok [.write address content], s')) :
    ∃ e ∈ v.values, e.isMemop = true := by
  by_cases hcount : 1 = v.values.length
  · obtain ⟨e, hvalues⟩ := List.length_eq_one_iff.mp hcount.symm
    rw [evaluate_single hvalues] at h
    rcases hrun : e.evalTop s with ⟨outcome, s₁⟩
    rw [hrun] at h
    cases outcome with
    | error fault => cases h
    | ok result =>
      obtain rfl : result = .write address content := by
        simpa [Except.map] using congrArg Prod.fst h
      exact ⟨e, hvalues ▸ List.mem_singleton_self e, Element.isMemop_of_write hrun⟩
  · rw [evaluate, if_neg hcount] at h
    cases h

end ActiveValue

/-! ## Tokens -/

/-- The values of an operand that a player asks for their numbers. -/
def Operand.values : Operand → List ActiveValue
  | .value v => [v]
  | .choice (.candidate (some display) _) => [display]
  | _ => []

/-- The values among the operands of an opcode. -/
def OpToken.values {α : Type} (op : OpToken α) : List ActiveValue :=
  op.operands.flatMap Operand.values

namespace Token

/-- The values among the operands of a token. -/
def values (t : Token) : List ActiveValue :=
  match t.kind with
  | .event op => op.values
  | .conv op => op.values
  | .text _ | .textblock _ | .data _ => []

/-- Whether a token writes to memory. -/
def writesMemory (t : Token) : Bool :=
  match t.kind with
  | .event op => op.definition.action.writesMemory
  | .conv _ | .text _ | .textblock _ | .data _ => false

end Token

namespace OpToken

variable {α : Type} {op : OpToken α} {index : Nat}

theorem operand_mem {operand : Operand} (h : op.operand index = .ok operand) :
    operand ∈ op.operands := by
  unfold OpToken.operand at h
  split at h
  · rename_i found hfound
    cases h
    exact List.mem_of_getElem? hfound
  · cases h

theorem value_mem {v : ActiveValue} (h : op.value index = .ok v) : v ∈ op.values := by
  cases hoperand : op.operand index with
  | error fault =>
    rw [OpToken.value, hoperand] at h
    cases h
  | ok operand =>
    rw [OpToken.value, hoperand] at h
    have hmem := operand_mem hoperand
    cases operand with
    | value found =>
      cases h
      exact List.mem_flatMap.mpr ⟨_, hmem, List.mem_singleton_self v⟩
    | _ => cases h

theorem display_mem {display : ActiveValue} {text : String}
    (h : op.choice index = .ok (.candidate (some display) text)) : display ∈ op.values := by
  cases hoperand : op.operand index with
  | error fault =>
    rw [OpToken.choice, hoperand] at h
    cases h
  | ok operand =>
    rw [OpToken.choice, hoperand] at h
    have hmem := operand_mem hoperand
    cases operand with
    | choice found =>
      cases h
      exact List.mem_flatMap.mpr ⟨_, hmem, List.mem_singleton_self display⟩
    | _ => cases h

end OpToken

namespace Play

variable {μ : Type}

/-- An operation has failed because a value is a memory operation, which was carried out in a state
with the memory that the operation began with. -/
structure Slipped (v : ActiveValue) (address content : Int64) (memory : Array Int64) {α : Type}
    (run : Except Fault α × Player μ) : Prop where
  refused : run.1 = .error (.malformedValue (.gotWrite address))
  carriedOut : ∃ s : PlayState, s.memory = memory ∧
    v.evaluate (some 1) s = (.ok [.write address content], run.2.state)
  puts : Puts address content memory run.2.state.memory

/-- Operations that leave memory as it is, unless one of some values is a memory operation. -/
def Spares (values : List ActiveValue) {α : Type} (op : Play μ α) : Prop := ∀ p,
  (op p).2.state.memory = p.state.memory ∨
    ∃ v ∈ values, ∃ address content, Slipped v address content p.state.memory (op p)

namespace Spares

variable {values : List ActiveValue} {α β : Type}

theorem bind {x : Play μ α} {f : α → Play μ β} (hx : Spares values x)
    (hf : ∀ a, Spares values (f a)) : Spares values (x >>= f) := by
  intro p
  have hfirst := hx p
  rw [bind_apply]
  rcases hrun : x p with ⟨outcome, p'⟩
  rw [hrun] at hfirst
  cases outcome with
  | error fault =>
    rcases hfirst with hmemory | ⟨v, hv, address, content, hslipped⟩
    · exact .inl hmemory
    · have hfault : fault = .malformedValue (.gotWrite address) := by
        simpa using hslipped.refused
      rw [hfault]
      exact .inr ⟨v, hv, address, content, rfl, hslipped.carriedOut, hslipped.puts⟩
  | ok a =>
    have hmemory : p'.state.memory = p.state.memory := by
      rcases hfirst with hmemory | ⟨v, hv, address, content, hslipped⟩
      · exact hmemory
      · cases hslipped.refused
    have hrest := hf a p'
    rwa [hmemory] at hrest

theorem of_memory {x : Play μ α} (h : ∀ p, (x p).2.state.memory = p.state.memory) :
    Spares values x := fun p => .inl (h p)

/-- Without values nothing is written. -/
theorem of_nil {x : Play μ α} (h : Spares [] x) (p : Player μ) :
    (x p).2.state.memory = p.state.memory :=
  (h p).resolve_right fun ⟨_, hv, _⟩ => List.not_mem_nil hv

theorem evaluateOne {v : ActiveValue} (hv : v ∈ values) :
    Spares values (evaluating (μ := μ) v.evaluateOne) := by
  intro p
  rcases v.evaluateOne_memory p.state with hmemory | ⟨address, content, hrefused, hrun, hputs⟩
  · exact .inl hmemory
  · exact .inr ⟨v, hv, address, content, hrefused, ⟨p.state, rfl, hrun⟩, hputs⟩

theorem number (op : OpToken α) (index : Nat) :
    Spares op.values (number (μ := μ) op index) := by
  unfold Play.number
  cases hvalue : op.value index with
  | error fault =>
    rw [lift_error_bind]
    exact .of_memory fun _ => rfl
  | ok v =>
    rw [lift_ok_bind]
    exact .evaluateOne (OpToken.value_mem hvalue)

theorem onChoice {x : Play μ α} (h : OnChoice x) : Spares values x := by
  refine .of_memory fun p => ?_
  obtain ⟨choice, hrun, -⟩ := h p
  rw [hrun]

theorem composing (values : List ActiveValue) : Composing (μ := μ) (Spares values) where
  pure _ := .of_memory fun _ => rfl
  bind := bind
  lift _ := .of_memory fun _ => rfl
  ask _ := .of_memory fun _ => rfl

theorem pushVoice (name : String) : Spares values (pushVoice (μ := μ) name) := by
  refine (composing values).bind (composing values).state fun s => ?_
  cases s.pushedVoice with
  | some pending => exact .of_memory fun _ => rfl
  | none => exact .of_memory fun _ => rfl

/-! ### Moves -/

theorem pushPosition : Spares values (pushPosition (μ := μ)) := by
  refine .of_memory fun p => ?_
  rw [pushPosition_apply]
  cases p.state.callFrame with
  | some frame => rfl
  | none => rfl

theorem enterCurrent (name : String) (chunk token : Nat) :
    Spares values (enterCurrent (μ := μ) name chunk token) := by
  refine .of_memory fun p => ?_
  rw [enterCurrent_apply]
  simp only
  split
  · rfl
  · rfl

theorem setConversation (chunk : Nat) : Spares values (setConversation (μ := μ) chunk) := by
  refine .of_memory fun p => ?_
  rw [setConversation_apply]
  split
  · rfl
  · split
    · rfl
    · rfl

variable [MediaSource μ]

theorem loadAndEnter (name : String) (chunk token : Nat) : Spares values
    (loadScript (μ := μ) name >>= fun script => enterLoaded script name chunk token) := by
  have hload : Spares values (loadScript (μ := μ) name) :=
    bind (.of_memory fun _ => rfl) fun _ => bind (.of_memory fun _ => rfl) fun _ =>
      .of_memory fun _ => rfl
  refine hload.bind fun script => .of_memory fun p => ?_
  rw [enterLoaded_apply]
  simp only
  split
  · rfl
  · rfl

theorem setScriptOrForget (name : String) :
    Spares values (setScriptOrForget (μ := μ) name) := by
  refine .of_memory fun p => ?_
  have hmemory := (loadAndEnter name 0 0).of_nil p
  rw [← setScript] at hmemory
  simp only [Play.setScriptOrForget]
  rcases hrun : setScript name p with ⟨outcome, p'⟩
  rw [hrun] at hmemory
  cases outcome with
  | error fault => exact hmemory
  | ok _ => exact hmemory

theorem returnToPosition : Spares values (returnToPosition (μ := μ)) := by
  have hforget : ∀ {x : Play μ Unit}, Spares values x → Spares values
      (x >>= fun _ => updateState fun s => { s with callFrame := none }) :=
    fun hx => hx.bind fun _ => .of_memory fun _ => rfl
  refine (composing values).bind (composing values).state fun s => ?_
  cases s.callFrame with
  | none => exact .of_memory fun _ => rfl
  | some frame =>
    simp only
    split
    · exact hforget (enterCurrent _ _ _)
    · rw [← bind_assoc]
      exact hforget (loadAndEnter _ _ _)

/-! ### Tokens -/

theorem reckoning (op : OpToken EventAction) : Reckoning (μ := μ) op (Spares op.values) where
  toOnScreen := .of_shows fun h => .of_memory fun p => (h p).memory
  toComposing := composing op.values
  number := number op
  setRegister _ := .of_memory fun _ => rfl
  pushVoice := pushVoice

omit [MediaSource μ] in
theorem speaking (op : OpToken ConvAction) : Speaking (μ := μ) op (Spares op.values) where
  toComposing := composing op.values
  await := .of_memory fun _ => rfl
  openChoice id := .onChoice (onChoice_openChoice id)
  addCandidate text display := .onChoice (onChoice_addCandidate text display)
  display h := .evaluateOne (OpToken.display_mem h)

theorem moving (op : OpToken EventAction) :
    Moving (μ := μ) op (Spares op.values) (Spares op.values) where
  stay := .of_memory fun _ => rfl
  fail _ := .of_memory fun _ => rfl
  bindLast := bind
  lift _ := .of_memory fun _ => rfl
  state := .of_memory fun _ => rfl
  number := number op
  pushPosition := pushPosition
  setEvent chunk := bind (.of_memory fun _ => rfl) fun s => enterCurrent s.script chunk 0
  setScript name := loadAndEnter name 0 0
  setScriptOrForget := setScriptOrForget
  returnToPosition := returnToPosition
  setConversation := setConversation

theorem newTextblock (lines : List String) (voice : Option String) :
    Spares values (newTextblock (μ := μ) lines voice) := by
  refine .of_memory fun p => ?_
  obtain ⟨fault, media, hrun⟩ | ⟨media, q, hq, hrun⟩ := newTextblock_cases lines voice p
  · rw [hrun]
  · have hshown := (Shows.unfadeTextbox .fade { p with
      media := media
      recorder := p.recorder.record (.textblock lines voice) }).memory
    rw [← hq] at hshown
    rw [hrun]
    exact hshown

omit [MediaSource μ] in
theorem takeVoice (source : VoiceSource) : Spares values (takeVoice (μ := μ) source) := by
  cases source with
  | none => exact .of_memory fun _ => rfl
  | clip name => exact .of_memory fun _ => rfl
  | pushed => exact .of_memory fun _ => rfl

/-- A token that is not there to write to memory leaves it alone, unless one of its values is a
memory operation. -/
theorem playToken {t : Token} (h : t.writesMemory = false) :
    Spares t.values (playToken (μ := μ) t) := by
  unfold Play.playToken
  cases hkind : t.kind with
  | event op =>
    have hvalues : t.values = op.values := by simp only [Token.values, hkind]
    have hwrites : op.definition.action.writesMemory = false := by
      simpa only [Token.writesMemory, hkind] using h
    rw [hvalues]
    cases hmoves : op.definition.action.moves with
    | false => exact (reckoning op).playEvent hmoves hwrites
    | true => exact (moving op).playEvent hmoves
  | conv op =>
    have hvalues : t.values = op.values := by simp only [Token.values, hkind]
    rw [hvalues]
    exact (speaking op).playConv
  | text text => exact (composing _).unplayable t
  | data view => exact (composing _).unplayable t
  | textblock block => exact (takeVoice block.voice).bind fun voice => .newTextblock _ voice

end Spares

variable [MediaSource μ]

/-- A token that is not there to write to memory changes a cell if and only if it fails because one
of its values is a memory operation: that has been carried out before it is refused, and has put
something new into the cell. Without such a value memory stays as it is, whether the token succeeds
or fails. -/
theorem memory_changed_iff {t : Token} (h : t.writesMemory = false) (p : Player μ) :
    ((playToken t p).2.state.memory ≠ p.state.memory ↔
      ∃ v ∈ t.values, ∃ address content,
        Slipped v address content p.state.memory (playToken t p) ∧
          ∃ old, p.state.memory[address.toInt.toNat]? = some old ∧ old ≠ content) ∧
      ((∀ v ∈ t.values, ∀ e ∈ v.values, e.isMemop = false) →
        (playToken t p).2.state.memory = p.state.memory) := by
  refine ⟨⟨fun hchanged => ?_, ?_⟩, fun hplain => ?_⟩
  · rcases Spares.playToken h p with hmemory | ⟨v, hv, address, content, hslipped⟩
    · exact absurd hmemory hchanged
    · exact ⟨v, hv, address, content, hslipped, hslipped.puts.ne_iff.mp hchanged⟩
  · rintro ⟨v, -, address, content, hslipped, hnew⟩
    exact hslipped.puts.ne_iff.mpr hnew
  · rcases Spares.playToken h p with hmemory | ⟨v, hv, address, content, hslipped⟩
    · exact hmemory
    · obtain ⟨s, -, hrun⟩ := hslipped.carriedOut
      obtain ⟨e, he, hmemop⟩ := ActiveValue.isMemop_of_write hrun
      rw [hplain v hv e he] at hmemop
      cases hmemop

/-- The register is to be loaded with a value that adds three to cell five. -/
theorem memory_changed_iff_load :
    let media := FixedMedia.onlyScript "op00" [0x53, 0x43, 0x33, 0x00, 27, 0, 0, 0, 27, 0, 0, 0,
      16, 0, 0, 0, 0x00, 0x26, 0x28, 0x00, 0x85, 0x00, 0x17, 0x00, 0x83, 0x00, 0x00]
    ∃ start t, (Player.new media (.new .first) .default).1 = .ok start ∧
      start.nextToken? = some t ∧ t.writesMemory = false ∧
      start.pastToken.state.memory[5]? = some 0 ∧
      (playToken t start.pastToken).2.state.memory[5]? = some 3 ∧
      ∃ v ∈ t.values, ∃ address content,
        Slipped v address content start.pastToken.state.memory (playToken t start.pastToken) := by
  intro media
  obtain ⟨start, hstart, t, htoken, hwrites, hbefore, hafter⟩ :
      ∃ start ∈ (Player.new media (.new .first) .default).1.toOption, ∃ t ∈ start.nextToken?,
        t.writesMemory = false ∧ start.pastToken.state.memory[5]? = some 0 ∧
          (playToken t start.pastToken).2.state.memory[5]? = some 3 := by
    decide +kernel
  have hchanged : (playToken t start.pastToken).2.state.memory ≠ start.pastToken.state.memory := by
    intro hsame
    rw [hsame, hbefore] at hafter
    cases hafter
  obtain ⟨v, hv, address, content, hslipped, -⟩ :=
    (memory_changed_iff hwrites start.pastToken).1.mp hchanged
  exact ⟨start, t, ok_of_toOption hstart, htoken, hwrites, hbefore, hafter, v, hv, address, content,
    hslipped⟩

end Play

end NovelScript
