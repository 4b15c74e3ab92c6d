import NovelScript.Play.Interpreter
import NovelScript.Proofs.Script.Chunks
import NovelScript.Proofs.Script.Faults

/-! # Laws of what tokens do

What a token does is put together from a few operations of a player. A property of operations that
holds of these and is closed under doing one thing after the other holds of every token, so that
each invariant of playback and each comparison of two players has to look at the few operations
only. `Reckoning`, `Moving` and `Speaking` ask for just the operations of one token. `Performing`,
`Staying` and `Conversing` are about all tokens that make no move; `Effects` names the operations of
all tokens one by one; `Laws` asks for less where it does not matter how an operation changes the
state. -/

namespace NovelScript

/-! ## Evaluation -/

namespace Evaluation

/-- An evaluation that changes nothing but what is in memory cells and the random numbers to come. -/
def OnCells {α : Type} (e : Evaluation PlayState α) : Prop :=
  ∀ s, ∃ memory rng, memory.size = s.memory.size ∧ (e s).2 = { s with memory := memory, rng := rng }

variable {α β : Type}

theorem OnCells.pure (a : α) : OnCells (Pure.pure a) := fun s => ⟨s.memory, s.rng, rfl, rfl⟩

theorem OnCells.fail (fault : Fault) : OnCells (Evaluation.fail fault : Evaluation PlayState α) :=
  fun s => ⟨s.memory, s.rng, rfl, rfl⟩

theorem OnCells.lift (result : Except Fault α) : OnCells (Evaluation.lift result) :=
  fun s => ⟨s.memory, s.rng, rfl, rfl⟩

theorem OnCells.bind {e : Evaluation PlayState α} {f : α → Evaluation PlayState β}
    (he : OnCells e) (hf : ∀ a, OnCells (f a)) : OnCells (e >>= f) := by
  intro s
  obtain ⟨memory, rng, hsize, hs⟩ := he s
  rw [bind_apply]
  rcases hrun : e s with ⟨outcome, s'⟩
  obtain rfl : s' = _ := by simpa only [hrun] using hs
  cases outcome with
  | error fault => exact ⟨memory, rng, hsize, rfl⟩
  | ok a =>
    obtain ⟨memory', rng', hsize', hs'⟩ := hf a _
    exact ⟨memory', rng', hsize'.trans hsize, hs'⟩

theorem OnCells.ite {p : Prop} [Decidable p] {x y : Evaluation PlayState α} (hx : OnCells x)
    (hy : OnCells y) : OnCells (if p then x else y) := by
  by_cases h : p
  · rwa [if_pos h]
  · rwa [if_neg h]

theorem onCells_readCell (address : Int64) : OnCells (readCell address) :=
  fun s => ⟨s.memory, s.rng, rfl, rfl⟩

theorem onCells_writeCell (address value : Int64) : OnCells (writeCell address value) := by
  intro s
  simp only [writeCell, ValueContext.writeCell, PlayState.writeCell]
  cases PlayState.cell address with
  | error fault => exact ⟨s.memory, s.rng, rfl, rfl⟩
  | ok i => exact ⟨_, s.rng, Array.size_setIfInBounds, rfl⟩

theorem onCells_draw (bound : Int64) : OnCells (draw bound) := by
  intro s
  simp only [draw, ValueContext.draw, PlayState.draw]
  by_cases h : bound ≤ 0
  · rw [if_pos h]
    exact ⟨s.memory, s.rng, rfl, rfl⟩
  · rw [if_neg h]
    exact ⟨s.memory, _, rfl, rfl⟩

end Evaluation

open Evaluation

/-- What holds of the operations that a node is evaluated with, and of one after the other. -/
structure Calculating (quiet : ∀ {α : Type}, Evaluation PlayState α → Prop) : Prop where
  lift : ∀ {α : Type} (result : Except Fault α), quiet (lift result)
  bind : ∀ {α β : Type} {e : Evaluation PlayState α} {f : α → Evaluation PlayState β},
    quiet e → (∀ a, quiet (f a)) → quiet (e >>= f)
  readCell : ∀ address, quiet (readCell address)
  draw : ∀ bound, quiet (draw bound)

namespace Calculating

variable {quiet : ∀ {α : Type}, Evaluation PlayState α → Prop} (laws : Calculating quiet)
include laws

theorem pure {α : Type} (a : α) : quiet (Pure.pure a : Evaluation PlayState α) := laws.lift (.ok a)

theorem fail {α : Type} (fault : Fault) : quiet (fail fault : Evaluation PlayState α) :=
  laws.lift (.error fault)

/-- The number of every node keeps the laws. -/
theorem eval (e : Element) : quiet (e.eval : Evaluation PlayState Int64) := by
  induction e with
  | literal value => exact laws.pure _
  | operator op p => exact laws.fail _
  | unary op p x ih =>
    refine laws.bind ih fun a => ?_
    unfold Element.applyUnary
    split
    · exact laws.readCell a
    · split
      · exact laws.lift _
      · split
        · exact laws.draw a
        · exact laws.fail _
  | binary op p x y ihx ihy =>
    refine laws.bind ihx fun a => laws.bind ihy fun b => ?_
    unfold Element.applyBinary
    split
    · exact laws.lift _
    · exact laws.fail _
  | memop op p target address value => exact laws.fail _
  | missing => exact laws.fail _

/-- So does what a memory operation is to put into its cell. -/
theorem updated (op : UInt8) (current : Int64) (value : Element) :
    quiet (Element.updated op current value : Evaluation PlayState Int64) := by
  unfold Element.updated
  split
  · exact laws.pure _
  · split
    · exact laws.pure _
    · refine laws.bind (laws.eval value) fun operand => ?_
      split
      · exact laws.pure _
      · exact laws.lift _
      · exact laws.fail _

end Calculating

theorem Evaluation.onCellsLaws : Calculating OnCells where
  lift := .lift
  bind := .bind
  readCell := onCells_readCell
  draw := onCells_draw

theorem Element.onCells_evalTop (e : Element) :
    OnCells (e.evalTop : Evaluation PlayState ValueResult) := by
  cases e with
  | memop op p target address value =>
    refine .ite (.fail _) ((onCellsLaws.eval address).bind fun cell => ?_)
    refine (onCells_readCell cell).bind fun current => ?_
    refine (onCellsLaws.updated op current value).bind fun content => ?_
    exact (onCells_writeCell cell content).bind fun _ => .pure _
  | _ => exact (onCellsLaws.eval _).bind fun _ => .pure _

theorem ActiveValue.onCells_evalAll (elements : List Element) :
    OnCells (evalAll elements : Evaluation PlayState (List ValueResult)) := by
  induction elements with
  | nil => exact .pure _
  | cons e rest ih => exact e.onCells_evalTop.bind fun _ => ih.bind fun _ => .pure _

theorem ActiveValue.onCells_evaluate (v : ActiveValue) (expected : Option Nat) :
    OnCells (v.evaluate expected : Evaluation PlayState (List ValueResult)) := by
  cases expected with
  | none => exact onCells_evalAll _
  | some asked => exact .ite (onCells_evalAll _) (.fail _)

theorem ActiveValue.onCells_evaluateOne (v : ActiveValue) :
    OnCells (v.evaluateOne : Evaluation PlayState Int64) := by
  refine (v.onCells_evaluate _).bind fun results => ?_
  split
  · exact .lift _
  · exact .fail _

/-! ## Results without a place -/

theorem PlayState.ofData_cell (address : Int64) : OfData (cell address) := Tells.ite trivial rfl

instance : DataContext PlayState where
  readCell _ address := (PlayState.ofData_cell address).map
  writeCell _ address _ := (PlayState.ofData_cell address).map
  draw _ _ := Tells.ite rfl trivial

theorem Choice.offToken_result (c : Choice) : OffToken c.result := by
  unfold result
  split
  · trivial
  · exact ⟨rfl, rfl⟩

theorem Play.offToken_fillColour (value : Int64) : OffToken (fillColour value) :=
  Tells.ite trivial (Tells.ite trivial (Tells.ite trivial ⟨rfl, rfl⟩))

theorem Play.offToken_slotOf (oneBased : Bool) (value : Int64) : OffToken (slotOf oneBased value) :=
  Tells.ite trivial (Tells.ite ⟨rfl, rfl⟩ trivial)

/-! ## Operations -/

/-- Whether an action leads to another chunk or into a conversation. -/
def EventAction.moves : EventAction → Bool
  | .jump | .returnableJump | .condJump | .registerJump | .return | .fileJump
  | .returnableFileJump | .loadConversation => true
  | _ => false

/-- Whether an action writes a memory cell. -/
def EventAction.writesMemory : EventAction → Bool
  | .choiceStore _ | .memoryWrite => true
  | _ => false

/-- A change of the state that stays at the same position and puts no new picture on screen. -/
structure PlayState.Plain (f : PlayState → PlayState) : Prop where
  script : ∀ s, (f s).script = s.script
  chunk : ∀ s, (f s).chunk = s.chunk
  conv : ∀ s, (f s).conv = s.conv
  image : ∀ s, (f s).background.image = s.background.image
  characters : ∀ s, (f s).characters.entries ⊆ s.characters.entries

theorem PlayState.Plain.same {f : PlayState → PlayState}
    (h : ∀ s, ((f s).script, (f s).chunk, (f s).conv, (f s).background.image, (f s).characters) =
      (s.script, s.chunk, s.conv, s.background.image, s.characters)) : Plain f := by
  constructor
  all_goals
    intro s
    have := h s
    simp_all

namespace Play

variable {μ : Type}

/-- Asks for something about the player. -/
def ask {β : Type} (f : Player μ → β) : Play μ β := fun p => (.ok (f p), p)

/-- What can be told from the options, the state and the script file without its name. -/
def Visible {β : Type} (f : Player μ → β) : Prop :=
  ∀ p q : Player μ, p.options = q.options → p.script.anonymous = q.script.anonymous →
    p.state = q.state → f p = f q

theorem discard_eq {α : Type} (x : Play μ α) : discard x = x >>= fun _ => pure () := by
  funext p
  rw [bind_apply]
  simp only [discard, Functor.discard, Functor.mapConst, Function.comp, ExceptT.map,
    ExceptT.mk, StateT.bind, Bind.bind]
  rcases x p with ⟨outcome, p'⟩
  cases outcome with
  | ok a => rfl
  | error fault => rfl

theorem lift_ok_bind {α β : Type} (a : α) (f : α → Play μ β) : lift (.ok a) >>= f = f a := by
  funext p
  rw [bind_apply]
  rfl

theorem lift_error_bind {α β : Type} (fault : Fault) (f : α → Play μ β) :
    lift (.error fault) >>= f = fail fault := by
  funext p
  rw [bind_apply]
  rfl

/-- What holds of doing one thing after the other, and of what is done without an effect: of results
and of looking at the player. Results are asked for only if no fault of theirs has a place around
it. -/
structure Composing (quiet : ∀ {α : Type}, Play μ α → Prop) : Prop where
  pure : ∀ {α : Type} (a : α), quiet (Pure.pure a)
  bind : ∀ {α β : Type} {x : Play μ α} {f : α → Play μ β},
    quiet x → (∀ a, quiet (f a)) → quiet (x >>= f)
  lift : ∀ {α : Type} {result : Except Fault α}, Unplaced result → quiet (lift result)
  ask : ∀ {β : Type} {f : Player μ → β}, Visible f → quiet (ask f)

namespace Composing

variable {quiet : ∀ {α : Type}, Play μ α → Prop} (laws : Composing quiet)
include laws

theorem fail {α : Type} {fault : Fault} (h : fault.isPlaced = false) :
    quiet (fail fault : Play μ α) := by
  have hfault : Unplaced (Except.error fault : Except Fault α) := h
  exact laws.lift hfault

theorem state : quiet state :=
  laws.ask (f := fun p => p.state) fun _ _ _ _ h => h

theorem discard {α : Type} {x : Play μ α} (h : quiet x) : quiet (discard x) := by
  rw [discard_eq]
  exact laws.bind h fun _ => laws.pure ()

/-- Going on behind either of two operations. -/
theorem joining {p : Prop} [Decidable p] {β γ : Type} {k : β → Play μ γ} (hk : ∀ b, quiet (k b))
    {x y : Play μ β} (hx : quiet x) (hy : quiet y) :
    quiet (if p then x >>= k else y >>= k) := by
  by_cases h : p
  · rw [if_pos h]
    exact laws.bind hx hk
  · rw [if_neg h]
    exact laws.bind hy hk

/-- Going on with what is visible of the player. -/
theorem asking {β γ : Type} {f : Player μ → β} (hf : Visible f) {k : β → Play μ γ}
    (hk : ∀ b, quiet (k b)) : quiet (player >>= fun p => k (f p)) := by
  have h : quiet (Play.ask f >>= k) := laws.bind (laws.ask hf) hk
  exact h

theorem filename (op : OpToken EventAction) (index : Nat) : quiet (filename op index) := by
  refine laws.bind (laws.lift (op.ofOperands_filename index).unplaced) fun target => ?_
  -- the filename is asked for together with the fact that it has no place around its fault
  have hname : Visible fun p : Player μ =>
      (⟨_, (p.script.ofData_filename target.index.toNat).offToken.unplaced⟩ :
        { name : Except Fault Bytes // Unplaced name }) :=
    fun p q _ hscript _ => Subtype.ext (Script.filename_congr hscript _)
  refine laws.asking hname
    (k := fun name => Play.lift name.1 >>= fun bytes => return mediaName bytes) ?_
  exact fun name => laws.bind (laws.lift name.2) fun _ => laws.pure _

/-- A token that cannot be played only says so. -/
theorem unplayable (t : Token) : quiet (do
    Play.fail (.playback (.unsupportedToken (t.listed (← player).script))) : Play μ Unit) := by
  have hlisted : Visible fun p : Player μ => t.listed p.script := by
    intro p q _ hscript _
    simp only
    rw [← Script.listed_anonymous, hscript, Script.listed_anonymous]
  exact laws.asking hlisted (k := fun text => Play.fail (.playback (.unsupportedToken text)))
    fun _ => laws.fail rfl

end Composing

variable [MediaSource μ]

/-- Something holds of what event tokens show: of changes of what is shown, and of the end of
playback. -/
structure OnScreen (quiet : ∀ {α : Type}, Play μ α → Prop) : Prop where
  stop : quiet (setStatus .ended)
  displayBackground : ∀ name viewport, quiet (displayBackground name viewport)
  panZoom : ∀ viewport time, quiet (panZoom viewport time)
  fillBackground : ∀ colour time, quiet (fillBackground colour time)
  drawCharacter : ∀ name slot x, quiet (drawCharacter name slot x)
  clearCharacter : ∀ slot, quiet (clearCharacter slot)
  clearAllCharacters : ∀ time, quiet (clearAllCharacters time)
  fadeTextbox : ∀ time, quiet (fadeTextbox time)
  playMovie : ∀ name, quiet (playMovie name)

/-- Something holds of what event tokens do on stage: of what they show, and of taking an answered
choice away. -/
structure OnScene (quiet : ∀ {α : Type}, Play μ α → Prop) : Prop extends OnScreen quiet where
  takeChoice : quiet takeChoice

/-- Something holds of what is done on stage: of changes of what is shown, of the choice and of the
status. -/
structure OnStage (quiet : ∀ {α : Type}, Play μ α → Prop) : Prop extends OnScene quiet where
  await : quiet (setStatus .userAck)
  unfadeTextbox : ∀ time, quiet (unfadeTextbox time)
  openChoice : ∀ id, quiet (openChoice id)
  addCandidate : ∀ text display, quiet (addCandidate text display)

/-! ## Tokens that make no move -/

/-- What holds of the operations that an event token is put together from that makes no move and
writes to no memory cell. -/
structure Reckoning (op : OpToken EventAction) (quiet : ∀ {α : Type}, Play μ α → Prop) : Prop
    extends OnScreen quiet, Composing quiet where
  number : ∀ index, quiet (number op index)
  setRegister : ∀ value, quiet (updateState fun s => { s with register := some value })
  pushVoice : ∀ name, quiet (pushVoice name)

namespace Reckoning

variable {op : OpToken EventAction} {quiet : ∀ {α : Type}, Play μ α → Prop}
  (laws : Reckoning op quiet)
include laws

theorem rectangle (first : Nat) : quiet (rectangle op first) :=
  laws.bind (laws.number _) fun _ => laws.bind (laws.number _) fun _ =>
    laws.bind (laws.number _) fun _ => laws.bind (laws.number _) fun _ => laws.pure _

theorem characterSlot (oneBased : Bool) (index : Nat) : quiet (characterSlot op oneBased index) :=
  laws.bind (laws.number _) fun value => laws.lift (offToken_slotOf oneBased value).unplaced

/-- An event token that makes no move and writes to no memory cell keeps the laws. -/
theorem playEvent (h : op.definition.action.moves = false)
    (hwrites : op.definition.action.writesMemory = false) : quiet (playEvent op) := by
  unfold Play.playEvent
  cases haction : op.definition.action with
  | data => exact laws.fail rfl
  | scriptLink => exact laws.fail rfl
  | jumpTable => exact laws.fail rfl
  | stop => exact laws.stop
  | loadRegister => exact laws.bind (laws.number 0) fun value => laws.setRegister value
  | background => exact laws.bind (laws.filename op 0) fun _ => laws.displayBackground _ _
  | partialBackground =>
    exact laws.bind (laws.filename op 0) fun _ => laws.bind (laws.rectangle 3) fun _ =>
      laws.displayBackground _ _
  | scrollBackground =>
    exact laws.bind (laws.filename op 0) fun _ => laws.bind (laws.number 1) fun _ =>
      laws.displayBackground _ _
  | panZoom =>
    exact laws.bind (laws.rectangle 0) fun _ => laws.bind (laws.number 4) fun _ =>
      laws.panZoom _ _
  | scrollPan =>
    exact laws.bind (laws.number 0) fun _ => laws.bind (laws.number 1) fun _ =>
      laws.panZoom _ _
  | fade =>
    exact laws.bind (laws.number 0) fun value =>
      laws.bind (laws.lift (offToken_fillColour value).unplaced) fun _ => laws.fillBackground _ _
  | drawCharacter oneBased =>
    exact laws.bind (laws.characterSlot _ 0) fun _ => laws.bind (laws.filename op 1) fun _ =>
      laws.bind (laws.number 2) fun _ => laws.drawCharacter _ _ _
  | drawPair =>
    exact laws.bind (laws.characterSlot _ 0) fun _ => laws.bind (laws.characterSlot _ 1) fun _ =>
      laws.bind (laws.filename op 2) fun _ => laws.bind (laws.filename op 3) fun _ =>
        laws.bind (laws.number 4) fun _ => laws.bind (laws.number 5) fun _ =>
          laws.bind (laws.drawCharacter _ _ _) fun _ => laws.drawCharacter _ _ _
  | drawTriple =>
    exact laws.bind (laws.filename op 0) fun _ => laws.bind (laws.number 3) fun _ =>
      laws.bind (laws.drawCharacter _ _ _) fun _ => laws.bind (laws.filename op 1) fun _ =>
        laws.bind (laws.number 4) fun _ => laws.bind (laws.drawCharacter _ _ _) fun _ =>
          laws.bind (laws.filename op 2) fun _ => laws.bind (laws.number 5) fun _ =>
            laws.drawCharacter _ _ _
  | clearCharacter oneBased =>
    exact laws.bind (laws.characterSlot _ 0) fun _ => laws.clearCharacter _
  | clearAll => exact laws.clearAllCharacters _
  | textboxOff => exact laws.fadeTextbox _
  | movie => exact laws.bind (laws.lift (op.ofOperands_bytes 0).unplaced) fun _ => laws.playMovie _
  | pushVoice =>
    exact laws.bind (laws.lift (op.ofOperands_bytes 0).unplaced) fun _ => laws.pushVoice _
  | choiceStore checkId => simp [EventAction.writesMemory, haction] at hwrites
  | memoryWrite => simp [EventAction.writesMemory, haction] at hwrites
  | _ => simp [EventAction.moves, haction] at h

end Reckoning

/-- What holds of the operations that the event tokens are put together from which stay in their
chunk, but for taking a choice away. Evaluations are asked for only if no fault of theirs has a
place around it. -/
structure Performing (quiet : ∀ {α : Type}, Play μ α → Prop) : Prop
    extends OnScreen quiet, Composing quiet where
  evaluating : ∀ {α : Type} {e : Evaluation PlayState α}, OnCells e → NeverPlaced e →
    quiet (evaluating e)
  setRegister : ∀ value, quiet (updateState fun s => { s with register := some value })
  pushVoice : ∀ name, quiet (pushVoice name)

namespace Performing

variable {quiet : ∀ {α : Type}, Play μ α → Prop} (laws : Performing quiet)
include laws

theorem number {α : Type} (op : OpToken α) (index : Nat) : quiet (number op index) :=
  laws.bind (laws.lift (op.ofOperands_value index).unplaced) fun value =>
    laws.evaluating value.onCells_evaluateOne value.ofData_evaluateOne.neverPlaced

theorem reckoning (op : OpToken EventAction) : Reckoning op quiet where
  toOnScreen := laws.toOnScreen
  toComposing := laws.toComposing
  number := laws.number op
  setRegister := laws.setRegister
  pushVoice := laws.pushVoice

theorem storeChoice (op : OpToken EventAction) (checkId : Bool) (htake : quiet takeChoice) :
    quiet (storeChoice op checkId) := by
  refine laws.bind (laws.number op 0) fun address => ?_
  have hasked : Visible fun p : Player μ =>
      p.state.choice.isNone && p.options.continueOnError := by
    intro p q hoptions _ hstate
    simp only [hoptions, hstate]
  have hstore (rest : Choice → Play μ Unit) (hrest : ∀ choice, quiet (rest choice)) :=
    laws.asking hasked (k := fun refused =>
      if refused = true then Play.fail (.playback .noPosedChoice) else Play.takeChoice >>= rest) (by
    intro refused
    by_cases hrefused : refused = true
    · rw [if_pos hrefused]
      exact laws.fail rfl
    · rw [if_neg hrefused]
      exact laws.bind htake hrest)
  have hwrite (choice : Choice) : quiet (Play.lift choice.result >>= fun answer =>
      Play.evaluating (μ := μ) (writeCell address (Int64.ofNat answer))) :=
    laws.bind (laws.lift choice.offToken_result.unplaced) fun _ =>
      laws.evaluating (onCells_writeCell _ _) (ofData_writeCell _ _).neverPlaced
  refine laws.joining (fun expected => hstore _ fun choice => ?_) ?_ (laws.pure none)
  · cases expected with
    | none => exact hwrite choice
    | some id =>
      simp only
      by_cases hid : choice.id.map (fun n => Int64.ofNat n.toNat) ≠ some id
      · rw [if_pos hid]
        exact laws.bind (laws.fail rfl) fun _ => hwrite choice
      · rw [if_neg hid]
        exact hwrite choice
  · rw [map_eq_pure_bind]
    exact laws.bind (laws.number op 1) fun _ => laws.pure _

/-- Every event token that makes no move keeps the laws, if taking a choice away does so for a token
that stores an answer. -/
theorem playEvent {op : OpToken EventAction} (h : op.definition.action.moves = false)
    (htakes : ∀ checkId, op.definition.action = .choiceStore checkId → quiet takeChoice) :
    quiet (playEvent op) := by
  by_cases hwrites : op.definition.action.writesMemory = false
  · exact (laws.reckoning op).playEvent h hwrites
  unfold Play.playEvent
  cases haction : op.definition.action with
  | choiceStore checkId => exact laws.storeChoice op checkId (htakes checkId haction)
  | memoryWrite =>
    exact laws.bind (laws.lift (op.ofOperands_value 0).unplaced) fun value =>
      laws.discard
        (laws.evaluating (value.onCells_evaluate _) (value.ofData_evaluate _).neverPlaced)
  | _ => simp [EventAction.writesMemory, haction] at hwrites

end Performing

/-- What holds of the operations that the event tokens are put together from which stay in their
chunk. -/
structure Staying (quiet : ∀ {α : Type}, Play μ α → Prop) : Prop
    extends Performing quiet, OnScene quiet

/-- Every event token that makes no move keeps the laws. -/
theorem Staying.playEvent {quiet : ∀ {α : Type}, Play μ α → Prop} (laws : Staying quiet)
    {op : OpToken EventAction} (h : op.definition.action.moves = false) : quiet (playEvent op) :=
  laws.toPerforming.playEvent h fun _ _ => laws.takeChoice

/-- What holds of the operations that a conversation token is put together from. -/
structure Speaking (op : OpToken ConvAction) (quiet : ∀ {α : Type}, Play μ α → Prop) : Prop
    extends Composing quiet where
  await : quiet (setStatus .userAck)
  openChoice : ∀ id, quiet (openChoice id)
  addCandidate : ∀ text display, quiet (addCandidate text display)
  display : ∀ {value text}, op.choice 0 = .ok (.candidate (some value) text) →
    quiet (evaluating value.evaluateOne)

omit [MediaSource μ] in
/-- A conversation token keeps the laws. -/
theorem Speaking.playConv {op : OpToken ConvAction} {quiet : ∀ {α : Type}, Play μ α → Prop}
    (laws : Speaking op quiet) : quiet (playConv op) := by
  unfold Play.playConv
  cases op.definition.action with
  | userAck => exact laws.await
  | «section» => exact laws.pure ()
  | choiceEntry =>
    have hunplaced := (op.ofOperands_choice 0).unplaced
    cases hentry : op.choice 0 with
    | error fault =>
      rw [hentry] at hunplaced
      rw [lift_error_bind]
      exact laws.fail hunplaced
    | ok entry =>
      rw [lift_ok_bind]
      match entry with
      | .question id => exact laws.openChoice _
      | .candidate none text => exact laws.addCandidate _ _
      | .candidate (some value) text =>
        exact laws.bind (laws.display hentry) fun _ => laws.addCandidate _ _
  | choiceOption =>
    refine laws.bind (laws.lift (op.ofOperands_text 1).unplaced) fun text => ?_
    refine laws.bind laws.state fun s => ?_
    by_cases h : s.choice.isNone = true
    · simp only [h, if_true]
      exact laws.bind (laws.openChoice none) fun _ => laws.addCandidate _ _
    · simp only [h]
      exact laws.addCandidate _ _
  | data => exact laws.fail rfl
  | linefeed => exact laws.fail rfl
  | blockPrefix => exact laws.fail rfl
  | textAux => exact laws.fail rfl
  | voice => exact laws.fail rfl

/-- What holds of the operations that the tokens of a conversation are put together from, too. -/
structure Conversing (quiet : ∀ {α : Type}, Play μ α → Prop) : Prop
    extends Staying quiet, OnStage quiet where
  dropVoice : quiet (updateState fun s => { s with pushedVoice := none })

namespace Conversing

variable {quiet : ∀ {α : Type}, Play μ α → Prop} (laws : Conversing quiet)
include laws

/-- Every conversation token keeps the laws. -/
theorem playConv (op : OpToken ConvAction) : quiet (playConv op) := by
  have hspeaking : Speaking op quiet :=
    { laws.toComposing with
      await := laws.await
      openChoice := laws.openChoice
      addCandidate := laws.addCandidate
      display := fun {value _} _ => laws.evaluating value.onCells_evaluateOne
        value.ofData_evaluateOne.neverPlaced }
  exact hspeaking.playConv

theorem takeVoice (source : VoiceSource) : quiet (takeVoice source) := by
  cases source with
  | none => exact laws.pure _
  | clip name => exact laws.pure _
  | pushed => exact laws.bind laws.state fun _ => laws.bind laws.dropVoice fun _ => laws.pure _

end Conversing

/-! ## All tokens -/

/-- What holds of the operations that an event token is put together from that may move to another
chunk. The `calm` ones may stand in front of the move, the `last` ones may be the end. -/
structure Moving (op : OpToken EventAction) (calm last : ∀ {α : Type}, Play μ α → Prop) : Prop where
  stay : last (Pure.pure ())
  fail : ∀ fault, last (fail fault : Play μ Unit)
  bindLast : ∀ {α : Type} {x : Play μ α} {f : α → Play μ Unit},
    calm x → (∀ a, last (f a)) → last (x >>= f)
  lift : ∀ {α : Type} (result : Except Fault α), calm (lift result)
  state : calm state
  number : ∀ index, calm (number op index)
  pushPosition : calm pushPosition
  setEvent : ∀ chunk, last (setEvent chunk)
  setScript : ∀ name, last (setScript name)
  setScriptOrForget : ∀ name, last (setScriptOrForget name)
  returnToPosition : last returnToPosition
  setConversation : ∀ chunk, last (setConversation chunk)

namespace Moving

variable {op : OpToken EventAction} {calm last : ∀ {α : Type}, Play μ α → Prop}
  (laws : Moving op calm last)
include laws

/-- A move that may be left out. -/
theorem iteLast {p : Prop} [Decidable p] {x : Play μ Unit} (hx : last x) :
    last (if p then x else Pure.pure ()) := by
  by_cases h : p
  · rwa [if_pos h]
  · rw [if_neg h]
    exact laws.stay

theorem jump : last (jump op) := by
  unfold Play.jump
  cases op.jumpTarget? with
  | some chunk => exact laws.setEvent chunk
  | none => exact laws.fail _

/-- An event token that may move keeps the laws. -/
theorem playEvent (h : op.definition.action.moves = true) : last (playEvent op) := by
  unfold Play.playEvent
  cases haction : op.definition.action with
  | jump => exact laws.jump
  | returnableJump => exact laws.bindLast laws.pushPosition fun _ => laws.jump
  | condJump =>
    refine laws.bindLast (laws.lift _) fun _ => laws.bindLast (laws.number 1) fun _ => ?_
    exact laws.iteLast laws.jump
  | registerJump =>
    refine laws.bindLast (laws.number 0) fun value => laws.bindLast laws.state fun s => ?_
    exact laws.iteLast laws.jump
  | «return» => exact laws.returnToPosition
  | fileJump => exact laws.bindLast (laws.lift _) fun _ => laws.setScript _
  | returnableFileJump =>
    exact laws.bindLast (laws.lift _) fun _ => laws.bindLast laws.pushPosition fun _ =>
      laws.setScriptOrForget _
  | loadConversation => exact laws.bindLast (laws.lift _) fun _ => laws.setConversation _
  | _ => simp [EventAction.moves, haction] at h

end Moving

/-- What holds of the operations that tokens are put together from. The `calm` ones may stand in
front of a move to another chunk, the `quiet` ones include everything that happens in one chunk, and
the `last` ones may end with a move. -/
structure Effects (calm quiet last : ∀ {α : Type}, Play μ α → Prop) : Prop
    extends OnStage quiet where
  calmly : ∀ {α : Type} {x : Play μ α}, calm x → quiet x
  quietly : ∀ {α : Type} {x : Play μ α}, quiet x → last x
  pure : ∀ {α : Type} (a : α), quiet (Pure.pure a)
  bind : ∀ {α β : Type} {x : Play μ α} {f : α → Play μ β},
    quiet x → (∀ a, quiet (f a)) → quiet (x >>= f)
  bindLast : ∀ {α β : Type} {x : Play μ α} {f : α → Play μ β},
    calm x → (∀ a, last (f a)) → last (x >>= f)
  lift : ∀ {α : Type} (result : Except Fault α), calm (lift result)
  ask : ∀ {β : Type} {f : Player μ → β}, Visible f → calm (ask f)
  number : ∀ {α : Type} (op : OpToken α) (index : Nat), calm (number op index)
  pushPosition : calm pushPosition
  evaluating : ∀ {α : Type} {e : Evaluation PlayState α}, OnCells e → quiet (evaluating e)
  setRegister : ∀ value, quiet (updateState fun s => { s with register := some value })
  pushVoice : ∀ name, quiet (pushVoice name)
  dropVoice : quiet (updateState fun s => { s with pushedVoice := none })
  setEvent : ∀ chunk, last (setEvent chunk)
  setScript : ∀ name, last (setScript name)
  setScriptOrForget : ∀ name, last (setScriptOrForget name)
  returnToPosition : last returnToPosition
  setConversation : ∀ chunk, last (setConversation chunk)

namespace Effects

variable {calm quiet last : ∀ {α : Type}, Play μ α → Prop} (laws : Effects calm quiet last)
include laws

/-- Laws of all tokens are laws of those that make no move. -/
theorem conversing : Conversing quiet where
  toOnStage := laws.toOnStage
  pure := laws.pure
  bind := laws.bind
  lift _ := laws.calmly (laws.lift _)
  ask hf := laws.calmly (laws.ask hf)
  evaluating he _ := laws.evaluating he
  setRegister := laws.setRegister
  pushVoice := laws.pushVoice
  dropVoice := laws.dropVoice

theorem fail {α : Type} (fault : Fault) : quiet (fail fault : Play μ α) :=
  laws.calmly (laws.lift (.error fault))

theorem moving (op : OpToken EventAction) : Moving op calm last where
  stay := laws.quietly (laws.pure ())
  fail fault := laws.quietly (laws.fail fault)
  bindLast := laws.bindLast
  lift := laws.lift
  state := laws.ask (f := fun p => p.state) fun _ _ _ _ h => h
  number := laws.number op
  pushPosition := laws.pushPosition
  setEvent := laws.setEvent
  setScript := laws.setScript
  setScriptOrForget := laws.setScriptOrForget
  returnToPosition := laws.returnToPosition
  setConversation := laws.setConversation

/-- Every event token keeps the laws. -/
theorem playEvent (op : OpToken EventAction) : last (playEvent op) := by
  cases hmoves : op.definition.action.moves with
  | false => exact laws.quietly (laws.conversing.playEvent hmoves)
  | true => exact (laws.moving op).playEvent hmoves

/-- Every conversation token keeps the laws, and makes no move. -/
theorem playConv (op : OpToken ConvAction) : quiet (playConv op) := laws.conversing.playConv op

theorem takeVoice (source : VoiceSource) : quiet (takeVoice source) :=
  laws.conversing.takeVoice source

theorem unplayable (t : Token) : quiet (do
    Play.fail (.playback (.unsupportedToken (t.listed (← player).script))) : Play μ Unit) :=
  laws.conversing.unplayable t

end Effects

/-! ## Laws that do not look at changes of the state -/

/-- What holds of the operations that tokens are put together from, where every change of the state
that stays at its position is as good as another. -/
structure Laws (calm quiet last : ∀ {α : Type}, Play μ α → Prop) : Prop where
  calmly : ∀ {α : Type} {x : Play μ α}, calm x → quiet x
  quietly : ∀ {α : Type} {x : Play μ α}, quiet x → last x
  pure : ∀ {α : Type} (a : α), quiet (Pure.pure a)
  bind : ∀ {α β : Type} {x : Play μ α} {f : α → Play μ β},
    quiet x → (∀ a, quiet (f a)) → quiet (x >>= f)
  bindLast : ∀ {α β : Type} {x : Play μ α} {f : α → Play μ β},
    calm x → (∀ a, last (f a)) → last (x >>= f)
  lift : ∀ {α : Type} (result : Except Fault α), calm (lift result)
  ask : ∀ {β : Type} {f : Player μ → β}, Visible f → calm (ask f)
  number : ∀ {α : Type} (op : OpToken α) (index : Nat), calm (number op index)
  pushPosition : calm pushPosition
  evaluating : ∀ {α : Type} {e : Evaluation PlayState α}, OnCells e → quiet (evaluating e)
  updateState : ∀ {f : PlayState → PlayState}, PlayState.Plain f → quiet (updateState f)
  tell : ∀ call, quiet (tell call)
  displayBackground : ∀ name viewport, quiet (displayBackground name viewport)
  drawCharacter : ∀ name slot x, quiet (drawCharacter name slot x)
  playMovie : ∀ name, quiet (playMovie name)
  setEvent : ∀ chunk, last (setEvent chunk)
  setScript : ∀ name, last (setScript name)
  setScriptOrForget : ∀ name, last (setScriptOrForget name)
  returnToPosition : last returnToPosition
  setConversation : ∀ chunk, last (setConversation chunk)

namespace Laws

variable {calm quiet last : ∀ {α : Type}, Play μ α → Prop} (laws : Laws calm quiet last)
include laws

theorem fail {α : Type} (fault : Fault) : quiet (fail fault : Play μ α) :=
  laws.calmly (laws.lift (.error fault))

theorem state : calm state :=
  laws.ask (f := fun p => p.state) fun _ _ _ _ h => h

theorem clearAllCharacters (fade : Duration) : quiet (clearAllCharacters fade) :=
  laws.bind (laws.tell _) fun _ => laws.updateState
    ⟨fun _ => rfl, fun _ => rfl, fun _ => rfl, fun _ => rfl, fun _ => List.nil_subset _⟩

theorem panZoom (viewport : Viewport) (time : Duration) : quiet (panZoom viewport time) :=
  laws.bind (laws.tell _) fun _ => laws.updateState (.same fun _ => rfl)

theorem fillBackground (colour : Colour) (time : Duration) : quiet (fillBackground colour time) :=
  laws.bind (laws.tell _) fun _ => laws.updateState (.same fun _ => rfl)

theorem clearCharacter (slot : Int64) : quiet (clearCharacter slot) :=
  laws.bind (laws.tell _) fun _ => laws.updateState
    ⟨fun _ => rfl, fun _ => rfl, fun _ => rfl, fun _ => rfl, fun _ => List.filter_sublist.subset⟩

theorem fadeTextbox (time : Duration) : quiet (fadeTextbox time) :=
  laws.bind (laws.tell _) fun _ => laws.updateState (.same fun _ => rfl)

theorem unfadeTextbox (time : Duration) : quiet (unfadeTextbox time) := by
  refine laws.bind (laws.calmly laws.state) fun s => ?_
  by_cases h : s.textboxFaded = true
  · simp only [h, if_true]
    exact laws.bind (laws.tell _) fun _ => laws.updateState (.same fun _ => rfl)
  · simp only [h]
    exact laws.pure ()

theorem takeChoice : quiet takeChoice := by
  refine laws.bind (laws.calmly laws.state) fun s => ?_
  cases s.choice with
  | none => exact laws.fail _
  | some choice =>
    simp only
    by_cases h : choice.isAnswered = true
    · simp only [h, if_true]
      exact laws.bind (laws.updateState (.same fun _ => rfl)) fun _ => laws.pure _
    · simp only [h]
      exact laws.fail _

theorem pushVoice (name : String) : quiet (pushVoice name) := by
  refine laws.bind (laws.calmly laws.state) fun s => ?_
  cases s.pushedVoice with
  | some pending => exact laws.fail _
  | none => exact laws.updateState (.same fun _ => rfl)

theorem openChoice (id : Option UInt16) : quiet (openChoice id) := by
  refine laws.bind (laws.calmly laws.state) fun s => ?_
  cases s.choice with
  | some choice => exact laws.fail _
  | none => exact laws.updateState (.same fun _ => rfl)

theorem addCandidate (text : String) (display : Bool) : quiet (addCandidate text display) := by
  refine laws.bind (laws.calmly laws.state) fun s => ?_
  cases s.choice with
  | none => exact laws.fail _
  | some choice => exact laws.updateState (.same fun _ => rfl)

/-- Laws about all changes of the state hold of everything that tokens do. -/
theorem effects : Effects calm quiet last where
  calmly := laws.calmly
  quietly := laws.quietly
  pure := laws.pure
  bind := laws.bind
  bindLast := laws.bindLast
  lift := laws.lift
  ask := laws.ask
  number := laws.number
  pushPosition := laws.pushPosition
  evaluating := laws.evaluating
  stop := laws.updateState (.same fun _ => rfl)
  await := laws.updateState (.same fun _ => rfl)
  displayBackground := laws.displayBackground
  panZoom := laws.panZoom
  fillBackground := laws.fillBackground
  drawCharacter := laws.drawCharacter
  clearCharacter := laws.clearCharacter
  clearAllCharacters := laws.clearAllCharacters
  fadeTextbox := laws.fadeTextbox
  unfadeTextbox := laws.unfadeTextbox
  playMovie := laws.playMovie
  openChoice := laws.openChoice
  addCandidate := laws.addCandidate
  takeChoice := laws.takeChoice
  setRegister _ := laws.updateState (.same fun _ => rfl)
  pushVoice := laws.pushVoice
  dropVoice := laws.updateState (.same fun _ => rfl)
  setEvent := laws.setEvent
  setScript := laws.setScript
  setScriptOrForget := laws.setScriptOrForget
  returnToPosition := laws.returnToPosition
  setConversation := laws.setConversation

end Laws

end Play

end NovelScript
