import NovelScript.Proofs.Play.WellFormed

/-! # Moves

A token leaves the player where it stands, or moves it: to another event chunk, to another script,
back to the saved position, or into a conversation. `Goes` says for each token that may move what
it can come down to; all other tokens are `Stationary`. Nothing is asked of media here. -/

namespace NovelScript

/-- Where a player stands: the script, the event chunk with its tokens and the number of the next
one, and the same of the conversation. -/
structure Standing where
  script : Script
  name : String
  chunk : Nat
  token : Nat
  events : List Token
  conv : Option (List Token)
  position : Option ConvPosition

/-- The place of the next event token. -/
def PlayState.here (s : PlayState) : CallFrame := ⟨s.script, s.chunk, s.token⟩

namespace Player

variable {μ : Type}

/-- Where the player stands. -/
def standing (p : Player μ) : Standing where
  script := p.script
  name := p.state.script
  chunk := p.state.chunk
  token := p.state.token
  events := p.events
  conv := p.conv
  position := p.state.conv

/-- The player with its place as the saved position. -/
def saved (p : Player μ) : Player μ :=
  { p with state := { p.state with callFrame := some p.state.here } }

end Player

namespace Play

variable {μ : Type}

/-! ## Tokens that make no move -/

/-- From one player to another neither the place nor the saved position has changed. More data
chunks may be known, if the script refers to them. -/
structure Unmoved (p p' : Player μ) : Prop where
  standing : p'.standing = p.standing
  frame : p'.state.callFrame = p.state.callFrame
  options : p'.options = p.options
  referred : p.Referred → p'.Referred

namespace Unmoved

variable {p p' p'' : Player μ}

theorem refl (p : Player μ) : Unmoved p p := ⟨rfl, rfl, rfl, id⟩

theorem trans (h : Unmoved p p') (h' : Unmoved p' p'') : Unmoved p p'' :=
  ⟨h'.standing.trans h.standing, h'.frame.trans h.frame, h'.options.trans h.options,
    fun hknown => h'.referred (h.referred hknown)⟩

theorem here (h : Unmoved p p') : p'.state.here = p.state.here := by
  have hname : p'.state.script = p.state.script := congrArg Standing.name h.standing
  have hchunk : p'.state.chunk = p.state.chunk := congrArg Standing.chunk h.standing
  have htoken : p'.state.token = p.state.token := congrArg Standing.token h.standing
  simp only [PlayState.here, hname, hchunk, htoken]

theorem script (h : Unmoved p p') : p'.script = p.script := congrArg Standing.script h.standing

theorem position (h : Unmoved p p') : p'.state.conv = p.state.conv :=
  congrArg Standing.position h.standing

end Unmoved

/-- Operations that make no move. -/
def Stationary {α : Type} (op : Play μ α) : Prop := ∀ p, Unmoved p (op p).2

theorem Stationary.bind {α β : Type} {x : Play μ α} {f : α → Play μ β} (hx : Stationary x)
    (hf : ∀ a, Stationary (f a)) : Stationary (x >>= f) :=
  bind_relates (R := Unmoved) Unmoved.trans hx hf

theorem Stationary.onChoice {α : Type} {op : Play μ α} (h : OnChoice op) : Stationary op := by
  intro p
  obtain ⟨choice, hrun, _⟩ := h p
  rw [hrun]
  exact ⟨rfl, rfl, rfl, id⟩

theorem Stationary.evaluating {α : Type} {e : Evaluation PlayState α} (he : e.OnCells) :
    Stationary (evaluating (μ := μ) e) := by
  intro p
  obtain ⟨memory, rng, -, hstate⟩ := he p.state
  have hresult : (Play.evaluating e p).2 = { p with state := (e p.state).2 } := rfl
  rw [hresult, hstate]
  exact ⟨rfl, rfl, rfl, id⟩

theorem Stationary.pushVoice (name : String) : Stationary (pushVoice (μ := μ) name) := by
  refine Stationary.bind (fun p => .refl p) fun s => ?_
  cases s.pushedVoice with
  | some pending => exact fun p => .refl p
  | none => exact fun p => ⟨rfl, rfl, rfl, id⟩

theorem Unmoved.shows {p p' : Player μ} (h : Shows p p') : Unmoved p p' := by
  cases h
  exact ⟨rfl, rfl, rfl, id⟩

/-- Posing a choice makes no move. -/
theorem Stationary.poseChoice : Stationary (poseChoice (μ := μ)) := by
  refine Stationary.bind (fun p => .refl p) fun s => ?_
  cases s.choice with
  | none => exact fun p => .refl p
  | some choice =>
    simp only
    split
    · exact fun p => ⟨rfl, rfl, rfl, id⟩
    · exact fun p => ⟨rfl, rfl, rfl, id⟩

variable [MediaSource μ]

theorem stationaryLaws : Conversing (μ := μ) Stationary where
  toOnScreen := .of_shows fun h p => .shows (h p)
  takeChoice := .onChoice onChoice_takeChoice
  pure _ p := .refl p
  bind := Stationary.bind
  lift _ p := .refl p
  ask _ p := .refl p
  evaluating he _ := .evaluating he
  setRegister _ _ := ⟨rfl, rfl, rfl, id⟩
  pushVoice := Stationary.pushVoice
  await _ := ⟨rfl, rfl, rfl, id⟩
  unfadeTextbox time p := .shows (.unfadeTextbox time p)
  openChoice id := .onChoice (onChoice_openChoice id)
  addCandidate text display := .onChoice (onChoice_addCandidate text display)
  dropVoice _ := ⟨rfl, rfl, rfl, id⟩

theorem Stationary.newTextblock (lines : List String) (voice : Option String) :
    Stationary (newTextblock (μ := μ) lines voice) := by
  intro p
  obtain ⟨fault, media, hrun⟩ | ⟨media, q, hq, hrun⟩ := newTextblock_cases lines voice p
  · rw [hrun]
    exact ⟨rfl, rfl, rfl, id⟩
  · have hshown := Unmoved.shows (.unfadeTextbox .fade { p with
      media := media
      recorder := p.recorder.record (.textblock lines voice) })
    rw [← hq] at hshown
    rw [hrun]
    exact ⟨hshown.standing, hshown.frame, hshown.options, hshown.referred⟩

/-- A token that is no move leaves the player where it stands. -/
theorem Stationary.playToken {t : Token}
    (h : ∀ op, t.kind = .event op → op.definition.action.moves = false) :
    Stationary (playToken (μ := μ) t) := by
  unfold Play.playToken
  cases hkind : t.kind with
  | event op => exact stationaryLaws.playEvent (h op hkind)
  | conv op => exact stationaryLaws.playConv op
  | text text => exact stationaryLaws.unplayable t
  | data view => exact stationaryLaws.unplayable t
  | textblock block =>
    exact (stationaryLaws.takeVoice block.voice).bind fun voice => .newTextblock block.lines voice

/-! ## Going to a place -/

omit [MediaSource μ] in
theorem Unmoved.media (p : Player μ) (media : μ) : Unmoved p { p with media := media } :=
  ⟨rfl, rfl, rfl, id⟩

/-- A player has come to a place in the event chunks, and nothing else has changed on stage, in the
conversation or in the saved position. -/
structure Arrived (p : Player μ) (place : CallFrame) (p' : Player μ) : Prop
    extends OffStage p p' where
  here : p'.state.here = place
  frame : p'.state.callFrame = p.state.callFrame
  options : p'.options = p.options
  referred : p.Referred → p'.Referred

/-- What an attempt to go to a place comes down to: it fails where the player stands, or arrives. -/
inductive Enters (p : Player μ) (place : CallFrame) : Except Fault Unit × Player μ → Prop where
  | fails {fault : Fault} {p' : Player μ} (hstage : OffStage p p') (hunmoved : Unmoved p p') :
      Enters p place (.error fault, p')
  | arrives {p' : Player μ} (harrived : Arrived p place p') : Enters p place (.ok (), p')

omit [MediaSource μ] in
/-- What is done in front of an attempt does not matter if it neither shows nor moves anything. -/
theorem Enters.after {p q : Player μ} {place : CallFrame} {run : Except Fault Unit × Player μ}
    (hstage : OffStage p q) (hunmoved : Unmoved p q) (h : Enters q place run) :
    Enters p place run := by
  cases h with
  | fails hstage' hunmoved' => exact .fails (hstage.trans hstage') (hunmoved.trans hunmoved')
  | arrives harrived =>
    exact .arrives ⟨hstage.trans harrived.toOffStage, harrived.here,
      harrived.frame.trans hunmoved.frame, harrived.options.trans hunmoved.options,
      fun hknown => harrived.referred (hunmoved.referred hknown)⟩

omit [MediaSource μ] in
theorem enterCurrent_enters (name : String) (chunk token : Nat) (p : Player μ) :
    Enters p ⟨name, chunk, token⟩ (enterCurrent name chunk token p) := by
  have hstage := OffStage.enterCurrent name chunk token p
  have hreferred : p.Referred → ∀ i ∈ p.dataChunks.extend
      (p.script.tokenizeEvent p.dataChunks chunk false).targets,
      ∃ known chunk, i ∈ (p.script.tokenizeEvent known chunk false).targets := by
    intro hknown i hi
    rcases DataChunks.mem_extend.mp hi with hi | hi
    · exact hknown i hi
    · exact ⟨p.dataChunks, chunk, hi⟩
  rw [enterCurrent_apply] at hstage ⊢
  simp only at hstage ⊢
  cases hresult : (p.script.tokenizeEvent p.dataChunks chunk false).result with
  | error fault =>
    rw [hresult] at hstage
    exact .fails hstage ⟨rfl, rfl, rfl, hreferred⟩
  | ok events =>
    rw [hresult] at hstage
    exact .arrives ⟨hstage, rfl, rfl, rfl, hreferred⟩

omit [MediaSource μ] in
theorem enterLoaded_enters (script : Script) (name : String) (chunk token : Nat) (p : Player μ) :
    Enters p ⟨name, chunk, token⟩ (enterLoaded script name chunk token p) := by
  have hstage := OffStage.enterLoaded script name chunk token p
  rw [enterLoaded_apply] at hstage ⊢
  simp only at hstage ⊢
  cases hresult : (script.tokenizeEvent [] chunk false).result with
  | error fault => exact .fails (.refl p) (.refl p)
  | ok events =>
    rw [hresult] at hstage
    refine .arrives ⟨hstage, rfl, rfl, rfl, fun _ i hi => ⟨[], chunk, ?_⟩⟩
    exact (DataChunks.mem_extend.mp hi).resolve_left List.not_mem_nil

theorem loadAndEnter_enters (name : String) (chunk token : Nat) (p : Player μ) :
    Enters p ⟨name, chunk, token⟩
      ((loadScript name >>= fun script => enterLoaded script name chunk token) p) := by
  have hload := OffStage.load .script name p
  rw [load_apply] at hload
  rw [bind_apply, loadScript, bind_apply, load_apply]
  cases (MediaSource.load p.media .script name).1 with
  | error fault => exact .fails hload (.media p _)
  | ok view =>
    simp only
    rw [bind_apply]
    simp only [player, lift]
    cases Script.parse view name p.options.title p.options.parse with
    | error fault => exact .fails hload (.media p _)
    | ok script => exact (enterLoaded_enters script name chunk token _).after hload (.media p _)

omit [MediaSource μ] in
theorem setEvent_enters (chunk : Nat) (p : Player μ) :
    Enters p ⟨p.state.script, chunk, 0⟩ (setEvent chunk p) := by
  rw [setEvent, bind_apply]
  exact enterCurrent_enters p.state.script chunk 0 p

omit [MediaSource μ] in
theorem setEvent_script (chunk : Nat) (p : Player μ) : (setEvent chunk p).2.script = p.script := by
  rw [setEvent, bind_apply]
  simp only [state]
  rw [enterCurrent_apply]
  simp only
  split
  · rfl
  · rfl

theorem setScript_enters (name : String) (p : Player μ) :
    Enters p ⟨name, 0, 0⟩ (setScript name p) :=
  loadAndEnter_enters name 0 0 p

/-! ## Tokens that move -/

/-- What an event token that may move comes down to. -/
inductive Goes (op : OpToken EventAction) (p : Player μ) : Except Fault Unit × Player μ → Prop where
  /-- The condition of a jump does not hold, or the token fails. -/
  | stays {outcome : Except Fault Unit} {p' : Player μ} (hstage : OffStage p p')
      (hunmoved : Unmoved p p')
      (hpasses : outcome = .ok () →
        op.definition.action = .condJump ∨ op.definition.action = .registerJump) :
      Goes op p (outcome, p')
  /-- The position is saved, but the chunk that is called cannot be entered. -/
  | savesOnly {fault : Fault} {p' : Player μ} (haction : op.definition.action = .returnableJump)
      (hframe : p.state.callFrame = none) (hstage : OffStage p.saved p')
      (hunmoved : Unmoved p.saved p') : Goes op p (.error fault, p')
  | jumps {chunk : Nat} {p' : Player μ} (haction : op.definition.action = .jump ∨
        op.definition.action = .condJump ∨ op.definition.action = .registerJump)
      (htarget : op.jumpTarget? = some chunk) (hscript : p'.script = p.script)
      (harrived : Arrived p ⟨p.state.script, chunk, 0⟩ p') : Goes op p (.ok (), p')
  | calls {chunk : Nat} {p' : Player μ} (haction : op.definition.action = .returnableJump)
      (hframe : p.state.callFrame = none) (htarget : op.jumpTarget? = some chunk)
      (hscript : p'.script = p.script) (harrived : Arrived p.saved ⟨p.state.script, chunk, 0⟩ p') :
      Goes op p (.ok (), p')
  | returns {frame : CallFrame} {p' : Player μ} (haction : op.definition.action = .return)
      (hframe : p.state.callFrame = some frame) (harrived : Arrived p frame p') :
      Goes op p (.ok (), { p' with state := { p'.state with callFrame := none } })
  | switches {name : String} {p' : Player μ} (haction : op.definition.action = .fileJump)
      (harrived : Arrived p ⟨name, 0, 0⟩ p') : Goes op p (.ok (), p')
  | callsFile {name : String} {p' : Player μ}
      (haction : op.definition.action = .returnableFileJump) (hframe : p.state.callFrame = none)
      (harrived : Arrived p.saved ⟨name, 0, 0⟩ p') : Goes op p (.ok (), p')
  | converses {chunk : Nat} {tokens : List Token}
      (haction : op.definition.action = .loadConversation) (hidle : p.state.conv = none) :
      Goes op p (.ok (), { p with
        conv := some tokens
        state := { p.state with conv := some ⟨chunk, 0⟩ } })

omit [MediaSource μ] in
theorem OffStage.saved (p : Player μ) : OffStage p p.saved :=
  OffStage.setFrame (fun s => some s.here) p

section

variable {op : OpToken EventAction}

omit [MediaSource μ] in
/-- A token that goes somewhere changes nothing on stage, and starts a conversation if it changes
that. -/
theorem Goes.offStage {p : Player μ} {run : Except Fault Unit × Player μ} (h : Goes op p run) :
    OffStage p run.2 ∨ ∃ position tokens, run.2 = { p with
      conv := some tokens
      state := { p.state with conv := some position } } := by
  have hsaved := OffStage.saved p
  cases h with
  | stays hstage hunmoved hpasses => exact .inl hstage
  | savesOnly haction hframe hstage hunmoved => exact .inl (hsaved.trans hstage)
  | jumps haction htarget hscript harrived => exact .inl harrived.toOffStage
  | calls haction hframe htarget hscript harrived => exact .inl (hsaved.trans harrived.toOffStage)
  | @returns frame p' haction hframe harrived =>
    exact .inl (harrived.toOffStage.trans (OffStage.setFrame (fun _ => none) p'))
  | switches haction harrived => exact .inl harrived.toOffStage
  | callsFile haction hframe harrived => exact .inl (hsaved.trans harrived.toOffStage)
  | converses haction hidle => exact .inr ⟨_, _, rfl⟩

omit [MediaSource μ] in
theorem Goes.failed {p : Player μ} (fault : Fault) : Goes op p (.error fault, p) :=
  .stays (.refl p) (.refl p) fun h => by cases h

omit [MediaSource μ] in
/-- A jump, behind what neither shows nor moves anything. -/
theorem Goes.jump {p q : Player μ} (haction : op.definition.action = .jump ∨
      op.definition.action = .condJump ∨ op.definition.action = .registerJump)
    (hstage : OffStage p q) (hunmoved : Unmoved p q) : Goes op p (Play.jump op q) := by
  unfold Play.jump
  cases htarget : op.jumpTarget? with
  | none => exact .stays hstage hunmoved fun h => by cases h
  | some chunk =>
    have henters := (setEvent_enters chunk q).after hstage hunmoved
    have hscript := setEvent_script chunk q
    have hname : q.state.script = p.state.script := congrArg Standing.name hunmoved.standing
    simp only
    rw [hname] at henters
    generalize setEvent chunk q = run at henters hscript ⊢
    cases henters with
    | fails hstage hunmoved => exact .stays hstage hunmoved fun h => by cases h
    | arrives harrived => exact .jumps haction htarget (hscript.trans hunmoved.script) harrived

omit [MediaSource μ] in
/-- A jump that may be left out. -/
theorem Goes.jumpIf {condition : Prop} [Decidable condition] {p q : Player μ}
    (haction : op.definition.action = .condJump ∨ op.definition.action = .registerJump)
    (hstage : OffStage p q) (hunmoved : Unmoved p q) :
    Goes op p ((if condition then Play.jump op else pure ()) q) := by
  by_cases hcondition : condition
  · rw [if_pos hcondition]
    exact .jump (.inr haction) hstage hunmoved
  · rw [if_neg hcondition]
    exact .stays hstage hunmoved fun _ => haction

omit [MediaSource μ] in
/-- Going on behind an evaluation of an operand. -/
theorem Goes.number {p q : Player μ} (hstage : OffStage p q) (hunmoved : Unmoved p q)
    (index : Nat) {f : Int64 → Play μ Unit}
    (hf : ∀ value q, OffStage p q → Unmoved p q → Goes op p (f value q)) :
    Goes op p ((Play.number op index >>= f) q) := by
  have hstage' := hstage.trans (OffStage.number op index q)
  have hstationary : Stationary (Play.number (μ := μ) op index) :=
    Stationary.bind (fun p => .refl p) fun value => .evaluating value.onCells_evaluateOne
  have hunmoved' := hunmoved.trans (hstationary q)
  rw [bind_apply]
  rcases hrun : Play.number op index q with ⟨outcome, q'⟩
  rw [hrun] at hstage' hunmoved'
  cases outcome with
  | error fault => exact .stays hstage' hunmoved' fun h => by cases h
  | ok value => exact hf value q' hstage' hunmoved'

omit [MediaSource μ] in
/-- Going on behind a result that does not depend on the player. -/
theorem Goes.lift {α : Type} {p : Player μ} {result : Except Fault α} {f : α → Play μ Unit}
    (hf : ∀ a, Goes op p (f a p)) : Goes op p ((Play.lift result >>= f) p) := by
  rw [bind_apply]
  simp only [Play.lift]
  cases result with
  | error fault => exact .failed fault
  | ok a => exact hf a

omit [MediaSource μ] in
theorem pushPosition_apply (p : Player μ) :
    pushPosition p =
      match p.state.callFrame with
      | some frame => (.error (.state (.positionSaved frame.script frame.chunk frame.token)), p)
      | none => (.ok (), p.saved) := by
  rw [pushPosition, bind_apply]
  simp only [state]
  cases p.state.callFrame with
  | some frame => rfl
  | none => rfl

omit [MediaSource μ] in
/-- Going on behind the saving of a position, which fails if there is one. -/
theorem Goes.pushPosition {p : Player μ} {f : Play μ Unit}
    (hf : p.state.callFrame = none → Goes op p (f p.saved)) :
    Goes op p ((Play.pushPosition >>= fun _ => f) p) := by
  rw [bind_apply, pushPosition_apply]
  cases hframe : p.state.callFrame with
  | some frame => exact .failed _
  | none => exact hf hframe

omit [MediaSource μ] in
theorem Goes.call {p : Player μ} (haction : op.definition.action = .returnableJump)
    (hframe : p.state.callFrame = none) : Goes op p (Play.jump op p.saved) := by
  unfold Play.jump
  cases htarget : op.jumpTarget? with
  | none => exact .savesOnly haction hframe (.refl _) (.refl _)
  | some chunk =>
    have henters := setEvent_enters chunk p.saved
    have hscript := setEvent_script chunk p.saved
    simp only
    generalize setEvent chunk p.saved = run at henters hscript ⊢
    cases henters with
    | fails hstage hunmoved => exact .savesOnly haction hframe hstage hunmoved
    | arrives harrived => exact .calls haction hframe htarget hscript harrived

theorem Goes.callFile {p : Player μ} (haction : op.definition.action = .returnableFileJump)
    (hframe : p.state.callFrame = none) (name : String) :
    Goes op p (setScriptOrForget name p.saved) := by
  have henters := setScript_enters name p.saved
  unfold setScriptOrForget
  generalize setScript name p.saved = run at henters ⊢
  cases henters with
  | @fails fault p' hstage hunmoved =>
    -- the position that was saved for the call is forgotten again
    refine .stays ?_ ?_ fun h => by cases h
    · exact (OffStage.saved p).trans (hstage.trans (OffStage.setFrame (fun _ => none) p'))
    · exact ⟨hunmoved.standing, hframe.symm, hunmoved.options, hunmoved.referred⟩
  | arrives harrived => exact .callsFile haction hframe harrived

theorem Goes.return {p : Player μ} (haction : op.definition.action = .return) :
    Goes op p (returnToPosition p) := by
  have hforget : ∀ {frame : CallFrame} (x : Play μ Unit), p.state.callFrame = some frame →
      Enters p frame (x p) →
      Goes op p ((x >>= fun _ => updateState fun s => { s with callFrame := none }) p) := by
    intro frame x hframe henters
    rw [bind_apply]
    generalize x p = run at henters ⊢
    cases henters with
    | fails hstage hunmoved => exact .stays hstage hunmoved fun h => by cases h
    | arrives harrived => exact .returns haction hframe harrived
  rw [returnToPosition, bind_apply]
  simp only [state]
  cases hframe : p.state.callFrame with
  | none => exact .failed _
  | some frame =>
    simp only
    by_cases hcase : Text.equalIgnoringAsciiCase frame.script p.state.script = true
    · rw [if_pos hcase]
      exact hforget _ hframe (enterCurrent_enters _ _ _ p)
    · rw [if_neg hcase, ← bind_assoc]
      exact hforget _ hframe (loadAndEnter_enters _ _ _ p)

omit [MediaSource μ] in
theorem Goes.converse {p : Player μ} (haction : op.definition.action = .loadConversation)
    (chunk : Nat) : Goes op p (setConversation chunk p) := by
  rw [setConversation_apply]
  cases hidle : p.state.conv with
  | some active => exact .failed _
  | none =>
    cases (p.script.tokenizeConv chunk false).result with
    | error fault => exact .failed fault
    | ok tokens => exact .converses haction hidle

/-- Every event token that may move goes one of these ways. -/
theorem playEvent_goes (h : op.definition.action.moves = true) (p : Player μ) :
    Goes op p (playEvent op p) := by
  unfold Play.playEvent
  cases haction : op.definition.action with
  | jump => exact .jump (.inl haction) (.refl p) (.refl p)
  | returnableJump => exact .pushPosition fun hframe => .call haction hframe
  | condJump =>
    exact .lift fun flag => .number (.refl p) (.refl p) 1 fun value q hstage hunmoved =>
      .jumpIf (.inl haction) hstage hunmoved
  | registerJump =>
    refine .number (.refl p) (.refl p) 0 fun value q hstage hunmoved => ?_
    rw [bind_apply]
    exact .jumpIf (.inr haction) hstage hunmoved
  | «return» => exact .return haction
  | fileJump =>
    refine .lift fun bytes => ?_
    have henters := setScript_enters (mediaName bytes) p
    generalize setScript (mediaName bytes) p = run at henters ⊢
    cases henters with
    | fails hstage hunmoved => exact .stays hstage hunmoved fun h => by cases h
    | arrives harrived => exact .switches haction harrived
  | returnableFileJump =>
    exact .lift fun bytes => .pushPosition fun hframe => .callFile haction hframe (mediaName bytes)
  | loadConversation => exact .lift fun index => .converse haction index.toNat
  | _ => simp [EventAction.moves, haction] at h

end

/-- A token stays, or is an event token that goes somewhere. -/
theorem playToken_cases (t : Token) (p : Player μ) :
    Unmoved p (playToken t p).2 ∧ (∀ op, t.kind = .event op → op.definition.action.moves = false) ∨
      ∃ op, t.kind = .event op ∧ Goes op p (playToken t p) := by
  by_cases hmoves : ∃ op, t.kind = .event op ∧ op.definition.action.moves = true
  · obtain ⟨op, hkind, hmoves⟩ := hmoves
    refine .inr ⟨op, hkind, ?_⟩
    simp only [playToken, hkind]
    exact playEvent_goes hmoves p
  · have hquiet : ∀ op, t.kind = .event op → op.definition.action.moves = false := by
      intro op hkind
      cases hop : op.definition.action.moves with
      | false => rfl
      | true => exact absurd ⟨op, hkind, hop⟩ hmoves
    exact .inl ⟨Stationary.playToken hquiet p, hquiet⟩

end Play

end NovelScript
