import NovelScript.Media.Library
import NovelScript.Proofs.Play.Moves
import NovelScript.Proofs.Script.Operands

/-! # What a token tells when it fails

A token that fails tells what the media, the files or the state of playback do not allow, or that
it lacks an operand. Tokens that were read from a script file have all operands that are taken from
them, and what they refer to is in the file. -/

namespace NovelScript

/-- What is told when a token is asked for what its action takes: for its operands, and for a chunk
to go to. -/
structure Token.Answers (P : Fault → Prop) (t : Token) : Prop where
  event : ∀ op, t.kind = .event op → op.Takes P op.definition.action.places
  jump : ∀ op, t.kind = .event op → op.definition.action.jumps = true → op.jumpTarget? = none →
    P (.state (.noJumpTarget op.label))
  conv : ∀ op, t.kind = .conv op → op.Takes P op.definition.action.places

/-- Whatever a token consists of, nothing but its operands is at fault when it is asked. -/
theorem Token.answers_ofOperands {P : Fault → Prop}
    (hP : ∀ fault, fault.isOfOperands = true → P fault) (t : Token) : t.Answers P where
  event op _ := OpToken.takes_ofOperands hP op _
  jump _ _ _ _ := hP _ rfl
  conv op _ := OpToken.takes_ofOperands hP op _

/-! ## Media -/

theorem FixedMedia.offToken_load (media : FixedMedia) (kind : MediaKind) (name : String) :
    OffToken (MediaSource.load media kind name).1 := by
  simp only [MediaSource.load]
  split
  · trivial
  · exact ⟨rfl, rfl⟩

theorem MediaLibrary.offToken_load (library : MediaLibrary) (kind : MediaKind) (name : String) :
    OffToken (MediaSource.load library kind name).1 := by
  simp only [MediaSource.load]
  split
  · trivial
  · rename_i fault _ _
    cases fault with
    | _ => exact ⟨rfl, rfl⟩

namespace Play

variable {μ : Type}

/-! ## Faults of operations -/

theorem offToken_pushPosition : AlwaysOffToken (pushPosition (μ := μ)) := by
  intro p
  rw [pushPosition_apply]
  split
  · exact ⟨rfl, rfl⟩
  · trivial

theorem offToken_enterCurrent (name : String) (chunk token : Nat) :
    AlwaysOffToken (enterCurrent (μ := μ) name chunk token) := by
  intro p
  have hread := (p.script.ofData_tokenizeEvent p.dataChunks chunk false).offToken
  rw [enterCurrent_apply]
  simp only
  cases hresult : (p.script.tokenizeEvent p.dataChunks chunk false).result with
  | error fault => rwa [hresult] at hread
  | ok events => trivial

theorem offToken_enterLoaded (script : Script) (name : String) (chunk token : Nat) :
    AlwaysOffToken (enterLoaded (μ := μ) script name chunk token) := by
  intro p
  have hread := (script.ofData_tokenizeEvent [] chunk false).offToken
  rw [enterLoaded_apply]
  simp only
  cases hresult : (script.tokenizeEvent [] chunk false).result with
  | error fault => rwa [hresult] at hread
  | ok events => trivial

theorem offToken_setEvent (chunk : Nat) : AlwaysOffToken (setEvent (μ := μ) chunk) := by
  intro p
  rw [setEvent, bind_apply]
  exact offToken_enterCurrent p.state.script chunk 0 p

theorem offToken_setConversation (chunk : Nat) :
    AlwaysOffToken (setConversation (μ := μ) chunk) := by
  intro p
  have hread := (p.script.ofData_tokenizeConv chunk false).offToken
  rw [setConversation_apply]
  cases p.state.conv with
  | some active => exact ⟨rfl, rfl⟩
  | none =>
    simp only
    cases hresult : (p.script.tokenizeConv chunk false).result with
    | error fault => rwa [hresult] at hread
    | ok tokens => trivial

theorem offToken_poseChoice : AlwaysOffToken (poseChoice (μ := μ)) := by
  refine AlwaysTells.bind (fun _ => trivial) fun s => ?_
  cases s.choice with
  | none => exact fun _ => ⟨rfl, rfl⟩
  | some choice =>
    refine AlwaysTells.ite ?_ ?_
    · exact AlwaysTells.bind (fun _ => trivial) fun _ _ => ⟨rfl, rfl⟩
    · exact fun _ => trivial

theorem offToken_takeChoice : AlwaysOffToken (takeChoice (μ := μ)) := by
  refine AlwaysTells.bind (fun _ => trivial) fun s => ?_
  cases s.choice with
  | none => exact fun _ => ⟨rfl, rfl⟩
  | some choice => exact AlwaysTells.ite (fun _ => trivial) fun _ => ⟨rfl, rfl⟩

theorem offToken_openChoice (id : Option UInt16) : AlwaysOffToken (openChoice (μ := μ) id) := by
  refine AlwaysTells.bind (fun _ => trivial) fun s => ?_
  cases s.choice with
  | some choice => exact fun _ => ⟨rfl, rfl⟩
  | none => exact fun _ => trivial

theorem offToken_addCandidate (text : String) (display : Bool) :
    AlwaysOffToken (addCandidate (μ := μ) text display) := by
  refine AlwaysTells.bind (fun _ => trivial) fun s => ?_
  cases s.choice with
  | none => exact fun _ => ⟨rfl, rfl⟩
  | some choice => exact fun _ => trivial

theorem offToken_pushVoice (name : String) : AlwaysOffToken (pushVoice (μ := μ) name) := by
  refine AlwaysTells.bind (fun _ => trivial) fun s => ?_
  cases s.pushedVoice with
  | some pending => exact fun _ => ⟨rfl, rfl⟩
  | none => exact fun _ => trivial

theorem offToken_evaluating {α : Type} {e : Evaluation PlayState α} (h : AlwaysOfData e) :
    AlwaysOffToken (evaluating (μ := μ) e) :=
  fun p => OfData.offToken (h p.state)

/-! ## Faults of tokens -/

/-- The faults in question are among others all that say nothing of a token, and all that a source
of media tells. -/
structure Admits (μ : Type) [MediaSource μ] (P : Fault → Prop) : Prop where
  offToken : ∀ fault, fault.isPlaced = false ∧ fault.isOfOperands = false → P fault
  media : ∀ (media : μ) kind name, Tells P (MediaSource.load media kind name).1

namespace Admits

variable [MediaSource μ] {P : Fault → Prop} (h : Admits μ P)
include h

theorem always {α : Type} {x : Play μ α} (hx : AlwaysOffToken x) : AlwaysTells P x :=
  hx.mono h.offToken

theorem fail {α : Type} {fault : Fault}
    (hfault : fault.isPlaced = false ∧ fault.isOfOperands = false) :
    AlwaysTells P (fail fault : Play μ α) :=
  fun _ => h.offToken fault hfault

theorem load (kind : MediaKind) (name : String) : AlwaysTells P (load (μ := μ) kind name) :=
  fun p => h.media p.media kind name

theorem loadScript (name : String) : AlwaysTells P (loadScript (μ := μ) name) :=
  (h.load _ _).bind fun view => AlwaysTells.bind (fun _ => trivial) fun _ _ =>
    (Script.ofData_parse view name _ _).offToken.mono h.offToken

theorem loadAndEnter (name : String) (chunk token : Nat) :
    AlwaysTells P (Play.loadScript (μ := μ) name >>= fun script =>
      enterLoaded script name chunk token) :=
  (h.loadScript name).bind fun script => h.always (offToken_enterLoaded script name chunk token)

theorem setScriptOrForget (name : String) : AlwaysTells P (setScriptOrForget (μ := μ) name) := by
  intro p
  have hset := h.loadAndEnter name 0 0 p
  rw [← setScript] at hset
  simp only [Play.setScriptOrForget]
  rcases hrun : setScript name p with ⟨outcome, p'⟩
  rw [hrun] at hset
  cases outcome with
  | error fault => exact hset
  | ok _ => trivial

theorem returnToPosition : AlwaysTells P (returnToPosition (μ := μ)) := by
  refine AlwaysTells.bind (fun _ => trivial) fun s => ?_
  cases s.callFrame with
  | none => exact h.fail ⟨rfl, rfl⟩
  | some frame =>
    simp only
    by_cases hcase : Text.equalIgnoringAsciiCase frame.script s.script = true
    · rw [if_pos hcase]
      exact (h.always (offToken_enterCurrent _ _ _)).bind fun _ _ => trivial
    · rw [if_neg hcase, ← bind_assoc]
      exact (h.loadAndEnter _ _ _).bind fun _ _ => trivial

theorem discardLoad (kind : MediaKind) (name : String) :
    AlwaysTells P (discard (Play.load (μ := μ) kind name)) := by
  rw [discard_eq]
  exact (h.load _ _).bind fun _ => .pure _

theorem displayBackground (name : String) (viewport : Viewport) :
    AlwaysTells P (displayBackground (μ := μ) name viewport) :=
  (h.discardLoad _ _).bind fun _ _ => trivial

theorem findCharacter (name : String) : AlwaysTells P (findCharacter (μ := μ) name) := by
  intro p
  have hfirst := h.media p.media .characterArt name
  simp only [Play.findCharacter, load_apply]
  cases hload : (MediaSource.load p.media .characterArt name).1 with
  | ok view => trivial
  | error fault =>
    rw [hload] at hfirst
    simp only
    split
    · cases baseVariant? name with
      | none => exact hfirst
      | some base =>
        have hsecond :=
          h.media (MediaSource.load p.media .characterArt name).2 .characterArt base
        simp only
        cases hbase : (MediaSource.load (MediaSource.load p.media .characterArt name).2
            .characterArt base).1 with
        | ok view => trivial
        | error fault => rwa [hbase] at hsecond
    · exact hfirst

theorem drawCharacter (name : String) (slot x : Int64) :
    AlwaysTells P (drawCharacter (μ := μ) name slot x) :=
  (h.findCharacter name).bind fun _ _ => trivial

omit h in
theorem playMovie (name : String) : AlwaysTells P (playMovie (μ := μ) name) := by
  intro p
  simp only [Play.playMovie, load_apply]
  cases (MediaSource.load p.media .movie name).1 with
  | ok view => trivial
  | error fault => trivial

theorem newTextblock (lines : List String) (voice : Option String) :
    AlwaysTells P (newTextblock (μ := μ) lines voice) := by
  have hshow : AlwaysTells P (showTextblock (μ := μ) lines voice) := by
    cases voice with
    | none => exact fun _ => trivial
    | some name => exact (h.discardLoad _ _).bind fun _ _ => trivial
  have hunfade : AlwaysTells P (unfadeTextbox (μ := μ) .fade) :=
    fun p => (unfadeTextbox_ok .fade p) ▸ trivial
  exact hshow.bind fun _ => hunfade.bind fun _ _ => trivial

omit [MediaSource μ] h in
theorem takeVoice (source : VoiceSource) : AlwaysTells P (takeVoice (μ := μ) source) := by
  cases source with
  | none => exact .pure _
  | clip name => exact .pure _
  | pushed => exact fun _ => trivial

/-! ### Operands -/

theorem number {α : Type} {op : OpToken α} {index : Nat} (htaken : Tells P (op.value index)) :
    AlwaysTells P (number (μ := μ) op index) :=
  AlwaysTells.bind (fun _ => htaken) fun value =>
    h.always (offToken_evaluating value.ofData_evaluateOne)

theorem characterSlot {op : OpToken EventAction} {oneBased : Bool} {index : Nat}
    (htaken : Tells P (op.value index)) :
    AlwaysTells P (characterSlot (μ := μ) op oneBased index) :=
  (h.number htaken).bind fun value _ => (offToken_slotOf oneBased value).mono h.offToken

theorem filename {op : OpToken EventAction} {index : Nat} (htaken : Tells P (op.filename index)) :
    AlwaysTells P (filename (μ := μ) op index) :=
  AlwaysTells.bind (fun _ => htaken) fun _ => AlwaysTells.bind (fun _ => trivial) fun p =>
    AlwaysTells.bind (fun _ => (p.script.ofData_filename _).offToken.mono h.offToken) fun _ =>
      .pure _

theorem rectangle {op : OpToken EventAction} {first : Nat}
    (htaken : ∀ index, first ≤ index → index < first + 4 → Tells P (op.value index)) :
    AlwaysTells P (rectangle (μ := μ) op first) :=
  (h.number (htaken first (by omega) (by omega))).bind fun _ =>
    (h.number (htaken (first + 1) (by omega) (by omega))).bind fun _ =>
      (h.number (htaken (first + 2) (by omega) (by omega))).bind fun _ =>
        (h.number (htaken (first + 3) (by omega) (by omega))).bind fun _ => .pure _

theorem jump {op : OpToken EventAction}
    (htarget : op.jumpTarget? = none → P (.state (.noJumpTarget op.label))) :
    AlwaysTells P (jump (μ := μ) op) := by
  unfold Play.jump
  cases hjump : op.jumpTarget? with
  | some chunk => exact h.always (offToken_setEvent chunk)
  | none => exact fun _ => htarget hjump

theorem storeChoice {op : OpToken EventAction} {checkId : Bool} (haddress : Tells P (op.value 0))
    (hid : checkId = true → Tells P (op.value 1)) :
    AlwaysTells P (storeChoice (μ := μ) op checkId) := by
  refine (h.number haddress).bind fun address => ?_
  have hwrite (choice : Choice) : AlwaysTells P (lift choice.result >>= fun answer =>
      evaluating (μ := μ) (Evaluation.writeCell address (Int64.ofNat answer))) :=
    AlwaysTells.bind (fun _ => choice.offToken_result.mono h.offToken) fun _ =>
      h.always (offToken_evaluating (Evaluation.ofData_writeCell _ _))
  refine .joining (fun expected => ?_) (fun hcheck => (h.number (hid hcheck)).map) (.pure _)
  refine AlwaysTells.bind (fun _ => trivial) fun p => .ite (h.fail ⟨rfl, rfl⟩) ?_
  refine (h.always offToken_takeChoice).bind fun choice => ?_
  cases expected with
  | none => exact hwrite choice
  | some id => exact .joining (fun _ => hwrite choice) (fun _ => h.fail ⟨rfl, rfl⟩) (.pure ())

/-- An event token whose operands can be taken and that has a chunk to go to tells nothing else. -/
theorem playEvent {op : OpToken EventAction} (htakes : op.Takes P op.definition.action.places)
    (htarget : op.definition.action.jumps = true → op.jumpTarget? = none →
      P (.state (.noJumpTarget op.label))) :
    AlwaysTells P (playEvent (μ := μ) op) := by
  unfold Play.playEvent
  revert htakes htarget
  cases op.definition.action with
  | data => exact fun _ _ => h.fail ⟨rfl, rfl⟩
  | scriptLink => exact fun _ _ => h.fail ⟨rfl, rfl⟩
  | jumpTable => exact fun _ _ => h.fail ⟨rfl, rfl⟩
  | stop => exact fun _ _ _ => trivial
  | jump => exact fun _ htarget => h.jump (htarget rfl)
  | returnableJump =>
    exact fun _ htarget => (h.always offToken_pushPosition).bind fun _ => h.jump (htarget rfl)
  | condJump =>
    intro htakes htarget
    refine AlwaysTells.bind (fun _ => htakes.u8 0 (by decide)) fun _ => ?_
    refine (h.number (htakes.value 1 (by decide))).bind fun _ => ?_
    exact .ite (h.jump (htarget rfl)) (.pure _)
  | loadRegister =>
    exact fun htakes _ => (h.number (htakes.value 0 (by decide))).bind fun _ _ => trivial
  | registerJump =>
    intro htakes htarget
    refine (h.number (htakes.value 0 (by decide))).bind fun _ => ?_
    exact AlwaysTells.bind (fun _ => trivial) fun _ => .ite (h.jump (htarget rfl)) (.pure _)
  | «return» => exact fun _ _ => h.returnToPosition
  | fileJump =>
    intro htakes _
    exact AlwaysTells.bind (fun _ => htakes.bytes 0 (by decide)) fun bytes =>
      h.loadAndEnter (mediaName bytes) 0 0
  | returnableFileJump =>
    intro htakes _
    exact AlwaysTells.bind (fun _ => htakes.bytes 1 (by decide)) fun bytes =>
      (h.always offToken_pushPosition).bind fun _ => h.setScriptOrForget (mediaName bytes)
  | background =>
    intro htakes _
    exact (h.filename (htakes.filename 0 (by decide))).bind fun _ => h.displayBackground _ _
  | partialBackground =>
    intro htakes _
    refine (h.filename (htakes.filename 0 (by decide))).bind fun _ => ?_
    refine (h.rectangle fun index hfirst hlast => htakes.value index ?_).bind fun _ =>
      h.displayBackground _ _
    obtain rfl | rfl | rfl | rfl : index = 3 ∨ index = 4 ∨ index = 5 ∨ index = 6 := by omega
    all_goals decide
  | scrollBackground =>
    intro htakes _
    refine (h.filename (htakes.filename 0 (by decide))).bind fun _ => ?_
    exact (h.number (htakes.value 1 (by decide))).bind fun _ => h.displayBackground _ _
  | panZoom =>
    intro htakes _
    refine (h.rectangle fun index _ hlast => htakes.value index ?_).bind fun _ => ?_
    · obtain rfl | rfl | rfl | rfl : index = 0 ∨ index = 1 ∨ index = 2 ∨ index = 3 := by omega
      all_goals decide
    · exact (h.number (htakes.value 4 (by decide))).bind fun _ _ => trivial
  | scrollPan =>
    intro htakes _
    refine (h.number (htakes.value 0 (by decide))).bind fun _ => ?_
    exact (h.number (htakes.value 1 (by decide))).bind fun _ _ => trivial
  | fade =>
    intro htakes _
    refine (h.number (htakes.value 0 (by decide))).bind fun value => ?_
    exact AlwaysTells.bind (fun _ => (offToken_fillColour value).mono h.offToken) fun _ _ => trivial
  | drawCharacter oneBased =>
    intro htakes _
    refine (h.characterSlot (htakes.value 0 (by simp [EventAction.places]))).bind fun _ => ?_
    refine (h.filename (htakes.filename 1 (by simp [EventAction.places]))).bind fun _ => ?_
    exact (h.number (htakes.value 2 (by simp [EventAction.places]))).bind fun _ =>
      h.drawCharacter _ _ _
  | drawPair =>
    intro htakes _
    refine (h.characterSlot (htakes.value 0 (by decide))).bind fun _ => ?_
    refine (h.characterSlot (htakes.value 1 (by decide))).bind fun _ => ?_
    refine (h.filename (htakes.filename 2 (by decide))).bind fun _ => ?_
    refine (h.filename (htakes.filename 3 (by decide))).bind fun _ => ?_
    refine (h.number (htakes.value 4 (by decide))).bind fun _ => ?_
    refine (h.number (htakes.value 5 (by decide))).bind fun _ => ?_
    exact (h.drawCharacter _ _ _).bind fun _ => h.drawCharacter _ _ _
  | drawTriple =>
    intro htakes _
    refine (h.filename (htakes.filename 0 (by decide))).bind fun _ => ?_
    refine (h.number (htakes.value 3 (by decide))).bind fun _ => ?_
    refine (h.drawCharacter _ _ _).bind fun _ => ?_
    refine (h.filename (htakes.filename 1 (by decide))).bind fun _ => ?_
    refine (h.number (htakes.value 4 (by decide))).bind fun _ => ?_
    refine (h.drawCharacter _ _ _).bind fun _ => ?_
    refine (h.filename (htakes.filename 2 (by decide))).bind fun _ => ?_
    exact (h.number (htakes.value 5 (by decide))).bind fun _ => h.drawCharacter _ _ _
  | clearCharacter oneBased =>
    intro htakes _
    exact (h.characterSlot (htakes.value 0 (by simp [EventAction.places]))).bind fun _ _ => trivial
  | clearAll => exact fun _ _ _ => trivial
  | textboxOff => exact fun _ _ _ => trivial
  | choiceStore checkId =>
    intro htakes _
    cases checkId with
    | false => exact h.storeChoice (htakes.value 0 (by decide)) nofun
    | true => exact h.storeChoice (htakes.value 0 (by decide)) fun _ => htakes.value 1 (by decide)
  | memoryWrite =>
    intro htakes _
    refine AlwaysTells.bind (fun _ => htakes.value 0 (by decide)) fun value => ?_
    rw [discard_eq]
    exact (h.always (offToken_evaluating (value.ofData_evaluate _))).bind fun _ => .pure _
  | loadConversation =>
    intro htakes _
    exact AlwaysTells.bind (fun _ => htakes.conversation 0 (by decide)) fun index =>
      h.always (offToken_setConversation index.toNat)
  | movie =>
    exact fun htakes _ => AlwaysTells.bind (fun _ => htakes.bytes 0 (by decide)) fun _ =>
      playMovie _
  | pushVoice =>
    exact fun htakes _ => AlwaysTells.bind (fun _ => htakes.bytes 0 (by decide)) fun _ =>
      h.always (offToken_pushVoice _)

/-- A conversation token whose operands can be taken tells nothing else. -/
theorem playConv {op : OpToken ConvAction} (htakes : op.Takes P op.definition.action.places) :
    AlwaysTells P (playConv (μ := μ) op) := by
  unfold Play.playConv
  revert htakes
  cases op.definition.action with
  | userAck => exact fun _ _ => trivial
  | «section» => exact fun _ => .pure ()
  | choiceEntry =>
    intro htakes
    refine AlwaysTells.bind (fun _ => htakes.choice 0 (by decide)) fun entry => ?_
    match entry with
    | .question id => exact h.always (offToken_openChoice _)
    | .candidate none text => exact h.always (offToken_addCandidate _ _)
    | .candidate (some display) text =>
      exact (h.always (offToken_evaluating display.ofData_evaluateOne)).bind fun _ =>
        h.always (offToken_addCandidate _ _)
  | choiceOption =>
    intro htakes
    refine AlwaysTells.bind (fun _ => htakes.text 1 (by decide)) fun text => ?_
    refine AlwaysTells.bind (fun _ => trivial) fun s => ?_
    have hadd := h.always (offToken_addCandidate (μ := μ) text true)
    exact .joining (fun _ => hadd) (fun _ => h.always (offToken_openChoice none)) (.pure ())
  | _ => exact fun _ => h.fail ⟨rfl, rfl⟩

/-- A token whose operands can be taken and that has a chunk to go to tells nothing else. -/
theorem playToken {t : Token} (ht : t.Answers P) : AlwaysTells P (playToken (μ := μ) t) := by
  have hunplayable : AlwaysTells P (do
      Play.fail (.playback (.unsupportedToken (t.listed (← player).script))) : Play μ Unit) :=
    AlwaysTells.bind (fun _ => trivial) fun _ => h.fail ⟨rfl, rfl⟩
  unfold Play.playToken
  cases hkind : t.kind with
  | event op => exact h.playEvent (ht.event op hkind) (ht.jump op hkind)
  | conv op => exact h.playConv (ht.conv op hkind)
  | text text => exact hunplayable
  | data view => exact hunplayable
  | textblock block => exact (takeVoice block.voice).bind fun voice => h.newTextblock _ voice

end Admits

end Play

/-! ## Tokens that were read -/

/-- The operands of an opcode; other tokens have none. -/
def Token.operands (t : Token) : List Operand :=
  match t.kind with
  | .event op => op.operands
  | .conv op => op.operands
  | _ => []

/-- A source of media that says nothing of operands. -/
def MediaSource.TellsNoOperand (μ : Type) [MediaSource μ] : Prop :=
  ∀ (media : μ) kind name,
    Tells (fun fault => fault.isOfOperands = false) (MediaSource.load media kind name).1

theorem FixedMedia.tellsNoOperand : MediaSource.TellsNoOperand FixedMedia :=
  fun media kind name => (media.offToken_load kind name).mono fun _ h => h.2

theorem MediaLibrary.tellsNoOperand : MediaSource.TellsNoOperand MediaLibrary :=
  fun library kind name => (library.offToken_load kind name).mono fun _ h => h.2

namespace Script

variable {s : Script} {t : Token}

/-- A token that the file has in one of its chunks. -/
def HasToken (s : Script) (t : Token) : Prop :=
  (∃ known index capture, t ∈ (s.tokenizeEvent known index capture).tokens) ∨
    ∃ index capture, t ∈ (s.tokenizeConv index capture).tokens

/-- What a token of a file is: an opcode that was read, or no opcode. -/
theorem HasToken.readFrom (h : s.HasToken t) :
    (∃ op, t.kind = .event op ∧ s.ReadFrom s.title.eventTable op) ∨
      (∃ op, t.kind = .conv op ∧ s.ReadFrom s.title.convTable op) ∨
        (∀ op, t.kind ≠ .event op) ∧ ∀ op, t.kind ≠ .conv op := by
  have hother {kind : TokenKind} (hkind : t.kind = kind)
      (hopcode : (∀ op, kind ≠ .event op) ∧ ∀ op, kind ≠ .conv op) :
      (∀ op, t.kind ≠ .event op) ∧ ∀ op, t.kind ≠ .conv op := by
    rwa [hkind]
  rcases h with ⟨known, index, capture, ht⟩ | ⟨index, capture, ht⟩
  · rcases readFrom_of_mem_tokenizeEvent ht with hevent | ⟨view, hkind⟩
    · exact .inl hevent
    · exact .inr (.inr (hother hkind ⟨nofun, nofun⟩))
  · rcases readFrom_of_mem_tokenizeConv ht with ht | ⟨block, hkind⟩
    · rcases readFrom_of_mem_tokenizeConvPlain ht with hconv | ⟨text, hkind⟩
      · exact .inr (.inl hconv)
      · exact .inr (.inr (hother hkind ⟨nofun, nofun⟩))
    · exact .inr (.inr (hother hkind ⟨nofun, nofun⟩))

/-- The operands of a token of a file are there, whatever would be told if they were not. -/
theorem HasToken.answers {P : Fault → Prop} (h : s.HasToken t) : t.Answers P := by
  rcases h.readFrom with ⟨op, hkind, hread⟩ | ⟨op, hkind, hread⟩ | ⟨hevent, hconv⟩
  · refine ⟨fun op' hkind' => ?_, fun op' hkind' hjumps hnone => ?_, fun op' hkind' => ?_⟩
    · obtain rfl := TokenKind.event.inj (hkind.symm.trans hkind')
      exact OpToken.takes_of_holds fun _ _ => hread.holds_event
    · obtain rfl := TokenKind.event.inj (hkind.symm.trans hkind')
      obtain ⟨chunk, htarget⟩ := hread.jumpTarget hjumps
      rw [htarget] at hnone
      cases hnone
    · rw [hkind] at hkind'
      cases hkind'
  · refine ⟨fun op' hkind' => ?_, fun op' hkind' => ?_, fun op' hkind' => ?_⟩
    · rw [hkind] at hkind'
      cases hkind'
    · rw [hkind] at hkind'
      cases hkind'
    · obtain rfl := TokenKind.conv.inj (hkind.symm.trans hkind')
      exact OpToken.takes_of_holds fun _ _ => hread.holds_conv
  · exact ⟨fun op hkind => absurd hkind (hevent op), fun op hkind => absurd hkind (hevent op),
      fun op hkind => absurd hkind (hconv op)⟩

theorem HasToken.inTables (h : s.HasToken t) : ∀ operand ∈ t.operands, operand.InTables s := by
  unfold Token.operands
  rcases h.readFrom with ⟨op, hkind, hread⟩ | ⟨op, hkind, hread⟩ | ⟨hevent, hconv⟩
  · rw [hkind]
    exact hread.operands.inTables
  · rw [hkind]
    exact hread.operands.inTables
  · split
    · rename_i op hkind
      exact absurd hkind (hevent op)
    · rename_i op hkind
      exact absurd hkind (hconv op)
    · intro operand hmem
      cases hmem

end Script

/-- If the operand refers to a chunk or a filename, looking it up finds it. -/
def Operand.IsFound (s : Script) : Operand → Prop
  | .event target => ∃ chunk, s.eventChunk target.index.toNat = .ok chunk
  | .conversation index => ∃ chunk, s.convChunk index.toNat = .ok chunk
  | .filename target => ∃ name, s.filename target.index.toNat = .ok name
  | _ => True

theorem Operand.InTables.isFound {s : Script} {operand : Operand} (h : operand.InTables s) :
    operand.IsFound s := by
  cases operand with
  | event target => exact Script.chunkAt_eq_ok h
  | conversation index => exact Script.chunkAt_eq_ok h
  | filename target =>
    obtain ⟨chunk, hchunk⟩ :
        ∃ chunk, Script.chunkAt .filename s.filenames target.index.toNat = .ok chunk :=
      Script.chunkAt_eq_ok h
    exact ⟨_, by rw [Script.filename, hchunk]; rfl⟩
  | _ => trivial

/-- A token of a file never fails for want of an operand or of a chunk to go to, whatever player
plays it, and what its operands refer to is there. -/
theorem Script.HasToken.playable {μ : Type} [MediaSource μ] {s : Script} {t : Token}
    (ht : s.HasToken t) (hmedia : MediaSource.TellsNoOperand μ) :
    (∀ p : Player μ, ∀ fault,
      (Play.playToken t p).1 = .error fault → fault.isOfOperands = false) ∧
    ∀ operand ∈ t.operands, operand.InTables s ∧ operand.IsFound s := by
  refine ⟨fun p fault hfault => ?_, fun operand hmem => ?_⟩
  · have hadmits : Play.Admits μ fun fault => fault.isOfOperands = false := ⟨fun _ h => h.2, hmedia⟩
    have htells := hadmits.playToken ht.answers p
    rwa [hfault] at htells
  · exact ⟨ht.inTables operand hmem, (ht.inTables operand hmem).isFound⟩

/-- A call in a file with one event chunk goes to that chunk. -/
theorem Script.HasToken.playable_call : ∃ s ∈ (Script.parse (.ofBytes
    [0x53, 0x43, 0x33, 0x00, 0x14, 0x00, 0x00, 0x00, 0x14, 0x00, 0x00, 0x00, 0x10, 0x00, 0x00, 0x00,
      0x00, 0x0B, 0x00, 0x00]) "op00" .ever17 .default).toOption,
    ∃ t, s.HasToken t ∧ t.operands = [.event ⟨0, false⟩] ∧
      (∀ p : Player FixedMedia, ∀ fault,
        (Play.playToken t p).1 = .error fault → fault.isOfOperands = false) ∧
      ∃ chunk, s.eventChunk 0 = .ok chunk := by
  obtain ⟨s, hs, t, ht, hoperands⟩ : ∃ s ∈ (Script.parse (.ofBytes
      [0x53, 0x43, 0x33, 0x00, 0x14, 0x00, 0x00, 0x00, 0x14, 0x00, 0x00, 0x00, 0x10, 0x00, 0x00,
        0x00, 0x00, 0x0B, 0x00, 0x00]) "op00" .ever17 .default).toOption,
      ∃ t ∈ (s.tokenizeEvent [] 0 false).tokens, t.operands = [.event ⟨0, false⟩] := by
    decide +kernel
  have htoken : s.HasToken t := .inl ⟨[], 0, false, ht⟩
  have hplayable := Script.HasToken.playable htoken FixedMedia.tellsNoOperand
  refine ⟨s, hs, t, htoken, hoperands, hplayable.1, ?_⟩
  exact (hplayable.2 _ (hoperands ▸ List.mem_cons_self)).2

end NovelScript
