import NovelScript.Play.Player

/-! # What tokens do

The effect of each token on a player. -/

namespace NovelScript

/-- The media name that bytes of a script stand for. -/
def mediaName (bytes : Bytes) : String := Text.ofUtf8Lossy bytes

/-- The picture that stands in for a variant that is not there: `xx` for `xxNA`, `xxD`, `xxN`. -/
def baseVariant? (name : String) : Option String :=
  let base := ["NA", "D", "N"].findSome? fun ending =>
    if name.endsWith ending then
      some (String.ofList (name.toList.take (name.length - ending.length)))
    else none
  base.filter fun text => !text.isEmpty

namespace Play

variable {μ : Type} [MediaSource μ]

/-- The fault of an opcode without an action. -/
def unsupported {α : Type} (op : OpToken α) : Play μ Unit :=
  fail (.playback (.unsupportedOpcode op.label))

/-- The number of the operand at a place. -/
def number {α : Type} (op : OpToken α) (index : Nat) : Play μ Int64 := do
  let value ← lift (op.value index)
  evaluating value.evaluateOne

/-- Goes to the chunk that an opcode refers to. -/
def jump (op : OpToken EventAction) : Play μ Unit :=
  match op.jumpTarget? with
  | some chunk => setEvent chunk
  | none => fail (.state (.noJumpTarget op.label))

/-- The media name that the filename operand at a place stands for. -/
def filename (op : OpToken EventAction) (index : Nat) : Play μ String := do
  let target ← lift (op.filename index)
  let bytes ← lift ((← player).script.filename target.index.toNat)
  return mediaName bytes

/-- A viewport of four operands. -/
def rectangle (op : OpToken EventAction) (first : Nat) : Play μ Viewport := do
  let x ← number op first
  let y ← number op (first + 1)
  let w ← number op (first + 2)
  let h ← number op (first + 3)
  return .rect x y w h

/-- Clears all characters. -/
def clearAllCharacters (fade : Duration) : Play μ Unit := do
  tell (.clearAllCharacters fade)
  updateState fun s => { s with characters := .empty, status := .graphicsOp }

/-- Shows a picture as the background and clears all characters. -/
def displayBackground (name : String) (viewport : Viewport) : Play μ Unit := do
  discard (load .background name)
  clearAllCharacters .zero
  tell (.displayBackground name viewport .fade)
  updateState fun s =>
    { s with background := ⟨some name, none, viewport⟩, status := .graphicsOp }

/-- Moves the viewport of the background. -/
def panZoom (viewport : Viewport) (time : Duration) : Play μ Unit := do
  tell (.panZoomBackground viewport time)
  updateState fun s =>
    { s with background := { s.background with viewport := viewport }, status := .graphicsOp }

/-- Fills the background with a colour. -/
def fillBackground (colour : Colour) (time : Duration) : Play μ Unit := do
  tell (.fadeBackgroundFill colour time)
  updateState fun s => { s with background := { s.background with fill := some colour } }

/-- The character picture that is shown for a name: one title has variants that are only there as
their base. -/
def findCharacter (name : String) : Play μ String := fun p =>
  match load .characterArt name p with
  | (.ok _, p') => (.ok name, p')
  | (.error fault, p') =>
    if fault.isMissingMedia && p'.options.title == .never7 then
      match baseVariant? name with
      | none => (.error fault, p')
      | some base =>
        match load .characterArt base p' with
        | (.ok _, p'') => (.ok base, p'')
        | (.error fault, p'') => (.error fault, p'')
    else (.error fault, p')

/-- Draws a character. -/
def drawCharacter (name : String) (slot x : Int64) : Play μ Unit := do
  let name ← findCharacter name
  tell (.displayCharacter name slot x .fade)
  updateState fun s =>
    { s with characters := s.characters.insert slot ⟨name, x⟩, status := .graphicsOp }

/-- Clears one character. -/
def clearCharacter (slot : Int64) : Play μ Unit := do
  tell (.clearCharacter slot .fade)
  updateState fun s => { s with characters := s.characters.erase slot, status := .graphicsOp }

/-- Hides the text box. -/
def fadeTextbox (time : Duration) : Play μ Unit := do
  tell (.fadeTextbox time)
  updateState fun s => { s with textboxFaded := true, status := .graphicsOp }

/-- Shows the text box if it is hidden. -/
def unfadeTextbox (time : Duration) : Play μ Unit := do
  if (← state).textboxFaded then
    tell (.unfadeTextbox time)
    updateState fun s => { s with textboxFaded := false, status := .graphicsOp }

/-- Shows a block of text and keeps it in the backlog. -/
def newTextblock (lines : List String) (voice : Option String) : Play μ Unit := do
  showTextblock lines voice
  unfadeTextbox .fade
  update fun p => { p with backlog := p.backlog ++ [⟨.textblock lines voice, p.state⟩] }

/-- Plays a movie, if it is there. -/
def playMovie (name : String) : Play μ Unit := fun p =>
  match load .movie name p with
  | (.ok _, p') => tell (.movie name) p'
  | (.error _, p') => (.ok (), p')

/-- The colour of a fill operand. -/
def fillColour (value : Int64) : Except Fault Colour :=
  if value = 0 then .ok .black
  else if value = 1 then .ok .white
  else if value = 3 then .ok .red
  else .error (.playback (.fillColour value))

/-- The slot that a number stands for. Nothing is in front of the least number. -/
def slotOf (oneBased : Bool) (value : Int64) : Except Fault Int64 :=
  if !oneBased then .ok value
  else if value = Int64.minValue then .error .overflow
  else .ok (value - 1)

/-- The slot that the operand at a place stands for. -/
def characterSlot (op : OpToken EventAction) (oneBased : Bool) (index : Nat) : Play μ Int64 := do
  let value ← number op index
  lift (slotOf oneBased value)

/-- Stores the answer of the choice in memory. -/
def storeChoice (op : OpToken EventAction) (checkId : Bool) : Play μ Unit := do
  let address ← number op 0
  let expected ← if checkId then some <$> number op 1 else pure none
  let p ← player
  if p.state.choice.isNone && p.options.continueOnError then
    fail (.playback .noPosedChoice)
  else
    let choice ← takeChoice
    match expected with
    | some id =>
      if choice.id.map (fun n => Int64.ofNat n.toNat) ≠ some id then
        fail (.state (.choiceId id choice.id))
    | none => pure ()
    let answer ← lift choice.result
    evaluating (Evaluation.writeCell address (Int64.ofNat answer))

/-- Names the voice clip for the next block of text. -/
def pushVoice (name : String) : Play μ Unit := do
  match (← state).pushedVoice with
  | some pending => fail (.state (.voicePending name pending))
  | none => updateState fun s => { s with pushedVoice := some name }

/-- Switches to another script and forgets the saved position if that fails. -/
def setScriptOrForget (name : String) : Play μ Unit := fun p =>
  match setScript name p with
  | (.ok (), p') => (.ok (), p')
  | (.error fault, p') => (.error fault, { p' with state := { p'.state with callFrame := none } })

/-- Plays an event token. -/
def playEvent (op : OpToken EventAction) : Play μ Unit :=
  match op.definition.action with
  | .data | .scriptLink | .jumpTable => unsupported op
  | .stop => setStatus .ended
  | .jump => jump op
  | .returnableJump => do
    pushPosition
    jump op
  | .condJump => do
    let inverse := (← lift (op.u8 0)) == 0
    let taken := (← number op 1) != 0
    if taken != inverse then jump op
  | .loadRegister => do
    let value ← number op 0
    updateState fun s => { s with register := some value }
  | .registerJump => do
    let value ← number op 0
    if (← state).register = some value then jump op
  | .return => returnToPosition
  | .fileJump => do setScript (mediaName (← lift (op.bytes 0)))
  | .returnableFileJump => do
    let name := mediaName (← lift (op.bytes 1))
    pushPosition
    setScriptOrForget name
  | .background => do
    let name ← filename op 0
    displayBackground name .full
  | .partialBackground => do
    let name ← filename op 0
    let viewport ← rectangle op 3
    displayBackground name viewport
  | .scrollBackground => do
    let name ← filename op 0
    let y ← number op 1
    displayBackground name (.scroll y)
  | .panZoom => do
    let viewport ← rectangle op 0
    let time ← number op 4
    panZoom viewport ⟨time, 60⟩
  | .scrollPan => do
    let y ← number op 0
    let time ← number op 1
    panZoom (.scroll y) ⟨time, 20⟩
  | .fade => do
    let colour ← lift (fillColour (← number op 0))
    fillBackground colour .fade
  | .drawCharacter oneBased => do
    let slot ← characterSlot op oneBased 0
    let name ← filename op 1
    let x ← number op 2
    drawCharacter name slot x
  | .drawPair => do
    let slot₁ ← characterSlot op true 0
    let slot₂ ← characterSlot op true 1
    let name₁ ← filename op 2
    let name₂ ← filename op 3
    let x₁ ← number op 4
    let x₂ ← number op 5
    drawCharacter name₁ slot₁ x₁
    drawCharacter name₂ slot₂ x₂
  | .drawTriple => do
    drawCharacter (← filename op 0) 0 (← number op 3)
    drawCharacter (← filename op 1) 1 (← number op 4)
    drawCharacter (← filename op 2) 2 (← number op 5)
  | .clearCharacter oneBased => do
    let slot ← characterSlot op oneBased 0
    clearCharacter slot
  | .clearAll => clearAllCharacters .zero
  | .textboxOff => fadeTextbox .fade
  | .choiceStore checkId => storeChoice op checkId
  | .memoryWrite => do
    let value ← lift (op.value 0)
    discard (evaluating (value.evaluate (some 1)))
  | .loadConversation => do setConversation (← lift (op.conversation 0)).toNat
  | .movie => do playMovie (mediaName (← lift (op.bytes 0)))
  | .pushVoice => do pushVoice (mediaName (← lift (op.bytes 0)))

/-- Adds a candidate to the choice in progress. -/
def addCandidate (text : String) (display : Bool) : Play μ Unit := do
  match (← state).choice with
  | none => fail (.state (.optionOutsideChoice text))
  | some choice => updateState fun s => { s with choice := some (choice.add text display) }

/-- Plays a conversation token. -/
def playConv (op : OpToken ConvAction) : Play μ Unit :=
  match op.definition.action with
  | .userAck => setStatus .userAck
  | .section => pure ()
  | .choiceEntry => do
    match ← lift (op.choice 0) with
    | .question id => openChoice (some id)
    | .candidate none text => addCandidate text true
    | .candidate (some display) text =>
      let shown ← evaluating display.evaluateOne
      addCandidate text (shown != 0)
  | .choiceOption => do
    let text ← lift (op.text 1)
    if (← state).choice.isNone then openChoice none
    addCandidate text true
  | .data | .linefeed | .blockPrefix | .textAux | .voice => unsupported op

/-- The voice of a block of text; a pushed clip is used up. -/
def takeVoice : VoiceSource → Play μ (Option String)
  | .none => pure none
  | .clip name => pure (some (mediaName name))
  | .pushed => do
    let voice := (← state).pushedVoice
    updateState fun s => { s with pushedVoice := none }
    return voice

/-- Plays a token. -/
def playToken (t : Token) : Play μ Unit :=
  match t.kind with
  | .event op => playEvent op
  | .conv op => playConv op
  | .textblock block => do
    let voice ← takeVoice block.voice
    newTextblock block.lines voice
  | .text _ | .data _ => do
    fail (.playback (.unsupportedToken (t.listed (← player).script)))

end Play

end NovelScript
