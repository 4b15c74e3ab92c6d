import NovelScript.Play.Actions

/-! # Playing

Tokens are played one after the other until playback yields, ends or fails. A script can keep a
player busy for ever, so playing takes a budget of tokens. -/

namespace NovelScript

namespace Player

variable {μ : Type} [MediaSource μ]

/-- A player at the start of its start script. -/
def new (media : μ) (recorder : Recorder) (options : RuntimeOptions) :
    Except Fault (Player μ) × μ :=
  match MediaSource.load media .script options.start with
  | (.error fault, media) => (.error fault, media)
  | (.ok view, media) =>
    let player := do
      let script ← Script.parse view options.start options.title options.parse
      let read := script.tokenizeEvent [] 0 false
      let events ← read.result
      return {
        media := media
        recorder := recorder
        options := options
        script := script
        dataChunks := DataChunks.extend [] read.targets
        events := events
        conv := none
        state := .new options.start (options.seed.getD 0)
        backlog := [] }
    (player, media)

end Player

namespace Play

variable {μ : Type} [MediaSource μ]

/-- Plays the next token. At the end of a conversation its choice is posed, and at the end of an
event chunk the next one is entered. -/
def advance : Play μ Unit := do
  let p ← player
  match p.conv, p.state.conv with
  | some tokens, some position =>
    match tokens[position.token]? with
    | some token =>
      updateState fun s => { s with conv := some { position with token := position.token + 1 } }
      playToken token
    | none =>
      update fun p => { p with conv := none, state := { p.state with conv := none } }
      if p.state.choicePending then poseChoice
  | _, _ =>
    match p.events[p.state.token]? with
    | some token =>
      updateState fun s => { s with token := s.token + 1 }
      playToken token
    | none => setEvent (p.state.chunk + 1)

/-- The place of the next token. -/
def nextPlace (script : String) (s : PlayState) : Place :=
  match s.conv with
  | some position => ⟨script, true, position.chunk, some position.token⟩
  | none => ⟨script, false, s.chunk, some s.token⟩

/-- Plays tokens while playback runs, at most as many as the budget allows. -/
def playTokens : (budget : Nat) → Play μ Status
  | 0 => fail .exhausted
  | budget + 1 => fun p =>
    if p.state.status ≠ .running then (.ok p.state.status, p)
    else
      match advance p with
      | (.ok (), p') => playTokens budget p'
      | (.error fault, p') =>
        if p'.options.continueOnError && fault.isPlayback then playTokens budget p'
        else
          (.error (.at (nextPlace p'.script.name p.state) fault),
            { p' with state := { p'.state with status := .error } })

/-- Plays until playback yields, ends or fails. Refuses while a choice is open, after the end, and
after an error unless errors are skipped. -/
def process (budget : Nat) : Play μ Status := do
  let p ← player
  if p.state.choicePending then fail (.state .choiceWaiting)
  else if p.state.status = .ended then fail (.state .playbackEnded)
  else if p.state.status = .error ∧ p.options.continueOnError = false then
    fail (.state .playbackStopped)
  else
    setStatus .running
    playTokens budget

/-- Plays on for at most `yields` yields; `status` is the answer if there are none. -/
def runFrom (budget : Nat) : (yields : Nat) → Status → Play μ Status
  | 0, status => pure status
  | yields + 1, _ => do
    let status ← process budget
    if status = .ended then return status
    else if (← state).choicePending then fail (.playback .leftUnanswered)
    else runFrom budget yields status

/-- Plays until playback ends, for at most `yields` yields. The front end has to answer choices
as they are posed. -/
def run (budget yields : Nat) : Play μ Status := do
  runFrom budget yields (← state).status

/-- Draws the characters of a state. -/
def redrawCharacters : List (Int64 × CharacterArt) → Play μ Unit
  | [] => pure ()
  | (slot, art) :: rest => do
    discard (load .characterArt art.image)
    tell (.displayCharacter art.image slot art.x .zero)
    redrawCharacters rest

/-- Draws the scene of the current state at once. -/
def redraw : Play μ Unit := do
  tell (.clearAllCharacters .zero)
  let s ← state
  match s.background.fill, s.background.image with
  | some colour, _ => tell (.fadeBackgroundFill colour .zero)
  | none, some name =>
    discard (load .background name)
    tell (.displayBackground name s.background.viewport .zero)
  | none, none => pure ()
  redrawCharacters s.characters.entries
  if s.textboxFaded then tell (.fadeTextbox .zero) else tell (.unfadeTextbox .zero)

/-- Resumes at a state that was taken before. Nothing changes unless its script can be read. -/
def restore (s : PlayState) : Play μ Unit := do
  let script ← loadScript s.script
  let read := script.tokenizeEvent [] s.chunk false
  let events ← lift read.result
  let conv ← match s.conv with
    | some position => some <$> lift (script.tokenizeConv position.chunk false).result
    | none => pure none
  update fun p =>
    { p with
      script := script
      dataChunks := DataChunks.extend [] read.targets
      events := events
      conv := conv
      state := s }
  redraw

/-- Goes back to an entry of the backlog, shows it again and drops all later entries. -/
def jumpBack (index : Nat) : Play μ Unit := do
  let p ← player
  match p.backlog[index]? with
  | none => fail (.state (.backlogRange index p.backlog.length))
  | some entry =>
    restore entry.state
    update fun p => { p with backlog := p.backlog.take (index + 1) }
    match entry.item with
    | .textblock lines voice => showTextblock lines voice
    | .choice choice => present choice

end Play

end NovelScript
