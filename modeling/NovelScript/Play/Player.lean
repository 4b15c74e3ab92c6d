import NovelScript.Media.Kind
import NovelScript.Play.Recorder
import NovelScript.Script.Listing
import NovelScript.Text.Utf8

/-! # Players

A player holds a script, its state of playback, what was seen so far, and the front end. Its
operations keep their effects also when they fail. -/

namespace NovelScript

/-- What a player needs to know before it starts. -/
structure RuntimeOptions where
  title : Title
  /-- The script to start with instead of the title's own. -/
  startScript : Option String
  /-- Skip tokens that cannot be acted on. -/
  continueOnError : Bool
  seed : Option UInt64
  parse : ParseOptions
deriving DecidableEq, Repr

namespace RuntimeOptions

def default : RuntimeOptions := ⟨.ever17, none, true, none, .default⟩

/-- The script to start with. -/
def start (o : RuntimeOptions) : String := o.startScript.getD o.title.startScript

end RuntimeOptions

/-- Something that was shown. -/
inductive BacklogItem where
  | textblock (lines : List String) (voice : Option String)
  /-- A choice as it was posed, before any answer. -/
  | choice (choice : Choice)
deriving DecidableEq, Repr

/-- One line about an item. -/
def BacklogItem.summary : BacklogItem → String
  | .textblock lines _ => " / ".intercalate lines
  | .choice c => "choice: " ++ " | ".intercalate (c.options.map (·.text))

/-- Something that was shown, and the state to resume from behind it. -/
structure BacklogEntry where
  item : BacklogItem
  state : PlayState
deriving DecidableEq, Repr

/-- A player over a source of media. -/
structure Player (μ : Type) where
  media : μ
  recorder : Recorder
  options : RuntimeOptions
  script : Script
  /-- The chunks of the script that are known to hold data. -/
  dataChunks : DataChunks
  events : List Token
  conv : Option (List Token)
  state : PlayState
  backlog : List BacklogEntry

/-- An operation of a player. What it has done before it fails stays done. -/
abbrev Play (μ : Type) := ExceptT Fault (StateM (Player μ))

namespace Play

variable {μ : Type}

/-- Runs an operation, giving its outcome and the player it leaves. -/
def runOn {α : Type} (op : Play μ α) (p : Player μ) : Except Fault α × Player μ := op p

/-- Fails without an effect. -/
def fail {α : Type} (fault : Fault) : Play μ α := fun p => (.error fault, p)

/-- A result that does not depend on the player. -/
def lift {α : Type} (result : Except Fault α) : Play μ α := fun p => (result, p)

/-- The player as it is. -/
def player : Play μ (Player μ) := fun p => (.ok p, p)

/-- The state of playback as it is. -/
def state : Play μ PlayState := fun p => (.ok p.state, p)

/-- Changes the player. -/
def update (f : Player μ → Player μ) : Play μ Unit := fun p => (.ok (), f p)

/-- Changes the state of playback. -/
def updateState (f : PlayState → PlayState) : Play μ Unit :=
  update fun p => { p with state := f p.state }

def setStatus (status : Status) : Play μ Unit :=
  updateState ({ · with status := status })

/-- Tells the front end to do something. -/
def tell (call : FrontendCall) : Play μ Unit :=
  update fun p => { p with recorder := p.recorder.record call }

/-- Evaluates over the state of playback. -/
def evaluating {α : Type} (evaluation : Evaluation PlayState α) : Play μ α := fun p =>
  let (outcome, state) := evaluation p.state
  (outcome, { p with state := state })

variable [MediaSource μ]

/-- Loads a media file. -/
def load (kind : MediaKind) (name : String) : Play μ View := fun p =>
  let (outcome, media) := MediaSource.load p.media kind name
  (outcome, { p with media := media })

/-- Loads and parses a script. -/
def loadScript (name : String) : Play μ Script := do
  let view ← load .script name
  let options := (← player).options
  lift (Script.parse view name options.title options.parse)

/-- Moves to a token of an event chunk whose tokens are `events`. -/
def arrive (script : Script) (known : DataChunks) (name : String) (events : List Token)
    (chunk token : Nat) : Play μ Unit :=
  update fun p =>
    { p with
      script := script
      dataChunks := known
      events := events
      state := { p.state with script := name, chunk := chunk, token := token } }

/-- Moves to a token of an event chunk of a script that was just loaded. -/
def enterLoaded (script : Script) (name : String) (chunk token : Nat) : Play μ Unit := do
  let read := script.tokenizeEvent [] chunk false
  let events ← lift read.result
  arrive script (DataChunks.extend [] read.targets) name events chunk token

/-- Moves to a token of an event chunk of the current script. The chunks that the reading finds
to hold data stay known even if it fails. -/
def enterCurrent (name : String) (chunk token : Nat) : Play μ Unit := do
  let p ← player
  let read := p.script.tokenizeEvent p.dataChunks chunk false
  let known := p.dataChunks.extend read.targets
  update fun p => { p with dataChunks := known }
  let events ← lift read.result
  arrive p.script known name events chunk token

/-- Switches to another script and starts with its first event chunk. -/
def setScript (name : String) : Play μ Unit := do
  let script ← loadScript name
  enterLoaded script name 0 0

/-- Goes on with an event chunk of the current script. -/
def setEvent (chunk : Nat) : Play μ Unit := do
  enterCurrent (← state).script chunk 0

/-- Starts a conversation chunk, after which the event chunk goes on. -/
def setConversation (chunk : Nat) : Play μ Unit := do
  match (← state).conv with
  | some active => fail (.state (.conversationActive active.chunk))
  | none =>
    let tokens ← lift ((← player).script.tokenizeConv chunk false).result
    update fun p =>
      { p with conv := some tokens, state := { p.state with conv := some ⟨chunk, 0⟩ } }

/-- Saves the position to return to. -/
def pushPosition : Play μ Unit := do
  let s ← state
  match s.callFrame with
  | some frame => fail (.state (.positionSaved frame.script frame.chunk frame.token))
  | none => updateState fun s => { s with callFrame := some ⟨s.script, s.chunk, s.token⟩ }

/-- Returns to the saved position. -/
def returnToPosition : Play μ Unit := do
  let s ← state
  match s.callFrame with
  | none => fail (.state .noSavedPosition)
  | some frame =>
    if Text.equalIgnoringAsciiCase frame.script s.script then
      enterCurrent frame.script frame.chunk frame.token
    else
      let script ← loadScript frame.script
      enterLoaded script frame.script frame.chunk frame.token
    updateState fun s => { s with callFrame := none }

/-- Answers the posed choice with an option. -/
def choose (index : Nat) : Play μ Unit := do
  match (← state).choice with
  | none => fail (.state .noChoiceToAnswer)
  | some choice =>
    let choice ← lift (choice.choose index)
    updateState fun s => { s with choice := some choice }

/-- Opens a choice. -/
def openChoice (id : Option UInt16) : Play μ Unit := do
  match (← state).choice with
  | some _ => fail (.state .choiceInProgress)
  | none => updateState fun s => { s with choice := some (.new id) }

/-- Takes the answered choice away. -/
def takeChoice : Play μ Choice := do
  match (← state).choice with
  | none => fail (.state .noChoiceToCollect)
  | some choice =>
    if choice.isAnswered then
      updateState fun s => { s with choice := none }
      return choice
    else fail (.state .unanswered)

/-- Hands a choice to the front end, which may answer it. -/
def present (choice : Choice) : Play μ Unit :=
  update fun p =>
    let (choice, recorder) := p.recorder.pose choice
    { p with recorder := recorder, state := { p.state with choice := some choice } }

/-- Poses the choice that was built. One without options is dropped. -/
def poseChoice : Play μ Unit := do
  match (← state).choice with
  | none => fail (.state .noChoiceToPose)
  | some choice =>
    if choice.options.isEmpty then
      updateState fun s => { s with choice := none }
      fail (.playback (.nothingToDisplay choice.candidates))
    else
      setStatus .choice
      update fun p => { p with backlog := p.backlog ++ [⟨.choice choice, p.state⟩] }
      present choice

/-- Hands a block of text to the front end. -/
def showTextblock (lines : List String) (voice : Option String) : Play μ Unit := do
  match voice with
  | some name => discard (load .voice name)
  | none => pure ()
  tell (.textblock lines voice)

end Play

end NovelScript
