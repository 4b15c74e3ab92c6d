import NovelScript.Document
import NovelScript.Play.Interpreter

/-! # Traces

A trace holds what a player showed between its yields, with a digest of the state after each. -/

namespace NovelScript

/-- Position and scene of a state. -/
structure StateDigest where
  script : String
  chunk : Nat
  token : Nat
  background : Option String
  characters : List (Int64 × String)
  memory : List (Nat × Int64)
deriving DecidableEq, Repr

/-- The digest of a state: the pictures by slot, and the memory cells that are not zero. -/
def PlayState.digest (s : PlayState) : StateDigest where
  script := s.script
  chunk := s.chunk
  token := s.token
  background := s.background.image
  characters := s.characters.entries.map fun (slot, art) => (slot, art.image)
  memory := s.nonzeroCells

/-- What happened up to one yield. -/
structure TraceStep where
  step : Nat
  status : Status
  calls : List FrontendCall
  state : StateDigest
deriving DecidableEq, Repr

/-- The steps of a playback. -/
structure Trace where
  steps : List TraceStep
deriving DecidableEq, Repr

namespace Play

variable {μ : Type} [MediaSource μ]

/-- Takes the calls recorded so far. -/
def drainCalls : Play μ (List FrontendCall) := fun p =>
  let (calls, recorder) := p.recorder.drain
  (.ok calls, { p with recorder := recorder })

/-- Records the yields from number `step` on. -/
def recordFrom (budget : Nat) : (step yields : Nat) → Play μ (List TraceStep)
  | _, 0 => pure []
  | step, yields + 1 => do
    let status ← run budget 1
    let calls ← drainCalls
    let first : TraceStep := ⟨step, status, calls, (← state).digest⟩
    if status = .ended then return [first]
    else return first :: (← recordFrom budget (step + 1) yields)

/-- Plays up to `yields` yields and records each. -/
def record (budget yields : Nat) : Play μ Trace := return ⟨← recordFrom budget 0 yields⟩

end Play

namespace Viewport

def document : Viewport → Document
  | .full => .text "Full"
  | .rect x y w h =>
    .tagged "Rect" (.object [("x", .int x.toInt), ("y", .int y.toInt), ("w", .int w.toInt),
      ("h", .int h.toInt)])
  | .scroll y => .tagged "Scroll" (.object [("y", .int y.toInt)])

end Viewport

def Colour.document (c : Colour) : Document :=
  .object [("r", .int c.r.toNat), ("g", .int c.g.toNat), ("b", .int c.b.toNat)]

def Duration.document (d : Duration) : Document := .float d.seconds.toBits

namespace FrontendCall

/-- The name of a call in traces. -/
def kind : FrontendCall → String
  | .displayBackground .. => "display_background"
  | .panZoomBackground .. => "panzoom_background"
  | .fadeBackgroundFill .. => "fade_background_fill"
  | .displayCharacter .. => "display_charart"
  | .clearCharacter .. => "clear_charart"
  | .clearAllCharacters .. => "clear_charart_all"
  | .fadeTextbox .. => "fade_textbox"
  | .unfadeTextbox .. => "unfade_textbox"
  | .textblock .. => "textblock"
  | .choice .. => "choice"
  | .movie .. => "movie"

/-- The parts of a call, by name. -/
def fields : FrontendCall → List (String × Document)
  | .displayBackground name viewport fade =>
    [("name", .text name), ("viewport", viewport.document), ("fade", fade.document)]
  | .panZoomBackground viewport seconds =>
    [("viewport", viewport.document), ("seconds", seconds.document)]
  | .fadeBackgroundFill colour seconds =>
    [("color", colour.document), ("seconds", seconds.document)]
  | .displayCharacter name slot x fade =>
    [("name", .text name), ("slot", .int slot.toInt), ("x", .int x.toInt),
      ("fade", fade.document)]
  | .clearCharacter slot fade => [("slot", .int slot.toInt), ("fade", fade.document)]
  | .clearAllCharacters fade => [("fade", fade.document)]
  | .fadeTextbox fade => [("fade", fade.document)]
  | .unfadeTextbox fade => [("fade", fade.document)]
  | .textblock lines voice =>
    [("lines", .list (lines.map .text)), ("voice", .ofOption .text voice)]
  | .choice options answer =>
    [("options", .list (options.map .text)), ("answer", .ofOption (fun n => .int n) answer)]
  | .movie name => [("name", .text name)]

def document (call : FrontendCall) : Document :=
  .object (("kind", .text call.kind) :: call.fields)

end FrontendCall

def StateDigest.document (d : StateDigest) : Document :=
  .object [("script", .text d.script), ("es_index", .int d.chunk), ("es_pos", .int d.token),
    ("background", .ofOption .text d.background),
    ("charart", .object (d.characters.map fun (slot, image) => (toString slot, .text image))),
    ("memory", .object (d.memory.map fun (address, value) =>
      (toString address, .int value.toInt)))]

def TraceStep.document (s : TraceStep) : Document :=
  .object [("step", .int s.step), ("status", .text s.status.name),
    ("calls", .list (s.calls.map FrontendCall.document)), ("state", s.state.document)]

def Trace.document (t : Trace) : Document :=
  .object [("steps", .list (t.steps.map TraceStep.document))]

end NovelScript
