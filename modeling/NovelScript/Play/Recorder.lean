import NovelScript.Play.State

/-! # Recorded scenes

The front end of a headless player: it records what it is told to show, and answers choices by a
policy. -/

namespace NovelScript

/-- A span of time: so many ticks of so many a second. -/
structure Duration where
  ticks : Int64
  perSecond : Nat
deriving DecidableEq, Repr

namespace Duration

def zero : Duration := ⟨0, 1⟩

/-- The time that a change of scene takes. -/
def fade : Duration := ⟨1, 10⟩

/-- The seconds as a binary fraction of double precision. -/
def seconds (d : Duration) : Float := d.ticks.toFloat / d.perSecond.toFloat

end Duration

/-- What the front end was told to do. -/
inductive FrontendCall where
  | displayBackground (name : String) (viewport : Viewport) (fade : Duration)
  | panZoomBackground (viewport : Viewport) (seconds : Duration)
  | fadeBackgroundFill (colour : Colour) (seconds : Duration)
  | displayCharacter (name : String) (slot x : Int64) (fade : Duration)
  | clearCharacter (slot : Int64) (fade : Duration)
  | clearAllCharacters (fade : Duration)
  | fadeTextbox (fade : Duration)
  | unfadeTextbox (fade : Duration)
  | textblock (lines : List String) (voice : Option String)
  | choice (options : List String) (answer : Option Nat)
  | movie (name : String)
deriving DecidableEq, Repr

/-- How choices are answered. -/
inductive ChoicePolicy where
  | first
  | last
  /-- The listed options in turn, then the first one. -/
  | scripted (answers : List Nat)
  /-- Choices stay open. -/
  | unanswered
deriving DecidableEq, Repr

/-- The calls recorded so far, the policy, and how many answers it has given. -/
structure Recorder where
  calls : List FrontendCall
  policy : ChoicePolicy
  answered : Nat
deriving DecidableEq, Repr

namespace Recorder

def new (policy : ChoicePolicy) : Recorder := ⟨[], policy, 0⟩

/-- Records one more call. -/
def record (r : Recorder) (call : FrontendCall) : Recorder :=
  { r with calls := r.calls ++ [call] }

/-- The option that the policy picks among `count`. -/
def pick? (r : Recorder) (count : Nat) : Option Nat :=
  match r.policy with
  | .first => some 0
  | .last => if count = 0 then none else some (count - 1)
  | .scripted answers => some (answers[r.answered]?.getD 0)
  | .unanswered => none

/-- Poses a choice: the policy may answer it. A pick that is no option leaves it open, but counts
as an answer given. -/
def pose (r : Recorder) (choice : Choice) : Choice × Recorder :=
  let pick := r.pick? choice.options.length
  let r := if pick.isSome then { r with answered := r.answered + 1 } else r
  let texts := choice.options.map (·.text)
  match pick with
  | none => (choice, r.record (.choice texts none))
  | some index =>
    match choice.choose index with
    | .ok chosen => (chosen, r.record (.choice texts (some index)))
    | .error _ => (choice, r.record (.choice texts none))

/-- The calls recorded so far, and the recorder without them. -/
def drain (r : Recorder) : List FrontendCall × Recorder :=
  (r.calls, { r with calls := [] })

end Recorder

end NovelScript
