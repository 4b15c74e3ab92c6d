import NovelScript.Fault

/-! # Choices

A choice is built candidate by candidate. Only the candidates that are displayed become options;
the answer is told as the number of the candidate. -/

namespace NovelScript

/-- A displayed candidate: its text, its number among the options and among the candidates. -/
structure ChoiceOption where
  text : String
  index : Nat
  candidate : Nat
deriving DecidableEq, Repr

/-- A choice, answered or not. -/
structure Choice where
  id : Option UInt16
  options : List ChoiceOption
  candidates : Nat
  chosen : Option Nat
deriving DecidableEq, Repr

namespace Choice

/-- A choice without candidates. -/
def new (id : Option UInt16) : Choice := ⟨id, [], 0, none⟩

/-- Adds a candidate, as an option if it is displayed. -/
def add (c : Choice) (text : String) (display : Bool) : Choice :=
  { c with
    options :=
      if display then c.options ++ [⟨text, c.options.length, c.candidates⟩] else c.options
    candidates := c.candidates + 1 }

def isAnswered (c : Choice) : Bool := c.chosen.isSome

/-- Answers a choice with an option. -/
def choose (c : Choice) (index : Nat) : Except Fault Choice :=
  match c.chosen with
  | some previous => .error (.state (.alreadyAnswered previous))
  | none =>
    if index < c.options.length then .ok { c with chosen := some index }
    else .error (.state (.optionRange index c.options.length))

/-- The option that was chosen. -/
def answer? (c : Choice) : Option ChoiceOption :=
  c.chosen.bind (c.options[·]?)

/-- The number of the chosen candidate. -/
def result (c : Choice) : Except Fault Nat :=
  match c.answer? with
  | some option => .ok option.candidate
  | none => .error (.state .unanswered)

end Choice

end NovelScript
