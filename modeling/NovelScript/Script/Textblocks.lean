import NovelScript.Title
import NovelScript.Token

/-! # Blocks of text

Conversation chunks do not say which text is shown together. Runs of text, line feeds and what
belongs to them are grouped into one block each. -/

namespace NovelScript

/-- How a title groups text. -/
structure Grouping where
  /-- Tokens that open a block and do not belong to its lines. -/
  opens : Token → Bool
  /-- Tokens that open a block and belong to it. -/
  starts : Token → Bool
  /-- Tokens that continue a block. -/
  continues : Token → Bool
  /-- The voice of a block without a voice token. -/
  voice : VoiceSource
  /-- Whether a block without lines and voice is left as the tokens it consists of. -/
  keepsEmpty : Bool

/-- Whether a token is text. -/
def Token.isText (t : Token) : Bool :=
  match t.kind with
  | .text _ => true
  | _ => false

namespace Title

/-- How each title groups text. -/
def grouping : Title → Grouping
  | .ever17 =>
    { opens := fun t =>
        t.convAction? = some .linefeed ∨ t.convAction? = some .blockPrefix ∨
          t.convAction? = some .section
      starts := fun t => t.isText ∨ t.convAction? = some .voice
      continues := fun t =>
        t.isText ∨ t.convAction? = some .linefeed ∨ t.convAction? = some .blockPrefix ∨
          t.convAction? = some .textAux ∨ t.convAction? = some .voice
      voice := .none
      keepsEmpty := true }
  | .never7 =>
    { opens := fun _ => false
      starts := Token.isText
      continues := fun t =>
        t.isText ∨ t.convAction? = some .linefeed ∨ t.convAction? = some .textAux
      voice := .pushed
      keepsEmpty := false }

end Title

namespace Textblock

/-- Appends text to the last line. -/
def appendText (text : String) : List String → List String
  | [] => [text]
  | [line] => [line ++ text]
  | line :: rest => line :: appendText text rest

/-- The lines after one more member of a block. -/
def addMember (lines : List String) (t : Token) : List String :=
  match t.kind with
  | .text text => appendText text lines
  | _ => if t.convAction? = some .linefeed then lines ++ [""] else lines

/-- The lines of the members of a block, without an empty last one. -/
def linesOf (members : List Token) : List String :=
  let lines := members.foldl addMember [""]
  if lines.getLast? = some "" then lines.dropLast else lines

/-- The clip that the voice token among the members of a block names. A second voice token is a
fault. -/
def clipOf (found : Option Bytes) : List Token → Except Fault (Option Bytes)
  | [] => .ok found
  | t :: rest =>
    match t.kind with
    | .conv op =>
      if op.definition.action = .voice then
        match found with
        | some _ => .error (.invalidData t.offset .secondVoice)
        | none => do
          let name ← op.bytes 0
          clipOf (some name) rest
      else clipOf found rest
    | _ => clipOf found rest

/-- The token of a block that consists of `first` and the tokens after it. -/
def token (first : Token) (others : List Token) (block : Textblock) : Token :=
  let last := others.getLast?.getD first
  let raw := match first.raw, last.raw with
    | some a, some b => a.spanTo b
    | _, _ => none
  ⟨first.offset, raw, .textblock block⟩

/-- What replaces a block of the grouping: the token of the block, or its tokens themselves.
`lineTokens` are the tokens that belong to the lines. -/
def replacement (g : Grouping) (first : Token) (others lineTokens : List Token) :
    Except Fault (List Token) := do
  let clip ← clipOf none lineTokens
  let lines := linesOf lineTokens
  if g.keepsEmpty && lines.isEmpty && clip.isNone then return first :: others
  else
    let voice := match clip with
      | some name => .clip name
      | none => g.voice
    return [token first others ⟨lines, voice⟩]

/-- Replaces each block of text in a list of tokens. -/
def group (g : Grouping) : List Token → Except Fault (List Token)
  | [] => .ok []
  | first :: rest =>
    if g.opens first then do
      let others := rest.takeWhile g.continues
      let block ← replacement g first others others
      let after ← group g (rest.dropWhile g.continues)
      return block ++ after
    else if g.starts first then do
      let others := rest.takeWhile g.continues
      let block ← replacement g first others (first :: others)
      let after ← group g (rest.dropWhile g.continues)
      return block ++ after
    else do
      let after ← group g rest
      return first :: after
termination_by tokens => tokens.length
decreasing_by
  all_goals have := (List.dropWhile_suffix g.continues (l := rest)).length_le
  all_goals simp only [List.length_cons]
  all_goals omega

end Textblock

end NovelScript
