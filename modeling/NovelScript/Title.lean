import NovelScript.Text.Codec
import NovelScript.Title.Never7

/-! # Titles

The two games whose scripts the library reads. -/

namespace NovelScript

/-- A game. -/
inductive Title where
  | ever17
  | never7
deriving DecidableEq, Repr, Inhabited

namespace Title

def name : Title → String
  | .ever17 => "ever17"
  | .never7 => "never7"

/-- The title of a name or short name in either case. -/
def ofName (name : String) : Except Fault Title :=
  let lower := name.map Char.toLower
  if lower = "ever17" ∨ lower = "e17" then .ok .ever17
  else if lower = "never7" ∨ lower = "n7" then .ok .never7
  else .error (.state (.unknownTitle lower))

/-- How the scripts of a title encode their text. -/
def codec : Title → TextCodec
  | .ever17 => .escaped
  | .never7 => .plain

/-- The script that a title starts with. -/
def startScript : Title → String
  | .ever17 => "op00"
  | .never7 => "OP"

/-- The stem of the archive that holds the voice clips. -/
def voiceStem : Title → String
  | .ever17 => "voice"
  | .never7 => "wave"

/-- The archive that holds the voice clips. -/
def voiceArchive (t : Title) : String := t.voiceStem ++ ".dat"

def eventTable : Title → OpcodeTable EventAction
  | .ever17 => Ever17.eventTable
  | .never7 => Never7.eventTable

def convTable : Title → OpcodeTable ConvAction
  | .ever17 => Ever17.convTable
  | .never7 => Never7.convTable

end Title

end NovelScript
