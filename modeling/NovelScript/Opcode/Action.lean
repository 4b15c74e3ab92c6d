import NovelScript.Opcode.Shape

/-! # Actions

What playing a token does. -/

namespace NovelScript

/-- What an event token does. -/
inductive EventAction where
  /-- The operands are known, the meaning is not. -/
  | data
  /-- Names another script through a data chunk. -/
  | scriptLink
  /-- Holds a list of chunks in a data chunk. -/
  | jumpTable
  | stop
  | jump
  | returnableJump
  | condJump
  | loadRegister
  | registerJump
  | return
  | fileJump
  | returnableFileJump
  | background
  | partialBackground
  | scrollBackground
  | panZoom
  | scrollPan
  | fade
  /-- Draws a character; one-based slots count from one. -/
  | drawCharacter (oneBased : Bool)
  | drawPair
  | drawTriple
  | clearCharacter (oneBased : Bool)
  | clearAll
  | textboxOff
  /-- Stores the answer of a choice. -/
  | choiceStore (checkId : Bool)
  | memoryWrite
  | loadConversation
  | movie
  | pushVoice
deriving DecidableEq, Repr

namespace EventAction

/-- Whether a player has nothing to do for the action. -/
def isUnsupported : EventAction → Bool
  | .data | .scriptLink | .jumpTable => true
  | _ => false

/-- The name of an action in listings. -/
def label : EventAction → String
  | .data => "Data"
  | .scriptLink => "ScriptLink"
  | .jumpTable => "JumpTable"
  | .stop => "End"
  | .jump => "Jump"
  | .returnableJump => "ReturnableJump"
  | .condJump => "CondJump"
  | .loadRegister => "LoadR1"
  | .registerJump => "RegJump"
  | .return => "Return"
  | .fileJump => "FileJump"
  | .returnableFileJump => "ReturnableFileJump"
  | .background => "Background"
  | .partialBackground => "PartialBackground"
  | .scrollBackground => "ScrollBackground"
  | .panZoom => "PanZoom"
  | .scrollPan => "ScrollPan"
  | .fade => "Fade"
  | .drawCharacter oneBased => "CharArt \x7b one_based: " ++ toString oneBased ++ " \x7d"
  | .drawPair => "CharArtPair"
  | .drawTriple => "CharArtTriple"
  | .clearCharacter oneBased =>
    "ClearCharArt \x7b one_based: " ++ toString oneBased ++ " \x7d"
  | .clearAll => "ClearAll"
  | .textboxOff => "TextboxOff"
  | .choiceStore checkId => "ChoiceStore \x7b check_id: " ++ toString checkId ++ " \x7d"
  | .memoryWrite => "Memop"
  | .loadConversation => "LoadConversation"
  | .movie => "Movie"
  | .pushVoice => "VoicePush"

end EventAction

/-- What a conversation token does. -/
inductive ConvAction where
  | data
  | linefeed
  | userAck
  /-- Stands in front of the text of a box. -/
  | blockPrefix
  | choiceEntry
  | choiceOption
  | voice
  | section
  | textAux
deriving DecidableEq, Repr

/-- The name of an action in listings. -/
def ConvAction.label : ConvAction → String
  | .data => "Data"
  | .linefeed => "Linefeed"
  | .userAck => "UserAck"
  | .blockPrefix => "BlockPrefix"
  | .choiceEntry => "ChoiceEntry"
  | .choiceOption => "ChoiceOption"
  | .voice => "Voice"
  | .section => "Section"
  | .textAux => "TextAux"

namespace OpcodeDef

/-- An event opcode whose meaning is unknown. -/
def plain (op : UInt8) (name : String) (shape : List Field) : OpcodeDef EventAction :=
  ⟨op, name, shape, .data, false⟩

/-- An opcode with a meaning. -/
def acting {α : Type} (op : UInt8) (name : String) (shape : List Field) (action : α) :
    OpcodeDef α :=
  ⟨op, name, shape, action, false⟩

/-- An opcode with a meaning that ends a row of a listing. -/
def breaking {α : Type} (op : UInt8) (name : String) (shape : List Field) (action : α) :
    OpcodeDef α :=
  ⟨op, name, shape, action, true⟩

end OpcodeDef

end NovelScript
