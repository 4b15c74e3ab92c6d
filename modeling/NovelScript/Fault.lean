import NovelScript.Bytes.Hex
import NovelScript.Opcode.Path
import NovelScript.Text.Quoted

/-! # Faults

Everything that can go wrong while a script is read or played, as causes, and the one place where
each cause gets its wording. -/

namespace NovelScript

/-- The tables of a script file. -/
inductive TableKind where
  | event
  | conversation
  | filename
deriving DecidableEq, Repr

/-- The name of a table in messages. -/
def TableKind.label : TableKind → String
  | .event => "event script"
  | .conversation => "conversation"
  | .filename => "filename"

/-- A position in a script: a chunk, or a token of a chunk. -/
structure Place where
  script : String
  conversation : Bool
  chunk : Nat
  token : Option Nat
deriving DecidableEq, Repr

/-- Script name, `es` or `cs`, chunk number, and the token number in brackets. -/
def Place.text (place : Place) : String :=
  place.script ++ ":" ++ (if place.conversation then "cs" else "es") ++ toString place.chunk ++
    match place.token with
    | none => ""
    | some token => "[" ++ toString token ++ "]"

/-- Bytes that are not what the reader expects at their offset. -/
inductive DataFlaw where
  | mismatch (expected found : Bytes)
  | notNull (count : Nat) (found : Bytes)
  | rewind (count : Nat)
  | markAlreadySet
  | noMark
  | wrongTerminator (text : String) (found expected : UInt8)
  | notAscii (text : String)
  | notZero (value : String)
  | choiceEntry (kind : UInt8)
  | secondVoice
deriving DecidableEq, Repr

def DataFlaw.message : DataFlaw → String
  | .mismatch expected found => "expected " ++ expected.hexList ++ ", found " ++ found.hexList
  | .notNull count found =>
    "expected " ++ toString count ++ " null bytes, found " ++ found.hexList
  | .rewind count => "cannot seek back " ++ toString count ++ " bytes past domain start"
  | .markAlreadySet => "offset mark already set"
  | .noMark => "no offset mark set"
  | .wrongTerminator text found expected =>
    "text " ++ Text.quoted text ++ " ended with " ++ hexByteMarked found ++ " instead of " ++
      hexByteMarked expected
  | .notAscii text => "expected ASCII, got " ++ Text.quoted text
  | .notZero value => "expected constant 0, got " ++ value
  | .choiceEntry kind => "unknown choice entry type " ++ hexByteMarked kind
  | .secondVoice => "second voice clip in one textblock"

/-- Text bytes without a decoding. -/
inductive TextFlaw where
  | shiftJis (bytes : Bytes)
  | brokenEscape (follow : UInt8)
  | unknownEscape (code : UInt8)
deriving DecidableEq, Repr

def TextFlaw.message : TextFlaw → String
  | .shiftJis bytes => "invalid Shift-JIS " ++ bytes.hexList
  | .brokenEscape follow => "escape followed by non-text byte " ++ hexByteMarked follow
  | .unknownEscape code => "unknown escape sequence 87 " ++ hexByte code

/-- Active values whose parts do not fit together. -/
inductive ValueFlaw where
  | manyMemops (count : Nat)
  | memopConsumed
  | memopInOperands (level : UInt8)
  | leftovers (count index : Nat)
  | wrongCount (value : String) (asked held : Nat)
  | gotWrite (address : Int64)
  | nestedMemop
deriving DecidableEq, Repr

def ValueFlaw.message : ValueFlaw → String
  | .manyMemops count => toString count ++ " memory operations in one value"
  | .memopConsumed => "memory operation consumed as an operand"
  | .memopInOperands level =>
    "memory operation at precedence " ++ toString level ++ " inside operand range"
  | .leftovers count index =>
    toString count ++ " elements left around memory operation at " ++ toString index
  | .wrongCount value asked held =>
    value ++ " was asked for " ++ toString asked ++ " values but holds " ++ toString held
  | .gotWrite address => "expected a value, got memory write to " ++ toString address
  | .nestedMemop => "nested memory operation"

/-- Active values that have no result. -/
inductive EvaluationFlaw where
  | constantRead (address : Int64)
  | constantWrite (address : Int64)
  | constantRandom
  | engineState (index : Int64)
  | missingOperand
  | noOperands (op : UInt8)
  | operator (op : UInt8)
  | target (target : Option UInt8)
  | memop (op : UInt8)
  | noValue (op : UInt8)
  | divisionByZero (dividend : Int64)
  | moduloByZero (dividend : Int64)
  | negativeShift (amount : Int64)
  | randomBound (bound : Int64)
  | badAddress (address : Int64) (cells : Nat)
deriving DecidableEq, Repr

/-- The address-space selector of the engine state, which memory operations cannot write. -/
def engineStateSelector : UInt8 := 0x2d

def EvaluationFlaw.message : EvaluationFlaw → String
  | .constantRead address => "memory read of " ++ toString address ++ " in a constant value"
  | .constantWrite address => "memory write to " ++ toString address ++ " in a constant value"
  | .constantRandom => "random draw in a constant value"
  | .engineState index => "unknown engine state index " ++ toString index
  | .missingOperand => "operand missing from encoded value"
  | .noOperands op => "operator " ++ hexByteMarked op ++ " has no operands"
  | .operator op => "operator " ++ hexByteMarked op ++ " cannot be evaluated"
  | .target none => "memory operation on target none"
  | .target (some selector) =>
    "memory operation on target " ++ hexByteMarked selector ++
      (if selector = engineStateSelector then " (engine state is read-only)" else "")
  | .memop op => "memory operation " ++ hexByteMarked op ++ " cannot be evaluated"
  | .noValue op => "memory operation " ++ hexByteMarked op ++ " has no value operand"
  | .divisionByZero dividend => "division of " ++ toString dividend ++ " by zero"
  | .moduloByZero dividend => "modulo of " ++ toString dividend ++ " by zero"
  | .negativeShift amount => "negative shift " ++ toString amount
  | .randomBound bound => "random bound " ++ toString bound ++ " is not positive"
  | .badAddress address cells =>
    "memory address " ++ toString address ++ " outside 0.." ++ toString cells

/-- Files whose layout does not hold together. -/
inductive ContainerFlaw where
  | noMagic (script : String)
  | tableOffsets (script : String) (conversations filenames size : Nat)
  | tableEnd (start stop : Nat)
  | chunk (index start stop size : Nat)
  | offsetTooLarge (offset : Nat)
  | storage (message : String)
deriving DecidableEq, Repr

def ContainerFlaw.message : ContainerFlaw → String
  | .noMagic script => script ++ ": missing SC3 magic"
  | .tableOffsets script conversations filenames size =>
    script ++ ": table offsets " ++ hexNat conversations ++ "/" ++ hexNat filenames ++
      " exceed size " ++ hexNat size
  | .tableEnd start stop =>
    "offset table at " ++ hexNat start ++ " ends before it starts (" ++ hexNat stop ++ ")"
  | .chunk index start stop size =>
    "chunk " ++ toString index ++ " spans " ++ hexNat start ++ ".." ++ hexNat stop ++
      " outside " ++ hexNat size ++ " bytes"
  | .offsetTooLarge offset => "offset " ++ hexNat offset ++ " exceeds u32"
  | .storage message => message

/-- Requests that the current state of playback does not allow. -/
inductive StateFlaw where
  | unknownTitle (name : String)
  | noOperand (opcode : String) (index : Nat)
  | operandKind (opcode : String) (index : Nat) (wanted found : String)
  | noJumpTarget (opcode : String)
  | choiceWaiting
  | playbackEnded
  | playbackStopped
  | conversationActive (index : Nat)
  | positionSaved (script : String) (chunk token : Nat)
  | noSavedPosition
  | noChoiceToAnswer
  | choiceInProgress
  | unanswered
  | noChoiceToCollect
  | noChoiceToPose
  | backlogRange (index count : Nat)
  | alreadyAnswered (previous : Nat)
  | optionRange (index count : Nat)
  | choiceId (expected : Int64) (found : Option UInt16)
  | optionOutsideChoice (text : String)
  | voicePending (name pending : String)
deriving DecidableEq, Repr

/-- An optional number in the form `Some(7)` or `None`. -/
def optionText {α : Type} [ToString α] : Option α → String
  | none => "None"
  | some value => "Some(" ++ toString value ++ ")"

def StateFlaw.message : StateFlaw → String
  | .unknownTitle name => "unknown game '" ++ name ++ "'"
  | .noOperand opcode index => opcode ++ " has no operand " ++ toString index
  | .operandKind opcode index wanted found =>
    "operand " ++ toString index ++ " of " ++ opcode ++ " is not " ++ wanted ++ ": " ++ found
  | .noJumpTarget opcode => opcode ++ " has no jump target"
  | .choiceWaiting => "a choice is waiting for an answer"
  | .playbackEnded => "playback already ended"
  | .playbackStopped => "playback stopped after an error"
  | .conversationActive index => "conversation " ++ toString index ++ " is still active"
  | .positionSaved script chunk token =>
    "return position " ++ script ++ ":es" ++ toString chunk ++ "[" ++ toString token ++
      "] already saved"
  | .noSavedPosition => "return without a saved position"
  | .noChoiceToAnswer => "no choice to answer"
  | .choiceInProgress => "a choice is already being built"
  | .unanswered => "choice has not been answered"
  | .noChoiceToCollect => "no choice to collect"
  | .noChoiceToPose => "no choice to pose"
  | .backlogRange index count =>
    "backlog entry " ++ toString index ++ " out of range (" ++ toString count ++ " entries)"
  | .alreadyAnswered previous => "choice already answered with option " ++ toString previous
  | .optionRange index count =>
    "option " ++ toString index ++ " out of range for " ++ toString count ++
      " displayed options"
  | .choiceId expected found =>
    "choice id mismatch: expected " ++ toString expected ++ ", got " ++ optionText found
  | .optionOutsideChoice text => "option " ++ Text.quoted text ++ " outside a choice"
  | .voicePending name pending =>
    "voice '" ++ name ++ "' pushed while '" ++ pending ++ "' is still pending"

/-- Tokens that cannot be acted on. A lenient player skips them. -/
inductive PlaybackFlaw where
  | unsupportedOpcode (opcode : String)
  | unsupportedToken (token : String)
  | fillColour (value : Int64)
  | noPosedChoice
  | nothingToDisplay (candidates : Nat)
  | leftUnanswered
deriving DecidableEq, Repr

def PlaybackFlaw.message : PlaybackFlaw → String
  | .unsupportedOpcode opcode => "unsupported opcode " ++ opcode
  | .unsupportedToken token => "unsupported token " ++ token
  | .fillColour value => "unknown fill colour " ++ toString value
  | .noPosedChoice => "no posed choice to store"
  | .nothingToDisplay candidates =>
    "choice with " ++ toString candidates ++ " candidates has nothing to display"
  | .leftUnanswered => "front end left the choice unanswered"

/-- A failed operation of the engine. -/
inductive Fault where
  | bounds (offset requested limit : Nat)
  | unknownOpcode (path : OpcodePath) (offset : Nat)
  | invalidData (offset : Nat) (flaw : DataFlaw)
  | undecodable (offset : Nat) (flaw : TextFlaw)
  | malformedValue (flaw : ValueFlaw)
  | evaluation (flaw : EvaluationFlaw)
  | reference (table : TableKind) (index count : Nat)
  | container (flaw : ContainerFlaw)
  | state (flaw : StateFlaw)
  | playback (flaw : PlaybackFlaw)
  | missingMedia (kind name : String)
  | at (place : Place) (cause : Fault)
  | serialization
  /-- Playback has used up the number of tokens it was allowed without a yield. -/
  | exhausted
  /-- A difference does not fit into 64 bits where nothing is provided for this. In a build that checks
  its arithmetic the program ends here: it does not report the fault, and no call comes after it. -/
  | overflow
deriving DecidableEq, Repr

namespace Fault

/-- The wording of a fault. -/
def message : Fault → String
  | .bounds offset requested limit =>
    "read of " ++ toString requested ++ " bytes at " ++ hexNat offset ++
      " crosses domain limit " ++ hexNat limit
  | .unknownOpcode path offset => "unknown opcode " ++ path.text ++ " at " ++ hexNat offset
  | .invalidData offset flaw => "invalid data at " ++ hexNat offset ++ ": " ++ flaw.message
  | .undecodable offset flaw => "undecodable text at " ++ hexNat offset ++ ": " ++ flaw.message
  | .malformedValue flaw => "malformed active value: " ++ flaw.message
  | .evaluation flaw => "evaluation failed: " ++ flaw.message
  | .reference table index count =>
    table.label ++ " reference " ++ toString index ++ " out of range (table holds " ++
      toString count ++ ")"
  | .container flaw => "invalid SC3 container: " ++ flaw.message
  | .state flaw => "runtime state violation: " ++ flaw.message
  | .playback flaw => "playback failed: " ++ flaw.message
  | .missingMedia kind name => "missing " ++ kind ++ " media '" ++ name ++ "'"
  | .at place cause => "at " ++ place.text ++ ": " ++ cause.message
  | .serialization => "serialization error"
  | .exhausted => "token budget used up"
  | .overflow => "attempt to subtract with overflow"

/-- The fault without the places around it. -/
def root : Fault → Fault
  | .at _ cause => cause.root
  | fault => fault

/-- Whether a lenient player skips the fault. -/
def isPlayback : Fault → Bool
  | .playback _ => true
  | _ => false

/-- Whether the fault says that a media file is missing. -/
def isMissingMedia : Fault → Bool
  | .missingMedia .. => true
  | _ => false

end Fault

end NovelScript
