import NovelScript.Opcode.Action
import NovelScript.Opcode.Table

/-! # Opcodes of Ever17

The event opcodes stand in four groups and two direct ones; the conversation opcodes are direct. -/

namespace NovelScript.Ever17

open OpcodeDef (plain acting breaking)

/-- Control flow and registers. -/
def events00 : List (OpcodeDef EventAction) :=
  [plain 0x00 "nop" [],
   plain 0x01 "branch" [.value, .value, .event],
   plain 0x03 "unk" [],
   acting 0x04 "scene-link" [.nulls 1, .value, .eventData, .bytes 2, .value, .u16] .scriptLink,
   plain 0x05 "unk" [.value],
   breaking 0x06 "end" [.stop] .stop,
   breaking 0x07 "jump" [.event, .stop] .jump,
   breaking 0x08 "jump-table" [.value, .eventData, .stop] .jumpTable,
   breaking 0x0a "cond-jump" [.u8, .value, .event] .condJump,
   breaking 0x0b "call" [.event] .returnableJump,
   plain 0x0d "unk" [.value, .bytes 2],
   breaking 0x0e "return" [.stop] .return,
   plain 0x0f "unk" [.u16, .value],
   plain 0x10 "branch" [.u8, .value, .event],
   plain 0x11 "unk" [.u8, .value],
   plain 0x12 "unk" [.value],
   plain 0x13 "unk" [.value],
   breaking 0x15 "jump" [.u8, .value, .value, .event] .jump,
   plain 0x19 "unk" [.value, .value],
   plain 0x1a "unk" [],
   plain 0x21 "unk" [],
   plain 0x23 "unk" [],
   plain 0x24 "unk" [],
   plain 0x25 "unk" [.u8],
   acting 0x26 "load-r1" [.value] .loadRegister,
   breaking 0x27 "r1-jump" [.value, .event] .registerJump,
   plain 0x28 "unk" []]

def events01 : List (OpcodeDef EventAction) :=
  [plain 0x00 "branch" [.event],
   plain 0x01 "unk" [.value, .value],
   plain 0x03 "unk" [.values 20, .u16],
   plain 0x04 "unk" [.value],
   plain 0x06 "unk" [.value, .value, .eventData],
   plain 0x07 "unk" [.value, .value],
   plain 0x13 "unk" [.bytes 16, .eventData],
   plain 0x14 "unk" [.value, .value],
   plain 0x15 "unk" [.value, .value],
   plain 0x16 "unk" [.value, .value],
   plain 0x18 "unk" [],
   plain 0x19 "unk" [.value, .value, .bytes 4]]

/-- Scripts, sound, pictures and choices. -/
def events10 : List (OpcodeDef EventAction) :=
  [plain 0x00 "unk" [],
   breaking 0x01 "file-jump" [.string 0, .stop] .fileJump,
   plain 0x03 "bgm" [.value, .value],
   plain 0x04 "bgm-stop" [],
   plain 0x05 "sound" [.text 0, .value, .value],
   plain 0x06 "unk" [],
   plain 0x07 "unk" [],
   plain 0x08 "unk" [.text 0, .bytes 2],
   acting 0x0c "bgi" [.filename, .value, .value] .background,
   acting 0x0d "bg-fade" [.value, .value, .value] .fade,
   plain 0x0e "unk" [.value],
   acting 0x0f "charart" [.value, .filename, .value, .value] (.drawCharacter true),
   acting 0x10 "charart-clear" [.value, .value] (.clearCharacter true),
   acting 0x12 "charart-2" [.value, .value, .filename, .filename, .value, .value, .value] .drawPair,
   acting 0x13 "charart-clear-all" [.value, .value] .clearAll,
   plain 0x14 "unk" [.value, .value, .value],
   plain 0x15 "unk" [.value, .value],
   acting 0x16 "charart-3" [.filename, .filename, .filename, .value, .value, .value, .value] .drawTriple,
   acting 0x18 "textbox-off" [] .textboxOff,
   plain 0x19 "unk" [],
   breaking 0x1a "choice-store" [.value, .value] (.choiceStore true),
   plain 0x1b "unk" [.value],
   acting 0x1d "bgi" [.filename] .background,
   plain 0x1e "delay" [.value],
   plain 0x1f "time" [.value, .value],
   plain 0x20 "effect" [.value],
   plain 0x21 "unk" [.value],
   plain 0x23 "unk" [.value],
   plain 0x24 "unk" [.value],
   plain 0x25 "unk" [.value],
   plain 0x26 "unk" [.value],
   acting 0x27 "bgi" [.filename, .value, .value] .background,
   plain 0x29 "unk" [],
   plain 0x2a "unk" [.value],
   plain 0x2b "unk" [.value],
   plain 0x2c "unk" [.u8, .value],
   plain 0x2d "unk" [.value],
   plain 0x2e "unk" [.value, .value],
   plain 0x37 "wallpaper" [.filename],
   plain 0x38 "unk" [],
   acting 0x39 "movie" [.ascii 0] .movie,
   plain 0x3a "unk" [],
   plain 0x3b "unk" [.value],
   plain 0x3c "unk" [],
   plain 0x3f "unk" [.value],
   acting 0x40 "bgi-partial" [.filename, .values 6] .partialBackground,
   acting 0x41 "bgi-panzoom" [.values 5] .panZoom,
   plain 0x43 "unk" [.value],
   plain 0x44 "unk" [.bytes 2],
   plain 0x45 "unk" [.value, .value],
   plain 0x46 "perspective" [.value]]

def events80 : List (OpcodeDef EventAction) :=
  [plain 0x05 "unk" [.bytes 4],
   plain 0x13 "unk" [.u16],
   plain 0x18 "unk" [.u8, .s16, .s16]]

/-- The opcodes of one byte. -/
def eventsDirect : List (OpcodeDef EventAction) :=
  [acting 0xfe "memop" [.value] .memoryWrite,
   breaking 0xff "conv" [.conversation] .loadConversation]

def conversations : List (OpcodeDef ConvAction) :=
  [acting 0x00 "unk" [] .data,
   acting 0x01 "linefeed" [] .linefeed,
   acting 0x02 "ack" [] .userAck,
   acting 0x03 "unk" [] .data,
   acting 0x04 "unk" [.value] .data,
   acting 0x05 "prefix" [.zero] .blockPrefix,
   breaking 0x0b "choice" [.choiceEntry] .choiceEntry,
   acting 0x0c "unk" [] .data,
   acting 0x0d "voice" [.ascii 0] .voice,
   breaking 0x0e "section" [] .section,
   acting 0x10 "aux" [.u8] .textAux,
   acting 0x11 "text-ext" [.constant [0x03], .textOpen] .data]

def eventTable : OpcodeTable EventAction :=
  (OpcodeTable.ofDefs eventsDirect)
    |>.insertSub 0x00 (.ofDefs events00)
    |>.insertSub 0x01 (.ofDefs events01)
    |>.insertSub 0x10 (.ofDefs events10)
    |>.insertSub 0x80 (.ofDefs events80)

def convTable : OpcodeTable ConvAction := .ofDefs conversations

end NovelScript.Ever17
