import NovelScript.Title.Ever17

/-! # Opcodes of Never7

Given as changes to the opcodes of Ever17. -/

namespace NovelScript.Never7

open OpcodeDef (plain acting breaking)

/-- The opcodes of group `00` that both titles share. -/
def shared00 : List UInt8 :=
  [0x00, 0x01, 0x03, 0x05, 0x06, 0x07, 0x08, 0x0a, 0x0b, 0x0d,
   0x0e, 0x0f, 0x10, 0x11, 0x13, 0x15, 0x19, 0x1a]

def events00 : List (OpcodeDef EventAction) :=
  [plain 0x04 "scene-link" [.u8, .value, .eventData],
   plain 0x0c "unk" [.value, .nulls 2],
   breaking 0x0e "return" [.stop] .return,
   plain 0x12 "unk" [.value],
   plain 0x20 "unk" [],
   plain 0x21 "unk" [],
   plain 0x22 "unk" [.value]]

def events01 : List (OpcodeDef EventAction) :=
  [plain 0x02 "unk" [.value, .value, .filename, .value, .eventData],
   plain 0x03 "unk" [.values 4, .eventData],
   plain 0x13 "unk" [.value, .value, .filename, .value, .eventData],
   plain 0x17 "unk" [.value, .value]]

def events10 : List (OpcodeDef EventAction) :=
  [plain 0x00 "unk" [],
   plain 0x01 "effect" [.value],
   plain 0x02 "unk" [.value],
   breaking 0x03 "choice-store" [.value] (.choiceStore false),
   breaking 0x04 "file-jump" [.string 0, .stop] .fileJump,
   breaking 0x05 "file-call" [.value, .string 0] .returnableFileJump,
   plain 0x06 "unk" [.value],
   plain 0x07 "unk" [],
   plain 0x08 "sound" [.string 0, .value],
   plain 0x09 "unk" [],
   plain 0x0a "unk" [],
   acting 0x0b "voice" [.string 0] .pushVoice,
   acting 0x0c "bgi-scroll" [.filename, .value, .value, .value] .scrollBackground,
   plain 0x0d "unk" [.value],
   acting 0x0e "bgi-pan" [.value, .value] .scrollPan,
   plain 0x0f "unk" [.value, .value, .value],
   acting 0x10 "bgi" [.filename, .value, .value] .background,
   acting 0x11 "charart" [.value, .filename, .value, .value] (.drawCharacter false),
   acting 0x12 "charart-clear" [.value, .value] (.clearCharacter false),
   plain 0x14 "unk" [.nulls 4, .u16, .value, .nulls 4, .u16, .value],
   acting 0x15 "charart-clear-all" [.value] .clearAll,
   plain 0x16 "unk" [.value, .value],
   plain 0x17 "time" [],
   plain 0x1a "unk" [.value],
   plain 0x1b "unk" [.filename],
   plain 0x1c "unk" [],
   plain 0x1e "unk" [],
   acting 0x22 "movie" [.string 0] .movie,
   plain 0x23 "unk" [],
   plain 0x27 "unk" [.value],
   plain 0x28 "unk" [],
   plain 0x29 "unk" [],
   plain 0x2c "unk" [.value],
   plain 0x2d "unk" [],
   plain 0x2e "unk" [.value]]

def events80 : List (OpcodeDef EventAction) :=
  [plain 0x01 "unk" [.u16, .event],
   plain 0x11 "unk" [.bytes 3],
   plain 0x12 "unk" [.u16]]

def conversations : List (OpcodeDef ConvAction) :=
  [breaking 0x00 "end" [] .data,
   breaking 0x01 "linefeed" [] .linefeed,
   acting 0x02 "ack" [] .userAck,
   acting 0x03 "unk" [] .data,
   breaking 0x04 "aux" [.value] .textAux,
   breaking 0x05 "unk" [.value, .value] .data,
   breaking 0x0b "option" [.u8, .textOpen] .choiceOption,
   breaking 0x0c "unk" [] .data]

/-- Group `00` keeps the shared opcodes only; the other groups keep all that is not redefined. -/
def eventTable : OpcodeTable EventAction :=
  let base := Ever17.eventTable
  base.insertSub 0x00 (((base.sub? 0x00).getD .empty).select shared00 |>.define events00)
    |>.defineSub 0x01 events01
    |>.defineSub 0x10 events10
    |>.defineSub 0x80 events80

def convTable : OpcodeTable ConvAction := .ofDefs conversations

end NovelScript.Never7
