import NovelScript.Digest.Crc32
import NovelScript.Digest.Sha256
import NovelScript.Play.State
import NovelScript.Save.Codec

/-! # Saves

A save is a state of playback together with the hash of the script file that it was taken from. A
save file has a header in front of the encoded save: magic number, version, checksum and length. -/

namespace NovelScript

/-- A state to resume from, bound to its script file. -/
structure SaveData where
  scriptId : ScriptId
  state : PlayState
  /-- The length of the backlog when the save was taken. -/
  backlogLength : Nat
deriving DecidableEq, Repr

/-- Why a save file is refused. -/
inductive SaveFault where
  | tooSmall
  | tooLarge
  | badMagic
  | version (found expected : Nat)
  | checksum
  | length
  | noPayload
  | otherScript
  | encoding
deriving DecidableEq, Repr

def SaveFault.message : SaveFault → String
  | .tooSmall => "save data too small"
  | .tooLarge => "save data too large"
  | .badMagic => "invalid save file magic bytes"
  | .version found expected =>
    "incompatible save version: found " ++ toString found ++ ", expected " ++ toString expected
  | .checksum => "save file checksum mismatch"
  | .length => "save file length mismatch"
  | .noPayload => "save file missing payload"
  | .otherScript => "save does not match the script file"
  | .encoding => "serialization error"

namespace SaveData

open Codec

def rngCodec : Codec Pcg32 :=
  (pair uint64 uint64).mapping (fun (state, increment) => some ⟨state, increment⟩)
    fun g => (g.state, g.increment)

def positionCodec : Codec ConvPosition :=
  (pair nat64 nat64).mapping (fun (chunk, token) => some ⟨chunk, token⟩)
    fun p => (p.chunk, p.token)

def frameCodec : Codec CallFrame :=
  (pair text (pair nat64 nat64)).mapping
    (fun (script, chunk, token) => some ⟨script, chunk, token⟩)
    fun f => (f.script, f.chunk, f.token)

def colourCodec : Codec Colour :=
  (pair byte (pair byte byte)).mapping (fun (r, g, b) => some ⟨r, g, b⟩)
    fun c => (c.r, c.g, c.b)

/-- The parts of a viewport behind its tag. -/
def viewportCodec : Codec Viewport where
  encode
    | .full => encodeNat 0
    | .rect x y w h =>
      encodeNat 1 ++ int64.encode x ++ int64.encode y ++ int64.encode w ++ int64.encode h
    | .scroll y => encodeNat 2 ++ int64.encode y
  decode bytes := do
    let (tag, rest) ← nat32.decode bytes
    match tag with
    | 0 => return (.full, rest)
    | 1 =>
      let (x, rest) ← int64.decode rest
      let (y, rest) ← int64.decode rest
      let (w, rest) ← int64.decode rest
      let (h, rest) ← int64.decode rest
      return (.rect x y w h, rest)
    | 2 =>
      let (y, rest) ← int64.decode rest
      return (.scroll y, rest)
    | _ => none

def backgroundCodec : Codec Background :=
  (pair (option text) (pair (option colourCodec) viewportCodec)).mapping
    (fun (image, fill, viewport) => some ⟨image, fill, viewport⟩)
    fun b => (b.image, b.fill, b.viewport)

def characterCodec : Codec CharacterArt :=
  (pair text int64).mapping (fun (image, x) => some ⟨image, x⟩) fun c => (c.image, c.x)

def slotsCodec : Codec Slots :=
  (list (pair int64 characterCodec)).mapping (fun entries => some (.ofList entries))
    Slots.entries

def optionCodec : Codec ChoiceOption :=
  (pair text (pair nat64 nat64)).mapping
    (fun (text, index, candidate) => some ⟨text, index, candidate⟩)
    fun o => (o.text, o.index, o.candidate)

def choiceCodec : Codec Choice :=
  (pair (option uint16) (pair (list optionCodec) (pair nat64 (option nat64)))).mapping
    (fun (id, options, candidates, chosen) => some ⟨id, options, candidates, chosen⟩)
    fun c => (c.id, c.options, c.candidates, c.chosen)

/-- The statuses in the order of their tags. -/
def statuses : List Status := [.running, .userAck, .choice, .graphicsOp, .ended, .error]

def statusCodec : Codec Status := nat32.mapping (statuses[·]?) statuses.idxOf

def stateCodec : Codec PlayState :=
  (pair (list int64) (pair (option int64) (pair rngCodec (pair text (pair nat64 (pair nat64
    (pair (option positionCodec) (pair (option frameCodec) (pair backgroundCodec (pair bool
      (pair slotsCodec (pair (option choiceCodec) (pair statusCodec
        (option text)))))))))))))).mapping
    (fun (memory, register, rng, script, chunk, token, conv, callFrame, background, textboxFaded,
        characters, choice, status, pushedVoice) =>
      some ⟨memory.toArray, register, rng, script, chunk, token, conv, callFrame, background,
        textboxFaded, characters, choice, status, pushedVoice⟩)
    fun s => (s.memory.toList, s.register, s.rng, s.script, s.chunk, s.token, s.conv, s.callFrame,
      s.background, s.textboxFaded, s.characters, s.choice, s.status, s.pushedVoice)

def idCodec : Codec ScriptId := (bytes 32).mapping ScriptId.ofBytes? ScriptId.bytes

def codec : Codec SaveData :=
  (pair idCodec (pair stateCodec nat64)).mapping
    (fun (id, state, backlogLength) => some ⟨id, state, backlogLength⟩)
    fun s => (s.scriptId, s.state, s.backlogLength)

/-- The bytes that a save file starts with. -/
def magic : Bytes := [0x53, 0x33, 0x53, 0x56]

/-- The version of the format. -/
def version : Nat := 1

/-- The length of the header: magic, version, checksum, length. -/
def headerLength : Nat := 14

/-- A save file. -/
def toBinary (save : SaveData) : Except SaveFault Bytes :=
  let payload := codec.encode save
  if UInt32.size ≤ payload.length then .error .tooLarge
  else
    .ok (magic ++ Bytes.ofNatLE 2 version ++ Bytes.ofNatLE 4 (Crc32.hash payload).toNat ++
      Bytes.ofNatLE 4 payload.length ++ payload)

/-- The save of a save file. Magic, version, length and checksum are checked in this order. -/
def ofBinary (file : Bytes) : Except SaveFault SaveData :=
  let found := Bytes.toNatLE ((file.drop 4).take 2)
  let checksum := Bytes.toNatLE ((file.drop 6).take 4)
  let length := Bytes.toNatLE ((file.drop 10).take 4)
  let payload := file.drop headerLength
  if file.length < headerLength then .error .tooSmall
  else if file.take 4 ≠ magic then .error .badMagic
  else if found ≠ version then .error (.version found version)
  else if payload = [] then .error .noPayload
  else if payload.length ≠ length then .error .length
  else if (Crc32.hash payload).toNat ≠ checksum then .error .checksum
  else
    match codec.decode payload with
    | some (save, _) => .ok save
    | none => .error .encoding

/-- Checks that a save was taken from the script file with the given hash. -/
def checkScript (save : SaveData) (expected : ScriptId) : Except SaveFault Unit :=
  if save.scriptId = expected then .ok () else .error .otherScript

end SaveData

end NovelScript
