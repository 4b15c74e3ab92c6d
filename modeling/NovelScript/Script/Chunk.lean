import NovelScript.Script.Operands
import NovelScript.Script.Textblocks

/-! # Tokens of a chunk

A chunk is read token by token up to its end, to the opcode that ends it, or to the first token
that cannot be read. -/

namespace NovelScript

/-- The event chunks that are known to hold bytes and no code. -/
abbrev DataChunks := List Nat

/-- What came of reading a chunk: the tokens that could be read, the fault that stopped the
reading, and the event chunks that the operands on the way refer to for their bytes. -/
structure Tokenized where
  tokens : List Token
  fault : Option Fault
  targets : List Nat
deriving DecidableEq, Repr

namespace Tokenized

/-- The outcome without any token. -/
def failed (fault : Fault) : Tokenized := ⟨[], some fault, []⟩

/-- All tokens of the chunk, or the fault. -/
def result (t : Tokenized) : Except Fault (List Token) :=
  match t.fault with
  | none => .ok t.tokens
  | some fault => .error fault

/-- How far the reading came, in words. -/
def failureMessage (t : Tokenized) (fault : Fault) : String :=
  "tokenizing stopped after " ++ toString t.tokens.length ++ " tokens: " ++ fault.message

/-- Puts a token in front of the tokens read after it. -/
def cons (token : Token) (targets : List Nat) (t : Tokenized) : Tokenized :=
  ⟨token :: t.tokens, t.fault, targets ++ t.targets⟩

end Tokenized

namespace Script

/-- The bytes from `start` to the cursor, where they are asked for. -/
def captured (capture : Bool) (start : Nat) (c : Cursor) : Except Fault (Option View) :=
  if capture then (c.spanFrom start).map some else .ok none

/-- What came of reading one token: the token with the cursor behind it, or the fault, and the
event chunks referred to for their bytes. -/
structure TokenRead where
  outcome : Except Fault (Token × Cursor)
  targets : List Nat

/-- Reads one opcode of a table with its operands. -/
def readOp {α : Type} (s : Script) (table : OpcodeTable α) (kind : OpToken α → TokenKind)
    (capture : Bool) (c : Cursor) : TokenRead :=
  match table.lookup.runOn c with
  | (.error fault, _) => ⟨.error fault, []⟩
  | (.ok (path, definition), after) =>
    let read := s.readShape definition.shape after
    let targets := dataTargets read.operands
    match read.fault with
    | some fault => ⟨.error fault, targets⟩
    | none =>
      match captured capture c.pos read.cursor with
      | .error fault => ⟨.error fault, targets⟩
      | .ok raw =>
        ⟨.ok (⟨c.pos, raw, kind ⟨path, definition, read.operands⟩⟩, read.cursor), targets⟩

/-- Reads a run of text, without the byte that ends it. -/
def readTextRun (s : Script) (capture : Bool) (c : Cursor) :
    Except Fault (Token × Cursor) :=
  match s.title.codec.readOpen.runOn c with
  | (.error fault, _) => .error fault
  | (.ok text, after) => do
    let raw ← captured capture c.pos after
    return (⟨c.pos, raw, .text text⟩, after)

/-- Reads one token of an event chunk. -/
def readEventToken (s : Script) (capture : Bool) (c : Cursor) : TokenRead :=
  s.readOp s.title.eventTable .event capture c

/-- Reads one token of a conversation chunk. A byte that opens no opcode opens a run of text, if
it is a text byte. -/
def readConvToken (s : Script) (capture : Bool) (c : Cursor) : TokenRead :=
  let read := s.readOp s.title.convTable .conv capture c
  match read.outcome with
  | .error (.unknownOpcode path offset) =>
    match (Reader.peek Reader.u8).runOn c with
    | (.ok byte, _) =>
      if isTextByte byte then ⟨s.readTextRun capture c, read.targets⟩
      else ⟨.error (.unknownOpcode path offset), read.targets⟩
    | _ => ⟨.error (.unknownOpcode path offset), read.targets⟩
  | _ => read

/-- Reads tokens up to the end of a chunk. A token has at least one byte, so `fuel` of as many as
the chunk has bytes is enough. -/
def readTokens (readToken : Cursor → TokenRead) : (fuel : Nat) → Cursor → Tokenized
  | 0, _ => ⟨[], none, []⟩
  | fuel + 1, c =>
    if c.atEnd then ⟨[], none, []⟩
    else
      let read := readToken c
      match read.outcome with
      | .error fault => ⟨[], some fault, read.targets⟩
      | .ok (token, after) => (readTokens readToken fuel after).cons token read.targets

/-- Reads all tokens of a chunk. -/
def tokensOf (readToken : Cursor → TokenRead) (chunk : View) : Tokenized :=
  readTokens readToken chunk.length (Cursor.ofView chunk)

/-- The tokens of an event chunk. A chunk that is known to hold data is one token. -/
def tokenizeEvent (s : Script) (known : DataChunks) (index : Nat) (capture : Bool) : Tokenized :=
  match s.eventChunk index with
  | .error fault => .failed fault
  | .ok chunk =>
    if known.contains index then
      ⟨[⟨chunk.offset, if capture then some chunk else none, .data chunk⟩], none, []⟩
    else tokensOf (s.readEventToken capture) chunk

/-- The tokens of a conversation chunk, text not yet grouped. -/
def tokenizeConvPlain (s : Script) (index : Nat) (capture : Bool) : Tokenized :=
  match s.convChunk index with
  | .error fault => .failed fault
  | .ok chunk => tokensOf (s.readConvToken capture) chunk

/-- The tokens of a conversation chunk, text grouped into blocks. -/
def tokenizeConv (s : Script) (index : Nat) (capture : Bool) : Tokenized :=
  let plain := s.tokenizeConvPlain index capture
  match plain.fault with
  | some _ => plain
  | none =>
    match Textblock.group s.title.grouping plain.tokens with
    | .ok tokens => { plain with tokens := tokens }
    | .error fault => { plain with fault := some fault }

/-- Every line of text in a conversation chunk. -/
def convTextLines (s : Script) (index : Nat) : Except Fault (List String) :=
  (s.tokenizeConv index false).result.map fun tokens => tokens.flatMap (·.textLines)

end Script

/-- The chunks known to hold data after `targets` were referred to for their bytes. -/
def DataChunks.extend (known : DataChunks) (targets : List Nat) : DataChunks :=
  targets.foldl (fun known target => if known.contains target then known else target :: known)
    known

end NovelScript
