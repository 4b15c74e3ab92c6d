import NovelScript.Digest.Sha256
import NovelScript.Title
import NovelScript.Token

/-! # Script files

A script file holds three tables of chunks: event chunks, conversation chunks and filenames. It
starts with a magic number and the offsets of the conversation table and the filename table; the
event table follows at once and ends where its first chunk begins. -/

namespace NovelScript

/-- How script files are read. -/
structure ParseOptions where
  /-- Drop the last entry of an event table whose length is no multiple of an entry's. -/
  alignmentHeuristic : Bool
  /-- Keep the bytes of each token. -/
  captureRaw : Bool
deriving DecidableEq, Repr

def ParseOptions.default : ParseOptions := ⟨true, false⟩

/-- A script file with its chunks. -/
structure Script where
  name : String
  title : Title
  view : View
  options : ParseOptions
  /-- Where the tables of conversations and filenames start. -/
  tablesOffset : Nat
  events : List View
  convs : List View
  filenames : List View
deriving DecidableEq, Repr

namespace Script

/-- The bytes that a script file starts with. -/
def magic : Bytes := [0x53, 0x43, 0x33, 0x00]

/-- The length of a table entry. -/
def entrySize : Nat := 4

/-- Reads a table of offsets that ends at `limit`, or where its own first entry points to. -/
def readOffsets (base : Nat) (limit : Option Nat) (heuristic : Bool) : Reader (List Nat) := do
  let relative ← match limit with
    | some limit => pure limit
    | none => Reader.peek (Reader.nat entrySize)
  let stop := relative + base
  let start ← Reader.pos
  if stop < start then Reader.fail (.container (.tableEnd start stop))
  else
    let span := stop - start
    let dropped := if limit.isNone && heuristic && span % entrySize != 0 then 1 else 0
    Reader.nats entrySize (span / entrySize - dropped)

/-- The chunks that start at the offsets; each ends where the next one starts, and the last one at
`stop`. `index` is the number of the first chunk. -/
def chunksFrom (view : View) (stop : Nat) : (index : Nat) → List Nat → Except Fault (List View)
  | _, [] => .ok []
  | index, start :: rest =>
    let next := rest.headD stop
    if next < start ∨ view.length < next then
      .error (.container (.chunk index start next view.length))
    else do
      let chunk ← view.sub start (next - start)
      let others ← chunksFrom view stop (index + 1) rest
      return chunk :: others

/-- The chunks that start at the offsets, up to `stop`. -/
def chunks (view : View) (offsets : List Nat) (stop : Nat) : Except Fault (List View) :=
  chunksFrom view stop 0 offsets

/-- Reads the conversation chunks and the filenames. -/
def readTables (view : View) (options : ParseOptions) (convTable filenameTable : Nat) :
    Reader (List View × List View) := do
  let base := view.offset
  let total := view.length
  if convTable = total then return ([], [])
  else
    Reader.seek view convTable
    let convOffsets ← readOffsets base (some filenameTable) options.alignmentHeuristic
    if filenameTable = total then
      return (← Reader.lift (chunks view convOffsets total), [])
    else
      Reader.seek view filenameTable
      let filenameOffsets ← readOffsets base convOffsets.head? options.alignmentHeuristic
      let filenames ← Reader.lift (chunks view filenameOffsets total)
      let convs ← Reader.lift (chunks view convOffsets (filenameOffsets.headD total))
      return (convs, filenames)

/-- Reads a script file from the start of its view. -/
def read (view : View) (name : String) (title : Title) (options : ParseOptions) :
    Reader Script := do
  (Reader.expect magic).mapFault fun _ => .container (.noMagic name)
  let convTable ← Reader.nat entrySize
  let filenameTable ← Reader.nat entrySize
  if view.length < convTable ∨ view.length < filenameTable then
    Reader.fail (.container (.tableOffsets name convTable filenameTable view.length))
  else
    let eventOffsets ← readOffsets view.offset none options.alignmentHeuristic
    let events ← Reader.lift (chunks view eventOffsets convTable)
    let (convs, filenames) ← readTables view options convTable filenameTable
    return ⟨name, title, view, options, convTable, events, convs, filenames⟩

/-- The script file that a view holds. -/
def parse (view : View) (name : String) (title : Title) (options : ParseOptions) :
    Except Fault Script :=
  ((read view name title options).runOn (Cursor.ofView view)).1

/-- The chunk of a table at `index`. -/
def chunkAt (table : TableKind) (chunks : List View) (index : Nat) : Except Fault View :=
  match chunks[index]? with
  | some chunk => .ok chunk
  | none => .error (.reference table (min index 65535) chunks.length)

def eventChunk (s : Script) (index : Nat) : Except Fault View :=
  chunkAt .event s.events index

def convChunk (s : Script) (index : Nat) : Except Fault View :=
  chunkAt .conversation s.convs index

/-- A filename, without the zero bytes at its end. -/
def filename (s : Script) (index : Nat) : Except Fault Bytes :=
  (chunkAt .filename s.filenames index).map (·.bytes.trimNulls)

/-- A chunk's place in messages. -/
def segmentName (s : Script) (index : Nat) : String :=
  Place.text ⟨s.name, false, index, none⟩

/-- Where bodies start that lie one after the other from `start` on. -/
def bodyOffsets : (start : Nat) → List Bytes → List Nat
  | _, [] => []
  | start, body :: rest => start :: bodyOffsets (start + body.length) rest

/-- The file as bytes: all up to the tables as it was read, then the tables and the bodies of the
conversation chunks and the filenames. -/
def write (s : Script) : Except Fault Bytes := do
  let head ← s.view.sub 0 s.tablesOffset
  let bodies := (s.convs ++ s.filenames).map View.bytes
  let offsets := bodyOffsets (s.tablesOffset + entrySize * bodies.length) bodies
  match offsets.find? (UInt32.size ≤ ·) with
  | some offset => .error (.container (.offsetTooLarge offset))
  | none => return head.bytes ++ offsets.flatMap (Bytes.ofNatLE entrySize) ++ bodies.flatten

/-- The hash by which the file is known. -/
def id (s : Script) : ScriptId := .ofContent s.view.bytes

end Script

end NovelScript
