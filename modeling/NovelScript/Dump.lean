import NovelScript.CallGraph
import NovelScript.Decimal.Binary64
import NovelScript.Dump.Counts
import NovelScript.Text.Table

/-! # Dumps

A dump lists the tokens of script files and counts what it comes across: kinds of tokens, which kind
follows which, lengths and contents of chunks. -/

namespace NovelScript

/-- What a dump lists and counts. -/
structure DumpOptions where
  tokens : Bool
  /-- List the bytes of each token. -/
  raw : Bool
  /-- Start each row with the offset of its first token. -/
  offsets : Bool
  /-- Colour tokens by their kind. -/
  colour : Bool
  tokenFrequency : Bool
  followFrequency : Bool
  elementLengths : Bool
  /-- Count chunks by so many bytes at their start. -/
  startLength : Option Nat
  /-- Count the kinds of so many tokens in front of a failure. -/
  preErrorLength : Option Nat
  /-- Collect the chunks of this length. -/
  dumpLength : Option Nat
  continueOnFailure : Bool
  callGraph : Bool
deriving DecidableEq, Repr

def DumpOptions.default : DumpOptions :=
  ⟨false, false, false, false, false, false, false, none, none, none, false, false⟩

/-- How many chunks could be read and how many not, and their bytes. -/
structure ReadTally where
  succeeded : Nat
  succeededBytes : Nat
  failed : Nat
  failedBytes : Nat
deriving DecidableEq, Repr

namespace ReadTally

def zero : ReadTally := ⟨0, 0, 0, 0⟩

def total (t : ReadTally) : Nat := t.succeeded + t.failed

def totalBytes (t : ReadTally) : Nat := t.succeededBytes + t.failedBytes

/-- A part of a whole in percent; nothing of nothing is none. -/
def percent (part whole : Nat) : Float :=
  if part = 0 ∨ whole = 0 then 0
  else (UInt64.ofNat part).toFloat / (UInt64.ofNat whole).toFloat * 100

/-- A part, the whole, and the part in percent. -/
def share (part whole : Nat) : String :=
  toString part ++ "/" ++ toString whole ++ "(" ++ twoPlaces (percent part whole) ++ "%)"

/-- The line that tells what could not be read. -/
def line (t : ReadTally) : String :=
  "-------- Failed to parse " ++ share t.failed t.total ++ " data blocks containing " ++
    share t.failedBytes t.totalBytes ++ " bytes"

/-- One more chunk, of `size` bytes. -/
def add (t : ReadTally) (success : Bool) (size : Nat) : ReadTally :=
  if success then
    { t with succeeded := t.succeeded + 1, succeededBytes := t.succeededBytes + size }
  else { t with failed := t.failed + 1, failedBytes := t.failedBytes + size }

end ReadTally

/-- The two kinds of chunks that hold tokens. -/
inductive ChunkKind where
  | event
  | conversation
deriving DecidableEq, Repr

/-- A dump so far. In `follows` the boundary of a chunk stands as no kind. -/
structure Dump where
  options : DumpOptions
  output : String
  tally : ReadTally
  types : Counts TokenType
  follows : Counts (Option TokenType × Option TokenType)
  lengths : Counts Nat
  starts : Counts Bytes
  contents : Counts Bytes
  preError : Counts String
  graph : Option CallGraph
deriving DecidableEq, Repr

/-- The pairs of neighbours in a list, the outside of the list as `none`. -/
def neighbours {α : Type} (previous : Option α) : List α → List (Option α × Option α)
  | [] => [(previous, none)]
  | item :: rest => (previous, some item) :: neighbours (some item) rest

namespace Dump

/-- A dump that has seen nothing. -/
def new (options : DumpOptions) : Dump :=
  ⟨options, "", .zero, .empty, .empty, .empty, .empty, .empty, .empty,
    if options.callGraph then some .empty else none⟩

/-- Writes a text. -/
def write (d : Dump) (text : String) : Dump := { d with output := d.output ++ text }

/-- The text written so far, and the dump without it. -/
def takeOutput (d : Dump) : String × Dump := (d.output, { d with output := "" })

/-- The terminal colour of a token. -/
def colourCode (t : Token) : String :=
  match t.kind with
  | .event _ => "36"
  | .conv _ => "33"
  | .text _ => "32"
  | .textblock _ => "35"
  | .data _ => "90"

/-- A token as a cell of a row. -/
def tokenCell (o : DumpOptions) (s : Script) (t : Token) : String :=
  let plain := t.listed s
  let full := match o.raw, t.raw with
    | true, some raw => plain ++ " [" ++ raw.bytes.hexSpaced ++ "]"
    | _, _ => plain
  if o.colour then "\x1b[" ++ colourCode t ++ "m" ++ full ++ "\x1b[0m" else full

/-- The rows of tokens: a row ends after each token that breaks rows. `row` are the cells of the
row so far. -/
def tokenRows (o : DumpOptions) (s : Script) : (row : List String) → List Token →
    List (List String)
  | row, [] => if row.isEmpty then [] else [row]
  | row, t :: rest =>
    let start := if row.isEmpty && o.offsets then [hexNat t.offset] else row
    let row := start ++ [tokenCell o s t]
    if t.breaks then row :: tokenRows o s [] rest else tokenRows o s row rest

/-- Tokens as a table. -/
def tokenTable (o : DumpOptions) (s : Script) (tokens : List Token) : String :=
  Text.plainTable (tokenRows o s [] tokens)

/-- Counts tokens and lists them, with a heading if there is a place for it. -/
def addTokens (d : Dump) (s : Script) (place : Option Place) (tokens : List Token) : Dump :=
  let types := tokens.map (·.type)
  let d := if d.options.followFrequency then
      { d with follows := d.follows.addAll (neighbours none types) }
    else d
  let d := if d.options.tokenFrequency then { d with types := d.types.addAll types } else d
  if d.options.tokens then
    let heading := match place with
      | some place => "-------- " ++ s.name ++ " tokens(" ++ place.text ++ ")\n"
      | none => ""
    d.write (heading ++ tokenTable d.options s tokens)
  else d

/-- Counts the bytes of a chunk. -/
def addContent (d : Dump) (content : Bytes) : Dump :=
  let d := match d.options.startLength with
    | some length => { d with starts := d.starts.add (content.take length) }
    | none => d
  let d := if d.options.elementLengths then
      { d with lengths := d.lengths.add content.length }
    else d
  if d.options.dumpLength = some content.length then
    { d with contents := d.contents.add content }
  else d

/-- Enters a chunk of events into the graph. -/
def addToGraph (d : Dump) (kind : ChunkKind) (add : CallGraph → CallGraph) : Dump :=
  match kind with
  | .event => { d with graph := d.graph.map add }
  | .conversation => d

/-- Counts the last tokens in front of a failure. -/
def addPreError (d : Dump) (tokens : List Token) : Dump :=
  match d.options.preErrorLength with
  | none => d
  | some length =>
    { d with
      preError := d.preError.addAll
        ((tokens.drop (tokens.length - length)).map fun t => t.type.label) }

/-- Takes in what came of reading a chunk. Unless the dump goes on after failures, a failure is
its end. -/
def addRead (d : Dump) (s : Script) (known : DataChunks) (kind : ChunkKind) (index : Nat)
    (content : Bytes) (read : Tokenized) : Except Fault Unit × Dump :=
  let place : Place := ⟨s.name, kind == .conversation, index, none⟩
  match read.fault with
  | none =>
    let d := { d with tally := d.tally.add true content.length }
    let d := d.addTokens s (some place) read.tokens
    (.ok (), d.addToGraph kind (·.addChunk s known index read.tokens))
  | some fault =>
    let d := { d with tally := d.tally.add false content.length }
    let d := d.write ("-------- Failed to tokenize(" ++ place.text ++ "): " ++ fault.message ++
      "\n  '" ++ Text.escaped content ++ "'\n  " ++ content.hexSpaced ++ ".\n")
    if !d.options.continueOnFailure then (.error (.at place fault), d)
    else if read.tokens.isEmpty then (.ok (), d)
    else
      let d := (d.addPreError read.tokens).addTokens s none read.tokens
      (.ok (), d.addToGraph kind (·.addPartialChunk s known index read.tokens))

/-- Reads the chunks from number `index` on, as far as the dump goes. -/
def addChunks (s : Script) (kind : ChunkKind) :
    (index : Nat) → List View → DataChunks → Dump → Except Fault Unit × DataChunks × Dump
  | _, [], known, d => (.ok (), known, d)
  | index, chunk :: rest, known, d =>
    let content := chunk.bytes
    let d := d.addContent content
    let capture := d.options.raw || s.options.captureRaw
    let read := match kind with
      | .event => s.tokenizeEvent known index capture
      | .conversation => s.tokenizeConv index capture
    let known := known.extend read.targets
    match d.addRead s known kind index content read with
    | (.error fault, d) => (.error fault, known, d)
    | (.ok (), d) => addChunks s kind (index + 1) rest known d

/-- Dumps all chunks of a kind. `known` are the chunks known to hold data. -/
def addScript (d : Dump) (s : Script) (known : DataChunks) (kind : ChunkKind) :
    Except Fault Unit × DataChunks × Dump :=
  let chunks := match kind with
    | .event => s.events
    | .conversation => s.convs
  if chunks.isEmpty then (.ok (), known, d)
  else
    let d := if d.options.tokens then d.write ("-------- tokenized " ++ s.name ++ ":\n") else d
    addChunks s kind 0 chunks known d

/-- A table of numbers and what they count. -/
def frequencyTable (heading : String) (entries : List (String × Nat)) : String :=
  Text.barTable (["count", heading] :: entries.map fun (label, n) => [toString n, label])

/-- The label of a kind of token, a dash for the boundary of a chunk. -/
def typeLabel : Option TokenType → String
  | none => "-"
  | some type => type.label

/-- The place of a kind of token in a table; the boundary of a chunk comes first. -/
def typeRank : Option TokenType → Nat
  | none => 0
  | some type => type.rank + 1

/-- Which kind was followed by which, as a table with a row for the first and a column for the
second. -/
def followTable (d : Dump) : String :=
  let seen := d.follows.entries.foldl
    (fun seen (pair, _) => (seen.insert pair.1).insert pair.2) ([] : List (Option TokenType))
  let types := seen.mergeSort fun a b => decide (typeRank a ≤ typeRank b)
  Text.barTable (("p\\suc" :: types.map typeLabel) :: types.map fun first =>
    typeLabel first :: types.map fun second => toString (d.follows.count (first, second)))

/-- The tables that the options ask for, each under its heading. -/
def summary (d : Dump) (name : String) : String :=
  let o := d.options
  let part (wanted : Bool) (heading table : String) : String :=
    if wanted then "-------- " ++ heading ++ ":\n" ++ table else ""
  let labelled {κ : Type} (label : κ → String) (entries : List (κ × Nat)) : List (String × Nat) :=
    entries.map fun (key, n) => (label key, n)
  let bytesLe (a b : Bytes) : Bool := decide (a ≤ b)
  "---------------- Summary (" ++ name ++ "):\n" ++ d.tally.line ++ "\n" ++
    part o.elementLengths "Element length frequency dump"
      (frequencyTable "length"
        (labelled toString (d.lengths.ordered fun a b => decide (b ≤ a)))) ++
    part o.tokenFrequency "token frequency dump"
      (frequencyTable "type"
        (labelled TokenType.label (d.types.byNumber fun a b => decide (a.rank ≤ b.rank)))) ++
    part o.followFrequency "token follow frequency dump" d.followTable ++
    part o.startLength.isSome
      ("element start frequencies (" ++ toString (o.startLength.getD 0) ++ " bytes)")
      (frequencyTable "start" (labelled Bytes.hexSpaced (d.starts.byNumber bytesLe))) ++
    part o.dumpLength.isSome ("Elements with length " ++ toString (o.dumpLength.getD 0))
      (frequencyTable "data" (labelled Text.escaped (d.contents.byNumber bytesLe))) ++
    part o.preErrorLength.isSome "Pre-error token frequencies"
      (frequencyTable "type" (d.preError.byNumber fun a b => decide (a ≤ b)))

end Dump

end NovelScript
