import NovelScript.ActiveValue.Basic
import NovelScript.ActiveValue.Decoder
import NovelScript.ActiveValue.Evaluation
import NovelScript.ActiveValue.Printer
import NovelScript.ActiveValue.Reduction
import NovelScript.Archive
import NovelScript.Archive.Rle
import NovelScript.Bytes.Cursor
import NovelScript.Bytes.Hex
import NovelScript.Bytes.View
import NovelScript.CallGraph
import NovelScript.CallGraph.Dot
import NovelScript.Command
import NovelScript.Command.Arguments
import NovelScript.Command.Outcome
import NovelScript.Command.Places
import NovelScript.Command.Run
import NovelScript.Config
import NovelScript.Decimal.Binary64
import NovelScript.Decimal.Shortest
import NovelScript.Digest.Crc32
import NovelScript.Digest.Sha256
import NovelScript.Document
import NovelScript.Document.Json
import NovelScript.Document.Yaml
import NovelScript.Dump
import NovelScript.Dump.Counts
import NovelScript.Fault
import NovelScript.Files.Path
import NovelScript.Files.Tree
import NovelScript.Main
import NovelScript.Media.Cache
import NovelScript.Media.Kind
import NovelScript.Media.Library
import NovelScript.Opcode.Action
import NovelScript.Opcode.Path
import NovelScript.Opcode.Shape
import NovelScript.Opcode.Table
import NovelScript.Play.Actions
import NovelScript.Play.Choice
import NovelScript.Play.Interpreter
import NovelScript.Play.Player
import NovelScript.Play.Random
import NovelScript.Play.Recorder
import NovelScript.Play.State
import NovelScript.Play.Trace
import NovelScript.Proofs.ActiveValue.Codes
import NovelScript.Proofs.ActiveValue.Layers
import NovelScript.Proofs.ActiveValue.RoundTrip
import NovelScript.Proofs.Bytes.Progress
import NovelScript.Proofs.Play.Alike
import NovelScript.Proofs.Play.Calls
import NovelScript.Proofs.Play.Laws
import NovelScript.Proofs.Play.Restoring
import NovelScript.Proofs.Play.Resume
import NovelScript.Proofs.Play.Rewind
import NovelScript.Proofs.Play.Soundness
import NovelScript.Proofs.Play.Steps
import NovelScript.Proofs.Script.Chunks
import NovelScript.Proofs.Script.Progress
import NovelScript.Proofs.Script.Tiling
import NovelScript.Save.Codec
import NovelScript.Save.Data
import NovelScript.Script
import NovelScript.Script.Chunk
import NovelScript.Script.Listing
import NovelScript.Script.Operands
import NovelScript.Script.Textblocks
import NovelScript.Text.Case
import NovelScript.Text.Cased
import NovelScript.Text.Codec
import NovelScript.Text.Quoted
import NovelScript.Text.ShiftJis
import NovelScript.Text.ShiftJis.Rows
import NovelScript.Text.Table
import NovelScript.Text.Utf8
import NovelScript.Text.Width
import NovelScript.Title
import NovelScript.Title.Ever17
import NovelScript.Title.Never7
import NovelScript.Token
import NovelScript.Toml
import NovelScript.Toml.Printer
import NovelScript.Toml.Reader
import NovelScript.Toml.Scalar
import NovelScript.Proofs.Bytes.Content
import NovelScript.Proofs.Script.Layout
import NovelScript.Proofs.Save.Codec
import NovelScript.Proofs.Save.RoundTrip
import NovelScript.Proofs.Play.Keeping
import NovelScript.Proofs.Play.WellFormed
import NovelScript.Proofs.Play.Scene
import NovelScript.Proofs.Script.Faults
import NovelScript.Proofs.Play.Moves
import NovelScript.Proofs.Play.Turns
import NovelScript.Proofs.Play.Failure
import NovelScript.Proofs.Play.SavedPosition
import NovelScript.Proofs.Play.Posing
import NovelScript.Proofs.CallGraph.Edges
import NovelScript.Proofs.Play.Coverage
import NovelScript.Proofs.Text.Utf8
import NovelScript.Proofs.Script.WriteBack
import NovelScript.Proofs.Archive.Layout
import NovelScript.Proofs.Archive.WriteBack
import NovelScript.Proofs.Play.Memory
import NovelScript.Proofs.Media.Cache
import NovelScript.Proofs.Text.Escapes
import NovelScript.Proofs.Script.Operands
import NovelScript.Proofs.Play.Telling
import NovelScript.Proofs.Play.Offering
import NovelScript.Proofs.Archive.Unpacking
import NovelScript.Proofs.ActiveValue.Sources
import NovelScript.Proofs.ActiveValue.Passes
import NovelScript.Proofs.ActiveValue.Conservation
import NovelScript.Proofs.ActiveValue.Effects
import NovelScript.Proofs.ActiveValue.Reach
import NovelScript.Proofs.ActiveValue.Constants
import NovelScript.Proofs.ActiveValue.Compound
import NovelScript.Proofs.Script.Blocks
import NovelScript.Proofs.Script.Grouping
import NovelScript.Proofs.Play.Writing
import NovelScript.Proofs.Play.CharacterSlots
import NovelScript.Proofs.Play.Answering
import NovelScript.Proofs.Digest.Crc32
import NovelScript.Proofs.Save.Damage
import NovelScript.Proofs.Archive.Stopping
import NovelScript.Proofs.CallGraph.DataChunks
import NovelScript.Proofs.Dump.Counts
import NovelScript.Proofs.Dump.Balance
import NovelScript.Proofs.CallGraph.Order
import NovelScript.Proofs.CallGraph.Reachability
import NovelScript.Proofs.CallGraph.Drawing
import NovelScript.Proofs.Opcode.Tables
import NovelScript.Proofs.Media.Eviction
import NovelScript.Proofs.ActiveValue.Integers
import NovelScript.Proofs.Bytes.Windows
import NovelScript.Proofs.Bytes.Bounds
import NovelScript.Proofs.Files.Paths
import NovelScript.Proofs.Media.Inside
import NovelScript.Proofs.Files.Confinement
