import NovelScript.CallGraph.Dot
import NovelScript.Command
import NovelScript.Config
import NovelScript.Document.Yaml
import NovelScript.Play.Trace
import NovelScript.Save.Data

/-! # Running commands

Commands over a tree of files: what they print, the files they write, and whether they succeed. What
was printed and written before a failure stays. -/

namespace NovelScript

/-- A text with blanks behind it up to a number of characters. -/
def padEnd (width : Nat) (text : String) : String := text.pushn ' ' (width - text.length)

/-- A text with blanks in front of it up to a number of characters. -/
def padStart (width : Nat) (text : String) : String :=
  "".pushn ' ' (width - text.length) ++ text

/-- What a command has printed, the folder in which it runs, the files, and the exit code in case that
it fails. -/
structure Workspace where
  printed : String
  folder : Path
  tree : FileTree
  code : Nat
deriving DecidableEq, Repr

/-- A part of a command. What it has done before it fails stays done. -/
abbrev Work := OptionT (StateM Workspace)

namespace Work

/-- Gives up. -/
def stop {α : Type} : Work α := fun w => (none, w)

/-- A result, or the end of the command. -/
def ofOption {α : Type} (result : Option α) : Work α := fun w => (result, w)

/-- Gives up with an exit code. -/
def stopWith {α : Type} (code : Nat) : Work α := fun w => (none, { w with code := code })

/-- A result, or the end of the command. -/
def ofExcept {ε α : Type} (result : Except ε α) : Work α := ofOption result.toOption

def tree : Work FileTree := fun w => (some w.tree, w)

def print (text : String) : Work Unit :=
  fun w => (some (), { w with printed := w.printed ++ text })

/-- Changes the files, if they can be changed so. -/
def updateTree (f : FileTree → Option FileTree) : Work Unit := fun w =>
  match f w.tree with
  | some tree => (some (), { w with tree := tree })
  | none => (none, w)

/-- The path that a text leads to. -/
def resolve (text : String) : Work Path :=
  fun w => (w.tree.resolve? w.folder text, w)

/-- The content of a file. -/
def readFile (path : String) : Work Bytes := do
  let resolved ← resolve path
  ofOption ((← tree).read? resolved)

/-- Writes a file. -/
def writeFile (path : String) (content : Bytes) : Work Unit := do
  let resolved ← resolve path
  updateTree (·.write? resolved content)

/-- Makes a folder and those around it. -/
def makeFolder (path : String) : Work Unit := do
  let resolved ← resolve path
  updateTree (·.makeFolder? resolved)

/-- What a part of a command gives, if it does not fail. Its effects stay in both cases. -/
def attempt {α : Type} (work : Work α) : Work (Option α) := fun w =>
  let (result, w) := work w
  (some result, w)

end Work

namespace DumpCommand

open Work

/-- The settings of a dump: what the configuration or the command asks for. -/
def options (c : DumpCommand) (base : DumpOptions) : DumpOptions where
  tokens := base.tokens || c.tokens
  raw := base.raw || c.raw
  offsets := base.offsets || c.offsets
  colour := base.colour || c.colour
  tokenFrequency := base.tokenFrequency || c.tokenFrequency
  followFrequency := base.followFrequency || c.followFrequency
  elementLengths := base.elementLengths || c.elementLengths
  startLength := c.startLength.or base.startLength
  preErrorLength := c.preErrorLength.or base.preErrorLength
  dumpLength := c.dumpLength.or base.dumpLength
  continueOnFailure := base.continueOnFailure || c.continueOnFailure
  callGraph := base.callGraph || c.callGraph.isSome

/-- The files that an input stands for: itself, or all files of a kind below a folder. -/
def filesOf (extension input : String) : Work (List (String × Bytes)) := do
  let resolved ← resolve input
  let t ← tree
  if t.isFolder resolved then
    return ((t.below resolved).map fun (path, content) => (Path.text path, content)).filter
      fun (path, _) => Path.hasExtension extension path
  else return [(input, ← ofOption (t.read? resolved))]

/-- The scripts of an archive. -/
def scriptsOf (content : Bytes) : Except AssetFault (List (String × View)) := do
  let archive ← Archive.parse (.ofBytes content)
  (archive.entries.filter fun entry => Path.hasExtension "scr" entry.name).mapM fun entry => do
    return (Text.lower entry.name, ← archive.content entry)

/-- The scripts to dump, by name. -/
def sources (c : DumpCommand) : Work (List (String × View)) := do
  let files ← c.files.mapM (filesOf (if c.archives then "dat" else "scr"))
  if c.archives then
    return (← files.flatten.mapM fun (_, content) => ofExcept (scriptsOf content)).flatten
  else
    return files.flatten.map fun (path, content) =>
      (Text.lower ((Path.fileName? path).getD ""), .ofBytes content)

/-- The dumps in progress: of events and of conversations, as far as they are asked for. -/
structure Dumps where
  events : Option Dump
  convs : Option Dump

/-- Dumps the chunks of a kind, if they are asked for, and prints what comes of it. -/
def dumpChunks (s : Script) (known : DataChunks) (kind : ChunkKind) :
    Option Dump → Work (Except Fault DataChunks × Option Dump)
  | none => pure (.ok known, none)
  | some d => do
    let (result, known, d) := d.addScript s known kind
    let (output, d) := d.takeOutput
    print output
    return (result.map fun _ => known, some d)

/-- Writes a script file back. -/
def writeBackScript (c : DumpCommand) (name : String) (s : Script) : Work Unit := do
  let path := Path.join c.writeBackFolder (name ++ ".rewrite")
  print ("----->>> " ++ path ++ "\n")
  writeFile path (← ofExcept s.write)

/-- Dumps one script. -/
def dumpScript (c : DumpCommand) (title : Title) (parse : ParseOptions) (width : Nat)
    (name : String) (view : View) (dumps : Dumps) : Work (Bool × Dumps) := do
  match Script.parse view name title parse with
  | .error _ => return (false, dumps)
  | .ok s =>
    let count {α : Type} (list : List α) : String := padStart 4 (toString list.length)
    print ("---------------- Parsed " ++ padEnd width name ++ ": " ++ count s.events ++ " " ++
      count s.convs ++ " " ++ count s.filenames ++ "\n")
    let (result, events) ← dumpChunks s [] .event dumps.events
    match result with
    | .error _ => return (false, { dumps with events := events })
    | .ok known =>
      let (result, convs) ← dumpChunks s known .conversation dumps.convs
      let dumps : Dumps := ⟨events, convs⟩
      match result with
      | .error _ => return (false, dumps)
      | .ok _ =>
        if c.writeBack then
          return ((← attempt (c.writeBackScript name s)).isSome, dumps)
        else return (true, dumps)

/-- Dumps scripts one after the other, and tells whether all of them went well. -/
def dumpScripts (c : DumpCommand) (title : Title) (parse : ParseOptions) (width : Nat) :
    List (String × View) → Dumps → Work (Bool × Dumps)
  | [], dumps => pure (true, dumps)
  | (name, view) :: rest, dumps => do
    let (success, dumps) ← c.dumpScript title parse width name view dumps
    let (others, dumps) ← c.dumpScripts title parse width rest dumps
    return (success && others, dumps)

/-- Dumps all inputs. -/
def dumpAll (c : DumpCommand) (config : Config) : Work Unit := do
  let options := c.options config.dump
  let parse := { config.runtime.parse with
    captureRaw := config.runtime.parse.captureRaw || c.raw }
  let dumps : Dumps :=
    ⟨if c.events || !c.convs then some (.new options) else none,
      if c.convs then some (.new { options with callGraph := false }) else none⟩
  let sources ← c.sources
  let width := (sources.map fun (name, _) => name.utf8ByteSize).foldl max 0
  let (success, dumps) ←
    c.dumpScripts (c.title.getD config.runtime.title) parse width sources dumps
  match dumps.events with
  | none => pure ()
  | some d =>
    print (d.summary "Script data")
    match c.callGraph, d.graph with
    | some path, some graph => writeFile path (Text.utf8 graph.toDot)
    | _, _ => pure ()
  match dumps.convs with
  | none => pure ()
  | some d => print (d.summary "conv-like data")
  if success then pure () else stop

/-- Runs the part of a command that prints, and puts what it prints into a file. -/
def intoFile (path : String) (work : Work Unit) : Work Unit := do
  writeFile path []
  let before := (← get).printed
  modify fun w => { w with printed := "" }
  let result ← attempt work
  let output := (← get).printed
  modify fun w => { w with printed := before }
  writeFile path (Text.utf8 output)
  ofOption result

def run (c : DumpCommand) (config : Config) : Work Unit :=
  match c.output with
  | some path => intoFile path (c.dumpAll config)
  | none => c.dumpAll config

end DumpCommand

namespace PlayCommand

open Work

/-- The version of the form in which traces are written. -/
def traceVersion : Nat := 1

/-- The number of tokens that may be played between two yields. -/
def tokenBudget : Nat := 1000000

/-- How the player is set up. `drawn` is the seed if none is given. -/
def options (c : PlayCommand) (config : Config) (drawn : UInt64) : RuntimeOptions where
  title := c.title.getD config.runtime.title
  startScript := c.start.or config.runtime.startScript
  continueOnError := config.runtime.continueOnError && !c.strict
  seed := some ((c.seed.or config.runtime.seed).getD drawn)
  parse := config.runtime.parse

/-- A trace with what was played. -/
def envelope (o : RuntimeOptions) (trace : Trace) : Document :=
  .object [("trace_format_version", .int traceVersion), ("game", .text o.title.name),
    ("start_script", .text o.start), ("trace", trace.document)]

/-- The media that are played. -/
def library (c : PlayCommand) (o : RuntimeOptions) (budget : Nat) : Work MediaLibrary := do
  let root ← resolve c.folder
  let t ← tree
  return if c.archives then .ofArchives t root o.title budget else .ofFolders t root o.title budget

/-- The folder of an output file. -/
def outputFolder (path : String) : Option String :=
  match (Path.parts path).dropLast with
  | [] => none
  | parts => some ((if Path.isAbsolute path then "/" else "") ++ Path.text parts)

/-- The exit code of a program that ends on the spot. -/
def brokenCode : Nat := 101

/-- What was played, or the end of the command. -/
def ofPlaying {α : Type} (result : Except Fault α) : Work α :=
  match result with
  | .ok a => pure a
  | .error fault => if fault.root = .overflow then stopWith brokenCode else stop

/-- Plays and records, and writes the trace. -/
def run (c : PlayCommand) (config : Config) (drawn : UInt64) : Work Unit := do
  let o := c.options config drawn
  let media ← c.library o config.cacheBudget
  let player ← ofExcept (Player.new media (.new .first) o).1
  let (result, player) := (Play.record tokenBudget c.steps).runOn player
  let trace ← ofPlaying result
  match c.save with
  | none => pure ()
  | some path =>
    let save : SaveData := ⟨player.script.id, player.state, player.backlog.length⟩
    writeFile path (← ofExcept save.toBinary)
  let yaml := (envelope o trace).toYaml
  match c.output with
  | none => print yaml
  | some path =>
    match outputFolder path with
    | none => pure ()
    | some folder => makeFolder folder
    writeFile path (Text.utf8 yaml)

end PlayCommand

namespace Command

open Work

/-- The line of a file in the list of an archive. -/
def entryLine (entry : ArchiveEntry) : String :=
  padEnd 24 entry.name ++ " " ++ padStart 10 (hexNat entry.offset) ++ " " ++
    padStart 10 (toString entry.length) ++ " " ++ (if entry.compressed then "lnd" else "-") ++ "\n"

/-- Writes the files of an archive into a folder. No file can get outside of it. -/
def extract (archive : Archive) (folder : String) : Work Unit := do
  makeFolder folder
  let root ← resolve folder
  archive.entries.forM fun entry => do
    let path ← ofExcept (Path.sanitize entry.name)
    let content ← ofExcept (archive.content entry)
    updateTree fun t => t.write? (root ++ path) content.bytes

/-- Lists or extracts an archive. -/
def runArchive (path : String) (folder : Option String) : Work Unit := do
  let archive ← ofExcept (Archive.parse (.ofBytes (← readFile path)))
  match folder with
  | none => print (String.join (archive.entries.map entryLine))
  | some folder => extract archive folder

/-- Checks that a save belongs to a script file. -/
def runVerify (savePath scriptPath : String) (config : Config) : Work Unit := do
  let save ← ofExcept (SaveData.ofBinary (← readFile savePath))
  let content ← readFile scriptPath
  let name := Text.lower ((Path.fileName? scriptPath).getD "")
  let script ← ofExcept
    (Script.parse (.ofBytes content) name config.runtime.title config.runtime.parse)
  ofExcept (save.checkScript script.id)
  print ("save matches " ++ script.name ++ "\n")

/-- Runs a command. `drawn` is the seed of a player if none is given. -/
def run (command : Command) (config : Config) (drawn : UInt64) : Work Unit :=
  match command with
  | .dump c => c.run config
  | .play c => c.run config drawn
  | .archive path folder => runArchive path folder
  | .verifySave save script => runVerify save script config

end Command

namespace Invocation

open Work

/-- Loads the configuration and runs the command. -/
def run (i : Invocation) (drawn : UInt64) : Work Unit := do
  let config ← match i.config with
    | some path =>
      let w ← get
      ofExcept (Config.load w.tree w.folder path)
    | none => pure .default
  i.command.run config drawn

end Invocation

end NovelScript
