import NovelScript.Dump
import NovelScript.Files.Tree
import NovelScript.Media.Library
import NovelScript.Play.Player
import NovelScript.Toml.Printer
import NovelScript.Toml.Reader

/-! # Configuration

The settings for playing, dumping and caching, and the TOML form in which they are kept. Every
setting that a file leaves out has a default. -/

namespace NovelScript

/-- All settings. -/
structure Config where
  runtime : RuntimeOptions
  dump : DumpOptions
  cacheBudget : Nat
deriving DecidableEq, Repr

def Config.default : Config := ⟨.default, .default, defaultCacheBudget⟩

namespace Setting

/-- The values of a section by name. A list gives them in the order of `names`; a date has none. -/
def section? (names : List String) : Option Toml → Option (String → Option Toml)
  | none => some fun _ => none
  | some (.table _ entries) => some fun name => entries.lookup name
  | some (.array items) => some fun name => (names.zip items).lookup name
  | some (.tables items) =>
    some fun name => (names.zip (items.reverse.map (Toml.table .header))).lookup name
  | some .moment => some fun _ => none
  | some _ => none

/-- A flag, or its default. -/
def flag? (fallback : Bool) : Option Toml → Option Bool
  | none => some fallback
  | some (.bool value) => some value
  | some _ => none

/-- A number of 64 bits without a sign, if there is one. -/
def size? : Option Toml → Option (Option Nat)
  | none => some none
  | some (.int value) => if 0 ≤ value ∧ value < UInt64.size then some (some value.toNat) else none
  | some _ => none

/-- A text, if there is one. -/
def text? : Option Toml → Option (Option String)
  | none => some none
  | some (.text value) => some (some value)
  | some _ => none

/-- The title of its name. -/
def titleOf? (name : String) : Option Title :=
  [Title.ever17, Title.never7].find? fun title => title.name == name

/-- A title, or the first one. It is given by its name, or by an empty table of that name. -/
def title? : Option Toml → Option Title
  | none => some .ever17
  | some (.text name) => titleOf? name
  | some (.table _ [(name, .table _ [])]) => titleOf? name
  | some _ => none

def parse? (value : Option Toml) : Option ParseOptions := do
  let get ← section? ["alignment_heuristic", "capture_raw"] value
  let alignment ← flag? ParseOptions.default.alignmentHeuristic (get "alignment_heuristic")
  let capture ← flag? ParseOptions.default.captureRaw (get "capture_raw")
  return ⟨alignment, capture⟩

def runtime? (value : Option Toml) : Option RuntimeOptions := do
  let get ← section? ["game", "start_script", "continue_on_error", "seed", "parse"] value
  let title ← title? (get "game")
  let start ← text? (get "start_script")
  let lenient ← flag? RuntimeOptions.default.continueOnError (get "continue_on_error")
  let seed ← size? (get "seed")
  let parse ← parse? (get "parse")
  return ⟨title, start, lenient, seed.map UInt64.ofNat, parse⟩

/-- The names of the settings of dumps. -/
def dumpNames : List String :=
  ["dump_tokens", "raw", "offsets", "color", "token_frequency", "follow_frequency",
   "element_lengths", "element_start_len", "pre_error_len", "dump_length", "continue_on_failure",
   "callgraph"]

def dump? (value : Option Toml) : Option DumpOptions := do
  let get ← section? dumpNames value
  return {
    tokens := ← flag? false (get "dump_tokens")
    raw := ← flag? false (get "raw")
    offsets := ← flag? false (get "offsets")
    colour := ← flag? false (get "color")
    tokenFrequency := ← flag? false (get "token_frequency")
    followFrequency := ← flag? false (get "follow_frequency")
    elementLengths := ← flag? false (get "element_lengths")
    startLength := ← size? (get "element_start_len")
    preErrorLength := ← size? (get "pre_error_len")
    dumpLength := ← size? (get "dump_length")
    continueOnFailure := ← flag? false (get "continue_on_failure")
    callGraph := ← flag? false (get "callgraph") }

end Setting

/-- Why a configuration file cannot be used. -/
inductive ConfigFault where
  | notFound
  | unreadable
  | invalid (fault : Fault)
deriving DecidableEq, Repr

namespace Config

open Setting

/-- The settings of a document. -/
def ofToml? (value : Toml) : Option Config := do
  let get ← section? ["runtime", "format", "media"] (some value)
  let runtime ← runtime? (get "runtime")
  let dump ← dump? (get "format")
  let media ← section? ["cache_budget"] (get "media")
  let budget ← size? (media "cache_budget")
  return ⟨runtime, dump, budget.getD defaultCacheBudget⟩

/-- The settings of a text. -/
def ofText (text : String) : Except Fault Config :=
  match (Toml.ofText? text).bind ofToml? with
  | some config => .ok config
  | none => .error .serialization

/-- An entry for a value that may be missing. -/
def optional {α : Type} (key : String) (f : α → Toml) : Option α → Toml.Entries
  | none => []
  | some value => [(key, f value)]

/-- The settings by section. -/
def sections (c : Config) : List (String × Toml.Entries) :=
  let size (key : String) (value : Option Nat) : Toml.Entries :=
    optional key (fun (n : Nat) => .int n) value
  [("runtime",
      [("game", .text c.runtime.title.name)] ++
      optional "start_script" .text c.runtime.startScript ++
      [("continue_on_error", .bool c.runtime.continueOnError)] ++
      size "seed" (c.runtime.seed.map (·.toNat))),
   ("runtime.parse",
      [("alignment_heuristic", .bool c.runtime.parse.alignmentHeuristic),
       ("capture_raw", .bool c.runtime.parse.captureRaw)]),
   ("format",
      [("dump_tokens", .bool c.dump.tokens), ("raw", .bool c.dump.raw),
       ("offsets", .bool c.dump.offsets), ("color", .bool c.dump.colour),
       ("token_frequency", .bool c.dump.tokenFrequency),
       ("follow_frequency", .bool c.dump.followFrequency),
       ("element_lengths", .bool c.dump.elementLengths)] ++
      size "element_start_len" c.dump.startLength ++
      size "pre_error_len" c.dump.preErrorLength ++
      size "dump_length" c.dump.dumpLength ++
      [("continue_on_failure", .bool c.dump.continueOnFailure),
       ("callgraph", .bool c.dump.callGraph)]),
   ("media", [("cache_budget", .int c.cacheBudget)])]

/-- The settings as a text. Numbers that TOML has no form for cannot be written. -/
def toText (c : Config) : Except Fault String :=
  match Toml.writeSections? c.sections with
  | some text => .ok text
  | none => .error .serialization

/-- The settings of a file that a path leads to from a folder. -/
def load (tree : FileTree) (folder : Path) (path : String) : Except ConfigFault Config :=
  match tree.resolve? folder path with
  | none => .error .notFound
  | some resolved =>
    match tree.read? resolved with
    | none => .error (if tree.isFolder resolved then .unreadable else .notFound)
    | some content =>
      match Text.ofUtf8? content with
      | none => .error .unreadable
      | some text => (ofText text).mapError .invalid

end Config

end NovelScript
