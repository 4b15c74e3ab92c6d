import NovelScript.Title

/-! # Commands

What the command line asks for. -/

namespace NovelScript

/-- What to dump and how. -/
structure DumpCommand where
  files : List String
  events : Bool
  convs : Bool
  tokens : Bool
  raw : Bool
  offsets : Bool
  colour : Bool
  tokenFrequency : Bool
  followFrequency : Bool
  elementLengths : Bool
  startLength : Option Nat
  preErrorLength : Option Nat
  dumpLength : Option Nat
  continueOnFailure : Bool
  /-- Where to write the call graph. -/
  callGraph : Option String
  /-- Write each script file back. -/
  writeBack : Bool
  writeBackFolder : String
  /-- The inputs are archives. -/
  archives : Bool
  title : Option Title
  output : Option String
deriving DecidableEq, Repr

/-- What to play and how. -/
structure PlayCommand where
  folder : String
  archives : Bool
  steps : Nat
  seed : Option UInt64
  start : Option String
  title : Option Title
  strict : Bool
  output : Option String
  /-- Where to save the last position. -/
  save : Option String
deriving DecidableEq, Repr

/-- A command. -/
inductive Command where
  | dump (command : DumpCommand)
  | play (command : PlayCommand)
  /-- Lists an archive, or extracts its files into a folder. -/
  | archive (path : String) (extract : Option String)
  /-- Checks that a save belongs to a script file. -/
  | verifySave (save script : String)
deriving DecidableEq, Repr

/-- A command and the configuration file it runs with. -/
structure Invocation where
  config : Option String
  command : Command
deriving DecidableEq, Repr

end NovelScript
