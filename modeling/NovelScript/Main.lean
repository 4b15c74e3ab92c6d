import NovelScript.Command.Outcome
import NovelScript.Command.Places

/-! # The command line

Takes the files that a command needs from the disk, runs the command on them, and puts what it has
written back. -/

namespace NovelScript

/-- Whether a place on the disk is a folder; none if there is nothing. -/
def folderAt? (place : String) : IO (Option Bool) := do
  try
    let found ← IO.FS.realPath place
    if ← found.pathExists then return some (← found.isDir) else return none
  catch _ => return none

/-- The place of a path on the disk. -/
def placeOf (path : Path) : String := "/" ++ path.text

/-- The tree with a file of the disk, or with a folder and all that is below it. -/
partial def readInto (tree : FileTree) (path : Path) : IO FileTree := do
  match ← folderAt? (placeOf path) with
  | none => return tree
  | some false => return tree.insert path (← IO.FS.readBinFile (placeOf path)).toList
  | some true =>
    let entries ← (← IO.FS.realPath (placeOf path)).readDir
    entries.foldlM (fun tree entry => readInto tree (path ++ [entry.fileName]))
      { tree with folders := path :: tree.folders }

/-- The tree with the folder around a path, and the path itself if it is a folder or a file. -/
def noteTarget (tree : FileTree) (path : Path) : IO FileTree := do
  let mut tree := tree
  if (← folderAt? (placeOf path.folder)) == some true then
    tree := { tree with folders := path.folder :: tree.folders }
  match ← folderAt? (placeOf path) with
  | none => return tree
  | some true => return { tree with folders := path :: tree.folders }
  | some false => return tree.insert path (← IO.FS.readBinFile (placeOf path)).toList

/-- The files that a command line needs. -/
def gather (words : List String) (folder : Path) : IO FileTree := do
  match Arguments.parse words with
  | .error _ => return .empty
  | .ok invocation =>
    let reads := invocation.config.toList ++ invocation.command.reads
    let tree ← reads.foldlM (fun tree text => readInto tree (Path.locate folder text))
      { FileTree.empty with folders := [folder] }
    invocation.command.writes.foldlM (fun tree text => noteTarget tree (Path.locate folder text))
      tree

/-- Writes the folders and files that a command has made or changed. -/
def putBack (before after : FileTree) : IO Unit := do
  for made in after.folders do
    if !before.folders.contains made then IO.FS.createDirAll (placeOf made)
  for (path, content) in before.changes after do
    IO.FS.writeBinFile (placeOf path) ⟨content.toArray⟩

/-- What is printed for words that stand for no command. -/
def usageText : String :=
  "usage: sc3 [-q] [-v] [--config PATH] <dump|play|lnk|verify-save> ..."

/-- Runs the command that the words stand for. -/
def runWords (words : List String) : IO UInt32 := do
  let folder := Path.parts (← IO.currentDir).toString
  let before ← gather words folder
  let drawn ← IO.rand 0 (UInt64.size - 1)
  let outcome := Outcome.ofWords words folder before (UInt64.ofNat drawn)
  match Arguments.parse words with
  | .error .help => IO.println usageText
  | .error .usage => IO.eprintln usageText
  | .ok _ => pure ()
  IO.print outcome.printed
  putBack before outcome.tree
  if outcome.code = 1 then IO.eprintln "error: the command failed"
  return UInt32.ofNat outcome.code

end NovelScript

def main (words : List String) : IO UInt32 := NovelScript.runWords words
