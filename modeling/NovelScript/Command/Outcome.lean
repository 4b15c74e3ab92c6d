import NovelScript.Command.Arguments
import NovelScript.Command.Run

/-! # Outcomes of command lines -/

namespace NovelScript

/-- The exit code of a command line, what it prints, and the files as it leaves them. -/
structure Outcome where
  code : Nat
  printed : String
  tree : FileTree
deriving DecidableEq, Repr

/-- Runs a command line in a folder of a tree of files. The code is zero for success, two for words
that stand for no command, and one for a command that fails, unless it leaves a code of its own.
`drawn` is the seed if none is given. -/
def Outcome.ofWords (words : List String) (folder : Path) (tree : FileTree) (drawn : UInt64) :
    Outcome :=
  match Arguments.parse words with
  | .error .help => ⟨0, "", tree⟩
  | .error .usage => ⟨2, "", tree⟩
  | .ok invocation =>
    match invocation.run drawn ⟨"", folder, tree, 1⟩ with
    | (some (), w) => ⟨0, w.printed, w.tree⟩
    | (none, w) => ⟨w.code, w.printed, w.tree⟩

end NovelScript
