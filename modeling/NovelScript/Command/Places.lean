import NovelScript.Command
import NovelScript.Files.Path

/-! # Places that commands touch

Which files and folders a command reads, and which ones it writes to. -/

namespace NovelScript

/-- The path that a text leads to from a folder, if all folders on the way are there. -/
def Path.locate (folder : Path) (text : String) : Path :=
  (Path.parts text).foldl
    (fun reached part => if part = Path.parent then reached.dropLast else reached ++ [part])
    (if Path.isAbsolute text then [] else folder)

namespace Command

/-- The files and folders that a command reads with all that is in them. -/
def reads : Command → List String
  | .dump c => c.files
  | .play c => [c.folder]
  | .archive path extract => path :: extract.toList
  | .verifySave save script => [save, script]

/-- The files that a command may write, and folders that it writes files into. -/
def writes : Command → List String
  | .dump c =>
    c.output.toList ++ c.callGraph.toList ++
      if c.writeBack then [Path.join c.writeBackFolder "script"] else []
  | .play c => c.output.toList ++ c.save.toList
  | .archive _ extract => extract.toList
  | .verifySave _ _ => []

end Command

end NovelScript
