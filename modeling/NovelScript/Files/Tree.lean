import NovelScript.Files.Path

/-! # Trees of files

The files below a folder, by their paths. -/

namespace NovelScript

/-- Files in ascending order of their paths, and folders that are there without a file. -/
structure FileTree where
  files : List (Path × Bytes)
  folders : List Path
deriving DecidableEq, Repr

namespace FileTree

/-- The tree without a file. -/
def empty : FileTree := ⟨[], []⟩

/-- Puts a file into an ordered list, in place of one with the same path. -/
def insertInto (path : Path) (content : Bytes) : List (Path × Bytes) → List (Path × Bytes)
  | [] => [(path, content)]
  | (other, bytes) :: rest =>
    if path < other then (path, content) :: (other, bytes) :: rest
    else if path = other then (path, content) :: rest
    else (other, bytes) :: insertInto path content rest

/-- The tree with a file. -/
def insert (t : FileTree) (path : Path) (content : Bytes) : FileTree :=
  { t with files := insertInto path content t.files }

/-- The tree without a file. -/
def erase (t : FileTree) (path : Path) : FileTree :=
  { t with files := t.files.filter fun file => file.1 != path }

/-- The content of a file. -/
def read? (t : FileTree) (path : Path) : Option Bytes := t.files.lookup path

def isFile (t : FileTree) (path : Path) : Bool := (t.read? path).isSome

/-- Whether a path leads to a folder: the outermost one, one that was made, or one with a file
somewhere below it. -/
def isFolder (t : FileTree) (path : Path) : Bool :=
  path.isEmpty || (t.folders.any fun folder => path.isPrefixOf folder) ||
    t.files.any fun file => path.isPrefixOf file.1 && file.1 != path

/-- The files in and below a folder, by their paths from there. A path that leads to a file gives
that file with no path left. -/
def below (t : FileTree) (folder : Path) : List (Path × Bytes) :=
  t.files.filterMap fun (path, content) =>
    if folder.isPrefixOf path then some (path.drop folder.length, content) else none

/-- The tree with a file written into a folder that is there. -/
def write? (t : FileTree) (path : Path) (content : Bytes) : Option FileTree :=
  if path.isEmpty || t.isFolder path || !t.isFolder (Path.folder path) then none
  else some (t.insert path content)

/-- The tree with a folder, and the folders around it. -/
def makeFolder? (t : FileTree) (path : Path) : Option FileTree :=
  if (List.range (path.length + 1)).any fun n => t.isFile (path.take n) then none
  else some { t with folders := path :: t.folders }

/-- The path that parts lead to from one that is reached. Two dots need the folder that they
leave. -/
def resolveParts (t : FileTree) : (reached : Path) → List String → Option Path
  | reached, [] => some reached
  | reached, part :: rest =>
    if part = Path.parent then
      if t.isFolder reached then resolveParts t reached.dropLast rest else none
    else resolveParts t (reached ++ [part]) rest

/-- The path that a text leads to from a folder. A slash or a dot at its end needs a folder. -/
def resolve? (t : FileTree) (folder : Path) (text : String) : Option Path :=
  match t.resolveParts (if Path.isAbsolute text then [] else folder) (Path.parts text) with
  | none => none
  | some path =>
    let last := ((Path.segments text.toList).getLast?.map String.ofList).getD ""
    if Path.isIdle last && t.isFile path then none else some path

/-- The files of `t` that are not in `before` or differ from it. -/
def changes (before t : FileTree) : List (Path × Bytes) :=
  t.files.filter fun (path, content) => before.read? path != some content

end FileTree

end NovelScript
