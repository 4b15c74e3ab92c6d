import NovelScript.Files.Tree
import NovelScript.Media.Cache
import NovelScript.Media.Kind

/-! # Media libraries

The media of a title below a folder. They lie as single files in one folder for each kind, or in
one archive for each kind; movies are always single files. -/

namespace NovelScript

/-- How the media of a title are kept. -/
inductive Holding where
  | folders
  /-- In archives, of which those that were needed so far are open. -/
  | archives (opened : List (MediaKind × Archive))
deriving DecidableEq, Repr

/-- The media of a title below a folder of a tree. -/
structure MediaLibrary where
  tree : FileTree
  root : Path
  title : Title
  holding : Holding
  cache : ByteCache
deriving DecidableEq, Repr

/-- The number of bytes that are cached unless something else is asked for. -/
def defaultCacheBudget : Nat := 64 * 1024 * 1024

/-- Two names that differ in the case of ASCII letters only, a backslash being as good as a
slash. -/
def sameFileName (a b : String) : Bool :=
  let plain (text : String) : String := text.map fun c => if c = '\\' then '/' else c
  Text.equalIgnoringAsciiCase (plain a) (plain b)

namespace FileTree

/-- The file of a name in a folder: the very one, or else one at the same depth whose name differs
in case only. -/
def find (t : FileTree) (folder : Path) (name : String) : Except AssetFault (Option Bytes) := do
  let path ← Path.sanitize name
  match t.read? (folder ++ path) with
  | some content => return some content
  | none =>
    return ((t.below folder).find? fun (inner, _) =>
      inner.length == path.length && sameFileName (Path.text inner) (Path.text path)).map (·.2)

/-- The first file right in a folder whose name without extension is `name`, case apart. -/
def findMovie (t : FileTree) (folder : Path) (name : String) :
    Except AssetFault (Option Bytes) := do
  let wanted := Text.lower (Path.text (← Path.sanitize name))
  return (t.below folder).findSome? fun
    | ([file], content) =>
      if Text.lower (Path.splitExtension file).1 = wanted then some content else none
    | _ => none

end FileTree

namespace MediaLibrary

/-- A library over single files. -/
def ofFolders (tree : FileTree) (root : Path) (title : Title) (budget : Nat) : MediaLibrary :=
  ⟨tree, root, title, .folders, .empty budget⟩

/-- A library over archives. -/
def ofArchives (tree : FileTree) (root : Path) (title : Title) (budget : Nat) : MediaLibrary :=
  ⟨tree, root, title, .archives [], .empty budget⟩

/-- The library of an installed title: over archives if there is one for scripts. -/
def ofInstalled (tree : FileTree) (root : Path) (title : Title) (budget : Nat) : MediaLibrary :=
  if ["script.dat", "SCRIPT.DAT"].any fun name => tree.isFile (root ++ [name]) then
    ofArchives tree root title budget
  else ofFolders tree root title budget

/-- The fault of a name without media. -/
def missing (kind : MediaKind) (name : String) : AssetFault := .missing kind.label name

/-- Reads the archive of a kind. -/
def readArchive (m : MediaLibrary) (kind : MediaKind) : Except AssetFault Archive := do
  let file := kind.archive m.title ++ ".dat"
  match ← m.tree.find m.root file with
  | none => .error (.missing "archive" file)
  | some content => Archive.parse (.ofBytes content)

/-- The archive of a kind, which stays open once it could be read. -/
def archive (m : MediaLibrary) (kind : MediaKind) : Except AssetFault Archive × MediaLibrary :=
  let opened := match m.holding with
    | .folders => []
    | .archives opened => opened
  match opened.lookup kind with
  | some archive => (.ok archive, m)
  | none =>
    match m.readArchive kind with
    | .error fault => (.error fault, m)
    | .ok archive => (.ok archive, { m with holding := .archives ((kind, archive) :: opened) })

/-- Reads a single file. -/
def readFile (m : MediaLibrary) (kind : MediaKind) (name : String) : Except AssetFault View := do
  let folder := m.root ++ [kind.archive m.title]
  let found ← match kind with
    | .movie => m.tree.findMovie folder name
    | _ => m.tree.find folder (kind.fileName name)
  match found with
  | some content => return .ofBytes content
  | none => .error (missing kind name)

/-- Reads a file of an archive. -/
def readEntry (m : MediaLibrary) (kind : MediaKind) (name : String) :
    Except AssetFault View × MediaLibrary :=
  match m.archive kind with
  | (.error fault, m) => (.error fault, m)
  | (.ok archive, m) =>
    match archive.find? (kind.fileName name) with
    | some entry => (archive.content entry, m)
    | none => (.error (missing kind name), m)

/-- Reads media past the cache. -/
def readThrough (m : MediaLibrary) (kind : MediaKind) (name : String) :
    Except AssetFault View × MediaLibrary :=
  match m.holding, kind with
  | .folders, _ | .archives _, .movie => (m.readFile kind name, m)
  | .archives _, _ => m.readEntry kind name

/-- The name under which media are cached. -/
def cacheName (m : MediaLibrary) (kind : MediaKind) (name : String) : String :=
  kind.archive m.title ++ "/" ++ Text.lower name

/-- Loads media from the cache, or else reads them. -/
def load (m : MediaLibrary) (kind : MediaKind) (name : String) :
    Except AssetFault View × MediaLibrary :=
  let key := m.cacheName kind name
  match m.cache.get? key with
  | (some view, cache) => (.ok view, { m with cache := cache })
  | (none, cache) =>
    match { m with cache := cache }.readThrough kind name with
    | (.error fault, m) => (.error fault, m)
    | (.ok view, m) => (.ok view, { m with cache := m.cache.insert key view })

end MediaLibrary

instance : MediaSource MediaLibrary where
  load library kind name :=
    match library.load kind name with
    | (.ok view, library) => (.ok view, library)
    | (.error fault, library) => (.error fault.toFault, library)

end NovelScript
