import NovelScript.Archive

/-! # Paths

Paths are texts with slashes between their parts. Empty parts and single dots stand for nothing, two
dots for the folder above. -/

namespace NovelScript

/-- The parts of a path, from the outermost folder to the file. -/
abbrev Path := List String

namespace Path

/-- The stretches between the slashes of a text. -/
def segments : List Char → List (List Char)
  | [] => [[]]
  | c :: rest =>
    if c = '/' then [] :: segments rest
    else
      match segments rest with
      | [] => [[c]]
      | first :: others => (c :: first) :: others

/-- Whether a part stands for nothing. -/
def isIdle (part : String) : Bool := part == "" || part == "."

/-- The part that stands for the folder above. -/
def parent : String := ".."

def isAbsolute (text : String) : Bool := text.toList.head? == some '/'

/-- The parts of a relative path that stand for something. -/
def parts (text : String) : Path :=
  ((segments text.toList).map String.ofList).filter fun part => !isIdle part

/-- The parts of a path that stays inside the folder it starts from. -/
def sanitize (text : String) : Except AssetFault Path :=
  if isAbsolute text ∨ parent ∈ parts text then .error .traversal else .ok (parts text)

/-- The path as a text. -/
def text (path : Path) : String := "/".intercalate path

/-- The path of `inner` as seen from inside the folder `outer`. -/
def join (outer inner : String) : String :=
  if isAbsolute inner ∨ outer = "" then inner
  else if outer.toList.getLast? = some '/' then outer ++ inner
  else outer ++ "/" ++ inner

/-- The name of the file or folder that a path leads to. -/
def fileName? (text : String) : Option String :=
  match (parts text).getLast? with
  | none => none
  | some part => if part = parent then none else some part

/-- The folder of the file that a path leads to. -/
def folder (path : Path) : Path := path.dropLast

/-- A file name without its extension, and the extension: what is behind the last dot, unless the
name starts with it. -/
def splitExtension (name : String) : String × Option String :=
  let back := name.toList.reverse
  let stem := (back.dropWhile (· != '.')).drop 1
  if stem.isEmpty then (name, none)
  else (String.ofList stem.reverse, some (String.ofList (back.takeWhile (· != '.')).reverse))

/-- Whether a path leads to a file with the extension, in either case. -/
def hasExtension (extension text : String) : Bool :=
  match (fileName? text).bind fun name => (splitExtension name).2 with
  | some found => Text.equalIgnoringAsciiCase found extension
  | none => false

end Path

end NovelScript
