import NovelScript.Bytes.View
import NovelScript.Title

/-! # Media

The kinds of files that scripts refer to, where each title keeps them, and what a source of media
has to offer. -/

namespace NovelScript

/-- A kind of media. -/
inductive MediaKind where
  | script
  | background
  | characterArt
  | voice
  | movie
deriving DecidableEq, Repr

namespace MediaKind

/-- All kinds, in the order of listings. -/
def all : List MediaKind := [.script, .background, .characterArt, .voice, .movie]

/-- The name of a kind in messages. -/
def label : MediaKind → String
  | .script => "script"
  | .background => "background"
  | .characterArt => "character art"
  | .voice => "voice"
  | .movie => "movie"

/-- The archive or directory that holds a kind. -/
def archive (kind : MediaKind) (title : Title) : String :=
  match kind with
  | .script => "script"
  | .background => "bg"
  | .characterArt => "chara"
  | .voice => title.voiceStem
  | .movie => "movie"

/-- The extension of the files of a kind. -/
def extension? : MediaKind → Option String
  | .script => some "scr"
  | .background | .characterArt => some "cps"
  | .voice => some "waf"
  | .movie => none

/-- The file of a name in a script. A name with a dot is a file name already. -/
def fileName (kind : MediaKind) (name : String) : String :=
  match kind.extension? with
  | some extension => if name.toList.contains '.' then name else name ++ "." ++ extension
  | none => name

end MediaKind

/-- A source of media whose state may change as media are loaded. -/
class MediaSource (μ : Type) where
  load : μ → MediaKind → String → Except Fault View × μ

/-- Media that depend on kind and name alone. -/
structure FixedMedia where
  find : MediaKind → String → Option Bytes

instance : MediaSource FixedMedia where
  load media kind name :=
    match media.find kind name with
    | some bytes => (.ok (.ofBytes bytes), media)
    | none => (.error (.missingMedia kind.label name), media)

end NovelScript
