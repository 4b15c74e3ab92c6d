import NovelScript.Archive.Rle
import NovelScript.Bytes.View
import NovelScript.Text.Case
import NovelScript.Text.Utf8

/-! # Archives

An archive holds files one after the other. It starts with a magic number, the number of files and
eight bytes without a meaning; then comes a record for each file with its offset behind the
records, twice its length, plus one if it is compressed, and its name. -/

namespace NovelScript

/-- Why an archive cannot be read or built. -/
inductive ArchiveFlaw where
  | noMagic
  | truncated (offset : Nat)
  | contentLength (content file : Nat)
  | entryPastEnd (name : String)
  | longName (name : String) (limit : Nat)
  | tooLarge (value : Nat)
deriving DecidableEq, Repr

def ArchiveFlaw.message : ArchiveFlaw → String
  | .noMagic => "missing LNK magic"
  | .truncated offset => "truncated at " ++ hexNat offset
  | .contentLength content file =>
    "content length " ++ toString content ++ " does not match file length " ++ toString file
  | .entryPastEnd name => "entry '" ++ name ++ "' ends past the archive"
  | .longName name limit => "name '" ++ name ++ "' is longer than " ++ toString limit ++ " bytes"
  | .tooLarge value => toString value ++ " does not fit the LNK format"

/-- Why compressed data cannot be restored. -/
inductive CompressionFlaw where
  | noPreamble (name : String)
  | corrupt (flaw : Rle.Flaw)
deriving DecidableEq, Repr

def CompressionFlaw.message : CompressionFlaw → String
  | .noPreamble name => "'" ++ name ++ "' lacks the lnd preamble"
  | .corrupt flaw => flaw.message

/-- Why a media file cannot be had. -/
inductive AssetFault where
  /-- The name leads out of the directory that holds the media. -/
  | traversal
  | missing (kind name : String)
  | archive (flaw : ArchiveFlaw)
  | compression (flaw : CompressionFlaw)
deriving DecidableEq, Repr

namespace AssetFault

def message : AssetFault → String
  | .traversal => "media path traversal blocked"
  | .missing kind name => "missing " ++ kind ++ " media '" ++ name ++ "'"
  | .archive flaw => "invalid archive: " ++ flaw.message
  | .compression flaw => "compressed data is corrupt: " ++ flaw.message

/-- The fault as the engine tells it. -/
def toFault : AssetFault → Fault
  | .missing kind name => .missingMedia kind name
  | other => .container (.storage other.message)

end AssetFault

/-- A file of an archive: its name, where its stored bytes lie in the archive, and whether they
are compressed. -/
structure ArchiveEntry where
  name : String
  offset : Nat
  length : Nat
  compressed : Bool
deriving DecidableEq, Repr

/-- An archive and its files. -/
structure Archive where
  view : View
  entries : List ArchiveEntry
deriving DecidableEq, Repr

/-- A file to be put into an archive. -/
structure StoredFile where
  name : String
  content : Bytes
  compressed : Bool
deriving DecidableEq, Repr

namespace Archive

/-- The bytes that an archive starts with. -/
def magic : Bytes := [0x4c, 0x4e, 0x4b, 0x00]

/-- The bytes that a compressed file starts with. -/
def preamble : Bytes := [0x6c, 0x6e, 0x64, 0x00]

def headerSize : Nat := 16

def recordSize : Nat := 32

def nameSize : Nat := 24

/-- The length of what is in front of the packed data of a compressed file. -/
def preambleSize : Nat := 16

/-- The four bytes at an offset as a number. -/
def natAt (bytes : Bytes) (offset : Nat) : Except AssetFault Nat :=
  let field : Bytes := (bytes.drop offset).take 4
  if field.length < 4 then .error (.archive (.truncated offset)) else .ok field.toNatLE

/-- Reads the records of `count` files, the first at `offset`. File offsets count from `base`. -/
def readRecords (bytes : Bytes) (base : Nat) :
    (count offset : Nat) → Except AssetFault (List ArchiveEntry)
  | 0, _ => .ok []
  | count + 1, offset => do
    let start ← natAt bytes offset
    let size ← natAt bytes (offset + 4)
    let name : Bytes := (bytes.drop (offset + 8)).take nameSize
    if name.length < nameSize then .error (.archive (.truncated (offset + 8)))
    else
      let others ← readRecords bytes base count (offset + recordSize)
      return ⟨Text.ofUtf8Lossy name.trimNulls, base + start, size / 2, size % 2 == 1⟩ :: others

/-- How long the files of some entries are together. -/
def storedLength : List ArchiveEntry → Nat
  | [] => 0
  | entry :: rest => entry.length + storedLength rest

/-- The archive that a view holds. The files have to be as long together as what is behind the
records, and none may reach behind it. -/
def parse (view : View) : Except AssetFault Archive := do
  let bytes := view.bytes
  if bytes.take 4 ≠ magic then .error (.archive .noMagic)
  else
    let count ← natAt bytes 4
    let base := count * recordSize + headerSize
    let entries ← readRecords bytes base count headerSize
    let content := base + storedLength entries
    if content ≠ view.length then .error (.archive (.contentLength content view.length))
    else
      match entries.find? fun entry => view.length < entry.offset + entry.length with
      | some entry => .error (.archive (.entryPastEnd entry.name))
      | none => .ok ⟨view, entries⟩

/-- A number of four bytes. -/
def field (value : Nat) : Except AssetFault Bytes :=
  if value < UInt32.size then .ok (Bytes.ofNatLE 4 value) else .error (.archive (.tooLarge value))

/-- The record of a file at an offset behind the records. -/
def record (offset : Nat) (file : StoredFile) : Except AssetFault Bytes := do
  let name := Text.utf8 file.name
  if nameSize < name.length then .error (.archive (.longName file.name nameSize))
  else
    let start ← field offset
    let size ← field (2 * file.content.length + file.compressed.toNat)
    return start ++ size ++ name ++ List.replicate (nameSize - name.length) 0

/-- The records of files that lie one after the other from `offset` on. -/
def records : (offset : Nat) → List StoredFile → Except AssetFault Bytes
  | _, [] => .ok []
  | offset, file :: rest => do
    let first ← record offset file
    let others ← records (offset + file.content.length) rest
    return first ++ others

/-- The bytes of an archive of files. -/
def image (files : List StoredFile) : Except AssetFault Bytes := do
  let count ← field files.length
  let records ← records 0 files
  return magic ++ count ++ List.replicate 8 0 ++ records ++ files.flatMap (·.content)

/-- An archive of files. -/
def build (files : List StoredFile) : Except AssetFault Archive := do
  parse (.ofBytes (← image files))

/-- The bytes of a file as they are stored. -/
def stored (a : Archive) (entry : ArchiveEntry) : Bytes :=
  (a.view.bytes.drop entry.offset).take entry.length

/-- The archive as bytes. The eight bytes without a meaning are written as zeros. -/
def write (a : Archive) : Except AssetFault Bytes := do
  let built ← build (a.entries.map fun e => ⟨e.name, a.stored e, e.compressed⟩)
  return built.view.bytes

/-- The first file of a name, which is compared without regard to the case of ASCII letters. -/
def find? (a : Archive) (name : String) : Option ArchiveEntry :=
  a.entries.find? fun entry => Text.equalIgnoringAsciiCase entry.name name

/-- Restores compressed bytes. How many they are is told in 32 bits, so there is room for them. -/
def restore (name : String) (stored : Bytes) : Except AssetFault Bytes := do
  if stored.take 4 ≠ preamble then .error (.compression (.noPreamble name))
  else
    let size ← natAt stored 8
    if stored.length < preambleSize then .error (.archive (.truncated preambleSize))
    else
      match Rle.unpack (stored.drop preambleSize) size with
      | .error flaw => .error (.compression (.corrupt flaw))
      | .ok bytes => .ok bytes

/-- The content of a file: a part of the archive, or what its compressed bytes stand for. -/
def content (a : Archive) (entry : ArchiveEntry) : Except AssetFault View :=
  if entry.compressed then (restore entry.name (a.stored entry)).map .ofBytes
  else
    match a.view.sub entry.offset entry.length with
    | .ok view => .ok view
    | .error _ => .error (.archive (.truncated entry.offset))

end Archive

end NovelScript
