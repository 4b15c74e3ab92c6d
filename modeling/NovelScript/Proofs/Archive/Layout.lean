import Mathlib
import NovelScript.Archive
import NovelScript.Proofs.Bytes.Content
import NovelScript.Proofs.Text.Utf8

/-! # The layout of archives

An archive of files has their records in a row and then their bytes, in the same order. Files can be
put into an archive exactly if the fields of the records have room for their names, lengths and
offsets; what is read from the archive are the files again, except for zeros at the end of a
name. -/

namespace NovelScript

namespace Archive

/-! ## Files that have room -/

/-- Length and flag of a file in one number. -/
def sizeAndFlag (file : StoredFile) : Nat := 2 * file.content.length + file.compressed.toNat

/-- A name with zeros behind it. -/
def nameBytes (name : String) : Bytes :=
  Text.utf8 name ++ List.replicate (nameSize - (Text.utf8 name).length) 0

/-- The bytes of a record. -/
def recordBytes (offset : Nat) (file : StoredFile) : Bytes :=
  Bytes.ofNatLE 4 offset ++ Bytes.ofNatLE 4 (sizeAndFlag file) ++ nameBytes file.name

/-- A file for which the fields of a record have room, `offset` bytes behind the records. -/
structure Fits (offset : Nat) (file : StoredFile) : Prop where
  name : (Text.utf8 file.name).length ≤ nameSize
  start : offset < UInt32.size
  size : sizeAndFlag file < UInt32.size

/-- Files for which their records have room, one after the other from `offset` on. -/
def AllFit : (offset : Nat) → List StoredFile → Prop
  | _, [] => True
  | offset, file :: rest => Fits offset file ∧ AllFit (offset + file.content.length) rest

/-- The records of files that lie one after the other from `offset` on. -/
def table : (offset : Nat) → List StoredFile → Bytes
  | _, [] => []
  | offset, file :: rest => recordBytes offset file ++ table (offset + file.content.length) rest

/-- The bytes in front of the records. -/
def header (count : Nat) : Bytes := magic ++ Bytes.ofNatLE 4 count ++ List.replicate 8 0

/-- The bytes of an archive of files. -/
def layout (files : List StoredFile) : Bytes :=
  header files.length ++ table 0 files ++ files.flatMap (·.content)

variable {offset : Nat} {file : StoredFile} {files : List StoredFile} {bytes : Bytes}

theorem field_eq_ok_iff {value : Nat} :
    field value = .ok bytes ↔ value < UInt32.size ∧ bytes = Bytes.ofNatLE 4 value := by
  rw [field]
  split
  · rename_i hvalue
    simp [hvalue, eq_comm]
  · rename_i hvalue
    simp [hvalue]

theorem record_eq_ok_iff :
    record offset file = .ok bytes ↔ Fits offset file ∧ bytes = recordBytes offset file := by
  constructor
  · intro h
    rw [record] at h
    split at h
    · cases h
    rename_i hname
    obtain ⟨start, hfield, h⟩ := exceptBind_eq_ok h
    obtain ⟨hstart, rfl⟩ := field_eq_ok_iff.mp hfield
    obtain ⟨size, hfield, h⟩ := exceptBind_eq_ok h
    obtain ⟨hsize, rfl⟩ := field_eq_ok_iff.mp hfield
    cases h
    refine ⟨⟨by omega, hstart, hsize⟩, ?_⟩
    rw [recordBytes, nameBytes, sizeAndFlag, List.append_assoc]
  · rintro ⟨h, rfl⟩
    have hname : ¬ nameSize < (Text.utf8 file.name).length := Nat.not_lt.mpr h.name
    have hsize := field_eq_ok_iff.mpr ⟨h.size, rfl⟩
    rw [sizeAndFlag] at hsize
    rw [record, if_neg hname, field_eq_ok_iff.mpr ⟨h.start, rfl⟩, hsize, recordBytes, nameBytes,
      sizeAndFlag, ← List.append_assoc]
    rfl

theorem records_eq_ok_iff :
    records offset files = .ok bytes ↔ AllFit offset files ∧ bytes = table offset files := by
  induction files generalizing offset bytes with
  | nil => simp [records, AllFit, table, eq_comm]
  | cons file files ih =>
    constructor
    · intro h
      obtain ⟨first, hfirst, h⟩ := exceptBind_eq_ok h
      obtain ⟨others, hothers, h⟩ := exceptBind_eq_ok h
      obtain ⟨hfits, rfl⟩ := record_eq_ok_iff.mp hfirst
      obtain ⟨hrest, rfl⟩ := ih.mp hothers
      cases h
      exact ⟨⟨hfits, hrest⟩, rfl⟩
    · rintro ⟨⟨hfits, hrest⟩, rfl⟩
      rw [records, record_eq_ok_iff.mpr ⟨hfits, rfl⟩, ih.mpr ⟨hrest, rfl⟩]
      rfl

theorem image_eq_ok_iff :
    image files = .ok bytes ↔
      (files.length < UInt32.size ∧ AllFit 0 files) ∧ bytes = layout files := by
  constructor
  · intro h
    obtain ⟨count, hfield, h⟩ := exceptBind_eq_ok h
    obtain ⟨hcount, rfl⟩ := field_eq_ok_iff.mp hfield
    obtain ⟨table, htable, h⟩ := exceptBind_eq_ok h
    obtain ⟨hfits, rfl⟩ := records_eq_ok_iff.mp htable
    cases h
    exact ⟨⟨hcount, hfits⟩, rfl⟩
  · rintro ⟨⟨hcount, hfits⟩, rfl⟩
    rw [image, field_eq_ok_iff.mpr ⟨hcount, rfl⟩, records_eq_ok_iff.mpr ⟨hfits, rfl⟩]
    rfl

/-! ## Reading a layout -/

/-- The entries of files that lie one after the other from `offset` on. A name has lost the zeros at
its end. -/
def entriesAt : (offset : Nat) → List StoredFile → List ArchiveEntry
  | _, [] => []
  | offset, file :: rest =>
    ⟨Text.ofUtf8Lossy (Text.utf8 file.name).trimNulls, offset, file.content.length,
      file.compressed⟩ :: entriesAt (offset + file.content.length) rest

theorem sizeAndFlag_div (file : StoredFile) : sizeAndFlag file / 2 = file.content.length := by
  have := file.compressed.toNat_lt
  rw [sizeAndFlag]
  omega

theorem sizeAndFlag_mod (file : StoredFile) : (sizeAndFlag file % 2 == 1) = file.compressed := by
  cases h : file.compressed with
  | false => simp [sizeAndFlag, h]
  | true => simp [sizeAndFlag, h]

theorem length_nameBytes {name : String} (h : (Text.utf8 name).length ≤ nameSize) :
    (nameBytes name).length = nameSize := by
  rw [nameBytes, List.length_append, List.length_replicate]
  omega

theorem length_recordBytes (h : (Text.utf8 file.name).length ≤ nameSize) (offset : Nat) :
    (recordBytes offset file).length = recordSize := by
  rw [recordBytes, List.length_append, List.length_append, length_nameBytes h,
    Bytes.length_ofNatLE, Bytes.length_ofNatLE]
  rfl

theorem length_table (h : AllFit offset files) :
    (table offset files).length = files.length * recordSize := by
  induction files generalizing offset with
  | nil => simp [table]
  | cons file files ih =>
    rw [table, List.length_append, length_recordBytes h.1.name, ih h.2, List.length_cons,
      Nat.succ_mul, Nat.add_comm]

theorem length_header (count : Nat) : (header count).length = headerSize := by
  simp [header, magic, headerSize, Bytes.length_ofNatLE]

/-- What is read as a number are its four bytes. -/
theorem natAt_eq_ok_iff {n : Nat} :
    natAt bytes offset = .ok n ↔
      n < UInt32.size ∧ (bytes.drop offset).take 4 = Bytes.ofNatLE 4 n := by
  have hshort : ((bytes.drop offset).take 4).length ≤ 4 := List.length_take_le _ _
  generalize hpart : (bytes.drop offset).take 4 = part at hshort
  rw [natAt, hpart]
  constructor
  · intro h
    split at h
    · cases h
    · cases h
      have hlength : part.length = 4 := by omega
      have hlt := Bytes.toNatLE_lt part
      have hdigits := Bytes.ofNatLE_toNatLE part
      rw [hlength] at hlt hdigits
      exact ⟨hlt, hdigits.symm⟩
  · rintro ⟨hn, rfl⟩
    have hlength : ¬ (Bytes.ofNatLE 4 n).length < 4 := by
      rw [Bytes.length_ofNatLE]
      omega
    simp only [if_neg hlength, Bytes.toNatLE_ofNatLE]
    exact congrArg Except.ok (Nat.mod_eq_of_lt hn)

theorem take_recordSize (bytes : Bytes) (offset : Nat) :
    (bytes.drop offset).take recordSize =
      (bytes.drop offset).take 4 ++ (bytes.drop (offset + 4)).take 4 ++
        (bytes.drop (offset + 8)).take nameSize := by
  have hsize : recordSize = 4 + (4 + nameSize) := rfl
  rw [hsize, List.take_add, List.take_add, List.drop_drop, List.drop_drop, List.append_assoc]

/-- What is read as a record are its fields: offset, length and flag, and the name. -/
theorem readRecords_succ_eq_ok_iff {base count : Nat} {entries : List ArchiveEntry} :
    readRecords bytes base (count + 1) offset = .ok entries ↔
      ∃ (start size : Nat) (name : Bytes) (others : List ArchiveEntry),
        start < UInt32.size ∧ size < UInt32.size ∧ name.length = nameSize ∧
        (bytes.drop offset).take recordSize =
          Bytes.ofNatLE 4 start ++ Bytes.ofNatLE 4 size ++ name ∧
        readRecords bytes base count (offset + recordSize) = .ok others ∧
        entries = ⟨Text.ofUtf8Lossy name.trimNulls, base + start, size / 2, size % 2 == 1⟩ ::
          others := by
  rw [take_recordSize, readRecords]
  constructor
  · intro h
    obtain ⟨start, hnat, h⟩ := exceptBind_eq_ok h
    obtain ⟨hstart, hfirst⟩ := natAt_eq_ok_iff.mp hnat
    obtain ⟨size, hnat, h⟩ := exceptBind_eq_ok h
    obtain ⟨hsize, hsecond⟩ := natAt_eq_ok_iff.mp hnat
    simp only at h
    split at h
    · cases h
    rename_i hname
    obtain ⟨others, hothers, h⟩ := exceptBind_eq_ok h
    cases h
    have hlength : ((bytes.drop (offset + 8)).take nameSize).length = nameSize := by
      have := List.length_take_le nameSize (bytes.drop (offset + 8))
      omega
    exact ⟨start, size, _, others, hstart, hsize, hlength, by rw [hfirst, hsecond], hothers, rfl⟩
  · rintro ⟨start, size, name, others, hstart, hsize, hname, hrecord, hothers, rfl⟩
    have htotal := congrArg List.length hrecord
    have hshort := List.length_take_le 4 (bytes.drop offset)
    have hshort' := List.length_take_le 4 (bytes.drop (offset + 4))
    have hshort'' := List.length_take_le nameSize (bytes.drop (offset + 8))
    simp only [List.length_append, Bytes.length_ofNatLE] at htotal
    obtain ⟨hfields, rfl⟩ := List.append_inj' hrecord (by omega)
    obtain ⟨hfirst, hsecond⟩ :=
      List.append_inj' hfields (by rw [Bytes.length_ofNatLE]; omega)
    rw [natAt_eq_ok_iff.mpr ⟨hstart, hfirst⟩, natAt_eq_ok_iff.mpr ⟨hsize, hsecond⟩, hothers]
    simp only [bind, Except.bind, hname, Nat.lt_irrefl, if_false]
    rfl

theorem length_of_readRecords {base count : Nat} {entries : List ArchiveEntry}
    (h : readRecords bytes base count offset = .ok entries) : entries.length = count := by
  induction count generalizing offset entries with
  | zero =>
    cases h
    rfl
  | succ count ih =>
    obtain ⟨_, _, _, others, -, -, -, -, hothers, rfl⟩ := readRecords_succ_eq_ok_iff.mp h
    rw [List.length_cons, ih hothers]

/-- Where the files start in an archive of `count` files. -/
def filesOffset (count : Nat) : Nat := count * recordSize + headerSize

/-- What an archive is checked for when it is parsed. -/
structure Parsed (a : Archive) : Prop where
  magic : a.view.bytes.take 4 = magic
  count : natAt a.view.bytes 4 = .ok a.entries.length
  records : readRecords a.view.bytes (filesOffset a.entries.length) a.entries.length headerSize =
    .ok a.entries
  length : filesOffset a.entries.length + storedLength a.entries = a.view.length
  inside : ∀ entry ∈ a.entries, entry.offset + entry.length ≤ a.view.length

theorem parse_eq_ok_iff {view : View} {a : Archive} :
    parse view = .ok a ↔ a.view = view ∧ Parsed a := by
  constructor
  · intro h
    rw [parse] at h
    split at h
    · cases h
    rename_i hmagic
    obtain ⟨count, hcount, h⟩ := exceptBind_eq_ok h
    obtain ⟨entries, hentries, h⟩ := exceptBind_eq_ok h
    have hlength := length_of_readRecords hentries
    simp only at h
    split at h
    · cases h
    rename_i hcontent
    split at h
    · cases h
    · rename_i hinside
      cases h
      subst hlength
      refine ⟨rfl, not_not.mp hmagic, hcount, hentries, not_not.mp hcontent, ?_⟩
      simpa using hinside
  · rintro ⟨rfl, h⟩
    have hinside : a.entries.find? (fun entry => a.view.length < entry.offset + entry.length) =
        none := by
      simpa using h.inside
    rw [parse, if_neg (not_not.mpr h.magic), h.count]
    change (readRecords a.view.bytes (filesOffset a.entries.length) a.entries.length headerSize >>=
      _) = _
    rw [h.records]
    change (if filesOffset a.entries.length + storedLength a.entries ≠ a.view.length then _
      else _) = _
    rw [if_neg (not_not.mpr h.length), hinside]

theorem readRecords_table (base : Nat) {place : Nat} {rest : Bytes} (hfits : AllFit offset files)
    (h : bytes.drop place = table offset files ++ rest) :
    readRecords bytes base files.length place = .ok (entriesAt (base + offset) files) := by
  induction files generalizing offset place with
  | nil => rfl
  | cons file files ih =>
    obtain ⟨hfirst, hothers⟩ := hfits
    have hlength := length_recordBytes hfirst.name offset
    rw [table, List.append_assoc] at h
    have hrecord : (bytes.drop place).take recordSize = recordBytes offset file := by
      rw [h, List.take_left' hlength]
    have hnext : bytes.drop (place + recordSize) =
        table (offset + file.content.length) files ++ rest := by
      rw [← List.drop_drop, h, List.drop_left' hlength]
    rw [List.length_cons, readRecords_succ_eq_ok_iff]
    refine ⟨offset, sizeAndFlag file, nameBytes file.name, _, hfirst.start, hfirst.size,
      length_nameBytes hfirst.name, hrecord, ih hothers hnext, ?_⟩
    rw [entriesAt, nameBytes, Text.trimNulls_append_replicate, sizeAndFlag_div, sizeAndFlag_mod,
      Nat.add_assoc]

theorem length_entriesAt (offset : Nat) (files : List StoredFile) :
    (entriesAt offset files).length = files.length := by
  induction files generalizing offset with
  | nil => rfl
  | cons file files ih => rw [entriesAt, List.length_cons, List.length_cons, ih]

theorem storedLength_entriesAt (offset : Nat) (files : List StoredFile) :
    storedLength (entriesAt offset files) = (files.flatMap (·.content)).length := by
  induction files generalizing offset with
  | nil => rfl
  | cons file files ih =>
    rw [entriesAt, storedLength, ih, List.flatMap_cons, List.length_append]

theorem end_le_of_mem_entriesAt {entry : ArchiveEntry} (h : entry ∈ entriesAt offset files) :
    entry.offset + entry.length ≤ offset + (files.flatMap (·.content)).length := by
  induction files generalizing offset with
  | nil => cases h
  | cons file files ih =>
    rw [List.flatMap_cons, List.length_append]
    rcases List.mem_cons.mp h with rfl | h
    · simp only
      omega
    · have := ih h
      omega

theorem length_layout (h : AllFit 0 files) :
    (layout files).length = filesOffset files.length + (files.flatMap (·.content)).length := by
  rw [layout, List.length_append, List.length_append, length_header, length_table h, filesOffset]
  omega

/-- The bytes of a layout are parsed to the files that were laid out. -/
theorem parse_layout {view : View} (hview : view.bytes = layout files)
    (hcount : files.length < UInt32.size) (hfits : AllFit 0 files) :
    parse view = .ok ⟨view, entriesAt (filesOffset files.length) files⟩ := by
  have hlength : view.length = filesOffset files.length + (files.flatMap (·.content)).length := by
    rw [← view.length_bytes, hview, length_layout hfits]
  have hbehind : view.bytes.drop headerSize = table 0 files ++ files.flatMap (·.content) := by
    rw [hview, layout, List.append_assoc, List.drop_left' (length_header _)]
  rw [parse_eq_ok_iff]
  refine ⟨rfl, ?_, ?_, ?_, ?_, ?_⟩
  · rw [hview]
    rfl
  · rw [length_entriesAt, natAt_eq_ok_iff, hview, layout, header]
    simp only [List.append_assoc]
    rw [List.drop_left' (show magic.length = 4 from rfl), List.take_left' (Bytes.length_ofNatLE _ _)]
    exact ⟨hcount, rfl⟩
  · have hrecords := readRecords_table (filesOffset files.length) hfits hbehind
    rw [Nat.add_zero] at hrecords
    rw [length_entriesAt]
    exact hrecords
  · rw [length_entriesAt, storedLength_entriesAt, hlength]
  · intro entry hentry
    rw [hlength]
    exact end_le_of_mem_entriesAt hentry

/-- An archive can be built of files exactly if there is room for them. -/
theorem build_eq_ok_iff {a : Archive} :
    build files = .ok a ↔
      (files.length < UInt32.size ∧ AllFit 0 files) ∧
        a = ⟨.ofBytes (layout files), entriesAt (filesOffset files.length) files⟩ := by
  have hparse := fun h : files.length < UInt32.size ∧ AllFit 0 files =>
    parse_layout (View.bytes_ofBytes (layout files)) h.1 h.2
  constructor
  · intro h
    obtain ⟨bytes, hbytes, h⟩ := exceptBind_eq_ok h
    obtain ⟨hfits, rfl⟩ := image_eq_ok_iff.mp hbytes
    rw [hparse hfits] at h
    cases h
    exact ⟨hfits, rfl⟩
  · rintro ⟨hfits, rfl⟩
    rw [build, image_eq_ok_iff.mpr ⟨hfits, rfl⟩, exceptBind_ok, hparse hfits]

/-! ## What is found in a built archive -/

/-- Files fit if their names are short and the numbers in their records are small. -/
theorem allFit_iff (offset : Nat) (files : List StoredFile) :
    AllFit offset files ↔
      (∀ file ∈ files, (Text.utf8 file.name).length ≤ nameSize) ∧
      (∀ k < files.length, offset + ((files.take k).map (·.content.length)).sum < UInt32.size) ∧
      ∀ file ∈ files, sizeAndFlag file < UInt32.size := by
  induction files generalizing offset with
  | nil => simp [AllFit]
  | cons file files ih =>
    rw [AllFit, ih]
    constructor
    · rintro ⟨⟨hname, hstart, hsize⟩, hnames, hstarts, hsizes⟩
      refine ⟨List.forall_mem_cons.mpr ⟨hname, hnames⟩, ?_, List.forall_mem_cons.mpr ⟨hsize, hsizes⟩⟩
      rintro (_ | k) hk
      · exact hstart
      · have := hstarts k (Nat.lt_of_succ_lt_succ hk)
        rw [List.take_succ_cons, List.map_cons, List.sum_cons]
        omega
    · rintro ⟨hnames, hstarts, hsizes⟩
      obtain ⟨hname, hnames⟩ := List.forall_mem_cons.mp hnames
      obtain ⟨hsize, hsizes⟩ := List.forall_mem_cons.mp hsizes
      refine ⟨⟨hname, hstarts 0 (Nat.succ_pos _), hsize⟩, hnames, ?_, hsizes⟩
      intro k hk
      have := hstarts (k + 1) (Nat.succ_lt_succ hk)
      rw [List.take_succ_cons, List.map_cons, List.sum_cons] at this
      omega

/-- Files that fit are not longer together than addresses reach. -/
theorem length_contents_le (h : AllFit offset files) (hoffset : offset ≤ 2 * UInt32.size) :
    offset + (files.flatMap (·.content)).length ≤ 2 * UInt32.size := by
  induction files generalizing offset with
  | nil => exact hoffset
  | cons file files ih =>
    obtain ⟨hfirst, hothers⟩ := h
    have hstart := hfirst.start
    have hsize := hfirst.size
    rw [sizeAndFlag] at hsize
    have := ih hothers (by omega)
    rw [List.flatMap_cons, List.length_append]
    omega

theorem size_layout_le (hcount : files.length < UInt32.size) (hfits : AllFit 0 files) :
    (View.ofBytes (layout files)).buffer.data.size ≤ maxAddress := by
  have hlength : (View.ofBytes (layout files)).buffer.data.size = (layout files).length := rfl
  have hcontents := length_contents_le hfits (Nat.zero_le _)
  rw [hlength, length_layout hfits]
  simp only [filesOffset, recordSize, headerSize, maxAddress, UInt32.size, UInt64.size] at *
  omega

/-- An entry of an archive that stands for a file. -/
structure Keeps (a : Archive) (entry : ArchiveEntry) (file : StoredFile) : Prop where
  name : entry.name = file.name
  length : entry.length = file.content.length
  compressed : entry.compressed = file.compressed
  stored : a.stored entry = file.content
  plain : file.compressed = false → ∃ part, a.content entry = .ok part ∧ part.bytes = file.content

/-- A name that does not end in a zero is read as it was written. -/
theorem ofUtf8Lossy_trimNulls {name : String} (h : name.toList.getLast? ≠ some '\x00') :
    Text.ofUtf8Lossy (Text.utf8 name).trimNulls = name := by
  rw [Text.trimNulls_utf8_of_getLast? h, Text.ofUtf8Lossy_utf8]

theorem keeps_entriesAt {a : Archive} (hbuffer : a.view.buffer.data.size ≤ maxAddress)
    (hnames : ∀ file ∈ files, file.name.toList.getLast? ≠ some '\x00')
    (h : a.view.Holds offset (files.flatMap (·.content))) :
    List.Forall₂ a.Keeps (entriesAt offset files) files := by
  induction files generalizing offset with
  | nil => exact .nil
  | cons file files ih =>
    obtain ⟨hname, hnames⟩ := List.forall_mem_cons.mp hnames
    rw [List.flatMap_cons] at h
    refine .cons ⟨ofUtf8Lossy_trimNulls hname, rfl, rfl, h.left.eq_take.symm, ?_⟩ (ih hnames h.right)
    intro hplain
    obtain ⟨part, hpart, hbytes⟩ := h.left.sub hbuffer
    refine ⟨part, ?_, hbytes⟩
    simp only [content, hplain, hpart]
    rfl

/-- The first entry of a name stands for the first file of the name. -/
theorem find?_eq_of_keeps {a : Archive} {entries : List ArchiveEntry}
    (h : List.Forall₂ a.Keeps entries files) (accepts : String → Bool) :
    entries.find? (fun entry => accepts entry.name) =
      (files.findIdx? fun file => accepts file.name).bind (entries[·]?) := by
  induction h with
  | nil => rfl
  | cons hfirst hothers ih =>
    rw [List.find?_cons, List.findIdx?_cons, hfirst.name, ih]
    split
    · rename_i hmatch
      simp [hmatch]
    · rename_i hmatch
      simp [hmatch, Option.bind_map]

theorem files_of_keeps {a : Archive} {entries : List ArchiveEntry}
    (h : List.Forall₂ a.Keeps entries files) :
    entries.map (fun entry => ⟨entry.name, a.stored entry, entry.compressed⟩) = files := by
  induction h with
  | nil => rfl
  | cons hfirst hothers ih =>
    rw [List.map_cons, ih, hfirst.name, hfirst.stored, hfirst.compressed]

/-- The entries of a built archive stand for the files that it was built of. -/
theorem keeps_of_build {a : Archive} (h : build files = .ok a)
    (hnames : ∀ file ∈ files, file.name.toList.getLast? ≠ some '\x00') :
    List.Forall₂ a.Keeps a.entries files := by
  obtain ⟨⟨hcount, hfits⟩, rfl⟩ := build_eq_ok_iff.mp h
  have hbehind : 0 + (header files.length ++ table 0 files).length = filesOffset files.length := by
    rw [List.length_append, length_header, length_table hfits, filesOffset]
    omega
  have hwhole := (View.ofBytes (layout files)).holds_bytes
  rw [View.bytes_ofBytes] at hwhole
  have hcontents := hwhole.right
  rw [hbehind] at hcontents
  exact keeps_entriesAt (size_layout_le hcount hfits) hnames hcontents

/-- Building an archive is undone by parsing it. Files can be put into an archive if and only if
there are fewer than 2³² of them, no name is longer than its field, and their offsets and their
lengths, doubled and with the flag, fit into four bytes. If no name ends in a zero, the entries of
the archive are the files in their order, each with its bytes; the entry that is found for a name is
that of the first file whose name is equal up to the case of ASCII letters; and the archive is
written as it was built. -/
theorem parse_undoes_build (files : List StoredFile) :
    ((∃ a, build files = .ok a) ↔
      files.length < 2 ^ 32 ∧ (∀ file ∈ files, (Text.utf8 file.name).length ≤ 24) ∧
      (∀ k < files.length, ((files.take k).map (·.content.length)).sum < 2 ^ 32) ∧
      ∀ file ∈ files, 2 * file.content.length + file.compressed.toNat < 2 ^ 32) ∧
    ∀ a, build files = .ok a → (∀ file ∈ files, file.name.toList.getLast? ≠ some '\x00') →
      List.Forall₂ a.Keeps a.entries files ∧
      (∀ name, a.find? name =
        (files.findIdx? fun file => Text.equalIgnoringAsciiCase file.name name).bind
          (a.entries[·]?)) ∧
      image files = .ok a.view.bytes ∧ a.write = .ok a.view.bytes := by
  constructor
  · have hfits := allFit_iff 0 files
    simp only [Nat.zero_add] at hfits
    simp only [build_eq_ok_iff, exists_and_left, exists_eq, and_true, hfits]
    rfl
  · intro a hbuild hnames
    have hkeeps := keeps_of_build hbuild hnames
    refine ⟨hkeeps, fun name => find?_eq_of_keeps hkeeps (Text.equalIgnoringAsciiCase · name), ?_, ?_⟩
    · obtain ⟨hfits, rfl⟩ := build_eq_ok_iff.mp hbuild
      exact image_eq_ok_iff.mpr ⟨hfits, View.bytes_ofBytes _⟩
    · rw [write, files_of_keeps hkeeps, hbuild, exceptBind_ok]
      rfl

/-- Two files whose names differ in case only, the first of them compressed, and an empty file without
a name between them. -/
theorem parse_undoes_build_same_names :
    let files : List StoredFile :=
      [⟨"bg01a.cps", [0x6c, 0x6e, 0x64], true⟩, ⟨"", [], false⟩, ⟨"BG01A.CPS", [0x42], false⟩]
    ∃ a, build files = .ok a ∧ List.Forall₂ a.Keeps a.entries files ∧
      a.find? "Bg01a.cps" = a.entries[0]? ∧ a.write = .ok a.view.bytes := by
  intro files
  obtain ⟨hbuilt, hfound⟩ := parse_undoes_build files
  obtain ⟨a, ha⟩ := hbuilt.mpr ⟨by decide, by decide +kernel, by decide, by decide⟩
  obtain ⟨hkeeps, hfind, -, hwrite⟩ := hfound a ha (by decide +kernel)
  refine ⟨a, ha, hkeeps, ?_, hwrite⟩
  rw [hfind]
  have hfirst : (files.findIdx? fun file =>
      Text.equalIgnoringAsciiCase file.name "Bg01a.cps") = some 0 := by cbv
  rw [hfirst]
  rfl

end Archive

end NovelScript
