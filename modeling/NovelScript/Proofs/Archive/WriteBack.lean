import NovelScript.Proofs.Archive.Layout

/-! # Writing archives back

Reading an archive asks that its files are as long together as what is behind the records, and that
none of them reaches behind the end. They may lie in any order and on top of each other, and their
names may be any bytes. Writing lays the files out afresh, each name as the text that was read. So an
archive is written back as it was read, with zeros for the bytes without a meaning, if and only if
its files lie one after the other in the order of their records and each name is a text. -/

namespace NovelScript

namespace Archive

/-! ## Names -/

/-- A name is written as it was read if and only if its bytes are a text. -/
theorem nameBytes_eq_iff {name : Bytes} (hname : name.length = nameSize) :
    ((Text.utf8 (Text.ofUtf8Lossy name.trimNulls)).length ≤ nameSize ∧
      nameBytes (Text.ofUtf8Lossy name.trimNulls) = name) ↔ (Text.ofUtf8? name).isSome := by
  rw [Option.isSome_iff_exists]
  constructor
  · rintro ⟨-, h⟩
    have htext := Text.utf8_append_zeros (Text.ofUtf8Lossy name.trimNulls)
      (nameSize - (Text.utf8 (Text.ofUtf8Lossy name.trimNulls)).length)
    rw [← nameBytes, h] at htext
    exact ⟨_, Text.ofUtf8?_eq_some_iff.mpr htext.symm⟩
  · rintro ⟨text, htext⟩
    have htrimmed : Text.utf8 (Text.ofUtf8Lossy name.trimNulls) = name.trimNulls := by
      rw [Text.ofUtf8?_eq_some_iff.mp htext, Text.trimNulls_utf8, Text.ofUtf8Lossy_utf8]
    have hall := Text.trimNulls_append_zeros name
    have hlength := congrArg List.length hall
    rw [List.length_append] at hlength
    rw [nameBytes, htrimmed, ← hname]
    exact ⟨by omega, hall⟩

/-! ## Records -/

variable {bytes : Bytes} {base count start offset : Nat} {entries : List ArchiveEntry}

/-- Entries whose files lie one after the other from `offset` on. -/
def Consecutive : (offset : Nat) → List ArchiveEntry → Prop
  | _, [] => True
  | offset, entry :: rest => entry.offset = offset ∧ Consecutive (offset + entry.length) rest

instance decidableConsecutive :
    (offset : Nat) → (entries : List ArchiveEntry) → Decidable (Consecutive offset entries)
  | _, [] => inferInstanceAs (Decidable True)
  | offset, entry :: rest =>
    have := decidableConsecutive (offset + entry.length) rest
    inferInstanceAs (Decidable (entry.offset = offset ∧ Consecutive (offset + entry.length) rest))

/-- The bytes of the name in the `index`th of the records that start at an offset. -/
def nameField (bytes : Bytes) (offset index : Nat) : Bytes :=
  (bytes.drop (offset + recordSize * index + 8)).take nameSize

/-- The file that an entry stands for when it is written. -/
def fileOf (stored : ArchiveEntry → Bytes) (entry : ArchiveEntry) : StoredFile :=
  ⟨entry.name, stored entry, entry.compressed⟩

/-- A record is written as it was read if and only if the file is put where it was and its name is a
text. -/
theorem recordBytes_eq_iff (start : Nat) {file : StoredFile} {start' : Nat} {name : Bytes}
    (hstart : start' < UInt32.size) (hsize : sizeAndFlag file < UInt32.size)
    (hlength : name.length = nameSize) (hname : file.name = Text.ofUtf8Lossy name.trimNulls) :
    (Fits start file ∧ recordBytes start file =
        Bytes.ofNatLE 4 start' ++ Bytes.ofNatLE 4 (sizeAndFlag file) ++ name) ↔
      start' = start ∧ (Text.ofUtf8? name).isSome := by
  rw [← nameBytes_eq_iff hlength, ← hname]
  constructor
  · rintro ⟨hfits, hrecord⟩
    rw [recordBytes] at hrecord
    have hfield := length_nameBytes hfits.name
    obtain ⟨hnumbers, hbytes⟩ := List.append_inj' hrecord (hfield.trans hlength.symm)
    have hstarts := List.append_cancel_right hnumbers
    exact ⟨(Bytes.ofNatLE_inj hfits.start hstart hstarts).symm, hfits.name, hbytes⟩
  · rintro ⟨rfl, hshort, hbytes⟩
    exact ⟨⟨hshort, hstart, hsize⟩, by rw [recordBytes, hbytes]⟩

/-- The first name is what stands behind the numbers of the first record. -/
theorem nameField_zero {start size : Nat} {name : Bytes}
    (h : (bytes.drop offset).take recordSize =
      Bytes.ofNatLE 4 start ++ Bytes.ofNatLE 4 size ++ name) : nameField bytes offset 0 = name := by
  have hdrop := congrArg (List.drop 8) h
  rwa [List.drop_take, List.drop_drop, List.drop_left' (by simp [Bytes.length_ofNatLE])] at hdrop

theorem nameField_succ (bytes : Bytes) (offset index : Nat) :
    nameField bytes offset (index + 1) = nameField bytes (offset + recordSize) index := by
  rw [nameField, nameField, Nat.mul_succ]
  congr 2
  omega

theorem sizeAndFlag_fileOf {stored : ArchiveEntry → Bytes} {entry : ArchiveEntry} {size : Nat}
    (hstored : (stored entry).length = size / 2) (hflag : entry.compressed = (size % 2 == 1)) :
    sizeAndFlag (fileOf stored entry) = size := by
  have hsum := Nat.div_add_mod size 2
  simp only [sizeAndFlag, fileOf, hstored, hflag]
  rcases Nat.mod_two_eq_zero_or_one size with hbit | hbit
  · rw [hbit] at hsum ⊢
    exact hsum
  · rw [hbit] at hsum ⊢
    exact hsum

/-- The records of an archive are written as they were read if and only if its files lie one after
the other and their names are texts. -/
theorem table_eq_iff {stored : ArchiveEntry → Bytes}
    (h : readRecords bytes base count offset = .ok entries)
    (hstored : ∀ entry ∈ entries, (stored entry).length = entry.length) :
    (AllFit start (entries.map (fileOf stored)) ∧
        table start (entries.map (fileOf stored)) = (bytes.drop offset).take (count * recordSize)) ↔
      Consecutive (base + start) entries ∧
        ∀ index < count, (Text.ofUtf8? (nameField bytes offset index)).isSome := by
  induction count generalizing offset start entries with
  | zero =>
    cases h
    simp [AllFit, table, Consecutive]
  | succ count ih =>
    obtain ⟨start', size, name, others, hstart, hsize, hname, hrecord, hothers, rfl⟩ :=
      readRecords_succ_eq_ok_iff.mp h
    obtain ⟨hfirst, hrest⟩ := List.forall_mem_cons.mp hstored
    have hboth := sizeAndFlag_fileOf hfirst rfl
    have hhead := recordBytes_eq_iff start hstart (hboth ▸ hsize) hname rfl
    have hwhole : ((bytes.drop offset).take recordSize).length = recordSize := by
      rw [hrecord, List.length_append, List.length_append, Bytes.length_ofNatLE,
        Bytes.length_ofNatLE, hname]
      rfl
    have hsplit : (bytes.drop offset).take ((count + 1) * recordSize) =
        (bytes.drop offset).take recordSize ++
          (bytes.drop (offset + recordSize)).take (count * recordSize) := by
      rw [Nat.succ_mul, Nat.add_comm, List.take_add, List.drop_drop]
    rw [hboth, ← hrecord] at hhead
    simp only [Nat.forall_lt_succ_left, nameField_zero hrecord, nameField_succ]
    rw [hsplit, List.map_cons, AllFit, table, Consecutive, fileOf, hfirst, Nat.add_assoc base,
      Nat.add_left_cancel_iff]
    constructor
    · rintro ⟨⟨hfits, hothersFit⟩, htable⟩
      obtain ⟨hsame, hothersSame⟩ :=
        List.append_inj htable ((length_recordBytes hfits.name _).trans hwhole.symm)
      obtain ⟨hplace, htext⟩ := hhead.mp ⟨hfits, hsame⟩
      obtain ⟨hplaces, htexts⟩ := (ih hothers hrest).mp ⟨hothersFit, hothersSame⟩
      exact ⟨⟨hplace, hplaces⟩, htext, htexts⟩
    · rintro ⟨⟨hplace, hplaces⟩, htext, htexts⟩
      obtain ⟨hfits, hsame⟩ := hhead.mpr ⟨hplace, htext⟩
      obtain ⟨hothersFit, hothersSame⟩ := (ih hothers hrest).mpr ⟨hplaces, htexts⟩
      exact ⟨⟨hfits, hothersFit⟩, congrArg₂ (· ++ ·) hsame hothersSame⟩

/-! ## Files -/

/-- Files that lie one after the other are a stretch of the archive. -/
theorem flatMap_stored {a : Archive} (h : Consecutive offset entries) :
    entries.flatMap a.stored = (a.view.bytes.drop offset).take (storedLength entries) := by
  induction entries generalizing offset with
  | nil => rfl
  | cons entry entries ih =>
    obtain ⟨rfl, hrest⟩ := h
    rw [List.flatMap_cons, ih hrest, storedLength, List.take_add, List.drop_drop, stored]

theorem length_stored {a : Archive} (h : Parsed a) :
    ∀ entry ∈ a.entries, (a.stored entry).length = entry.length := by
  intro entry hentry
  have hinside := h.inside entry hentry
  rw [stored, List.length_take, List.length_drop, a.view.length_bytes]
  omega

/-- What is written is the layout of the files that the entries stand for. -/
theorem write_eq_ok_iff {a : Archive} :
    a.write = .ok bytes ↔
      (a.entries.length < UInt32.size ∧ AllFit 0 (a.entries.map (fileOf a.stored))) ∧
        bytes = layout (a.entries.map (fileOf a.stored)) := by
  have hwrite : a.write = build (a.entries.map (fileOf a.stored)) >>= fun built =>
    pure built.view.bytes := rfl
  rw [hwrite, ← List.length_map (fileOf a.stored)]
  constructor
  · intro h
    obtain ⟨built, hbuilt, h⟩ := exceptBind_eq_ok h
    obtain ⟨hfits, rfl⟩ := build_eq_ok_iff.mp hbuilt
    exact ⟨hfits, (Except.ok.inj h).symm.trans (View.bytes_ofBytes _)⟩
  · rintro ⟨hfits, rfl⟩
    rw [build_eq_ok_iff.mpr ⟨hfits, rfl⟩, exceptBind_ok, View.bytes_ofBytes]
    rfl

/-- What is in front of the records is written as it was read, but for the bytes without a
meaning. -/
theorem header_of_parsed {a : Archive} (h : Parsed a) :
    header a.entries.length = a.view.bytes.take 8 ++ List.replicate 8 0 := by
  obtain ⟨-, hcount⟩ := natAt_eq_ok_iff.mp h.count
  have hsplit : a.view.bytes.take (4 + 4) = a.view.bytes.take 4 ++ (a.view.bytes.drop 4).take 4 :=
    List.take_add
  rw [hsplit, h.magic, hcount, header]

/-- An archive is written as it was read, with zeros for the bytes without a meaning, if and only if
its files lie one after the other in the order of their records and their names are texts. -/
theorem write_eq_zeroed_iff {view : View} {a : Archive} (h : parse view = .ok a) :
    a.write = .ok (view.bytes.take 8 ++ List.replicate 8 0 ++ view.bytes.drop 16) ↔
      Consecutive (filesOffset a.entries.length) a.entries ∧
        ∀ index < a.entries.length,
          (Text.ofUtf8? (nameField view.bytes headerSize index)).isSome := by
  obtain ⟨rfl, hparsed⟩ := parse_eq_ok_iff.mp h
  have htable : _ ↔ Consecutive (filesOffset a.entries.length + 0) a.entries ∧ _ :=
    table_eq_iff hparsed.records (length_stored hparsed)
  have hcontents : (a.entries.map (fileOf a.stored)).flatMap (·.content) =
      a.entries.flatMap a.stored := by
    rw [List.flatMap_map]
    rfl
  rw [Nat.add_zero] at htable
  rw [write_eq_ok_iff, ← htable, ← header_of_parsed hparsed, layout, List.length_map, hcontents,
    List.append_assoc (header _), List.append_cancel_left_eq]
  constructor
  · rintro ⟨⟨-, hfits⟩, hbehind⟩
    have hlength := length_table hfits
    rw [List.length_map] at hlength
    have htake := congrArg (List.take (a.entries.length * recordSize)) hbehind
    rw [List.take_left' hlength] at htake
    exact ⟨hfits, htake.symm⟩
  · rintro ⟨hfits, hsame⟩
    have hplaces := (htable.mp ⟨hfits, hsame⟩).1
    obtain ⟨hcount, -⟩ := natAt_eq_ok_iff.mp hparsed.count
    have hend : (a.view.bytes.drop (filesOffset a.entries.length)).length =
        storedLength a.entries := by
      have := hparsed.length
      rw [List.length_drop, a.view.length_bytes]
      omega
    refine ⟨⟨hcount, hfits⟩, ?_⟩
    rw [hsame, flatMap_stored hplaces, ← hend, List.take_length, filesOffset, Nat.add_comm,
      ← List.drop_drop]
    exact (List.take_append_drop _ _).symm

/-- The second of two files lies in front of the first. They are written the other way round. -/
theorem write_reorders_files :
    let head := magic ++ [2, 0, 0, 0] ++ List.replicate 8 0
    let first := [2, 0, 0, 0, 0x61] ++ List.replicate 23 0
    let second := [2, 0, 0, 0, 0x62] ++ List.replicate 23 0
    let view : View :=
      .ofBytes (head ++ [1, 0, 0, 0] ++ first ++ [0, 0, 0, 0] ++ second ++ [0x58, 0x59])
    ∃ a, parse view = .ok a ∧ ¬ Consecutive (filesOffset a.entries.length) a.entries ∧
      a.write = .ok (head ++ [0, 0, 0, 0] ++ first ++ [1, 0, 0, 0] ++ second ++ [0x59, 0x58]) ∧
      a.write ≠ .ok (view.bytes.take 8 ++ List.replicate 8 0 ++ view.bytes.drop 16) := by
  intro head first second view
  obtain ⟨a, ha, hapart, hwrite⟩ : ∃ a ∈ (parse view).toOption,
      ¬ Consecutive (filesOffset a.entries.length) a.entries ∧ a.write.toOption =
        some (head ++ [0, 0, 0, 0] ++ first ++ [1, 0, 0, 0] ++ second ++ [0x59, 0x58]) := by
    decide +kernel
  have hparse := ok_of_toOption ha
  refine ⟨a, hparse, hapart, ok_of_toOption hwrite, ?_⟩
  rw [ne_eq, write_eq_zeroed_iff hparse]
  exact fun h => hapart h.1

end Archive

end NovelScript
