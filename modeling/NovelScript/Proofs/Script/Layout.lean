import NovelScript.Proofs.Bytes.Content
import NovelScript.Script

/-! # The layout of script files

The bytes of a script file in which nothing overlaps and nothing is left out: the header, the event
table, the event bodies, the tables of conversations and filenames, and their bodies. Wherever such
bytes lie in a buffer, they are parsed to the bodies that were laid out, and written as they are. -/

namespace NovelScript

namespace Script

/-- The bodies of the chunks of a script file. -/
structure Contents where
  events : List Bytes
  convs : List Bytes
  filenames : List Bytes
deriving DecidableEq, Repr

namespace Contents

variable (c : Contents)

/-- The table whose entries are the offsets. -/
def table (offsets : List Nat) : Bytes := offsets.flatMap (Bytes.ofNatLE entrySize)

/-- The length of the magic number and the two offsets behind it. -/
def headerSize : Nat := magic.length + 2 * entrySize

/-- Where the event bodies start. -/
def eventBodies : Nat := headerSize + entrySize * c.events.length

/-- Where the table of conversations starts. -/
def convTable : Nat := c.eventBodies + c.events.flatten.length

/-- Where the table of filenames starts. -/
def filenameTable : Nat := c.convTable + entrySize * c.convs.length

/-- Where the conversation bodies start. -/
def convBodies : Nat := c.filenameTable + entrySize * c.filenames.length

/-- Where the filenames start. -/
def filenameBodies : Nat := c.convBodies + c.convs.flatten.length

/-- The offsets of the event bodies. -/
def eventOffsets : List Nat := bodyOffsets c.eventBodies c.events

/-- The offsets of the conversation bodies. -/
def convOffsets : List Nat := bodyOffsets c.convBodies c.convs

/-- The offsets of the filenames. -/
def filenameOffsets : List Nat := bodyOffsets c.filenameBodies c.filenames

/-- The bytes up to the table of conversations. -/
def head : Bytes :=
  magic ++ (Bytes.ofNatLE entrySize c.convTable ++ (Bytes.ofNatLE entrySize c.filenameTable ++
    (table c.eventOffsets ++ c.events.flatten)))

/-- The bytes of the script file. Without conversations and filenames both offsets in the header
point to the end. -/
def image : Bytes :=
  c.head ++ (table c.convOffsets ++ (table c.filenameOffsets ++
    (c.convs.flatten ++ c.filenames.flatten)))

end Contents

/-! ## Offsets of bodies -/

theorem length_bodyOffsets (start : Nat) (bodies : List Bytes) :
    (bodyOffsets start bodies).length = bodies.length := by
  induction bodies generalizing start with
  | nil => rfl
  | cons body bodies ih => rw [bodyOffsets, List.length_cons, List.length_cons, ih]

theorem bodyOffsets_append (start : Nat) (bodies more : List Bytes) :
    bodyOffsets start (bodies ++ more) =
      bodyOffsets start bodies ++ bodyOffsets (start + bodies.flatten.length) more := by
  induction bodies generalizing start with
  | nil => rfl
  | cons body bodies ih =>
    simp only [List.cons_append, bodyOffsets, ih, List.flatten_cons, List.length_append,
      Nat.add_assoc]

/-- No body starts behind the end of all. -/
theorem le_of_mem_bodyOffsets {start offset : Nat} {bodies : List Bytes}
    (h : offset ∈ bodyOffsets start bodies) : offset ≤ start + bodies.flatten.length := by
  induction bodies generalizing start with
  | nil => cases h
  | cons body bodies ih =>
    rw [List.flatten_cons, List.length_append]
    rcases List.mem_cons.mp h with rfl | h
    · omega
    · have := ih h
      omega

/-- The first of the bodies that are left starts where the one before it ended. -/
theorem headD_bodyOffsets (start : Nat) (bodies : List Bytes) :
    (bodyOffsets start bodies).headD (start + bodies.flatten.length) = start := by
  cases bodies with
  | nil => rfl
  | cons body bodies => rfl

theorem head?_bodyOffsets {start : Nat} {bodies : List Bytes} (h : bodies ≠ []) :
    (bodyOffsets start bodies).head? = some start := by
  cases bodies with
  | nil => exact absurd rfl h
  | cons body bodies => rfl

theorem length_table (offsets : List Nat) :
    (Contents.table offsets).length = entrySize * offsets.length := by
  induction offsets with
  | nil => rfl
  | cons offset offsets ih =>
    rw [Contents.table, List.flatMap_cons, List.length_append, Bytes.length_ofNatLE,
      List.length_cons, Nat.mul_succ, ← ih, Contents.table]
    omega

/-! ## Reading tables and chunks -/

section Reading

open Reader

variable {view : View} {start : Nat}

/-- A table is read up to the limit that is given, or up to where its first entry points to. -/
theorem runOn_readOffsets {offsets : List Nat} (h : view.Holds start (Contents.table offsets))
    (hfits : ∀ offset ∈ offsets, offset < 256 ^ entrySize) (limit : Option Nat)
    (hlimit : limit.or offsets.head? = some (start + entrySize * offsets.length))
    (heuristic : Bool) :
    (readOffsets view.offset limit heuristic).runOn (.within view start) =
      (.ok offsets, .within view (start + entrySize * offsets.length)) := by
  have hpos : pos.runOn (.within view start) =
      (.ok (view.offset + start), .within view start) := rfl
  have hstart : ¬ start + entrySize * offsets.length + view.offset < view.offset + start := by omega
  have hspan : start + entrySize * offsets.length + view.offset - (view.offset + start) =
      entrySize * offsets.length := by omega
  have hentries : ∀ {dropped : Nat}, dropped = 0 →
      (nats entrySize ((start + entrySize * offsets.length + view.offset - (view.offset + start)) /
        entrySize - dropped)).runOn (.within view start) =
        (.ok offsets, .within view (start + entrySize * offsets.length)) := by
    rintro _ rfl
    rw [hspan, Nat.mul_div_cancel_left _ (by decide), Nat.sub_zero]
    exact runOn_nats h hfits
  cases limit with
  | some limit =>
    obtain rfl := Option.some.inj hlimit
    have hstop : (pure (start + entrySize * offsets.length) : Reader Nat).runOn
        (.within view start) = (.ok (start + entrySize * offsets.length), .within view start) := rfl
    rw [readOffsets, runOn_bind_of_ok hstop, runOn_bind_of_ok hpos, if_neg hstart]
    exact hentries rfl
  | none =>
    have hstop : (peek (nat entrySize)).runOn (.within view start) =
        (.ok (start + entrySize * offsets.length), .within view start) := by
      cases offsets with
      | nil => cases hlimit
      | cons offset offsets =>
        rw [Contents.table, List.flatMap_cons] at h
        have hfirst := runOn_nat h.left (hfits _ List.mem_cons_self)
        rw [Option.some.inj hlimit] at hfirst
        exact runOn_peek hfirst
    rw [readOffsets, runOn_bind_of_ok hstop, runOn_bind_of_ok hpos, if_neg hstart]
    exact hentries (by simp [hspan])

/-- The chunks between the offsets of bodies are the bodies. -/
theorem chunksFrom_bodyOffsets (hbuffer : view.buffer.data.size ≤ maxAddress)
    {bodies : List Bytes} (h : view.Holds start bodies.flatten) (index : Nat) :
    ∃ chunks, chunksFrom view (start + bodies.flatten.length) index (bodyOffsets start bodies) =
        .ok chunks ∧ chunks.map View.bytes = bodies := by
  induction bodies generalizing start index with
  | nil => exact ⟨[], rfl, rfl⟩
  | cons body bodies ih =>
    rw [List.flatten_cons] at h
    have hle := h.left.le_length
    obtain ⟨chunk, hchunk, hbytes⟩ := h.left.sub hbuffer
    obtain ⟨others, hothers, hrest⟩ := ih h.right (index + 1)
    have hstop : start + (body :: bodies).flatten.length =
        start + body.length + bodies.flatten.length := by
      rw [List.flatten_cons, List.length_append, Nat.add_assoc]
    refine ⟨chunk :: others, ?_, by rw [List.map_cons, hbytes, hrest]⟩
    rw [hstop, bodyOffsets, chunksFrom, headD_bodyOffsets]
    rw [if_neg (show ¬ (start + body.length < start ∨ view.length < start + body.length) by omega),
      Nat.add_sub_cancel_left, hchunk, hothers]
    rfl

end Reading

/-! ## Files -/

namespace Contents

variable (c : Contents)

theorem length_eventOffsets : c.eventOffsets.length = c.events.length :=
  length_bodyOffsets _ _

theorem length_convOffsets : c.convOffsets.length = c.convs.length :=
  length_bodyOffsets _ _

theorem length_filenameOffsets : c.filenameOffsets.length = c.filenames.length :=
  length_bodyOffsets _ _

theorem length_head : c.head.length = c.convTable := by
  simp only [head, List.length_append, Bytes.length_ofNatLE, length_table, length_eventOffsets,
    convTable, eventBodies, headerSize]
  omega

theorem length_image : c.image.length = c.filenameBodies + c.filenames.flatten.length := by
  simp only [image, List.length_append, length_head, length_table, length_convOffsets,
    length_filenameOffsets, filenameBodies, convBodies, filenameTable]
  omega

end Contents

/-- The parts of a laid-out file, each at its place in a view. -/
structure Laid (view : View) (c : Contents) : Prop where
  head : view.Holds 0 c.head
  convOffsets : view.Holds c.convTable (Contents.table c.convOffsets)
  filenameOffsets : view.Holds c.filenameTable (Contents.table c.filenameOffsets)
  convs : view.Holds c.convBodies c.convs.flatten
  filenames : view.Holds c.filenameBodies c.filenames.flatten
  length : view.length = c.filenameBodies + c.filenames.flatten.length

theorem laid_of_image {view : View} {c : Contents} (h : view.bytes = c.image) : Laid view c := by
  have hwhole := view.holds_bytes
  rw [h, Contents.image] at hwhole
  have htables := hwhole.right
  rw [c.length_head, Nat.zero_add] at htables
  have hfilenames := htables.right
  rw [length_table, c.length_convOffsets] at hfilenames
  have hbodies := hfilenames.right
  rw [length_table, c.length_filenameOffsets] at hbodies
  refine ⟨hwhole.left, htables.left, hfilenames.left, hbodies.left, hbodies.right, ?_⟩
  rw [← c.length_image, ← h, View.length_bytes]

section File

open Reader

variable {view : View} {c : Contents}

/-- Where bodies lie inside a file, their offsets fit into the entries of a table. -/
theorem bodyOffsets_lt (hsize : view.length < 256 ^ entrySize) {start : Nat}
    {bodies : List Bytes} (h : view.Holds start bodies.flatten) :
    ∀ offset ∈ bodyOffsets start bodies, offset < 256 ^ entrySize := by
  intro offset hoffset
  have hle := le_of_mem_bodyOffsets hoffset
  have hinside := h.le_length
  omega

/-- The table of filenames ends where the bodies start: at the first conversation, or at the first
filename if there are no conversations. -/
theorem Laid.filenames_limit (h : Laid view c) (hsome : c.convTable ≠ view.length) :
    c.convOffsets.head?.or c.filenameOffsets.head? =
      some (c.filenameTable + entrySize * c.filenameOffsets.length) := by
  rw [c.length_filenameOffsets]
  by_cases hconvs : c.convs = []
  · have hfilenames : c.filenames ≠ [] := by
      intro hfilenames
      apply hsome
      rw [h.length]
      simp [Contents.filenameBodies, Contents.convBodies, Contents.filenameTable, hconvs,
        hfilenames]
    have hstart : c.filenameBodies = c.filenameTable + entrySize * c.filenames.length := by
      simp [Contents.filenameBodies, Contents.convBodies, hconvs]
    rw [Contents.convOffsets, hconvs, Contents.filenameOffsets, head?_bodyOffsets hfilenames,
      hstart]
    rfl
  · rw [Contents.convOffsets, head?_bodyOffsets hconvs]
    rfl

/-- The tables of conversations and filenames are read to their chunks, whichever of them are
there. -/
theorem Laid.readTables (h : Laid view c) (hbuffer : view.buffer.data.size ≤ maxAddress)
    (hsize : view.length < 256 ^ entrySize) (options : ParseOptions) (cursor : Cursor) :
    ∃ convs filenames after,
      (readTables view options c.convTable c.filenameTable).runOn cursor =
        (.ok (convs, filenames), after) ∧
      convs.map View.bytes = c.convs ∧ filenames.map View.bytes = c.filenames := by
  have hlength := h.length
  simp only [Contents.filenameBodies, Contents.convBodies, Contents.filenameTable,
    entrySize] at hlength
  rw [Script.readTables]
  by_cases hnone : c.convTable = view.length
  · rw [if_pos hnone]
    have hconvs : c.convs = [] := List.length_eq_zero_iff.mp (by omega)
    have hfilenames : c.filenames = [] := List.length_eq_zero_iff.mp (by omega)
    exact ⟨[], [], cursor, rfl, hconvs.symm, hfilenames.symm⟩
  · have hconvOffsets := runOn_readOffsets h.convOffsets (bodyOffsets_lt hsize h.convs)
      (some c.filenameTable) (by rw [c.length_convOffsets]; rfl) options.alignmentHeuristic
    obtain ⟨convs, hconvs, hconvBytes⟩ := chunksFrom_bodyOffsets hbuffer h.convs 0
    rw [if_neg hnone, runOn_bind_of_ok (runOn_seek (by omega) cursor),
      runOn_bind_of_ok hconvOffsets]
    by_cases hlast : c.filenameTable = view.length
    · -- the file ends with the table of conversations, all of which are empty
      have hfilenames : c.filenames = [] := by
        apply List.length_eq_zero_iff.mp
        simp only [Contents.filenameTable, entrySize] at hlast
        omega
      have hstop : c.convBodies + c.convs.flatten.length = view.length := by
        rw [h.length, hfilenames]
        rfl
      have hchunks : (Reader.lift (chunks view c.convOffsets view.length)).runOn
          (.within view (c.convTable + entrySize * c.convOffsets.length)) =
          (.ok convs, .within view (c.convTable + entrySize * c.convOffsets.length)) := by
        rw [← hstop, chunks, Contents.convOffsets, hconvs]
        rfl
      rw [if_pos hlast, runOn_bind_of_ok hchunks]
      exact ⟨convs, [], _, rfl, hconvBytes, hfilenames.symm⟩
    · have hfilenameOffsets := runOn_readOffsets h.filenameOffsets
        (bodyOffsets_lt hsize h.filenames) _ (h.filenames_limit hnone) options.alignmentHeuristic
      obtain ⟨filenames, hfilenames, hfilenameBytes⟩ := chunksFrom_bodyOffsets hbuffer h.filenames 0
      have hstop : c.filenameOffsets.headD view.length = c.convBodies + c.convs.flatten.length := by
        rw [h.length, Contents.filenameOffsets, headD_bodyOffsets, Contents.filenameBodies]
      have hfilenameChunks : ∀ after, (Reader.lift (chunks view c.filenameOffsets
          view.length)).runOn after = (.ok filenames, after) := by
        intro after
        rw [h.length, chunks, Contents.filenameOffsets, hfilenames]
        rfl
      have hconvChunks : ∀ after, (Reader.lift (chunks view c.convOffsets
          (c.filenameOffsets.headD view.length))).runOn after = (.ok convs, after) := by
        intro after
        rw [hstop, chunks, Contents.convOffsets, hconvs]
        rfl
      have hinside : c.filenameTable ≤ view.length := by
        have := h.filenameOffsets.le_length
        omega
      rw [if_neg hlast, runOn_bind_of_ok (runOn_seek hinside _), runOn_bind_of_ok hfilenameOffsets,
        runOn_bind_of_ok (hfilenameChunks _), runOn_bind_of_ok (hconvChunks _)]
      exact ⟨convs, filenames, _, rfl, hconvBytes, hfilenameBytes⟩

/-- A laid-out file is parsed to its bodies. -/
theorem Laid.parse (h : Laid view c) (hbuffer : view.buffer.data.size ≤ maxAddress)
    (hsize : view.length < 256 ^ entrySize) (hevents : c.events ≠ []) (name : String)
    (title : Title) (options : ParseOptions) :
    ∃ events convs filenames,
      Script.parse view name title options =
        .ok ⟨name, title, view, options, c.convTable, events, convs, filenames⟩ ∧
      events.map View.bytes = c.events ∧ convs.map View.bytes = c.convs ∧
      filenames.map View.bytes = c.filenames := by
  have hconvTable := h.convOffsets.le_length
  have hfilenameTable := h.filenameOffsets.le_length
  have hmagic := runOn_mapFault (runOn_expect h.head.left) fun _ => .container (.noMagic name)
  have hfirst := runOn_nat h.head.right.left (by omega)
  have hsecond := runOn_nat h.head.right.right.left (by omega)
  have htable := h.head.right.right.right.left
  have hbodies := h.head.right.right.right.right
  simp only [Bytes.length_ofNatLE, length_table, c.length_eventOffsets] at hsecond htable hbodies
  have hstart : 0 + magic.length + entrySize + entrySize + entrySize * c.events.length =
      c.eventBodies := by
    simp only [Contents.eventBodies, Contents.headerSize]
    omega
  rw [hstart] at hbodies
  have hoffsets := runOn_readOffsets htable (bodyOffsets_lt hsize hbodies) none
    (by rw [c.length_eventOffsets, hstart]; exact head?_bodyOffsets hevents)
    options.alignmentHeuristic
  obtain ⟨events, hchunks, heventBytes⟩ := chunksFrom_bodyOffsets hbuffer hbodies 0
  have hevents : ∀ after, (Reader.lift (chunks view c.eventOffsets c.convTable)).runOn after =
      (.ok events, after) := by
    intro after
    rw [chunks, Contents.eventOffsets, Contents.convTable, hchunks]
    rfl
  obtain ⟨convs, filenames, after, htables, hconvBytes, hfilenameBytes⟩ :=
    h.readTables hbuffer hsize options (.within view
      (0 + magic.length + entrySize + entrySize + entrySize * c.eventOffsets.length))
  refine ⟨events, convs, filenames, ?_, heventBytes, hconvBytes, hfilenameBytes⟩
  have hofView : Cursor.ofView view = .within view 0 := rfl
  rw [Script.parse, read, hofView, runOn_bind_of_ok hmagic, runOn_bind_of_ok hfirst,
    runOn_bind_of_ok hsecond, if_neg (by omega), runOn_bind_of_ok hoffsets,
    runOn_bind_of_ok (hevents _), runOn_bind_of_ok htables]
  rfl

/-- A script file whose bodies lie as in a layout is written as the layout. -/
theorem Laid.write {s : Script} (h : Laid s.view c) (hbuffer : s.view.buffer.data.size ≤ maxAddress)
    (hsize : s.view.length < 256 ^ entrySize) (htables : s.tablesOffset = c.convTable)
    (hconvs : s.convs.map View.bytes = c.convs)
    (hfilenames : s.filenames.map View.bytes = c.filenames) : s.write = .ok c.image := by
  obtain ⟨head, hhead, hbytes⟩ := h.head.sub hbuffer
  rw [c.length_head] at hhead
  have hbodies : (s.convs ++ s.filenames).map View.bytes = c.convs ++ c.filenames := by
    rw [List.map_append, hconvs, hfilenames]
  have hstart : c.convTable + entrySize * (c.convs ++ c.filenames).length = c.convBodies := by
    rw [List.length_append, Nat.mul_add, Contents.convBodies, Contents.filenameTable, Nat.add_assoc]
  have hoffsets : bodyOffsets c.convBodies (c.convs ++ c.filenames) =
      c.convOffsets ++ c.filenameOffsets := bodyOffsets_append _ _ _
  have hfits : (c.convOffsets ++ c.filenameOffsets).find? (UInt32.size ≤ ·) = none := by
    rw [List.find?_eq_none]
    intro offset hoffset
    have hlt : offset < 256 ^ entrySize := by
      rcases List.mem_append.mp hoffset with hoffset | hoffset
      · exact bodyOffsets_lt hsize h.convs offset hoffset
      · exact bodyOffsets_lt hsize h.filenames offset hoffset
    simpa [UInt32.size, entrySize] using hlt
  rw [Script.write, htables, hhead]
  simp only [hbodies, hstart, hoffsets, hfits, Except.bind, bind, pure, Except.pure, hbytes,
    Contents.image, Contents.table, List.flatMap_append, List.flatten_append, List.append_assoc]

end File

/-- The bytes of a layout, wherever they lie in a buffer, are parsed to the bodies that were laid
out, in their order, and the parsed file is written as these bytes. A buffer has no more bytes than
there are addresses. -/
theorem parse_image_write {c : Contents} (hevents : c.events ≠ []) (hsize : c.image.length < 2 ^ 32)
    {view : View} (hview : view.bytes = c.image) (hbuffer : view.buffer.data.size ≤ maxAddress)
    (name : String) (title : Title) (options : ParseOptions) :
    ∃ s, parse view name title options = .ok s ∧ s.events.map View.bytes = c.events ∧
      s.convs.map View.bytes = c.convs ∧ s.filenames.map View.bytes = c.filenames ∧
      s.write = .ok c.image := by
  have hlaid := laid_of_image hview
  have hlength : view.length < 256 ^ entrySize := by
    rw [← view.length_bytes, hview]
    exact hsize
  obtain ⟨events, convs, filenames, hparse, hbytes, hconvs, hfilenames⟩ :=
    hlaid.parse hbuffer hlength hevents name title options
  exact ⟨_, hparse, hbytes, hconvs, hfilenames,
    hlaid.write hbuffer hlength rfl hconvs hfilenames⟩

/-- A file with an empty event chunk and an empty conversation, three bytes into a larger buffer. -/
theorem parse_image_write_empty_bodies :
    let c : Contents := ⟨[[0x10, 0x18], []], [[], [0x41, 0x02]], [[0x62, 0x67, 0x00]]⟩
    let view : View := ⟨⟨0, ([1, 2, 3] ++ c.image ++ [4, 5]).toArray⟩, 3, 39, by decide⟩
    ∃ s, parse view "op00" .ever17 .default = .ok s ∧ s.events.map View.bytes = c.events ∧
      s.convs.map View.bytes = c.convs ∧ s.filenames.map View.bytes = c.filenames ∧
      s.write = .ok c.image := by
  intro c view
  have hview : view.bytes = c.image := by decide
  exact parse_image_write (by decide) (by decide) hview (by decide) _ _ _

end Script

end NovelScript
