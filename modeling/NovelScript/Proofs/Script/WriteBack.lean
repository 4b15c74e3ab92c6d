import NovelScript.Proofs.Script.Layout

/-! # Writing script files back

A file is written back with the tables of conversations and filenames side by side and all bodies
behind them. Reading asks for less: the tables only have to end where the header and the first body
say, and bytes may be left over between them. So a file is written back as it was read if and only
if its first body starts where its tables end. -/

namespace NovelScript

namespace Script

/-! ## Chunks that were read -/

/-- Chunks that lie one behind the other in a view, from the first of their offsets up to `stop`. -/
structure Successive (view : View) (stop : Nat) (offsets : List Nat) (chunks : List View) :
    Prop where
  places : chunks.map View.offset = offsets.map (view.offset + ·)
  bodies : view.Holds (offsets.headD stop) (chunks.map View.bytes).flatten
  starts : bodyOffsets (offsets.headD stop) (chunks.map View.bytes) = offsets
  ends : offsets.headD stop + (chunks.map View.bytes).flatten.length = stop

variable {view : View} {stop : Nat} {offsets more : List Nat} {chunks others : List View}

theorem Successive.nil (hstop : stop ≤ view.length) : Successive view stop [] [] where
  places := rfl
  bodies := View.holds_nil hstop
  starts := rfl
  ends := rfl

theorem Successive.cons {start : Nat} {chunk : View}
    (hplace : chunk.offset = view.offset + start) (hchunk : view.Holds start chunk.bytes)
    (hnext : start + chunk.bytes.length = offsets.headD stop)
    (h : Successive view stop offsets chunks) :
    Successive view stop (start :: offsets) (chunk :: chunks) where
  places := by rw [List.map_cons, List.map_cons, hplace, h.places]
  bodies := by
    rw [List.map_cons, List.flatten_cons]
    refine hchunk.append ?_
    rw [hnext]
    exact h.bodies
  starts := by
    rw [List.map_cons, List.headD_cons, bodyOffsets, hnext, h.starts]
  ends := by
    have hends := h.ends
    rw [List.map_cons, List.flatten_cons, List.length_append, List.headD_cons]
    omega

theorem Successive.append (h : Successive view (more.headD stop) offsets chunks)
    (h' : Successive view stop more others) :
    Successive view stop (offsets ++ more) (chunks ++ others) := by
  have hhead : (offsets ++ more).headD stop = offsets.headD (more.headD stop) := by
    cases offsets with
    | nil => rfl
    | cons offset offsets => rfl
  have hmiddle := h.ends
  have hends := h'.ends
  refine ⟨?_, ?_, ?_, ?_⟩
  · rw [List.map_append, List.map_append, h.places, h'.places]
  · rw [List.map_append, List.flatten_append, hhead]
    refine h.bodies.append ?_
    rw [hmiddle]
    exact h'.bodies
  · rw [List.map_append, bodyOffsets_append, hhead, h.starts, hmiddle, h'.starts]
  · rw [List.map_append, List.flatten_append, List.length_append, hhead]
    omega

theorem Successive.length_eq (h : Successive view stop offsets chunks) :
    chunks.length = offsets.length := by
  have hlength := congrArg List.length h.places
  rwa [List.length_map, List.length_map] at hlength

theorem successive_of_chunks (hbuffer : view.buffer.data.size ≤ maxAddress)
    (hstop : stop ≤ view.length) (h : Script.chunks view offsets stop = .ok chunks) :
    Successive view stop offsets chunks ∧ offsets.headD stop ≤ view.length := by
  rw [Script.chunks] at h
  generalize 0 = index at h
  induction offsets generalizing index chunks with
  | nil =>
    cases h
    exact ⟨.nil hstop, hstop⟩
  | cons start offsets ih =>
    rw [chunksFrom] at h
    split at h
    · cases h
    · rename_i hin
      obtain ⟨chunk, hchunk, h⟩ := exceptBind_eq_ok h
      obtain ⟨others, hothers, h⟩ := exceptBind_eq_ok h
      cases h
      have hstart : start ≤ view.length := by omega
      obtain ⟨hplace, hholds, hlength⟩ := View.holds_of_sub hchunk hbuffer hstart
      exact ⟨.cons hplace hholds (by omega) (ih _ hothers).1, hstart⟩

/-! ## Tables that were read -/

open Reader

/-- Entries that were read up to a place `stop` bytes behind the start of a view end there at the
latest. -/
theorem holds_of_entries {start : Nat} {dropped : Nat → Nat} {c : Cursor}
    (h : (pos >>= fun pos =>
      if stop + view.offset < pos then fail (.container (.tableEnd pos (stop + view.offset)))
      else nats entrySize ((stop + view.offset - pos) / entrySize - dropped pos)).runOn
        (.within view start) = (.ok offsets, c)) (hstart : start ≤ view.length) :
    view.Holds start (Contents.table offsets) ∧ (∀ offset ∈ offsets, offset < 256 ^ entrySize) ∧
      start + entrySize * offsets.length ≤ stop := by
  obtain ⟨pos, c₁, hpos, h⟩ := runOn_bind_ok h
  cases hpos
  split at h
  · cases (Prod.mk.inj h).1
  rename_i hstop
  obtain ⟨hcount, hholds, hfits⟩ := holds_of_nats h hstart
  have hle : entrySize * offsets.length ≤
      stop + view.offset - (Cursor.within view start).pos := by
    rw [hcount]
    exact Nat.le_trans (Nat.mul_le_mul_left _ (Nat.sub_le _ _)) (Nat.mul_div_le _ _)
  simp only [Cursor.within] at hle hstop
  exact ⟨hholds, hfits, by omega⟩

/-- A table that was read ends no later than the limit says that was given, or than its first entry
says. It may end earlier: the last few bytes need not make up an entry. -/
theorem holds_of_readOffsets {start : Nat} {limit : Option Nat} {heuristic : Bool} {c : Cursor}
    (h : (readOffsets view.offset limit heuristic).runOn (.within view start) = (.ok offsets, c))
    (hstart : start ≤ view.length) :
    view.Holds start (Contents.table offsets) ∧ (∀ offset ∈ offsets, offset < 256 ^ entrySize) ∧
      ∀ stop ∈ limit.or offsets.head?, start + entrySize * offsets.length ≤ stop := by
  cases limit with
  | some limit =>
    rw [readOffsets] at h
    obtain ⟨stop, c₁, hlimit, h⟩ := runOn_bind_ok h
    cases hlimit
    obtain ⟨hholds, hfits, hend⟩ := holds_of_entries h hstart
    exact ⟨hholds, hfits, fun stop hstop => by cases hstop; exact hend⟩
  | none =>
    rw [readOffsets] at h
    obtain ⟨stop, c₁, hlimit, h⟩ := runOn_bind_ok h
    obtain rfl := (Prod.mk.inj hlimit).2
    obtain ⟨hholds, hfits, hend⟩ := holds_of_entries h hstart
    refine ⟨hholds, hfits, ?_⟩
    cases offsets with
    | nil => exact fun stop hstop => by cases hstop
    | cons first offsets =>
      -- the entry that was looked at is the first one of the table
      rw [Contents.table, List.flatMap_cons] at hholds
      have hfirst := runOn_peek (runOn_nat hholds.left (hfits _ List.mem_cons_self))
      rw [hlimit] at hfirst
      cases hfirst
      exact fun stop hstop => by cases hstop; exact hend

/-- The conversations and filenames that were read lie one behind the other up to the end of the
file. If the first of them starts where tables of their number end, the tables lie side by side. -/
theorem successive_of_readTables (hbuffer : view.buffer.data.size ≤ maxAddress)
    {options : ParseOptions} {convTable filenameTable : Nat} {convs filenames : List View}
    {c c' : Cursor} (hfilenameTable : filenameTable ≤ view.length)
    (h : (readTables view options convTable filenameTable).runOn c =
      (.ok (convs, filenames), c')) :
    ∃ offsets, Successive view view.length offsets (convs ++ filenames) ∧
      (∀ offset ∈ offsets, offset < 256 ^ entrySize) ∧
      (offsets.headD view.length = convTable + entrySize * offsets.length →
        view.Holds convTable (Contents.table offsets)) := by
  rw [readTables] at h
  split at h
  · rename_i hnone
    cases h
    exact ⟨[], .nil (Nat.le_refl _), List.forall_mem_nil _,
      fun _ => View.holds_nil (Nat.le_of_eq hnone)⟩
  obtain ⟨_, c₁, hseek, h⟩ := runOn_bind_ok h
  obtain ⟨hconvTable, rfl⟩ := le_of_seek hseek
  obtain ⟨convOffsets, c₂, hconvOffsets, h⟩ := runOn_bind_ok h
  obtain ⟨hconvHolds, hconvFits, hconvEnd⟩ := holds_of_readOffsets hconvOffsets hconvTable
  have hbefore : convTable + entrySize * convOffsets.length ≤ filenameTable := hconvEnd _ rfl
  split at h
  · obtain ⟨chunks, c₃, hchunks, h⟩ := runOn_bind_ok h
    cases h
    obtain ⟨hconvs, -⟩ := successive_of_chunks hbuffer (Nat.le_refl _) (Prod.mk.inj hchunks).1
    rw [List.append_nil]
    exact ⟨convOffsets, hconvs, hconvFits, fun _ => hconvHolds⟩
  · obtain ⟨_, c₃, hseek, h⟩ := runOn_bind_ok h
    obtain ⟨-, rfl⟩ := le_of_seek hseek
    obtain ⟨filenameOffsets, c₄, hfilenameOffsets, h⟩ := runOn_bind_ok h
    obtain ⟨hholds, hfits, hend⟩ := holds_of_readOffsets hfilenameOffsets hfilenameTable
    obtain ⟨fchunks, c₅, hfchunks, h⟩ := runOn_bind_ok h
    obtain ⟨cchunks, c₆, hcchunks, h⟩ := runOn_bind_ok h
    cases h
    obtain ⟨hfilenames, hfirst⟩ :=
      successive_of_chunks hbuffer (Nat.le_refl _) (Prod.mk.inj hfchunks).1
    obtain ⟨hconvs, -⟩ := successive_of_chunks hbuffer hfirst (Prod.mk.inj hcchunks).1
    refine ⟨convOffsets ++ filenameOffsets, hconvs.append hfilenames, ?_, ?_⟩
    · intro offset hoffset
      rcases List.mem_append.mp hoffset with hoffset | hoffset
      · exact hconvFits offset hoffset
      · exact hfits offset hoffset
    · intro htight
      rw [Contents.table, List.flatMap_append]
      refine hconvHolds.append ?_
      rw [length_table]
      cases filenameOffsets with
      | nil => exact View.holds_nil (by omega)
      | cons offset filenameOffsets =>
        -- the second table starts behind the first and ends in front of the first body, so there is
        -- room for it at one place only
        have hplace : filenameTable = convTable + entrySize * convOffsets.length := by
          rw [List.length_append, Nat.mul_add] at htight
          cases convOffsets with
          | nil =>
            have := hend offset rfl
            simp only [List.nil_append, List.headD_cons] at htight
            omega
          | cons first convOffsets =>
            have := hend first rfl
            simp only [List.cons_append, List.headD_cons] at htight
            omega
        rw [← hplace]
        exact hholds

/-- A file that could be read keeps its view; its conversations and filenames fill the end of it. -/
theorem successive_of_parse (hbuffer : view.buffer.data.size ≤ maxAddress) {name : String}
    {title : Title} {options : ParseOptions} {s : Script}
    (h : parse view name title options = .ok s) :
    s.view = view ∧ s.tablesOffset ≤ view.length ∧
    ∃ offsets, Successive view view.length offsets (s.convs ++ s.filenames) ∧
      (∀ offset ∈ offsets, offset < 256 ^ entrySize) ∧
      (offsets.headD view.length = s.tablesOffset + entrySize * offsets.length →
        view.Holds s.tablesOffset (Contents.table offsets)) := by
  have hread : (read view name title options).runOn (.ofView view) =
      (.ok s, ((read view name title options).runOn (.ofView view)).2) := Prod.ext h rfl
  rw [read] at hread
  obtain ⟨_, c₁, -, hread⟩ := runOn_bind_ok hread
  obtain ⟨convTable, c₂, -, hread⟩ := runOn_bind_ok hread
  obtain ⟨filenameTable, c₃, -, hread⟩ := runOn_bind_ok hread
  split at hread
  · cases (Prod.mk.inj hread).1
  rename_i hinside
  obtain ⟨eventOffsets, c₄, -, hread⟩ := runOn_bind_ok hread
  obtain ⟨events, c₅, -, hread⟩ := runOn_bind_ok hread
  obtain ⟨⟨convs, filenames⟩, c₆, htables, hread⟩ := runOn_bind_ok hread
  cases (Prod.mk.inj hread).1
  have hconvTable : convTable ≤ view.length := by omega
  exact ⟨rfl, hconvTable, successive_of_readTables hbuffer (by omega) htables⟩

/-! ## Writing -/

section Writing

variable {s : Script}

/-- The bodies of the conversations and filenames. -/
def bodies (s : Script) : List Bytes := (s.convs ++ s.filenames).map View.bytes

/-- Where the tables of conversations and filenames end if they lie side by side. -/
def tablesEnd (s : Script) : Nat := s.tablesOffset + entrySize * (s.convs ++ s.filenames).length

/-- Where the first conversation starts, or the first filename if there are no conversations; the
end of the file if there are none either. -/
def firstBody (s : Script) : Nat := ((s.convs ++ s.filenames).map View.offset).headD s.view.stop

/-- Where the bodies start if they lie behind tables side by side. -/
def bodyStarts (s : Script) : List Nat := bodyOffsets s.tablesEnd s.bodies

theorem write_eq (hbuffer : s.view.buffer.data.size ≤ maxAddress)
    (htables : s.tablesOffset ≤ s.view.length) :
    s.write =
      match s.bodyStarts.find? (UInt32.size ≤ ·) with
      | some offset => .error (.container (.offsetTooLarge offset))
      | none => .ok (s.view.bytes.take s.tablesOffset ++ Contents.table s.bodyStarts ++
          s.bodies.flatten) := by
  have hcount : s.bodies.length = (s.convs ++ s.filenames).length := List.length_map _
  obtain ⟨hholds, hlength⟩ :=
    s.view.holds_between (show 0 + s.tablesOffset ≤ s.view.length by omega)
  obtain ⟨head, hhead, hbytes⟩ := hholds.sub hbuffer
  rw [hlength] at hhead
  rw [List.drop_zero] at hbytes
  rw [write, hhead, bodyStarts, tablesEnd, ← hcount, ← hbytes]
  rfl

/-- A file that is written is as long as what lies up to its tables, the tables and the bodies. -/
theorem length_of_write (hbuffer : s.view.buffer.data.size ≤ maxAddress)
    (htables : s.tablesOffset ≤ s.view.length) {bytes : Bytes} (h : s.write = .ok bytes) :
    bytes.length = s.tablesEnd + s.bodies.flatten.length := by
  rw [write_eq hbuffer htables] at h
  split at h
  · cases h
  · cases h
    have hcount : s.bodies.length = (s.convs ++ s.filenames).length := List.length_map _
    rw [List.length_append, List.length_append, length_table, bodyStarts, length_bodyOffsets,
      List.length_take, s.view.length_bytes, Nat.min_eq_left htables, tablesEnd, hcount]

/-- A file whose first body starts where its tables end is written as it is. -/
theorem write_of_successive (hbuffer : s.view.buffer.data.size ≤ maxAddress)
    (htables : s.tablesOffset ≤ s.view.length) {offsets : List Nat}
    (h : Successive s.view s.view.length offsets (s.convs ++ s.filenames))
    (hfits : ∀ offset ∈ offsets, offset < 256 ^ entrySize)
    (hholds : s.view.Holds s.tablesOffset (Contents.table offsets))
    (htight : offsets.headD s.view.length = s.tablesEnd) : s.write = .ok s.view.bytes := by
  have hstarts : s.bodyStarts = offsets := by
    have hstarts := h.starts
    rwa [htight] at hstarts
  have hsmall : s.bodyStarts.find? (UInt32.size ≤ ·) = none := by
    rw [List.find?_eq_none, hstarts]
    intro offset hoffset
    simpa [UInt32.size, entrySize] using hfits offset hoffset
  obtain ⟨hhead, hlength⟩ :=
    s.view.holds_between (show 0 + s.tablesOffset ≤ s.view.length by omega)
  rw [List.drop_zero] at hhead hlength
  have htable : s.view.Holds 0 (s.view.bytes.take s.tablesOffset ++ Contents.table s.bodyStarts) := by
    refine hhead.append ?_
    rw [hlength, Nat.zero_add, hstarts]
    exact hholds
  have hend : (s.view.bytes.take s.tablesOffset ++ Contents.table s.bodyStarts).length =
      s.tablesEnd := by
    rw [List.length_append, hlength, length_table, hstarts, ← h.length_eq, tablesEnd]
  have hbodies := h.bodies
  have hwhole := h.ends
  rw [htight] at hbodies hwhole
  rw [write_eq hbuffer htables, hsmall]
  refine congrArg Except.ok (View.Holds.eq_bytes (htable.append ?_) ?_)
  · rw [hend, Nat.zero_add]
    exact hbodies
  · rw [List.length_append, hend]
    exact hwhole

end Writing

/-- A file that could be read is written as it was read if and only if its first body starts where
its tables end. -/
theorem write_eq_bytes_iff {view : View} (hbuffer : view.buffer.data.size ≤ maxAddress)
    {name : String} {title : Title} {options : ParseOptions} {s : Script}
    (hparse : parse view name title options = .ok s) :
    s.write = .ok view.bytes ↔ s.firstBody = view.offset + s.tablesEnd := by
  obtain ⟨rfl, htables, offsets, hchunks, hfits, hholds⟩ := successive_of_parse hbuffer hparse
  have hends := hchunks.ends
  have hfirst : s.firstBody = s.view.offset + offsets.headD s.view.length := by
    rw [firstBody, hchunks.places]
    cases offsets with
    | nil => rfl
    | cons offset offsets => rfl
  constructor
  · intro hwrite
    have hlength := length_of_write hbuffer htables hwrite
    rw [s.view.length_bytes, bodies] at hlength
    omega
  · intro htight
    have htight : offsets.headD s.view.length = s.tablesEnd := by omega
    have hcount : s.tablesEnd = s.tablesOffset + entrySize * offsets.length := by
      rw [tablesEnd, hchunks.length_eq]
    exact write_of_successive hbuffer htables hchunks hfits (hholds (htight.trans hcount)) htight

/-- A file with a byte between its tables and its first body is written without that byte. -/
theorem write_drops_byte_behind_tables :
    let view : View := .ofBytes [0x53, 0x43, 0x33, 0x00, 18, 0, 0, 0, 22, 0, 0, 0, 16, 0, 0, 0,
      0x00, 0x06, 27, 0, 0, 0, 28, 0, 0, 0, 0x00, 0x02, 0x41]
    ∃ s, parse view "op00" .ever17 .default = .ok s ∧ s.firstBody = 27 ∧ s.tablesEnd = 26 ∧
      s.write = .ok [0x53, 0x43, 0x33, 0x00, 18, 0, 0, 0, 22, 0, 0, 0, 16, 0, 0, 0,
        0x00, 0x06, 26, 0, 0, 0, 27, 0, 0, 0, 0x02, 0x41] ∧
      s.write ≠ .ok view.bytes := by
  intro view
  obtain ⟨s, hs, hfirst, hend, hwrite⟩ : ∃ s ∈ (parse view "op00" .ever17 .default).toOption,
      s.firstBody = 27 ∧ s.tablesEnd = 26 ∧
      s.write.toOption = some [0x53, 0x43, 0x33, 0x00, 18, 0, 0, 0, 22, 0, 0, 0, 16, 0, 0, 0,
        0x00, 0x06, 26, 0, 0, 0, 27, 0, 0, 0, 0x02, 0x41] := by
    decide +kernel
  have hparse := ok_of_toOption hs
  refine ⟨s, hparse, hfirst, hend, ok_of_toOption hwrite, ?_⟩
  rw [ne_eq, write_eq_bytes_iff (by decide) hparse, hfirst, hend]
  decide

end Script

end NovelScript
