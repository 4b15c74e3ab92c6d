import NovelScript.Proofs.Bytes.Content
import NovelScript.Proofs.Save.Codec
import NovelScript.Save.Data

/-! # Saves are read back

Every save is written to a file from which the same save is read. Positions and counts in a save are
numbers of 64 bits; nothing else is asked of it than that its code is short enough for the length in
the header. -/

namespace NovelScript

/-! ## Slots -/

namespace Slots

theorem insertInto_of_lt {slot : Int64} {art : CharacterArt} {list : List (Int64 × CharacterArt)}
    (h : ∀ entry ∈ list, entry.1 < slot) : insertInto slot art list = list ++ [(slot, art)] := by
  induction list with
  | nil => rfl
  | cons entry list ih =>
    obtain ⟨other, a⟩ := entry
    have hlt : other < slot := h (other, a) List.mem_cons_self
    rw [insertInto, if_neg (Int64.lt_asymm hlt), if_neg (Int64.ne_of_lt hlt).symm,
      ih fun entry hentry => h entry (List.mem_cons_of_mem _ hentry)]
    rfl

/-- Pictures that are put in by ascending slots stand in the order in which they were put in. -/
theorem entries_foldl_insert {list : List (Int64 × CharacterArt)} {s : Slots}
    (h : (s.entries ++ list).Pairwise fun a b => a.1 < b.1) :
    (list.foldl (fun s (slot, art) => s.insert slot art) s).entries = s.entries ++ list := by
  induction list generalizing s with
  | nil => rw [List.foldl_nil, List.append_nil]
  | cons entry list ih =>
    obtain ⟨slot, art⟩ := entry
    have hbefore : ∀ entry ∈ s.entries, entry.1 < slot := fun entry hentry =>
      (List.pairwise_append.mp h).2.2 entry hentry (slot, art) List.mem_cons_self
    have hinserted : (s.insert slot art).entries = s.entries ++ [(slot, art)] :=
      insertInto_of_lt hbefore
    have happend : s.entries ++ (slot, art) :: list = (s.insert slot art).entries ++ list := by
      rw [hinserted, List.append_assoc, List.singleton_append]
    rw [List.foldl_cons, happend]
    exact ih (happend ▸ h)

theorem ofList_entries (s : Slots) : ofList s.entries = s := by
  have hentries : (ofList s.entries).entries = s.entries := entries_foldl_insert s.ordered
  cases h : ofList s.entries
  cases s
  simp_all

end Slots

/-! ## Numbers of a save -/

/-- The positions and counts of a state are numbers of 64 bits. -/
structure PlayState.InRange (s : PlayState) : Prop where
  chunk : s.chunk < UInt64.size
  token : s.token < UInt64.size
  conv : ∀ position ∈ s.conv, position.chunk < UInt64.size ∧ position.token < UInt64.size
  callFrame : ∀ frame ∈ s.callFrame, frame.chunk < UInt64.size ∧ frame.token < UInt64.size
  options : ∀ choice ∈ s.choice, ∀ option ∈ choice.options,
    option.index < UInt64.size ∧ option.candidate < UInt64.size
  candidates : ∀ choice ∈ s.choice, choice.candidates < UInt64.size
  chosen : ∀ choice ∈ s.choice, ∀ index ∈ choice.chosen, index < UInt64.size

/-- The positions and counts of a save are numbers of 64 bits. -/
structure SaveData.InRange (save : SaveData) : Prop where
  state : save.state.InRange
  backlogLength : save.backlogLength < UInt64.size

namespace SaveData

open Codec

theorem reads_rng (g : Pcg32) : rngCodec.Reads g :=
  ((reads_uint64 _).pair (reads_uint64 _)).mapping rfl

theorem reads_position {p : ConvPosition} (h : p.chunk < UInt64.size ∧ p.token < UInt64.size) :
    positionCodec.Reads p :=
  ((reads_nat64 h.1).pair (reads_nat64 h.2)).mapping rfl

theorem reads_frame {f : CallFrame} (h : f.chunk < UInt64.size ∧ f.token < UInt64.size) :
    frameCodec.Reads f :=
  ((reads_text _).pair ((reads_nat64 h.1).pair (reads_nat64 h.2))).mapping rfl

theorem reads_colour (c : Colour) : colourCodec.Reads c :=
  ((reads_byte _).pair ((reads_byte _).pair (reads_byte _))).mapping rfl

theorem reads_viewport (v : Viewport) : viewportCodec.Reads v := by
  intro hlength rest
  have htag : ∀ tag : Nat, tag < UInt32.size → ∀ rest,
      nat32.decode (encodeNat tag ++ rest) = some (tag, rest) :=
    fun _ h rest => decodeNat_encodeNat (by decide) h rest
  cases v with
  | full =>
    simp only [viewportCodec, htag 0 (by decide), Option.bind_eq_bind, Option.bind_some]
    rfl
  | rect x y w h =>
    simp only [viewportCodec, List.length_append] at hlength
    simp only [viewportCodec, List.append_assoc, htag 1 (by decide), Option.bind_eq_bind,
      Option.bind_some, reads_int64 x (by omega), reads_int64 y (by omega),
      reads_int64 w (by omega), reads_int64 h (by omega)]
    rfl
  | scroll y =>
    simp only [viewportCodec, List.length_append] at hlength
    simp only [viewportCodec, List.append_assoc, htag 2 (by decide), Option.bind_eq_bind,
      Option.bind_some, reads_int64 y (by omega)]
    rfl

theorem reads_background (b : Background) : backgroundCodec.Reads b :=
  ((Reads.option fun _ _ => reads_text _).pair
    ((Reads.option fun _ _ => reads_colour _).pair (reads_viewport _))).mapping rfl

theorem reads_character (c : CharacterArt) : characterCodec.Reads c :=
  ((reads_text _).pair (reads_int64 _)).mapping rfl

theorem reads_slots (s : Slots) : slotsCodec.Reads s := by
  refine Reads.mapping (Reads.list ?_ ?_) (congrArg some s.ofList_entries)
  · exact fun _ _ => (reads_int64 _).pair (reads_character _)
  · exact fun _ _ => List.append_ne_nil_of_left_ne_nil (encodeNat_ne_nil _) _

theorem reads_choiceOption {o : ChoiceOption}
    (h : o.index < UInt64.size ∧ o.candidate < UInt64.size) : optionCodec.Reads o :=
  ((reads_text _).pair ((reads_nat64 h.1).pair (reads_nat64 h.2))).mapping rfl

theorem optionCodec_encode_ne_nil (o : ChoiceOption) : optionCodec.encode o ≠ [] :=
  List.append_ne_nil_of_left_ne_nil
    (List.append_ne_nil_of_left_ne_nil (encodeNat_ne_nil _) _) _

theorem reads_choice {c : Choice}
    (hoptions : ∀ option ∈ c.options, option.index < UInt64.size ∧ option.candidate < UInt64.size)
    (hcandidates : c.candidates < UInt64.size) (hchosen : ∀ index ∈ c.chosen, index < UInt64.size) :
    choiceCodec.Reads c := by
  have hlist : (list optionCodec).Reads c.options :=
    Reads.list (fun o ho => reads_choiceOption (hoptions o ho))
      fun o _ => optionCodec_encode_ne_nil o
  have hanswer : (option nat64).Reads c.chosen :=
    Reads.option fun index hindex => reads_nat64 (hchosen index hindex)
  exact ((Reads.option fun _ _ => reads_uint16 _).pair
    (hlist.pair ((reads_nat64 hcandidates).pair hanswer))).mapping rfl

theorem reads_status (s : Status) : statusCodec.Reads s := by
  have hindex : statuses.idxOf s < UInt32.size ∧ statuses[statuses.idxOf s]? = some s := by
    cases s <;> decide
  exact Reads.mapping (reads_nat32 hindex.1) hindex.2

/-- A state of playback is read back. -/
theorem reads_state {s : PlayState} (h : s.InRange) : stateCodec.Reads s := by
  have hmemory : (list int64).Reads s.memory.toList :=
    Reads.list (fun _ _ => reads_int64 _) fun _ _ => encodeNat_ne_nil _
  have hregister : (option int64).Reads s.register := Reads.option fun _ _ => reads_int64 _
  have hconv : (option positionCodec).Reads s.conv :=
    Reads.option fun position hposition => reads_position (h.conv position hposition)
  have hframe : (option frameCodec).Reads s.callFrame :=
    Reads.option fun frame hframe => reads_frame (h.callFrame frame hframe)
  have hchoice : (option choiceCodec).Reads s.choice :=
    Reads.option fun choice hchoice => reads_choice (h.options choice hchoice)
      (h.candidates choice hchoice) (h.chosen choice hchoice)
  have hvoice : (option text).Reads s.pushedVoice := Reads.option fun _ _ => reads_text _
  exact (hmemory.pair (hregister.pair ((reads_rng _).pair ((reads_text _).pair
    ((reads_nat64 h.chunk).pair ((reads_nat64 h.token).pair (hconv.pair (hframe.pair
      ((reads_background _).pair ((reads_bool _).pair ((reads_slots _).pair (hchoice.pair
        ((reads_status _).pair hvoice))))))))))))).mapping (by simp)

theorem reads_scriptId (id : ScriptId) : idCodec.Reads id := by
  intro _ rest
  have hbytes := decode_bytes id.bytes rest
  rw [id.length_bytes] at hbytes
  have hid : ScriptId.ofBytes? id.bytes = some id := dif_pos id.length_bytes
  simp only [idCodec, Codec.mapping]
  rw [show (Codec.bytes 32).encode id.bytes = id.bytes from rfl, hbytes]
  simp only [hid, Option.map_some]

/-- A save is read back from its code. -/
theorem reads_save {save : SaveData} (h : save.InRange) : codec.Reads save :=
  ((reads_scriptId _).pair ((reads_state h.state).pair (reads_nat64 h.backlogLength))).mapping rfl

/-! ## Files -/

/-- The parts of a file by their places. -/
theorem file_parts {first second third fourth : Bytes} (payload : Bytes)
    (h₁ : first.length = 4) (h₂ : second.length = 2) (h₃ : third.length = 4)
    (h₄ : fourth.length = 4) :
    let file := first ++ second ++ third ++ fourth ++ payload
    headerLength ≤ file.length ∧ file.take 4 = first ∧ (file.drop 4).take 2 = second ∧
      (file.drop 6).take 4 = third ∧ (file.drop 10).take 4 = fourth ∧
      file.drop headerLength = payload := by
  intro file
  have hfile : file = first ++ (second ++ (third ++ (fourth ++ payload))) := by
    simp only [file, List.append_assoc]
  have hdrop₁ : file.drop 4 = second ++ (third ++ (fourth ++ payload)) := by
    rw [hfile, List.drop_left' h₁]
  have hdrop₂ : file.drop (4 + 2) = third ++ (fourth ++ payload) := by
    rw [← List.drop_drop, hdrop₁, List.drop_left' h₂]
  have hdrop₃ : file.drop (4 + 2 + 4) = fourth ++ payload := by
    rw [← List.drop_drop, hdrop₂, List.drop_left' h₃]
  have hdrop₄ : file.drop (4 + 2 + 4 + 4) = payload := by
    rw [← List.drop_drop, hdrop₃, List.drop_left' h₄]
  have hlength : headerLength ≤ file.length := by
    simp only [hfile, headerLength, List.length_append]
    omega
  refine ⟨hlength, ?_, ?_, ?_, ?_, hdrop₄⟩
  · rw [hfile, List.take_left' h₁]
  · rw [hdrop₁, List.take_left' h₂]
  · rw [hdrop₂, List.take_left' h₃]
  · rw [hdrop₃, List.take_left' h₄]

/-- The payload of a file whose header fits it is decoded. -/
theorem ofBinary_of_header {payload : Bytes} (hpayload : payload ≠ [])
    (hlength : payload.length < UInt32.size) :
    ofBinary (magic ++ Bytes.ofNatLE 2 version ++ Bytes.ofNatLE 4 (Crc32.hash payload).toNat ++
      Bytes.ofNatLE 4 payload.length ++ payload) =
      match codec.decode payload with
      | some (save, _) => .ok save
      | none => .error .encoding := by
  have hversion : Bytes.toNatLE (Bytes.ofNatLE 2 version) = version := by decide
  have hchecksum : Bytes.toNatLE (Bytes.ofNatLE 4 (Crc32.hash payload).toNat) =
      (Crc32.hash payload).toNat := by
    rw [Bytes.toNatLE_ofNatLE]
    exact Nat.mod_eq_of_lt (Crc32.hash payload).toNat_lt
  have hcount : Bytes.toNatLE (Bytes.ofNatLE 4 payload.length) = payload.length := by
    rw [Bytes.toNatLE_ofNatLE]
    exact Nat.mod_eq_of_lt hlength
  obtain ⟨hsize, hfirst, hsecond, hthird, hfourth, hrest⟩ := file_parts payload
    (rfl : magic.length = 4) (Bytes.length_ofNatLE 2 version)
    (Bytes.length_ofNatLE 4 (Crc32.hash payload).toNat) (Bytes.length_ofNatLE 4 payload.length)
  rw [ofBinary, if_neg (Nat.not_lt.mpr hsize), hfirst, hsecond, hthird, hfourth, hrest, hversion,
    hchecksum, hcount, if_neg (not_not_intro rfl), if_neg (not_not_intro rfl), if_neg hpayload,
    if_neg (not_not_intro rfl)]
  exact if_neg (not_not_intro rfl)

/-- A save whose code is shorter than `2 ^ 32` bytes can be written, and is read back from the
file. -/
theorem toBinary_ofBinary {save : SaveData} (hrange : save.InRange)
    (hsize : (codec.encode save).length < 2 ^ 32) :
    ∃ file, save.toBinary = .ok file ∧ ofBinary file = .ok save := by
  have hcode : codec.encode save ≠ [] := by
    intro hempty
    have hid := save.scriptId.length_bytes
    have hlength : (save.scriptId.bytes ++
        (pair stateCodec nat64).encode (save.state, save.backlogLength)).length = 0 :=
      congrArg List.length hempty
    rw [List.length_append] at hlength
    omega
  have hread := reads_save hrange (Nat.lt_trans hsize (by decide)) []
  rw [List.append_nil] at hread
  refine ⟨_, if_neg (Nat.not_le.mpr hsize), ?_⟩
  rw [ofBinary_of_header hcode hsize, hread]

/-- A save with negative cells, a viewport, a picture in a negative slot and an answered choice. -/
theorem toBinary_ofBinary_answered :
    let save : SaveData :=
      { scriptId := ⟨List.replicate 32 7, by decide⟩
        state :=
          { PlayState.new "op00" 5 with
            memory := #[-1, 300, Int64.minValue]
            register := some (-2)
            conv := some ⟨3, 1⟩
            callFrame := some ⟨"sub", 2, 70000⟩
            background := ⟨some "bg01", none, .rect 0 (-8) 640 480⟩
            characters := Slots.empty.insert (-1) ⟨"tsu", 320⟩
            choice := some ⟨some 9, [⟨"yes", 0, 0⟩, ⟨"no", 1, 2⟩], 3, some 1⟩
            status := .choice
            pushedVoice := some "v1" }
        backlogLength := 12 }
    ∃ file, save.toBinary = .ok file ∧ ofBinary file = .ok save := by
  intro save
  refine toBinary_ofBinary ⟨⟨by decide, by decide, ?_, ?_, ?_, ?_, ?_⟩, by decide⟩
    (by decide +kernel)
  · rintro position ⟨⟩
    decide
  · rintro frame ⟨⟩
    decide
  · rintro choice ⟨⟩
    decide
  · rintro choice ⟨⟩
    decide
  · rintro choice ⟨⟩
    decide

end SaveData

end NovelScript
