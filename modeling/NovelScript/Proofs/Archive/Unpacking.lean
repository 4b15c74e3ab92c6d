import NovelScript.Archive.Rle

/-! # What packed data stands for

Blocks and their codes: the control byte in numbers, with every way to write a length. Unpacking the
codes of blocks gives the first bytes of what the blocks stand for, wherever it is told to stop and
whatever lies behind the codes. -/

namespace NovelScript.Rle

/-! ## Blocks -/

/-- The bytes that a block adds to the output. A reference runs through the last `distance` bytes of
the output and starts over with them when they are used up. -/
def Block.bytes (out : Bytes) : Block → Bytes
  | .literal bytes => bytes
  | .repeated sequence times => (List.replicate times sequence).flatten
  | .backReference distance length =>
    (List.range length).map fun i => out.getD (out.length - distance + i % distance) 0
  | .run byte length => List.replicate length byte

/-- The output of blocks behind output that is there already. -/
def outputFrom (out : Bytes) : List Block → Bytes
  | [] => out
  | block :: blocks => outputFrom (out ++ block.bytes out) blocks

/-- The output of blocks. -/
def output (blocks : List Block) : Bytes := outputFrom [] blocks

/-- A block that can be packed behind `produced` bytes of output. -/
def Block.Packable (produced : Nat) : Block → Prop
  | .literal bytes => 1 ≤ bytes.length ∧ bytes.length ≤ 8192
  | .repeated sequence times =>
    (2 ≤ sequence.length ∧ sequence.length ≤ 65) ∧ 1 ≤ times ∧ times ≤ 256
  | .backReference distance length =>
    (1 ≤ distance ∧ distance ≤ 1024 ∧ distance ≤ produced) ∧ 2 ≤ length ∧ length ≤ 17
  | .run _ length => 2 ≤ length ∧ length ≤ 8193

/-- Blocks that can be packed one after the other behind output that is there already. -/
def Packable (out : Bytes) : List Block → Prop
  | [] => True
  | block :: blocks => block.Packable out.length ∧ Packable (out ++ block.bytes out) blocks

/-! ## Codes -/

/-- The ways to write a length that is `least` or more: its low part in the control byte, and its
high part nowhere or in one more byte. -/
inductive LengthCode (least length : Nat) : (control : Nat) → (more : Bytes) → Prop where
  | short (low : Nat) (hlow : low < 32) (hlength : length = low + least) :
      LengthCode least length low []
  | long (low : Nat) (high : UInt8) (hlow : low < 32)
      (hlength : length = low + least + 32 * high.toNat) :
      LengthCode least length (32 + low) [high]

/-- The codes of a block. -/
inductive Code : Block → Bytes → Prop where
  | literal {bytes more : Bytes} {control : Nat} (h : LengthCode 1 bytes.length control more) :
      Code (.literal bytes) (UInt8.ofNat control :: (more ++ bytes))
  | repeated {sequence : Bytes} (low : Nat) (others : UInt8) (hlow : low < 64)
      (hlength : sequence.length = low + 2) :
      Code (.repeated sequence (others.toNat + 1)) (UInt8.ofNat (64 + low) :: others :: sequence)
  | backReference (low far : Nat) (near : UInt8) (hlow : low < 16) (hfar : far < 4) :
      Code (.backReference (256 * far + near.toNat + 1) (low + 2))
        [UInt8.ofNat (128 + 4 * low + far), near]
  | run {length control : Nat} {more : Bytes} (byte : UInt8) (h : LengthCode 2 length control more) :
      Code (.run byte length) (UInt8.ofNat (192 + control) :: (more ++ [byte]))

/-- The codes of blocks: codes of the single blocks one behind the other. -/
inductive Codes : List Block → Bytes → Prop where
  | nil : Codes [] []
  | cons {block : Block} {blocks : List Block} {code codes : Bytes} (head : Code block code)
      (tail : Codes blocks codes) : Codes (block :: blocks) (code ++ codes)

theorem LengthCode.exists_of_le {least length : Nat} (hleast : least ≤ length)
    (hmost : length ≤ least + 8191) : ∃ control more, LengthCode least length control more := by
  obtain ⟨extent, rfl⟩ := Nat.exists_eq_add_of_le' hleast
  have hhigh : (UInt8.ofNat (extent / 32)).toNat = extent / 32 :=
    UInt8.toNat_ofNat_of_lt' (by rw [UInt8.size]; omega)
  have hlow : extent % 32 < 32 := Nat.mod_lt extent (by decide)
  exact ⟨_, _, .long (extent % 32) (UInt8.ofNat (extent / 32)) hlow (by omega)⟩

/-- Every block that can be packed has a code. -/
theorem Block.Packable.exists_code {produced : Nat} {block : Block} (h : block.Packable produced) :
    ∃ code, Code block code := by
  cases block with
  | literal bytes =>
    obtain ⟨control, more, hcode⟩ := LengthCode.exists_of_le h.1 h.2
    exact ⟨_, .literal hcode⟩
  | repeated sequence times =>
    obtain ⟨⟨hshort, hlong⟩, honce, hoften⟩ := h
    have htimes : times = (UInt8.ofNat (times - 1)).toNat + 1 := by
      rw [UInt8.toNat_ofNat', Nat.mod_eq_of_lt (by omega)]
      omega
    rw [htimes]
    exact ⟨_, .repeated (sequence.length - 2) _ (by omega) (by omega)⟩
  | backReference distance length =>
    obtain ⟨⟨hnear, hfar, -⟩, hshort, hlong⟩ := h
    have hdistance : distance =
        256 * ((distance - 1) / 256) + (UInt8.ofNat ((distance - 1) % 256)).toNat + 1 := by
      rw [UInt8.toNat_ofNat', Nat.mod_eq_of_lt (by omega)]
      omega
    obtain ⟨low, rfl⟩ := Nat.exists_eq_add_of_le' hshort
    rw [hdistance]
    exact ⟨_, .backReference low _ _ (by omega) (by omega)⟩
  | run byte length =>
    obtain ⟨control, more, hcode⟩ := LengthCode.exists_of_le h.1 h.2
    exact ⟨_, .run byte hcode⟩

theorem Packable.exists_codes {out : Bytes} {blocks : List Block} (h : Packable out blocks) :
    ∃ codes, Codes blocks codes := by
  induction blocks generalizing out with
  | nil => exact ⟨_, .nil⟩
  | cons block blocks ih =>
    obtain ⟨code, hcode⟩ := h.1.exists_code
    obtain ⟨codes, hcodes⟩ := ih h.2
    exact ⟨_, .cons hcode hcodes⟩

/-! ## Reading codes -/

/-- Either control byte that a length can stand in holds the low bits of the length, and whether a
byte with the high ones follows. -/
theorem length_control : ∀ control < 64,
    UInt8.ofNat control < 0x40 ∧ 0xc0 ≤ UInt8.ofNat (192 + control) ∧
    ∀ byte ∈ [UInt8.ofNat control, UInt8.ofNat (192 + control)],
      (byte &&& 0x1f).toNat = control % 32 ∧ (byte &&& 0x20 = 0 ↔ control < 32) := by
  decide +kernel

theorem repeated_control : ∀ low < 64,
    ¬ UInt8.ofNat (64 + low) < 0x40 ∧ UInt8.ofNat (64 + low) < 0x80 ∧
      (UInt8.ofNat (64 + low) &&& 0x3f).toNat = low := by
  decide +kernel

theorem reference_control : ∀ low < 16, ∀ far < 4,
    ¬ UInt8.ofNat (128 + 4 * low + far) < 0x80 ∧ UInt8.ofNat (128 + 4 * low + far) < 0xc0 ∧
      ((UInt8.ofNat (128 + 4 * low + far) >>> 2) &&& 0x0f).toNat = low ∧
      (UInt8.ofNat (128 + 4 * low + far) &&& 0x03).toNat = far := by
  decide +kernel

variable (total wanted : Nat)

theorem LengthCode.control_lt {least length control : Nat} {more : Bytes}
    (h : LengthCode least length control more) : control < 64 := by
  cases h with
  | short _ hlow => omega
  | long low _ hlow => omega

/-- Either control byte that a length can stand in gives the length back. -/
theorem takeLength_code {least length control : Nat} {more : Bytes}
    (h : LengthCode least length control more) {byte : UInt8}
    (hbyte : byte ∈ [UInt8.ofNat control, UInt8.ofNat (192 + control)]) (rest : Bytes) :
    takeLength total least byte (more ++ rest) = .ok (length, rest) := by
  obtain ⟨-, -, hbytes⟩ := length_control control h.control_lt
  obtain ⟨hvalue, hkind⟩ := hbytes byte hbyte
  rw [takeLength, hvalue]
  cases h with
  | short _ hlow hlength =>
    rw [if_pos (hkind.mpr hlow), Nat.mod_eq_of_lt hlow, hlength]
    rfl
  | long low high hlow hlength =>
    rw [if_neg fun hshort => absurd (hkind.mp hshort) (by omega), Nat.add_mod_left,
      Nat.mod_eq_of_lt hlow, hlength]
    rfl

/-- The kinds of the two control bytes that a length can stand in. -/
theorem LengthCode.kinds {least length control : Nat} {more : Bytes}
    (h : LengthCode least length control more) :
    UInt8.ofNat control < 0x40 ∧ 0xc0 ≤ UInt8.ofNat (192 + control) := by
  obtain ⟨hliteral, hrun, -⟩ := length_control control h.control_lt
  exact ⟨hliteral, hrun⟩

theorem split?_append (front rest : Bytes) :
    split? front.length (front ++ rest) = some (front, rest) := by
  induction front with
  | nil => rfl
  | cons b front ih => simp [split?, ih]

theorem take_append (front rest : Bytes) {n : Nat} (hn : front.length = n) :
    take total n (front ++ rest) = .ok (front, rest) := by
  rw [← hn, take, split?_append]

/-- A block of which no more than `wanted` bytes are read. -/
def Block.cut (wanted : Nat) : Block → Block
  | .literal bytes => .literal (bytes.take wanted)
  | block => block

/-- The bytes of a block's code that are left unread when no more than `wanted` are wanted. -/
def Block.unread (wanted : Nat) : Block → Bytes
  | .literal bytes => bytes.drop wanted
  | _ => []

/-- Behind its control byte a code is read back to its block, and a literal only as far as it is
wanted. -/
theorem takeBlock_code {block : Block} {control : UInt8} {code : Bytes}
    (h : Code block (control :: code)) (rest : Bytes) :
    takeBlock total wanted control (code ++ rest) =
      .ok (block.cut wanted, block.unread wanted ++ rest) := by
  cases h with
  | @literal bytes more _ h =>
    have hlength := takeLength_code total h List.mem_cons_self (bytes ++ rest)
    have hcut : bytes ++ rest = bytes.take wanted ++ (bytes.drop wanted ++ rest) := by
      rw [← List.append_assoc, List.take_append_drop]
    have hmin : (bytes.take wanted).length = min bytes.length wanted := by
      rw [List.length_take, Nat.min_comm]
    have htake := take_append total (bytes.take wanted) (bytes.drop wanted ++ rest) hmin
    rw [takeBlock, if_pos h.kinds.1, takeLiteral, List.append_assoc, hlength]
    simp only [hcut, htake]
    rfl
  | @repeated sequence low others hlow hlength =>
    obtain ⟨hnot, hkind, hvalue⟩ := repeated_control low hlow
    rw [takeBlock, if_neg hnot, if_pos hkind, takeRepeated, List.cons_append, takeByte]
    simp only [hvalue, take_append total sequence rest hlength]
    rfl
  | @backReference low far near hlow hfar =>
    obtain ⟨hnot, hkind, hlength, hdistance⟩ := reference_control low hlow far hfar
    have hnot' : ¬ UInt8.ofNat (128 + 4 * low + far) < 0x40 := fun hlt =>
      hnot (UInt8.lt_trans hlt (by decide))
    rw [takeBlock, if_neg hnot', if_neg hnot, if_pos hkind, takeReference, List.cons_append,
      takeByte]
    simp only [hlength, hdistance]
    rfl
  | @run length _ more byte h =>
    have hkind := h.kinds.2
    have hlength := takeLength_code total h
      (List.mem_cons_of_mem _ List.mem_cons_self) ([byte] ++ rest)
    have hnot : ∀ {bound : UInt8}, bound ≤ 0xc0 → ¬ UInt8.ofNat (192 + _) < bound :=
      fun hbound => UInt8.not_lt.mpr (UInt8.le_trans hbound hkind)
    rw [takeBlock, if_neg (hnot (by decide)), if_neg (hnot (by decide)), if_neg (hnot (by decide)),
      takeRun, List.append_assoc, hlength]
    rfl

/-! ## Putting out blocks -/

/-- Copying byte by byte from output that grows runs through the last bytes of the output from
before. -/
theorem toList_copyBack {distance : Nat} (hdistance : 1 ≤ distance) (length : Nat)
    {out : Array UInt8} (hreach : distance ≤ out.size) :
    (copyBack distance length out).toList =
      out.toList ++ (Block.backReference distance length).bytes out.toList := by
  induction length generalizing out with
  | zero => simp [copyBack, Block.bytes]
  | succ length ih =>
    have hnext : distance ≤ (out.push (out.getD (out.size - distance) 0)).size := by
      rw [Array.size_push]
      omega
    rw [copyBack, ih hnext, Array.toList_push, List.append_assoc]
    congr 1
    rw [Block.bytes, Block.bytes, List.range_succ_eq_map, List.map_cons, List.map_map,
      List.singleton_append]
    congr 1
    · simp
    · apply List.map_congr_left
      intro i _
      have hlast := Nat.mod_lt i hdistance
      simp only [Function.comp, List.length_append, Array.length_toList, List.length_singleton,
        List.getD_eq_getElem?_getD]
      have hturn : (i + 1) % distance = (i % distance + 1) % distance :=
        (Nat.mod_add_mod i distance 1).symm
      rw [Nat.succ_eq_add_one, hturn]
      by_cases hwrap : i % distance + 1 = distance
      · have hplace : out.size + 1 - distance + i % distance = out.toList.length := by
          rw [Array.length_toList]
          omega
        rw [hwrap, Nat.mod_self, hplace, List.getElem?_concat_length]
        simp
      · have hplace : out.size + 1 - distance + i % distance =
            out.size - distance + (i % distance + 1) := by omega
        have hlt : i % distance + 1 < distance := by omega
        rw [Nat.mod_eq_of_lt hlt, hplace, List.getElem?_append_left]
        rw [Array.length_toList]
        omega

/-- A whole block adds its bytes. -/
theorem appendTo_of_packable {out : Array UInt8} {block : Block} (h : block.Packable out.size) :
    ∃ out', block.appendTo out = .ok out' ∧ out'.toList = out.toList ++ block.bytes out.toList := by
  cases block with
  | literal bytes => exact ⟨_, rfl, by simp [Block.bytes]⟩
  | repeated sequence times => exact ⟨_, rfl, by simp [Block.bytes]⟩
  | backReference distance length =>
    obtain ⟨⟨hdistance, -, hreach⟩, -⟩ := h
    exact ⟨_, if_pos hreach, toList_copyBack hdistance length hreach⟩
  | run byte length => exact ⟨_, rfl, by simp [Block.bytes]⟩

theorem unpackFrom_of_le {size : Nat} {out : Array UInt8} (h : size ≤ out.size) (input : Bytes) :
    unpackFrom total size out input = .ok out := by
  rw [unpackFrom.eq_def, if_pos h]

theorem unpackFrom_block {size : Nat} {out out' : Array UInt8} (hsize : out.size < size)
    {control : UInt8} {input rest : Bytes} {block : Block}
    (hblock : takeBlock total (size - out.size) control input = .ok (block, rest))
    (hout : block.appendTo out = .ok out') :
    unpackFrom total size out (control :: input) = unpackFrom total size out' rest := by
  rw [unpackFrom.eq_def, if_neg (Nat.not_le.mpr hsize)]
  simp only
  split
  · rename_i heq
    rw [hblock] at heq
    cases heq
  · rename_i heq
    rw [hblock] at heq
    cases heq
    rw [hout]

theorem outputFrom_eq_append (out : Bytes) (blocks : List Block) :
    ∃ rest, outputFrom out blocks = out ++ rest := by
  induction blocks generalizing out with
  | nil => exact ⟨[], (List.append_nil out).symm⟩
  | cons block blocks ih =>
    obtain ⟨rest, hrest⟩ := ih (out ++ block.bytes out)
    exact ⟨block.bytes out ++ rest, by rw [outputFrom, hrest, List.append_assoc]⟩

/-- What is put out already stays in front. -/
theorem take_outputFrom {out : Bytes} {size : Nat} (h : size ≤ out.length) (blocks : List Block) :
    (outputFrom out blocks).take size = out.take size := by
  obtain ⟨rest, hrest⟩ := outputFrom_eq_append out blocks
  rw [hrest, List.take_append_of_le_length h]

/-- Reading the code of a block adds its bytes, or as many of them as are wanted. -/
theorem unpackFrom_code {size : Nat} {out : Array UInt8} (hsize : out.size < size) {block : Block}
    (hblock : block.Packable out.size) {code : Bytes} (hcode : Code block code) (rest : Bytes) :
    ∃ out' unread, unpackFrom total size out (code ++ rest) = unpackFrom total size out' unread ∧
      ((out'.toList = out.toList ++ block.bytes out.toList ∧ unread = rest) ∨
        (size ≤ out'.size ∧ out'.toList <+: out.toList ++ block.bytes out.toList)) := by
  obtain ⟨control, more, rfl⟩ : ∃ control more, code = control :: more := by
    cases hcode <;> exact ⟨_, _, rfl⟩
  have hread := takeBlock_code total (size - out.size) hcode rest
  cases block with
  | literal bytes =>
    refine ⟨_, _, unpackFrom_block total hsize hread rfl, ?_⟩
    by_cases hcut : bytes.length ≤ size - out.size
    · left
      simp [Block.unread, Block.bytes, hcut, List.take_of_length_le hcut]
    · right
      have hwhole : (out ++ bytes.take (size - out.size)).toList =
          out.toList ++ bytes.take (size - out.size) := by simp
      have hfront := (List.prefix_append_right_inj out.toList).mpr
        (List.take_prefix (size - out.size) bytes)
      refine ⟨?_, hwhole ▸ hfront⟩
      rw [← Array.length_toList, hwhole]
      simp only [List.length_append, List.length_take, Array.length_toList]
      omega
  | _ =>
    obtain ⟨out', hout, hbytes⟩ := appendTo_of_packable hblock
    exact ⟨out', rest, unpackFrom_block total hsize hread hout, .inl ⟨hbytes, rfl⟩⟩

/-- Unpacking the codes of blocks behind output that is there already. -/
theorem unpackFrom_codes {size : Nat} {blocks : List Block} {codes : Bytes}
    (hcodes : Codes blocks codes) {out : Array UInt8} (hblocks : Packable out.toList blocks)
    (hsize : size ≤ (outputFrom out.toList blocks).length) (garbage : Bytes) :
    ∃ out', unpackFrom total size out (codes ++ garbage) = .ok out' ∧
      out'.toList.take size = (outputFrom out.toList blocks).take size := by
  induction hcodes generalizing out with
  | nil => exact ⟨out, unpackFrom_of_le total hsize _, rfl⟩
  | @cons block blocks code codes hcode _ ih =>
    by_cases henough : size ≤ out.size
    · exact ⟨out, unpackFrom_of_le total henough _, (take_outputFrom henough _).symm⟩
    · obtain ⟨out', unread, hread, hbytes⟩ :=
        unpackFrom_code total (Nat.not_le.mp henough) hblocks.1 hcode (codes ++ garbage)
      rw [List.append_assoc, hread, outputFrom]
      rcases hbytes with ⟨hbytes, rfl⟩ | ⟨hfull, hbytes⟩
      · rw [← hbytes]
        exact ih (hbytes ▸ hblocks.2) (hbytes ▸ hsize)
      · refine ⟨out', unpackFrom_of_le total hfull _, ?_⟩
        rw [take_outputFrom (Nat.le_trans hfull hbytes.length_le)]
        obtain ⟨others, hothers⟩ := hbytes
        rw [← hothers, List.take_append_of_le_length hfull]

/-- Unpacking is what the blocks say. Blocks whose lengths, counts and distances are in range have
codes, and from any codes of theirs, with anything behind, come the first bytes of their output, up
to all of it. -/
theorem unpack_codes {blocks : List Block} (hblocks : Packable [] blocks) :
    (∃ codes, Codes blocks codes) ∧
      ∀ codes garbage n, Codes blocks codes → n ≤ (output blocks).length →
        unpack (codes ++ garbage) n = .ok ((output blocks).take n) := by
  refine ⟨hblocks.exists_codes, fun codes garbage n hcodes hn => ?_⟩
  have hstart : Packable (#[] : Array UInt8).toList blocks := hblocks
  obtain ⟨out, hout, hbytes⟩ :=
    unpackFrom_codes (codes ++ garbage).length hcodes hstart hn garbage
  rw [unpack, hout]
  exact congrArg Except.ok hbytes

/-- Two letters, copied from themselves, then repeated and run out by zeros: cut in the middle of
the repetition, with bytes behind the codes that are of no block. -/
theorem unpack_codes_cut :
    unpack ([0x21, 0x00, 97, 98] ++ ([0x88, 0x01] ++ ([0x40, 0x02, 99, 100] ++
      ([0xe0, 0x01, 0x00] ++ []))) ++ [0x03]) 9 = .ok [97, 98, 97, 98, 97, 98, 99, 100, 99] := by
  have hblocks : Packable [] [.literal [97, 98], .backReference 2 4, .repeated [99, 100] 3,
      .run 0 34] := by
    simp [Packable, Block.Packable, Block.bytes]
  have hcodes : Codes [.literal [97, 98], .backReference 2 4, .repeated [99, 100] 3, .run 0 34]
      ([0x21, 0x00, 97, 98] ++ ([0x88, 0x01] ++ ([0x40, 0x02, 99, 100] ++
        ([0xe0, 0x01, 0x00] ++ [])))) :=
    .cons (.literal (.long 1 0 (by decide) rfl))
      (.cons (.backReference 2 0 1 (by decide) (by decide))
        (.cons (.repeated 0 2 (by decide) rfl)
          (.cons (.run 0 (.long 0 1 (by decide) rfl)) .nil)))
  exact (unpack_codes hblocks).2 _ [0x03] 9 hcodes (by decide)

end NovelScript.Rle
