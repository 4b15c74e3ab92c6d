import NovelScript.Proofs.Archive.Unpacking

/-! # Where unpacking stops

Unpacking any bytes, well formed or not, to fewer bytes gives the beginning of what unpacking them
to more bytes gives. Of the last block no more is read than is wanted of a literal, and all of any
other block; what is read and put out before does not depend on where the unpacking stops. Beside
it stands an unpacking that cuts each block to the size wanted and looks up each byte that it
copies: it comes to the same, so no byte is looked up that is not there. A request makes room for
all bytes first, and ends at once where there is no such room. -/

namespace NovelScript.Rle

/-! ## Blocks of which less is wanted -/

theorem take_eq_ok {total n : Nat} {input taken rest : Bytes}
    (h : take total n input = .ok (taken, rest)) : input = taken ++ rest ∧ taken.length = n := by
  unfold take at h
  split at h
  · rename_i parts hsplit
    cases h
    exact split?_eq_some hsplit
  · cases h

variable {total : Nat}

/-- What a block keeps to that was read behind a control byte with so many bytes wanted. -/
def Block.Fits (wanted : Nat) (control : UInt8) : Block → Prop
  | .literal bytes => control < 0x40 ∧ bytes.length ≤ wanted
  | .repeated sequence _ => sequence.length = (control &&& 0x3f).toNat + 2
  | .backReference distance _ => 1 ≤ distance
  | .run _ _ => True

theorem takeBlock_fits {wanted : Nat} {control : UInt8} {input rest : Bytes} {block : Block}
    (h : takeBlock total wanted control input = .ok (block, rest)) : block.Fits wanted control := by
  unfold takeBlock at h
  split at h
  · rename_i hkind
    unfold takeLiteral at h
    split at h
    · cases h
    · split at h
      · cases h
      · rename_i htake
        cases h
        have hcount := (take_eq_ok htake).2
        exact ⟨hkind, by omega⟩
  split at h
  · unfold takeRepeated at h
    split at h
    · cases h
    · split at h
      · cases h
      · rename_i htake
        cases h
        exact (take_eq_ok htake).2
  split at h
  · unfold takeReference at h
    split at h
    · cases h
    · cases h
      exact Nat.succ_pos _
  · unfold takeRun at h
    split at h
    · cases h
    · split at h
      · cases h
      · cases h
        trivial

theorem takeLiteral_fewer {wanted fewer : Nat} (hfewer : fewer ≤ wanted) {control : UInt8}
    {input rest : Bytes} {block : Block}
    (h : takeLiteral total wanted control input = .ok (block, rest)) :
    takeLiteral total fewer control input =
      .ok (block.cut fewer, block.unread fewer ++ rest) := by
  cases hlength : takeLength total 1 control input with
  | error flaw =>
    simp only [takeLiteral, hlength] at h
    cases h
  | ok read =>
    obtain ⟨length, behind⟩ := read
    simp only [takeLiteral, hlength] at h ⊢
    cases htake : take total (min length wanted) behind with
    | error flaw =>
      simp only [htake] at h
      cases h
    | ok parts =>
      obtain ⟨bytes, _⟩ := parts
      simp only [htake] at h
      cases h
      obtain ⟨hbehind, hcount⟩ := take_eq_ok htake
      have hcut : behind = bytes.take fewer ++ (bytes.drop fewer ++ rest) := by
        rw [← List.append_assoc, List.take_append_drop, hbehind]
      have hfront : (bytes.take fewer).length = min length fewer := by
        rw [List.length_take, hcount]
        omega
      rw [hcut, take_append total _ _ hfront]
      rfl

/-- A block that can be read can be read when less of it is wanted, a literal only so far. -/
theorem takeBlock_fewer {wanted fewer : Nat} (hfewer : fewer ≤ wanted) {control : UInt8}
    {input rest : Bytes} {block : Block}
    (h : takeBlock total wanted control input = .ok (block, rest)) :
    takeBlock total fewer control input =
      .ok (block.cut fewer, block.unread fewer ++ rest) := by
  by_cases hkind : control < 0x40
  · rw [takeBlock, if_pos hkind] at h ⊢
    exact takeLiteral_fewer hfewer h
  · have hfits := takeBlock_fits h
    have hsame : takeBlock total fewer control input = takeBlock total wanted control input := by
      rw [takeBlock, takeBlock, if_neg hkind, if_neg hkind]
    rw [hsame, h]
    cases block with
    | literal bytes => exact absurd hfits.1 hkind
    | _ => rfl

/-! ## Output only grows -/

theorem toList_copyBack_extends (distance length : Nat) (out : Array UInt8) :
    out.toList <+: (copyBack distance length out).toList := by
  induction length generalizing out with
  | zero => exact List.prefix_rfl
  | succ length ih =>
    rw [copyBack]
    refine List.IsPrefix.trans ?_ (ih _)
    rw [Array.toList_push]
    exact List.prefix_append _ _

theorem appendTo_extends {out next : Array UInt8} {block : Block}
    (h : block.appendTo out = .ok next) : out.toList <+: next.toList := by
  cases block with
  | backReference distance length =>
    simp only [Block.appendTo] at h
    split at h
    · cases h
      exact toList_copyBack_extends distance length out
    · cases h
  | _ =>
    cases h
    simp

theorem unpackFrom_extends {size : Nat} {out full : Array UInt8} {input : Bytes}
    (h : unpackFrom total size out input = .ok full) : out.toList <+: full.toList := by
  fun_induction unpackFrom total size out input with
  | case1 => cases h; exact List.prefix_rfl
  | case2 => cases h
  | case3 => cases h
  | case4 => cases h
  | case5 =>
    rename_i hnext ih
    exact (appendTo_extends hnext).trans (ih h)

theorem le_size_of_unpackFrom {size : Nat} {out full : Array UInt8} {input : Bytes}
    (h : unpackFrom total size out input = .ok full) : size ≤ full.size := by
  fun_induction unpackFrom total size out input with
  | case1 => cases h; assumption
  | case2 => cases h
  | case3 => cases h
  | case4 => cases h
  | case5 =>
    rename_i ih
    exact ih h

/-! ## Two sizes -/

/-- What is there already when an unpacking goes on is there in the end. -/
theorem take_of_extends {out full : Array UInt8} (h : out.toList <+: full.toList) {n : Nat}
    (hn : n ≤ out.size) : out.toList.take n = full.toList.take n := by
  obtain ⟨rest, hrest⟩ := h
  rw [← hrest, List.take_append_of_le_length hn]

/-- A block of which so much is wanted is whole, or puts out so many bytes of those that it puts
out as a whole. -/
theorem appendTo_cut {out next : Array UInt8} {block : Block} (h : block.appendTo out = .ok next)
    (wanted : Nat) :
    (block.cut wanted = block ∧ block.unread wanted = []) ∨
      ∃ part, (block.cut wanted).appendTo out = .ok part ∧ part.size = out.size + wanted ∧
        part.toList <+: next.toList := by
  cases block with
  | literal bytes =>
    by_cases hwhole : bytes.length ≤ wanted
    · left
      simp [Block.cut, Block.unread, List.take_of_length_le hwhole, hwhole]
    · right
      cases h
      refine ⟨out ++ bytes.take wanted, rfl, ?_, ?_⟩
      · rw [← Array.length_toList, Array.toList_appendList, List.length_append, List.length_take,
          Array.length_toList]
        omega
      · rw [Array.toList_appendList, Array.toList_appendList]
        exact (List.prefix_append_right_inj out.toList).mpr (List.take_prefix wanted bytes)
  | _ => exact .inl ⟨rfl, rfl⟩

/-- Unpacking to fewer bytes succeeds if unpacking to more does, and comes to the same bytes. -/
theorem unpackFrom_fewer {n m : Nat} (hle : n ≤ m) {out full : Array UInt8} {input : Bytes}
    (h : unpackFrom total m out input = .ok full) :
    ∃ part, unpackFrom total n out input = .ok part ∧
      part.toList.take n = full.toList.take n := by
  fun_induction unpackFrom total m out input with
  | case1 out input hfull =>
    cases h
    exact ⟨_, unpackFrom_of_le total (Nat.le_trans hle hfull) _, rfl⟩
  | case2 => cases h
  | case3 => cases h
  | case4 => cases h
  | case5 out hmore control rest block others hblock hshorter next hnext ih =>
    have hextends := unpackFrom_extends h
    by_cases hdone : n ≤ out.size
    · exact ⟨out, unpackFrom_of_le total hdone _,
        take_of_extends ((appendTo_extends hnext).trans hextends) hdone⟩
    · have hless : n - out.size ≤ m - out.size := Nat.sub_le_sub_right hle _
      have hread := takeBlock_fewer hless hblock
      rcases appendTo_cut hnext (n - out.size) with ⟨hwhole, hunread⟩ | ⟨part, hpart, hsize, hfront⟩
      · rw [hwhole, hunread, List.nil_append] at hread
        rw [unpackFrom_block total (Nat.not_le.mp hdone) hread hnext]
        exact ih h
      · have hfull : n ≤ part.size := by omega
        rw [unpackFrom_block total (Nat.not_le.mp hdone) hread hpart,
          unpackFrom_of_le total hfull]
        exact ⟨part, rfl, take_of_extends (hfront.trans hextends) hfull⟩

/-! ## Flaws -/

/-- A flaw that packed data of `length` bytes can have: it ends inside a block, or a block refers to
what is before the beginning of the output. -/
def Flaw.Of (length size : Nat) : Flaw → Prop
  | .inputEnds found requested offset =>
    found = length ∧ offset ≤ length ∧ length < offset + requested
  | .reference distance produced => produced < distance ∧ produced < size

theorem lt_of_split?_eq_none {n : Nat} {input : Bytes} (h : split? n input = none) :
    input.length < n := by
  induction n generalizing input with
  | zero => cases h
  | succ n ih =>
    cases input with
    | nil => exact Nat.succ_pos n
    | cons b input =>
      rw [split?, Option.map_eq_none_iff] at h
      exact Nat.succ_lt_succ (ih h)

section

variable {size : Nat} {input : Bytes} {flaw : Flaw} (hinput : input.length ≤ total)
include hinput

theorem take_flaw {n : Nat} (h : take total n input = .error flaw) : flaw.Of total size := by
  unfold take at h
  split at h
  · cases h
  · rename_i hsplit
    cases h
    have hlt := lt_of_split?_eq_none hsplit
    exact ⟨rfl, by omega, by omega⟩

theorem takeByte_flaw (h : takeByte total input = .error flaw) : flaw.Of total size := by
  unfold takeByte at h
  split at h
  · cases h
    exact ⟨rfl, Nat.le_refl total, Nat.lt_succ_self total⟩
  · cases h

theorem takeLength_flaw {least : Nat} {control : UInt8}
    (h : takeLength total least control input = .error flaw) : flaw.Of total size := by
  unfold takeLength at h
  simp only at h
  split at h
  · cases h
  · split at h
    · rename_i hbyte
      cases h
      exact takeByte_flaw hinput hbyte
    · cases h

/-- A block that cannot be read ends behind the input. -/
theorem takeBlock_flaw {wanted : Nat} {control : UInt8}
    (h : takeBlock total wanted control input = .error flaw) : flaw.Of total size := by
  unfold takeBlock at h
  split at h
  · unfold takeLiteral at h
    split at h
    · rename_i hlength
      cases h
      exact takeLength_flaw hinput hlength
    · rename_i hlength
      split at h
      · rename_i htake
        cases h
        exact take_flaw (Nat.le_trans (length_le_of_takeLength hlength) hinput) htake
      · cases h
  split at h
  · unfold takeRepeated at h
    split at h
    · rename_i hbyte
      cases h
      exact takeByte_flaw hinput hbyte
    · rename_i hbyte
      split at h
      · rename_i htake
        cases h
        exact take_flaw (Nat.le_trans (length_le_of_takeByte hbyte) hinput) htake
      · cases h
  split at h
  · unfold takeReference at h
    split at h
    · rename_i hbyte
      cases h
      exact takeByte_flaw hinput hbyte
    · cases h
  · unfold takeRun at h
    split at h
    · rename_i hlength
      cases h
      exact takeLength_flaw hinput hlength
    · rename_i hlength
      split at h
      · rename_i hbyte
        cases h
        exact takeByte_flaw (Nat.le_trans (length_le_of_takeLength hlength) hinput) hbyte
      · cases h

end

theorem appendTo_flaw {size : Nat} {out : Array UInt8} (hout : out.size < size) {block : Block}
    {flaw : Flaw} (h : block.appendTo out = .error flaw) : flaw.Of total size := by
  cases block with
  | backReference distance length =>
    simp only [Block.appendTo] at h
    split at h
    · cases h
    · rename_i hreach
      cases h
      exact ⟨Nat.not_le.mp hreach, hout⟩
  | _ => cases h

/-- Unpacking fails for a flaw of the packed data only. -/
theorem unpackFrom_flaw {size : Nat} {out : Array UInt8} {input : Bytes}
    (hinput : input.length ≤ total) {flaw : Flaw}
    (h : unpackFrom total size out input = .error flaw) : flaw.Of total size := by
  fun_induction unpackFrom total size out input with
  | case1 => cases h
  | case2 =>
    cases h
    exact ⟨rfl, Nat.le_refl total, Nat.lt_succ_self total⟩
  | case3 out hmore control rest flaw hblock =>
    cases h
    exact takeBlock_flaw (Nat.le_of_succ_le hinput) hblock
  | case4 out hmore control rest block others hblock hshorter flaw hnext =>
    cases h
    exact appendTo_flaw (Nat.not_le.mp hmore) hnext
  | case5 out hmore control rest block others hblock hshorter next hnext ih =>
    exact ih (Nat.le_trans (Nat.le_of_lt hshorter) hinput) h

/-! ## Looking up each byte -/

/-- Appends a copy of `count` bytes that stand from `start` on, bytes that it has appended among
them. Gives nothing if one of them is not there. -/
def copyFrom? : (start count : Nat) → Bytes → Option Bytes
  | _, 0, out => some out
  | start, count + 1, out => out[start]?.bind fun b => copyFrom? (start + 1) count (out ++ [b])

/-- Appends the first `length` bytes of a sequence `times` times, or until there are `size` bytes.
Gives nothing if the sequence is shorter. -/
def repeat? (size length : Nat) (sequence : Bytes) : (times : Nat) → Bytes → Option Bytes
  | 0, out => some out
  | times + 1, out =>
    if size - out.length = 0 then some out
    else
      (split? (min length (size - out.length)) sequence).bind fun parts =>
        repeat? size length sequence times (out ++ parts.1)

/-- Appends a block that was read behind a control byte, cut where there are `size` bytes. -/
def Block.appendUpTo? (size : Nat) (control : UInt8) (out : Bytes) :
    Block → Option (Except Flaw Bytes)
  | .literal bytes => some (.ok (out ++ bytes))
  | .repeated sequence times =>
    (repeat? size ((control &&& 0x3f).toNat + 2) sequence times out).map .ok
  | .backReference distance length =>
    if distance ≤ out.length then
      (copyFrom? (out.length - distance) (min length (size - out.length)) out).map .ok
    else some (.error (.reference distance out.length))
  | .run byte length => some (.ok (out ++ List.replicate (min length (size - out.length)) byte))

/-- Unpacks block by block, and cuts each block where there are `size` bytes. -/
def unpackUpTo? (total size : Nat) (out input : Bytes) : Option (Except Flaw Bytes) :=
  if size ≤ out.length then some (.ok out)
  else
    match input with
    | [] => some (.error (.inputEnds total 1 total))
    | control :: rest =>
      match h : takeBlock total (size - out.length) control rest with
      | .error flaw => some (.error flaw)
      | .ok (block, others) =>
        have : others.length < rest.length + 1 :=
          Nat.lt_succ_of_le (length_le_of_takeBlock h)
        match block.appendUpTo? size control out with
        | none => none
        | some (.error flaw) => some (.error flaw)
        | some (.ok out) => unpackUpTo? total size out others
termination_by input.length
decreasing_by exact this

theorem unpackUpTo?_cons {size : Nat} {out : Bytes} (hmore : ¬ size ≤ out.length)
    (control : UInt8) (rest : Bytes) :
    unpackUpTo? total size out (control :: rest) =
      match takeBlock total (size - out.length) control rest with
      | .error flaw => some (.error flaw)
      | .ok (block, others) =>
        match block.appendUpTo? size control out with
        | none => none
        | some (.error flaw) => some (.error flaw)
        | some (.ok out) => unpackUpTo? total size out others := by
  rw [unpackUpTo?.eq_def, if_neg hmore]
  simp only
  split
  · rename_i hblock
    rw [hblock]
  · rename_i hblock
    rw [hblock]

theorem copyFrom?_eq {distance : Nat} (hdistance : 1 ≤ distance) (count : Nat) {out : Array UInt8}
    (hreach : distance ≤ out.size) :
    copyFrom? (out.size - distance) count out.toList =
      some (copyBack distance count out).toList := by
  induction count generalizing out with
  | zero => rfl
  | succ count ih =>
    have hthere : out.toList[out.size - distance]? = some (out.getD (out.size - distance) 0) := by
      have hlt : out.size - distance < out.size := by omega
      simp [Array.getD, hlt]
    have hstart : out.size - distance + 1 =
        (out.push (out.getD (out.size - distance) 0)).size - distance := by
      rw [Array.size_push]
      omega
    rw [copyFrom?, hthere, Option.bind_some, copyBack, ← Array.toList_push, hstart]
    apply ih
    rw [Array.size_push]
    omega

theorem copyBack_add (distance front back : Nat) (out : Array UInt8) :
    copyBack distance (front + back) out =
      copyBack distance back (copyBack distance front out) := by
  induction front generalizing out with
  | zero => rw [Nat.zero_add, copyBack]
  | succ front ih => rw [Nat.succ_add, copyBack, copyBack, ih]

theorem size_copyBack (distance length : Nat) (out : Array UInt8) :
    (copyBack distance length out).size = out.size + length := by
  induction length generalizing out with
  | zero => rfl
  | succ length ih => rw [copyBack, ih, Array.size_push, Nat.add_right_comm, Nat.add_assoc]

/-- A copy that is cut is the beginning of the whole copy. -/
theorem toList_copyBack_min (distance length wanted : Nat) (out : Array UInt8) :
    (copyBack distance (min length wanted) out).toList =
      (copyBack distance length out).toList.take (out.size + wanted) := by
  by_cases hwhole : length ≤ wanted
  · rw [Nat.min_eq_left hwhole, List.take_of_length_le]
    rw [Array.length_toList, size_copyBack]
    omega
  · obtain ⟨more, rfl⟩ := Nat.exists_eq_add_of_lt (Nat.not_le.mp hwhole)
    have hsize := size_copyBack distance wanted out
    have hextends := toList_copyBack_extends distance (more + 1) (copyBack distance wanted out)
    rw [← copyBack_add, ← Nat.add_assoc] at hextends
    rw [Nat.min_eq_right (by omega), ← take_of_extends hextends (Nat.le_of_eq hsize.symm),
      List.take_of_length_le (Nat.le_of_eq hsize)]

theorem split?_of_le {n : Nat} {input : Bytes} (h : n ≤ input.length) :
    split? n input = some (input.take n, input.drop n) := by
  have hsplit := split?_append (input.take n) (input.drop n)
  rwa [List.take_append_drop, List.length_take, Nat.min_eq_left h] at hsplit

theorem repeat?_eq {size : Nat} (sequence : Bytes) (times : Nat) {out : Bytes}
    (hout : out.length ≤ size) :
    repeat? size sequence.length sequence times out =
      some ((out ++ (List.replicate times sequence).flatten).take size) := by
  induction times generalizing out with
  | zero => simp [repeat?, List.take_of_length_le hout]
  | succ times ih =>
    rw [repeat?]
    by_cases hfull : size - out.length = 0
    · have hsize : size = out.length := by omega
      rw [if_pos hfull, hsize, List.take_left]
    · rw [if_neg hfull, split?_of_le (Nat.min_le_left _ _), Option.bind_some, ih, List.append_assoc,
        List.replicate_succ, List.flatten_cons]
      · by_cases hwhole : sequence.length ≤ size - out.length
        · rw [Nat.min_eq_left hwhole, List.take_length]
        · have hbehind : ∀ back : Bytes,
              (out ++ back).take size = out ++ back.take (size - out.length) := by
            intro back
            rw [List.take_append, List.take_of_length_le hout]
          rw [Nat.min_eq_right (by omega), hbehind, hbehind, List.take_append_of_le_length,
            List.take_append_of_le_length, List.take_take, Nat.min_self]
          · omega
          · rw [List.length_take]
            omega
      · rw [List.length_append, List.length_take]
        omega

/-- A block that is cut puts out the beginning of what it puts out as a whole, and looks up no byte
that is not there. -/
theorem appendUpTo?_eq {size : Nat} {control : UInt8} {out : Array UInt8} (hout : out.size < size)
    {block : Block} (hblock : block.Fits (size - out.size) control) :
    block.appendUpTo? size control out.toList =
      some ((block.appendTo out).map fun out => out.toList.take size) := by
  have hsize : out.size + (size - out.size) = size := by omega
  cases block with
  | literal bytes =>
    have hlength := hblock.2
    have hall : (out.toList ++ bytes).length ≤ size := by
      rw [List.length_append, Array.length_toList]
      omega
    simp only [Block.appendUpTo?, Block.appendTo, Except.map, Array.toList_appendList,
      List.take_of_length_le hall]
  | repeated sequence times =>
    simp only [Block.Fits] at hblock
    simp only [Block.appendUpTo?, Block.appendTo, Except.map, ← hblock, Array.toList_appendList]
    rw [repeat?_eq sequence times (Nat.le_of_lt hout)]
    rfl
  | backReference distance length =>
    simp only [Block.appendUpTo?, Block.appendTo, Array.length_toList]
    by_cases hreach : distance ≤ out.size
    · rw [if_pos hreach, if_pos hreach, copyFrom?_eq hblock _ hreach, toList_copyBack_min, hsize]
      rfl
    · rw [if_neg hreach, if_neg hreach]
      rfl
  | run byte length =>
    simp only [Block.appendUpTo?, Block.appendTo, Except.map, Array.toList_appendList,
      Array.length_toList]
    rw [List.take_append, List.take_of_length_le (Nat.le_of_lt hout), List.take_replicate,
      Array.length_toList, Nat.min_comm]

/-- The unpacking that cuts each block comes to what the other comes to, and to no lookup of a byte
that is not there. -/
theorem unpackUpTo?_eq {size : Nat} {out : Array UInt8} (hout : out.size ≤ size) (input : Bytes) :
    unpackUpTo? total size out.toList input =
      some ((unpackFrom total size out input).map fun out => out.toList.take size) := by
  fun_induction unpackFrom total size out input with
  | case1 out input hfull =>
    rw [unpackUpTo?.eq_def, if_pos (by rwa [Array.length_toList])]
    simp only [Except.map, List.take_of_length_le hout]
  | case2 out hmore =>
    rw [unpackUpTo?.eq_def, if_neg (by rwa [Array.length_toList])]
    rfl
  | case3 out hmore control rest flaw hblock =>
    rw [unpackUpTo?_cons (by rwa [Array.length_toList]), Array.length_toList, hblock]
    rfl
  | case4 out hmore control rest block others hblock hshorter flaw hnext =>
    have happend := appendUpTo?_eq (Nat.not_le.mp hmore) (takeBlock_fits hblock)
    rw [hnext] at happend
    rw [unpackUpTo?_cons (by rwa [Array.length_toList]), Array.length_toList, hblock]
    simp only [happend, Except.map]
  | case5 out hmore control rest block others hblock hshorter next hnext ih =>
    have happend := appendUpTo?_eq (Nat.not_le.mp hmore) (takeBlock_fits hblock)
    rw [hnext] at happend
    rw [unpackUpTo?_cons (by rwa [Array.length_toList]), Array.length_toList, hblock]
    simp only [happend, Except.map]
    by_cases hfull : size ≤ next.size
    · -- The block was the last one, and was cut.
      have hlength : size ≤ (next.toList.take size).length := by
        rw [List.length_take, Array.length_toList]
        omega
      rw [unpackFrom_of_le total hfull, unpackUpTo?.eq_def, if_pos hlength]
    · rw [List.take_of_length_le (Nat.le_of_not_le hfull)]
      exact ih (Nat.le_of_not_le hfull)

/-! ## Unpacking to a size -/

theorem unpack_eq_ok_iff {input out : Bytes} {size : Nat} : unpack input size = .ok out ↔
    ∃ full, unpackFrom input.length size #[] input = .ok full ∧ full.toList.take size = out := by
  unfold unpack
  cases unpackFrom input.length size #[] input with
  | error flaw => simp [Except.map]
  | ok full => simp [Except.map]

theorem unpack_eq_error_iff {input : Bytes} {size : Nat} {flaw : Flaw} :
    unpack input size = .error flaw ↔
      unpackFrom input.length size #[] input = .error flaw := by
  unfold unpack
  cases unpackFrom input.length size #[] input with
  | error flaw => simp [Except.map]
  | ok full => simp [Except.map]

theorem unpack_fewer {input out : Bytes} {n m : Nat} (hle : n ≤ m) (h : unpack input m = .ok out) :
    unpack input n = .ok (out.take n) := by
  obtain ⟨full, hfull, rfl⟩ := unpack_eq_ok_iff.mp h
  obtain ⟨part, hpart, hsame⟩ := unpackFrom_fewer hle hfull
  refine unpack_eq_ok_iff.mpr ⟨part, hpart, ?_⟩
  rw [List.take_take, Nat.min_eq_left hle, hsame]

theorem length_of_unpack {input out : Bytes} {size : Nat} (h : unpack input size = .ok out) :
    out.length = size := by
  obtain ⟨full, hfull, rfl⟩ := unpack_eq_ok_iff.mp h
  rw [List.length_take, Array.length_toList]
  exact Nat.min_eq_left (le_size_of_unpackFrom hfull)

/-! ## Requests -/

theorem request_eq_noRoom_iff {input : Bytes} {size : Nat} :
    request input size = .noRoom ↔ maxRoom < size := by
  unfold request
  split
  · simp [*]
  · split <;> simp [*]

theorem request_eq_unpacked_iff {input out : Bytes} {size : Nat} :
    request input size = .unpacked out ↔ size ≤ maxRoom ∧ unpack input size = .ok out := by
  unfold request
  split
  · rename_i hroom
    simp [Nat.not_le.mpr hroom]
  · rename_i hroom
    cases unpack input size <;> simp [Nat.le_of_not_lt hroom]

theorem request_eq_failed_iff {input : Bytes} {size : Nat} {flaw : Flaw} :
    request input size = .failed flaw ↔ size ≤ maxRoom ∧ unpack input size = .error flaw := by
  unfold request
  split
  · rename_i hroom
    simp [Nat.not_le.mpr hroom]
  · rename_i hroom
    cases unpack input size <;> simp [Nat.le_of_not_lt hroom]

/-- Whatever the input, a request for `m` bytes that is answered gives `m` bytes, and one for fewer
bytes the first of them. Where there is room for `m` bytes the request is answered or fails for a
flaw of the packed data, and it fails if one for fewer bytes does; where there is none it ends at
once. Cutting each block to the size comes to the same without looking up a byte that is not
there. -/
theorem request_agrees_up_to (input : Bytes) {n m : Nat} (hle : n ≤ m) :
    (∀ out, request input m = .unpacked out →
        out.length = m ∧ request input n = .unpacked (out.take n)) ∧
      (m ≤ maxRoom →
        ((∃ out, request input m = .unpacked out) ∨
          ∃ flaw, request input m = .failed flaw ∧ flaw.Of input.length m) ∧
        ∀ flaw, request input n = .failed flaw → ∃ flaw', request input m = .failed flaw') ∧
      (maxRoom < m → request input m = .noRoom) ∧
      unpackUpTo? input.length m [] input = some (unpack input m) := by
  refine ⟨fun out hout => ?_, fun hroom => ⟨?_, fun flaw hflaw => ?_⟩, request_eq_noRoom_iff.mpr, ?_⟩
  · obtain ⟨hroom, hout⟩ := request_eq_unpacked_iff.mp hout
    exact ⟨length_of_unpack hout,
      request_eq_unpacked_iff.mpr ⟨Nat.le_trans hle hroom, unpack_fewer hle hout⟩⟩
  · cases hunpack : unpack input m with
    | ok out => exact .inl ⟨out, request_eq_unpacked_iff.mpr ⟨hroom, hunpack⟩⟩
    | error flaw =>
      refine .inr ⟨flaw, request_eq_failed_iff.mpr ⟨hroom, hunpack⟩, ?_⟩
      exact unpackFrom_flaw (Nat.le_refl _) (unpack_eq_error_iff.mp hunpack)
  · obtain ⟨-, hfewer⟩ := request_eq_failed_iff.mp hflaw
    cases hunpack : unpack input m with
    | error flaw' => exact ⟨flaw', request_eq_failed_iff.mpr ⟨hroom, hunpack⟩⟩
    | ok out =>
      rw [unpack_fewer hle hunpack] at hfewer
      cases hfewer
  · have hstart : (#[] : Array UInt8).size ≤ m := Nat.zero_le m
    exact unpackUpTo?_eq hstart input

/-- A reference that copies from its own output, cut in the middle, in front of a block that is
missing. -/
theorem request_agrees_up_to_copy :
    request [0x01, 97, 98, 0x88, 0x01, 0xff] 5 = .unpacked [97, 98, 97, 98, 97] ∧
      request [0x01, 97, 98, 0x88, 0x01, 0xff] 3 = .unpacked [97, 98, 97] := by
  have hlong : unpack [0x01, 97, 98, 0x88, 0x01, 0xff] 5 = .ok [97, 98, 97, 98, 97] := by
    cbv
  have hreply := request_eq_unpacked_iff.mpr ⟨(by decide : 5 ≤ maxRoom), hlong⟩
  exact ⟨hreply, ((request_agrees_up_to _ (by decide)).1 _ hreply).2⟩

/-- A request can be for more than there is room for, and then it fails without a flaw. -/
theorem request_without_room :
    ¬ ∀ (input : Bytes) (size : Nat), size < UInt64.size →
      (∃ out, request input size = .unpacked out) ∨ ∃ flaw, request input size = .failed flaw := by
  intro hanswered
  have hroom : request [] (UInt64.size - 1) = .noRoom := request_eq_noRoom_iff.mpr (by decide)
  rcases hanswered [] (UInt64.size - 1) (by decide) with ⟨out, hout⟩ | ⟨flaw, hflaw⟩
  · rw [hroom] at hout
    cases hout
  · rw [hroom] at hflaw
    cases hflaw

end NovelScript.Rle
