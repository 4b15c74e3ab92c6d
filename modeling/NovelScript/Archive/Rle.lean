import NovelScript.Bytes.Hex

/-! # Run-length compression

Packed data is a sequence of blocks, each with a control byte in front: bytes as they are, a
sequence that is repeated, a stretch of what was unpacked before, or many copies of one byte. -/

namespace NovelScript.Rle

/-- Why packed data cannot be unpacked. -/
inductive Flaw where
  /-- `length` bytes of input end while `requested` bytes are read at `offset`. -/
  | inputEnds (length requested offset : Nat)
  | reference (distance produced : Nat)
deriving DecidableEq, Repr

def Flaw.message : Flaw → String
  | .inputEnds length requested offset =>
    "input ends at " ++ toString length ++ " while reading " ++ toString requested ++
      " bytes at " ++ toString offset
  | .reference distance produced =>
    "back-reference " ++ toString distance ++ " bytes before output start at " ++
      toString produced

/-- What a control byte and the bytes behind it stand for. -/
inductive Block where
  | literal (bytes : Bytes)
  | repeated (sequence : Bytes) (times : Nat)
  /-- `length` bytes from `distance` bytes back. The copy may reach into itself. -/
  | backReference (distance length : Nat)
  | run (byte : UInt8) (length : Nat)
deriving DecidableEq, Repr

/-- Appends `length` bytes, each a copy of the one `distance` bytes in front of it. -/
def copyBack (distance : Nat) : (length : Nat) → Array UInt8 → Array UInt8
  | 0, out => out
  | length + 1, out => copyBack distance length (out.push (out.getD (out.size - distance) 0))

/-- The output so far with that of a block behind it. -/
def Block.appendTo (out : Array UInt8) : Block → Except Flaw (Array UInt8)
  | .literal bytes => .ok (out ++ bytes)
  | .repeated sequence times => .ok (out ++ (List.replicate times sequence).flatten)
  | .backReference distance length =>
    if distance ≤ out.size then .ok (copyBack distance length out)
    else .error (.reference distance out.size)
  | .run byte length => .ok (out ++ List.replicate length byte)

/-- The first `n` bytes and the others, if there are so many. -/
def split? : (n : Nat) → Bytes → Option (Bytes × Bytes)
  | 0, input => some ([], input)
  | _ + 1, [] => none
  | n + 1, b :: rest => (split? n rest).map fun (taken, others) => (b :: taken, others)

theorem split?_eq_some {n : Nat} {input taken rest : Bytes}
    (h : split? n input = some (taken, rest)) : input = taken ++ rest ∧ taken.length = n := by
  induction n generalizing input taken rest with
  | zero =>
    simp only [split?, Option.some.injEq, Prod.mk.injEq] at h
    simp [← h.1, ← h.2]
  | succ n ih =>
    cases input with
    | nil => simp [split?] at h
    | cons b input =>
      simp only [split?, Option.map_eq_some_iff, Prod.mk.injEq] at h
      obtain ⟨⟨front, others⟩, hsplit, htaken, hrest⟩ := h
      obtain ⟨happend, hlength⟩ := ih hsplit
      subst htaken hrest
      simp [happend, hlength]

/-- Takes `n` bytes from input of which `total` bytes were there at the start. -/
def take (total n : Nat) (input : Bytes) : Except Flaw (Bytes × Bytes) :=
  match split? n input with
  | some parts => .ok parts
  | none => .error (.inputEnds total n (total - input.length))

/-- Takes one byte. -/
def takeByte (total : Nat) (input : Bytes) : Except Flaw (UInt8 × Bytes) :=
  match input with
  | [] => .error (.inputEnds total 1 total)
  | b :: rest => .ok (b, rest)

/-- The length in a control byte: its low five bits and `least`, and where bit five is set 32 for
each unit of one more byte. -/
def takeLength (total least : Nat) (control : UInt8) (input : Bytes) :
    Except Flaw (Nat × Bytes) :=
  let low := (control &&& 0x1f).toNat + least
  if control &&& 0x20 = 0 then .ok (low, input)
  else
    match takeByte total input with
    | .error flaw => .error flaw
    | .ok (high, rest) => .ok (low + 32 * high.toNat, rest)

/-- Reads a literal block. Of its bytes no more than `wanted` are read. -/
def takeLiteral (total wanted : Nat) (control : UInt8) (input : Bytes) :
    Except Flaw (Block × Bytes) :=
  match takeLength total 1 control input with
  | .error flaw => .error flaw
  | .ok (length, rest) =>
    match take total (min length wanted) rest with
    | .error flaw => .error flaw
    | .ok (bytes, rest) => .ok (.literal bytes, rest)

/-- Reads a repeated sequence. -/
def takeRepeated (total : Nat) (control : UInt8) (input : Bytes) :
    Except Flaw (Block × Bytes) :=
  match takeByte total input with
  | .error flaw => .error flaw
  | .ok (times, rest) =>
    match take total ((control &&& 0x3f).toNat + 2) rest with
    | .error flaw => .error flaw
    | .ok (sequence, rest) => .ok (.repeated sequence (times.toNat + 1), rest)

/-- Reads a reference to earlier output. -/
def takeReference (total : Nat) (control : UInt8) (input : Bytes) :
    Except Flaw (Block × Bytes) :=
  match takeByte total input with
  | .error flaw => .error flaw
  | .ok (low, rest) =>
    let length := ((control >>> 2) &&& 0x0f).toNat + 2
    .ok (.backReference (256 * (control &&& 0x03).toNat + low.toNat + 1) length, rest)

/-- Reads copies of one byte. -/
def takeRun (total : Nat) (control : UInt8) (input : Bytes) : Except Flaw (Block × Bytes) :=
  match takeLength total 2 control input with
  | .error flaw => .error flaw
  | .ok (length, rest) =>
    match takeByte total rest with
    | .error flaw => .error flaw
    | .ok (byte, rest) => .ok (.run byte length, rest)

/-- Reads what is behind a control byte. The two top bits tell the kind of the block. -/
def takeBlock (total wanted : Nat) (control : UInt8) (input : Bytes) :
    Except Flaw (Block × Bytes) :=
  if control < 0x40 then takeLiteral total wanted control input
  else if control < 0x80 then takeRepeated total control input
  else if control < 0xc0 then takeReference total control input
  else takeRun total control input

theorem length_le_of_take {total n : Nat} {input taken rest : Bytes}
    (h : take total n input = .ok (taken, rest)) : rest.length ≤ input.length := by
  unfold take at h
  split at h
  · rename_i parts hsplit
    simp only [Except.ok.injEq] at h
    subst h
    obtain ⟨happend, _⟩ := split?_eq_some hsplit
    simp [happend]
  · simp at h

theorem length_le_of_takeByte {total : Nat} {input rest : Bytes} {b : UInt8}
    (h : takeByte total input = .ok (b, rest)) : rest.length ≤ input.length := by
  unfold takeByte at h
  split at h
  · simp at h
  · simp only [Except.ok.injEq, Prod.mk.injEq] at h
    simp [← h.2]

theorem length_le_of_takeLength {total least length : Nat} {control : UInt8} {input rest : Bytes}
    (h : takeLength total least control input = .ok (length, rest)) :
    rest.length ≤ input.length := by
  unfold takeLength at h
  split at h
  · simp only [Except.ok.injEq, Prod.mk.injEq] at h
    simp [← h.2]
  · split at h
    · simp at h
    · rename_i hbyte
      simp only [Except.ok.injEq, Prod.mk.injEq] at h
      exact h.2 ▸ length_le_of_takeByte hbyte

theorem length_le_of_takeBlock {total wanted : Nat} {control : UInt8} {input rest : Bytes}
    {block : Block} (h : takeBlock total wanted control input = .ok (block, rest)) :
    rest.length ≤ input.length := by
  unfold takeBlock at h
  split at h
  · unfold takeLiteral at h
    split at h
    · simp at h
    · rename_i hlength
      split at h
      · simp at h
      · rename_i htake
        simp only [Except.ok.injEq, Prod.mk.injEq] at h
        exact h.2 ▸ Nat.le_trans (length_le_of_take htake) (length_le_of_takeLength hlength)
  · split at h
    · unfold takeRepeated at h
      split at h
      · simp at h
      · rename_i hbyte
        split at h
        · simp at h
        · rename_i htake
          simp only [Except.ok.injEq, Prod.mk.injEq] at h
          exact h.2 ▸ Nat.le_trans (length_le_of_take htake) (length_le_of_takeByte hbyte)
    · split at h
      · unfold takeReference at h
        split at h
        · simp at h
        · rename_i hbyte
          simp only [Except.ok.injEq, Prod.mk.injEq] at h
          exact h.2 ▸ length_le_of_takeByte hbyte
      · unfold takeRun at h
        split at h
        · simp at h
        · rename_i hlength
          split at h
          · simp at h
          · rename_i hbyte
            simp only [Except.ok.injEq, Prod.mk.injEq] at h
            exact h.2 ▸
              Nat.le_trans (length_le_of_takeByte hbyte) (length_le_of_takeLength hlength)

/-- Reads blocks until there are `size` bytes of output. The last block may add more. -/
def unpackFrom (total size : Nat) (out : Array UInt8) (input : Bytes) :
    Except Flaw (Array UInt8) :=
  if size ≤ out.size then .ok out
  else
    match input with
    | [] => .error (.inputEnds total 1 total)
    | control :: rest =>
      match h : takeBlock total (size - out.size) control rest with
      | .error flaw => .error flaw
      | .ok (block, others) =>
        have : others.length < rest.length + 1 :=
          Nat.lt_succ_of_le (length_le_of_takeBlock h)
        match block.appendTo out with
        | .error flaw => .error flaw
        | .ok out => unpackFrom total size out others
termination_by input.length
decreasing_by exact this

/-- The first `size` bytes that packed data stands for, where there is room for them. -/
def unpack (input : Bytes) (size : Nat) : Except Flaw Bytes :=
  (unpackFrom input.length size #[] input).map fun out => out.toList.take size

/-- The number of bytes that a buffer has room for at most. -/
def maxRoom : Nat := UInt64.size / 2 - 1

/-- How a request for unpacked data ends. -/
inductive Reply where
  | unpacked (bytes : Bytes)
  | failed (flaw : Flaw)
  /-- No buffer has so much room. The program ends here, before it looks at the packed data. -/
  | noRoom
deriving DecidableEq, Repr

/-- Makes room for `size` bytes and unpacks them. -/
def request (input : Bytes) (size : Nat) : Reply :=
  if maxRoom < size then .noRoom
  else
    match unpack input size with
    | .ok bytes => .unpacked bytes
    | .error flaw => .failed flaw

end NovelScript.Rle
