import NovelScript.Bytes.Hex

/-! # SHA-256

The hash by which a script file is known. -/

namespace NovelScript.Sha256

/-- The round constants. -/
def constants : Array UInt32 :=
  #[0x428a2f98, 0x71374491, 0xb5c0fbcf, 0xe9b5dba5, 0x3956c25b, 0x59f111f1, 0x923f82a4, 0xab1c5ed5,
    0xd807aa98, 0x12835b01, 0x243185be, 0x550c7dc3, 0x72be5d74, 0x80deb1fe, 0x9bdc06a7, 0xc19bf174,
    0xe49b69c1, 0xefbe4786, 0x0fc19dc6, 0x240ca1cc, 0x2de92c6f, 0x4a7484aa, 0x5cb0a9dc, 0x76f988da,
    0x983e5152, 0xa831c66d, 0xb00327c8, 0xbf597fc7, 0xc6e00bf3, 0xd5a79147, 0x06ca6351, 0x14292967,
    0x27b70a85, 0x2e1b2138, 0x4d2c6dfc, 0x53380d13, 0x650a7354, 0x766a0abb, 0x81c2c92e, 0x92722c85,
    0xa2bfe8a1, 0xa81a664b, 0xc24b8b70, 0xc76c51a3, 0xd192e819, 0xd6990624, 0xf40e3585, 0x106aa070,
    0x19a4c116, 0x1e376c08, 0x2748774c, 0x34b0bcb5, 0x391c0cb3, 0x4ed8aa4a, 0x5b9cca4f, 0x682e6ff3,
    0x748f82ee, 0x78a5636f, 0x84c87814, 0x8cc70208, 0x90befffa, 0xa4506ceb, 0xbef9a3f7, 0xc67178f2]

/-- The eight words that the hash carries from block to block. -/
structure State where
  a : UInt32
  b : UInt32
  c : UInt32
  d : UInt32
  e : UInt32
  f : UInt32
  g : UInt32
  h : UInt32
deriving DecidableEq, Repr

def State.initial : State :=
  ⟨0x6a09e667, 0xbb67ae85, 0x3c6ef372, 0xa54ff53a, 0x510e527f, 0x9b05688c, 0x1f83d9ab, 0x5be0cd19⟩

def State.add (s t : State) : State :=
  ⟨s.a + t.a, s.b + t.b, s.c + t.c, s.d + t.d, s.e + t.e, s.f + t.f, s.g + t.g, s.h + t.h⟩

def State.words (s : State) : List UInt32 := [s.a, s.b, s.c, s.d, s.e, s.f, s.g, s.h]

def rotateRight (x : UInt32) (n : UInt32) : UInt32 := (x >>> n) ||| (x <<< (32 - n))

/-- The message, a one bit, zeros, and the length in bits as eight bytes, highest first. -/
def padded (message : Bytes) : Bytes :=
  let zeros := (119 - message.length % 64) % 64
  message ++ 0x80 :: List.replicate zeros 0 ++ (Bytes.ofNatLE 8 (8 * message.length)).reverse

/-- Bytes as words of four, highest byte first. -/
def toWords : Bytes → List UInt32
  | a :: b :: c :: d :: rest => UInt32.ofNat (Bytes.toNatLE [d, c, b, a]) :: toWords rest
  | _ => []

/-- A block's sixteen words followed by the forty-eight derived from them. -/
def schedule (block : List UInt32) : Array UInt32 :=
  (List.range 48).foldl (fun w i =>
    let x := w.getD (i + 1) 0
    let y := w.getD (i + 14) 0
    let s0 := rotateRight x 7 ^^^ rotateRight x 18 ^^^ (x >>> 3)
    let s1 := rotateRight y 17 ^^^ rotateRight y 19 ^^^ (y >>> 10)
    w.push (w.getD i 0 + s0 + w.getD (i + 9) 0 + s1)) block.toArray

/-- One round with its schedule word and its constant. -/
def round (s : State) (word constant : UInt32) : State :=
  let s1 := rotateRight s.e 6 ^^^ rotateRight s.e 11 ^^^ rotateRight s.e 25
  let choice := (s.e &&& s.f) ^^^ (s.e.complement &&& s.g)
  let t1 := s.h + s1 + choice + constant + word
  let s0 := rotateRight s.a 2 ^^^ rotateRight s.a 13 ^^^ rotateRight s.a 22
  let majority := (s.a &&& s.b) ^^^ (s.a &&& s.c) ^^^ (s.b &&& s.c)
  ⟨t1 + (s0 + majority), s.a, s.b, s.c, s.d + t1, s.e, s.f, s.g⟩

/-- Takes one block of sixteen words into the state. -/
def compress (s : State) (block : List UInt32) : State :=
  s.add (((schedule block).zip constants).foldl (fun t (word, constant) => round t word constant) s)

/-- The words of a message in blocks of sixteen. -/
def blocks (words : List UInt32) : List (List UInt32) :=
  (List.range (words.length / 16)).map fun i => (words.drop (16 * i)).take 16

/-- The thirty-two bytes of the hash. -/
def hash (message : Bytes) : Bytes :=
  ((blocks (toWords (padded message))).foldl compress .initial).words.flatMap fun w =>
    (Bytes.ofNatLE 4 w.toNat).reverse

theorem length_hash (message : Bytes) : (hash message).length = 32 := by
  simp [hash, State.words, Bytes.length_ofNatLE]

end NovelScript.Sha256

namespace NovelScript

/-- The hash by which a script file is known. -/
structure ScriptId where
  bytes : Bytes
  length_bytes : bytes.length = 32
deriving DecidableEq, Repr

namespace ScriptId

/-- The hash of a byte string. -/
def ofContent (content : Bytes) : ScriptId := ⟨Sha256.hash content, Sha256.length_hash content⟩

/-- The id with the given bytes, if they are as many as an id has. -/
def ofBytes? (bytes : Bytes) : Option ScriptId :=
  if h : bytes.length = 32 then some ⟨bytes, h⟩ else none

/-- The id in base sixteen. -/
def hex (id : ScriptId) : String := id.bytes.hex

end ScriptId

end NovelScript
