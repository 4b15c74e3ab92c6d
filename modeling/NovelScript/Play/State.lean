import NovelScript.ActiveValue.Evaluation
import NovelScript.Play.Choice
import NovelScript.Play.Random

/-! # The state of playback

Everything that is needed to resume playback where it stands. -/

namespace NovelScript

/-- The number of memory cells. -/
def memoryCells : Nat := 2048

/-- A flat colour. -/
structure Colour where
  r : UInt8
  g : UInt8
  b : UInt8
deriving DecidableEq, Repr

namespace Colour

def black : Colour := ⟨0, 0, 0⟩

def white : Colour := ⟨255, 255, 255⟩

def red : Colour := ⟨255, 0, 0⟩

end Colour

/-- The part of a background picture that is shown. -/
inductive Viewport where
  | full
  | rect (x y w h : Int64)
  /-- A vertical position in steps of half a screen. -/
  | scroll (y : Int64)
deriving DecidableEq, Repr

/-- The background: a picture, or a flat colour in front of it. -/
structure Background where
  image : Option String
  fill : Option Colour
  viewport : Viewport
deriving DecidableEq, Repr

/-- The background before anything is shown. -/
def Background.initial : Background := ⟨none, some .black, .full⟩

/-- A character picture and its position. -/
structure CharacterArt where
  image : String
  x : Int64
deriving DecidableEq, Repr

/-- The character pictures on screen by slot, in ascending order of the slots. -/
structure Slots where
  entries : List (Int64 × CharacterArt)
  ordered : entries.Pairwise fun a b => a.1 < b.1
deriving DecidableEq, Repr

namespace Slots

/-- Nothing on screen. -/
def empty : Slots := ⟨[], .nil⟩

/-- Puts a picture into an ordered list of slots. -/
def insertInto (slot : Int64) (art : CharacterArt) :
    List (Int64 × CharacterArt) → List (Int64 × CharacterArt)
  | [] => [(slot, art)]
  | (other, a) :: rest =>
    if slot < other then (slot, art) :: (other, a) :: rest
    else if slot = other then (slot, art) :: rest
    else (other, a) :: insertInto slot art rest

theorem mem_insertInto {slot : Int64} {art : CharacterArt} {list : List (Int64 × CharacterArt)}
    {entry : Int64 × CharacterArt} (h : entry ∈ insertInto slot art list) :
    entry = (slot, art) ∨ entry ∈ list := by
  induction list with
  | nil => simpa [insertInto] using h
  | cons head rest ih =>
    obtain ⟨other, a⟩ := head
    unfold insertInto at h
    split at h
    · simpa using h
    · split at h
      · rcases List.mem_cons.1 h with h | h
        · exact .inl h
        · exact .inr (List.mem_cons_of_mem _ h)
      · rcases List.mem_cons.1 h with h | h
        · exact .inr (h ▸ List.mem_cons_self)
        · rcases ih h with h | h
          · exact .inl h
          · exact .inr (List.mem_cons_of_mem _ h)

theorem ordered_insertInto (slot : Int64) (art : CharacterArt)
    {list : List (Int64 × CharacterArt)} (h : list.Pairwise fun a b => a.1 < b.1) :
    (insertInto slot art list).Pairwise fun a b => a.1 < b.1 := by
  induction list with
  | nil => simp [insertInto]
  | cons head rest ih =>
    obtain ⟨other, a⟩ := head
    obtain ⟨hhead, hrest⟩ := List.pairwise_cons.1 h
    unfold insertInto
    split
    · rename_i hlt
      refine List.pairwise_cons.2 ⟨fun entry hentry => ?_, h⟩
      rcases List.mem_cons.1 hentry with rfl | hmem
      · exact hlt
      · exact Int64.lt_trans hlt (hhead entry hmem)
    · split
      · rename_i _ heq
        subst heq
        exact List.pairwise_cons.2 ⟨hhead, hrest⟩
      · rename_i hlt hne
        refine List.pairwise_cons.2 ⟨fun entry hentry => ?_, ih hrest⟩
        rcases mem_insertInto hentry with rfl | hmem
        · exact Int64.lt_of_le_of_ne (Int64.not_lt.1 hlt) (Ne.symm hne)
        · exact hhead entry hmem

/-- The slots with a picture put into one. -/
def insert (s : Slots) (slot : Int64) (art : CharacterArt) : Slots :=
  ⟨insertInto slot art s.entries, ordered_insertInto slot art s.ordered⟩

/-- The slots with one emptied. -/
def erase (s : Slots) (slot : Int64) : Slots :=
  ⟨s.entries.filter fun entry => entry.1 != slot, s.ordered.filter _⟩

/-- The picture in a slot. -/
def get? (s : Slots) (slot : Int64) : Option CharacterArt := s.entries.lookup slot

/-- The slots of a list; of two pictures for one slot the later one stays. -/
def ofList (list : List (Int64 × CharacterArt)) : Slots :=
  list.foldl (fun s (slot, art) => s.insert slot art) empty

end Slots

/-- A position in the conversation that is shown. -/
structure ConvPosition where
  chunk : Nat
  token : Nat
deriving DecidableEq, Repr

/-- A position in an event chunk to which playback returns. -/
structure CallFrame where
  script : String
  chunk : Nat
  token : Nat
deriving DecidableEq, Repr

/-- Why playback stands still, or that it does not. -/
inductive Status where
  | running
  /-- Text is shown and waits for the player. -/
  | userAck
  /-- A choice is posed. -/
  | choice
  /-- Something visible has changed. -/
  | graphicsOp
  | ended
  | error
deriving DecidableEq, Repr

def Status.name : Status → String
  | .running => "running"
  | .userAck => "user_ack"
  | .choice => "choice"
  | .graphicsOp => "graphics_op"
  | .ended => "ended"
  | .error => "error"

/-- The state of playback. -/
structure PlayState where
  memory : Array Int64
  register : Option Int64
  rng : Pcg32
  script : String
  chunk : Nat
  /-- The number of the next event token. -/
  token : Nat
  conv : Option ConvPosition
  callFrame : Option CallFrame
  background : Background
  textboxFaded : Bool
  characters : Slots
  choice : Option Choice
  status : Status
  /-- The voice clip that the next block of text takes. -/
  pushedVoice : Option String
deriving DecidableEq, Repr

namespace PlayState

/-- The state at the start of a script. -/
def new (script : String) (seed : UInt64) : PlayState where
  memory := .replicate memoryCells 0
  register := none
  rng := .ofSeed seed
  script := script
  chunk := 0
  token := 0
  conv := none
  callFrame := none
  background := .initial
  textboxFaded := false
  characters := .empty
  choice := none
  status := .running
  pushedVoice := none

/-- The cell of an address. -/
def cell (address : Int64) : Except Fault Nat :=
  if 0 ≤ address.toInt ∧ address.toInt < memoryCells then .ok address.toInt.toNat
  else .error (.evaluation (.badAddress address memoryCells))

/-- The content of a memory cell. -/
def readCell (s : PlayState) (address : Int64) : Except Fault Int64 :=
  (cell address).map fun i => s.memory.getD i 0

/-- The state with a memory cell changed. -/
def writeCell (s : PlayState) (address value : Int64) : Except Fault PlayState :=
  (cell address).map fun i => { s with memory := s.memory.setIfInBounds i value }

/-- A random number below a positive bound. -/
def draw (s : PlayState) (bound : Int64) : Except Fault (Int64 × PlayState) :=
  if bound ≤ 0 then .error (.evaluation (.randomBound bound))
  else
    let (n, rng) := s.rng.below bound.toInt.toNat
    .ok (Int64.ofNat n, { s with rng := rng })

instance : ValueContext PlayState where
  readCell := readCell
  writeCell := writeCell
  draw := draw

/-- The memory cells that are not zero, with their addresses in ascending order. -/
def nonzeroCells (s : PlayState) : List (Nat × Int64) :=
  (s.memory.toList.zipIdx.filter fun (value, _) => value != 0).map fun (value, i) => (i, value)

/-- Whether a choice waits for an answer. -/
def choicePending (s : PlayState) : Bool :=
  match s.choice with
  | some choice => !choice.isAnswered
  | none => false

end PlayState

end NovelScript
