import NovelScript.Bytes.View

/-! # Cursors

A cursor is a reading position in a view. Positions are absolute in the buffer, and the limit in
front of which reading has to stop only ever moves down. A reader is a computation on a cursor;
when it fails, the cursor stays where the failure left it. -/

namespace NovelScript

/-- A reading position in a view. -/
structure Cursor where
  view : View
  pos : Nat
  limit : Nat
  endForced : Bool
  mark : Option Nat
deriving DecidableEq, Repr

/-- A computation that moves a cursor and may fail. -/
abbrev Reader := ExceptT Fault (StateM Cursor)

namespace Cursor

/-- A cursor in front of the first byte of a view. -/
def ofView (v : View) : Cursor :=
  ⟨v, v.offset, v.stop, false, none⟩

def remaining (c : Cursor) : Nat := c.limit - c.pos

def atEnd (c : Cursor) : Bool := c.limit ≤ c.pos

/-- The bytes between the position and the limit. -/
def rest (c : Cursor) : Bytes :=
  (c.view.buffer.data.extract c.pos c.limit).toList

/-- The view from `start` up to the position. -/
def spanFrom (c : Cursor) (start : Nat) : Except Fault View :=
  c.view.absolute start (c.pos - start)

end Cursor

namespace Reader

/-- Runs a reader, giving its outcome and the cursor it leaves. -/
def runOn {α : Type} (r : Reader α) (c : Cursor) : Except Fault α × Cursor :=
  r c

/-- Fails without moving. -/
def fail {α : Type} (fault : Fault) : Reader α :=
  fun c => (.error fault, c)

/-- The cursor itself. -/
def cursor : Reader Cursor :=
  fun c => (.ok c, c)

/-- The current position. -/
def pos : Reader Nat :=
  fun c => (.ok c.pos, c)

/-- The reader with its faults changed. -/
def mapFault {α : Type} (f : Fault → Fault) (r : Reader α) : Reader α := fun c =>
  match r c with
  | (.error fault, c') => (.error (f fault), c')
  | (.ok value, c') => (.ok value, c')

/-- A result that does not depend on the cursor. -/
def lift {α : Type} (result : Except Fault α) : Reader α :=
  fun c => (result, c)

/-- The next `n` bytes. -/
def take (n : Nat) : Reader Bytes := fun c =>
  if c.pos + n ≤ c.limit then
    (.ok (c.view.buffer.data.extract c.pos (c.pos + n)).toList, { c with pos := c.pos + n })
  else (.error (.bounds c.pos n c.limit), c)

/-- The next `width` bytes as a number, lowest byte first. -/
def nat (width : Nat) : Reader Nat := do
  return (← take width).toNatLE

def u8 : Reader UInt8 := return UInt8.ofNat (← nat 1)

def u16 : Reader UInt16 := return UInt16.ofNat (← nat 2)

def s16 : Reader Int16 := return (← u16).toInt16

def u32 : Reader UInt32 := return UInt32.ofNat (← nat 4)

def s32 : Reader Int32 := return (← u32).toInt32

/-- What `r` would read, without moving. -/
def peek {α : Type} (r : Reader α) : Reader α :=
  fun c => ((r c).1, c)

/-- The bytes in front of the next `terminator`, which is read too. -/
def takeUntil (terminator : UInt8) : Reader Bytes := fun c =>
  match c.rest.idxOf? terminator with
  | some i => (.ok (c.rest.take i), { c with pos := c.pos + i + 1 })
  | none =>
    let stopped := { c with pos := max c.pos c.limit }
    (.error (.bounds stopped.pos 1 c.limit), stopped)

/-- Reads exactly the expected bytes. -/
def expect (expected : Bytes) : Reader Unit := do
  let start ← pos
  let found ← take expected.length
  if found = expected then return ()
  else fail (.invalidData start (.mismatch expected found))

/-- Reads `count` zero bytes. -/
def nulls (count : Nat) : Reader Unit := do
  let start ← pos
  let found ← take count
  if found.all (· == 0) then return ()
  else fail (.invalidData start (.notNull count found))

/-- Moves `n` bytes back, not past the start of the view. -/
def rewind (n : Nat) : Reader Unit := fun c =>
  if c.view.offset + n ≤ c.pos then (.ok (), { c with pos := c.pos - n })
  else (.error (.invalidData c.pos (.rewind n)), c)

/-- Makes the position the limit, so that later reads fail. -/
def setEnd : Reader Unit := fun c =>
  if c.pos ≤ c.limit then (.ok (), { c with limit := c.pos, endForced := true })
  else (.error (.bounds c.pos 0 c.limit), c)

/-- Marks the position. Only one mark can be set. -/
def setMark : Reader Unit := fun c =>
  match c.mark with
  | some _ => (.error (.invalidData c.pos .markAlreadySet), c)
  | none => (.ok (), { c with mark := some c.pos })

def clearMark : Reader Unit :=
  fun c => (.ok (), { c with mark := none })

/-- The view from the mark to the position; clears the mark. -/
def takeFromMark : Reader View := fun c =>
  match c.mark with
  | some mark => (c.spanFrom mark, { c with mark := none })
  | none => (.error (.invalidData c.pos .noMark), c)

/-- The view from `start` to the position. -/
def spanFrom (start : Nat) : Reader View :=
  fun c => (c.spanFrom start, c)

/-- Puts the cursor `offset` bytes behind the start of `view`. -/
def seek (view : View) (offset : Nat) : Reader Unit := fun _ =>
  match take offset (Cursor.ofView view) with
  | (.error fault, c) => (.error fault, c)
  | (.ok _, c) => (.ok (), c)

/-- `count` numbers of `width` bytes each. -/
def nats (width : Nat) : (count : Nat) → Reader (List Nat)
  | 0 => pure []
  | count + 1 => do
    let first ← nat width
    let others ← nats width count
    return first :: others

end Reader

end NovelScript
