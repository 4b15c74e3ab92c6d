import NovelScript.Fault

/-! # Views

A view is a window over a byte buffer. Windows of one buffer keep absolute offsets, so positions
found through a narrow window can be told in terms of the whole buffer. -/

namespace NovelScript

/-- A byte buffer. Two buffers are the same one exactly when their labels agree, whatever bytes
they hold. -/
structure Buffer where
  label : Nat
  data : Array UInt8
deriving DecidableEq, Repr

/-- The window of `length` bytes at `offset` of a buffer. -/
structure View where
  buffer : Buffer
  offset : Nat
  length : Nat
  inBounds : offset + length ≤ buffer.data.size
deriving DecidableEq, Repr

/-- Addresses do not exceed this number; a sum that would is told as this number. -/
def maxAddress : Nat := UInt64.size - 1

namespace View

/-- The window over a whole buffer. -/
def whole (buffer : Buffer) : View :=
  ⟨buffer, 0, buffer.data.size, by simp⟩

/-- The window over a buffer of its own that holds the bytes. -/
def ofBytes (bytes : Bytes) : View :=
  whole ⟨0, bytes.toArray⟩

/-- The absolute offset one past the window. -/
def stop (v : View) : Nat := v.offset + v.length

/-- The bytes of the window. -/
def bytes (v : View) : Bytes :=
  (v.buffer.data.extract v.offset v.stop).toList

def isEmpty (v : View) : Bool := v.length == 0

/-- The window of `length` bytes at an absolute offset; it must lie inside this one. -/
def absolute (v : View) (offset length : Nat) : Except Fault View :=
  if h : v.offset ≤ offset ∧ offset + length ≤ v.stop then
    .ok ⟨v.buffer, offset, length, Nat.le_trans h.2 v.inBounds⟩
  else .error (.bounds offset length v.stop)

/-- The window of `length` bytes at an offset relative to this one, inside this one. -/
def sub (v : View) (offset length : Nat) : Except Fault View :=
  v.absolute (min (v.offset + offset) maxAddress) length

/-- The smallest window that covers both, if they are windows of one buffer. -/
def spanTo (v w : View) : Option View :=
  if h : v.buffer = w.buffer then
    some ⟨v.buffer, min v.offset w.offset, max v.stop w.stop - min v.offset w.offset, by
      have hv := v.inBounds
      have hw := w.inBounds
      rw [← h] at hw
      simp only [stop]
      omega⟩
  else none

/-- Whether two windows hold the same bytes, wherever they lie. -/
def sameBytes (v w : View) : Bool := v.bytes == w.bytes

/-- Offset and length in words. -/
def describe (v : View) : String :=
  "Domain \x7b offset: " ++ toString v.offset ++ ", len: " ++ toString v.length ++ " \x7d"

end View

end NovelScript
