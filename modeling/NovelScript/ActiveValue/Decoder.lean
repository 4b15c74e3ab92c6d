import NovelScript.ActiveValue.Basic

/-! # Reading encoded values

An encoded value is a sequence of literals and operators that a zero byte ends. A literal has a
lead byte with its top bit set, up to four more bytes as the lead says, and one byte that is
ignored. An operator is its byte and its precedence. -/

namespace NovelScript

namespace Symbol

/-- How many bytes of a literal follow its lead byte; three stands for a full word of four. -/
def literalWidth (lead : UInt8) : Nat := ((lead &&& 0x60) >>> 5).toNat

/-- The ones that extend the sign of a short literal. -/
def signMask (width : Nat) : UInt32 :=
  if width = 0 then 0xFFFFFFE0 else if width = 1 then 0xFFFFE000 else 0xFFE00000

/-- The value of a literal shorter than a word: the low five bits of the lead in front of the
following bytes, which count as an unsigned byte or a signed pair of bytes. Bit four of the lead is
the sign. -/
def shortLiteral (lead : UInt8) (width : Nat) (low : Int) : Int32 :=
  let magnitude := UInt32.ofInt (((lead &&& 0x1f).toNat * Nat.pow 256 width : Nat) + low)
  if lead &&& 0x10 = 0 then magnitude.toInt32 else (magnitude ||| signMask width).toInt32

/-- Two bytes as a signed number, lowest first. -/
def signedPair (low high : UInt8) : Int :=
  (UInt16.ofNat (low.toNat + 256 * high.toNat)).toInt16.toInt

/-- Four bytes as a signed number, lowest first. -/
def word (a b c d : UInt8) : Int32 :=
  (UInt32.ofNat (Bytes.toNatLE [a, b, c, d])).toInt32

/-- The symbol of an operator byte and its precedence byte. -/
def ofOperator (op precedence : UInt8) : Symbol :=
  if isPlaceholderByte op then .operator placeholderOp 0
  else if isMemopByte op then .memop op precedence
  else .operator op precedence

/-- The fault of a literal whose bytes end too early. -/
def shortage (limit width : Nat) (rest : Bytes) : Fault :=
  if rest.length < width then .bounds (limit - rest.length) width limit
  else .bounds limit 1 limit

/-- Puts a symbol in front of the symbols read after it. -/
def consTo (s : Symbol) :
    Except Fault (List Symbol × Bytes) → Except Fault (List Symbol × Bytes)
  | .ok (symbols, rest) => .ok (s :: symbols, rest)
  | .error fault => .error fault

/-- Reads symbols up to and with the zero byte that ends them. The bytes end at `limit`. -/
def decode (limit : Nat) : Bytes → Except Fault (List Symbol × Bytes)
  | [] => .error (.bounds limit 1 limit)
  | lead :: rest =>
    if lead = 0 then .ok ([], rest)
    else if lead < 0x80 then
      match rest with
      | [] => .error (.bounds limit 1 limit)
      | precedence :: rest => consTo (ofOperator lead precedence) (decode limit rest)
    else
      match literalWidth lead, rest with
      | 0, _ :: rest => consTo (.literal (shortLiteral lead 0 0)) (decode limit rest)
      | 1, a :: _ :: rest => consTo (.literal (shortLiteral lead 1 a.toNat)) (decode limit rest)
      | 2, a :: b :: _ :: rest =>
        consTo (.literal (shortLiteral lead 2 (signedPair a b))) (decode limit rest)
      | 3, a :: b :: c :: d :: _ :: rest =>
        consTo (.literal (word a b c d)) (decode limit rest)
      | width, rest => .error (shortage limit (if width = 3 then 4 else width) rest)

end Symbol

end NovelScript
