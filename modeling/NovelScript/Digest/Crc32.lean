import NovelScript.Bytes.Hex

/-! # CRC-32

The checksum with the reflected polynomial `EDB88320`. -/

namespace NovelScript.Crc32

/-- One bit of the division. -/
def bitStep (crc : UInt32) : UInt32 :=
  if crc &&& 1 = 0 then crc >>> 1 else (crc >>> 1) ^^^ 0xEDB88320

/-- Takes one byte into the remainder. -/
def byteStep (crc : UInt32) (b : UInt8) : UInt32 :=
  bitStep (bitStep (bitStep (bitStep (bitStep (bitStep (bitStep (bitStep
    (crc ^^^ b.toUInt32))))))))

/-- The checksum of a byte string. -/
def hash (bytes : Bytes) : UInt32 :=
  bytes.foldl byteStep 0xFFFFFFFF ^^^ 0xFFFFFFFF

end NovelScript.Crc32
