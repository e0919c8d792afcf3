/-!
# Checksums

The cyclic redundancy check of 32 bits: the remainder of the bits of some bytes, lowest bit first,
with all bits flipped before and after.
-/

namespace Manuscript.Image

/-- Divide by the generator for one bit. -/
def shiftOut (remainder : UInt32) : UInt32 :=
  if remainder &&& 1 = 1 then (remainder >>> 1) ^^^ 0xEDB88320 else remainder >>> 1

def absorb (remainder : UInt32) (byte : UInt8) : UInt32 :=
  Nat.repeat shiftOut 8 (remainder ^^^ byte.toUInt32)

def checksum (bytes : List UInt8) : UInt32 :=
  bytes.foldl absorb 0xFFFFFFFF ^^^ 0xFFFFFFFF

end Manuscript.Image
