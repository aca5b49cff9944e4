/-!
# Checksum — the 32-bit cyclic redundancy check of IEEE 802.3

The bits of a message are taken lowest first and divided by the reflected
generator `0xEDB88320`; the register starts with all bits set and is
complemented at the end. Hash partitioning feeds it the bytes of a value.
-/

namespace WhatIf

namespace Checksum

/-- The generator polynomial, lowest bit first. -/
def generator : UInt32 := 0xEDB88320

/-- Divide out the lowest bit of the register. -/
def shiftBit (r : UInt32) : UInt32 :=
  if r &&& 1 = 1 then (r >>> 1) ^^^ generator else r >>> 1

/-- Divide out the lowest `n` bits, one at a time. -/
def shiftBits : Nat → UInt32 → UInt32
  | 0, r => r
  | n + 1, r => shiftBits n (shiftBit r)

/-- Feed one byte to the register. -/
def feed (r : UInt32) (b : UInt8) : UInt32 := shiftBits 8 (r ^^^ b.toUInt32)

/-- The check value of a message. -/
def crc32 (message : List UInt8) : UInt32 := message.foldl feed 0xFFFFFFFF ^^^ 0xFFFFFFFF

/-- The eight bytes of a word, lowest first. -/
def bytesOfWord (w : UInt64) : List UInt8 :=
  (List.range 8).map fun i => (w >>> (8 * i).toUInt64).toUInt8

/-- The check value that fixes the variant: that of the digits one to nine. -/
example : crc32 [0x31, 0x32, 0x33, 0x34, 0x35, 0x36, 0x37, 0x38, 0x39] = 0xCBF43926 := by
  decide +kernel

end Checksum

end WhatIf
