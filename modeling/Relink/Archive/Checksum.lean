import Relink.Text

/-! # Checksums

The cyclic redundancy check of 32 bits that archive files carry: the remainder of the content as a
polynomial over two elements, lowest bit first, with all bits flipped before and after. -/

namespace Relink.Checksum

/-- The generator, lowest bit first. -/
def generator : UInt32 := 0xedb88320

/-- Divides one bit away. -/
def shift (remainder : UInt32) : UInt32 :=
  if remainder &&& 1 = 1 then remainder >>> 1 ^^^ generator else remainder >>> 1

/-- Takes in one byte. -/
def step (remainder : UInt32) (byte : UInt8) : UInt32 :=
  shift (shift (shift (shift (shift (shift (shift (shift (remainder ^^^ byte.toUInt32))))))))

/-- The checksum of bytes. -/
def ofBytes (bytes : Bytes) : UInt32 := bytes.foldl step 0xffffffff ^^^ 0xffffffff

-- The digits from one to nine, with the checksum that is published for them.
example : ofBytes [0x31, 0x32, 0x33, 0x34, 0x35, 0x36, 0x37, 0x38, 0x39] = 0xcbf43926 := by decide +kernel

end Relink.Checksum
