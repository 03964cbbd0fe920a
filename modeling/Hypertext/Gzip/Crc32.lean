/-
The cyclic redundancy check of gzip members.
-/
import Hypertext.Bytes

namespace Hypertext.Gzip

/-- One bit of division by the polynomial, lowest bit first. -/
def crcBit (r : UInt32) : UInt32 := if r &&& 1 == 1 then (r >>> 1) ^^^ 0xedb88320 else r >>> 1

/-- The register after one more byte. -/
def crcByte (r : UInt32) (b : UInt8) : UInt32 := (List.range 8).foldl (fun r _ => crcBit r) (r ^^^ b.toUInt32)

def crc32 (b : Bytes) : UInt32 := (b.foldl crcByte 0xffffffff) ^^^ 0xffffffff

end Hypertext.Gzip
