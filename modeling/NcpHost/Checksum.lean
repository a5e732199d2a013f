/-!
The two checksums of the wire format, as shift registers that take in one bit a step. `crc8` covers
the fixed fields of a frame header, `crc16` the body of every packet. Both start from zero and have
no final inversion, which makes them linear; the empty text has checksum zero.
-/

namespace NcpHost.Checksum

/-- One bit step of the 8-bit register: shift towards the high end, polynomial `0x07`. -/
def shift8 (r : UInt8) : UInt8 :=
  if r &&& 0x80 ≠ 0 then (r <<< 1) ^^^ 0x07 else r <<< 1

/-- One bit step of the 16-bit register: shift towards the low end, polynomial `0x1021` from its other
end. -/
def shift16 (r : UInt16) : UInt16 :=
  if r &&& 1 ≠ 0 then (r >>> 1) ^^^ 0x8408 else r >>> 1

def cycle8 (r : UInt8) : UInt8 :=
  shift8 (shift8 (shift8 (shift8 (shift8 (shift8 (shift8 (shift8 r)))))))

def cycle16 (r : UInt16) : UInt16 :=
  shift16 (shift16 (shift16 (shift16 (shift16 (shift16 (shift16 (shift16 r)))))))

def absorb8 (r : UInt8) (b : UInt8) : UInt8 := cycle8 (r ^^^ b)

def absorb16 (r : UInt16) (b : UInt8) : UInt16 := cycle16 (r ^^^ b.toUInt16)

/-- Header checksum. -/
def crc8 (bs : List UInt8) : UInt8 := bs.foldl absorb8 0

/-- Body checksum. -/
def crc16 (bs : List UInt8) : UInt16 := bs.foldl absorb16 0

end NcpHost.Checksum
