/-!
The CRC-32 checksum of archives: polynomial division over bits, low bit first, with the polynomial
0xedb88320 and both ends inverted.
-/

namespace WordMachine.Crc32

/-- The remainder after so many more zero bits. -/
def shift : Nat → UInt32 → UInt32
  | 0, r => r
  | n + 1, r => shift n (if r &&& 1 = 1 then (r >>> 1) ^^^ 0xedb88320 else r >>> 1)

/-- The remainders of all single bytes. -/
def table : Vector UInt32 256 := Vector.ofFn fun b => shift 8 (UInt32.ofNat b.val)

/-- The remainder of one more byte. -/
def add (r : UInt32) (b : UInt8) : UInt32 :=
  table.get ⟨(r.toUInt8 ^^^ b).toNat, UInt8.toNat_lt _⟩ ^^^ (r >>> 8)

def checksum (bytes : List UInt8) : UInt32 := ~~~bytes.foldl add 0xffffffff

end WordMachine.Crc32
