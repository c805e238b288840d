import OortAgent.Lib.FS

/-!
# CRC-32

`crc32` is the checksum of zlib: bit by bit, reflected polynomial `0xEDB88320`, with the complement before and after.
`getCrc` prints it as eight lower-case hexadecimal digits (`hex8`).

* `crc32_append`: the checksum of a text is that of its blocks in turn.
-/

namespace OortAgent

open Lib (Str Bytes)

/-- One bit of the checksum: shift, and add the polynomial if a one fell out. -/
def crcBit (c : Nat) : Nat := (c >>> 1) ^^^ (0xEDB88320 * (c % 2))

/-- One byte of the checksum. -/
def crcByte (c : Nat) (b : UInt8) : Nat :=
  crcBit (crcBit (crcBit (crcBit (crcBit (crcBit (crcBit (crcBit (c ^^^ b.toNat))))))))

/-- zlib's `crc32(crc, buf, len)`. -/
def crc32 (crc : Nat) (buf : Bytes) : Nat := buf.foldl crcByte (crc ^^^ 0xFFFFFFFF) ^^^ 0xFFFFFFFF

theorem crc32_append (c : Nat) (a b : Bytes) : crc32 (crc32 c a) b = crc32 c (a ++ b) := by
  rw [crc32, crc32, crc32, Nat.xor_assoc, Nat.xor_self, Nat.xor_zero, List.foldl_append]

/-- A hexadecimal digit. -/
def hexDigit (n : Nat) : Char :=
  if n < 10 then Char.ofNat (48 + n) else Char.ofNat (87 + n)

theorem hexDigit_ascii : ∀ n < 16, (hexDigit n).toNat < 128 := by decide

/-- `hex << setfill('0') << setw(8)`. -/
def hex8 (c : Nat) : Str :=
  [hexDigit (c >>> 28 % 16), hexDigit (c >>> 24 % 16), hexDigit (c >>> 20 % 16), hexDigit (c >>> 16 % 16),
    hexDigit (c >>> 12 % 16), hexDigit (c >>> 8 % 16), hexDigit (c >>> 4 % 16), hexDigit (c % 16)]

/-- The CRC-32 of a whole file, as `getCrc` prints it. -/
def crcText (data : Bytes) : Str := hex8 (crc32 0 data)

example : crcText "The quick brown fox jumps over the lazy dog".toUTF8.toList = "414fa339".toList := by decide +kernel

end OortAgent
