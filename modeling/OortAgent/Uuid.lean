import OortAgent.Crc
import OortAgent.Lib.Utf8

/-!
# Transfer ids

`mkUUID` prints sixteen random bytes as a version 4 UUID.

* `uuidText_plain`: an id is not empty and has neither a slash nor a dot, so it names files of one directory.
-/

namespace OortAgent

open Lib

/-- `hex << setfill('0') << setw(2)` of a byte. -/
def hexByte (b : UInt8) : Str := [hexDigit (b.toNat / 16), hexDigit (b.toNat % 16)]

/-- The bytes `k` to `k + n - 1` in hexadecimal. -/
def hexBytes (b : List UInt8) (k n : Nat) : Str := ((b.drop k).take n).flatMap hexByte

/-- The text of `mkUUID` for the bytes read from `/dev/urandom`. -/
def uuidText (rand : List UInt8) : Str :=
  let b := (rand.set 6 (0x40 ||| (rand.getD 6 0 &&& 0x0F))).set 8 (0x80 ||| (rand.getD 8 0 &&& 0x3F))
  hexBytes b 0 4 ++ '-' :: (hexBytes b 4 2 ++ '-' :: (hexBytes b 6 2 ++ '-' :: (hexBytes b 8 2 ++ '-' ::
    hexBytes b 10 6)))

theorem hexDigit_ne {n : Nat} (h : n < 16) {c : Char} (hc : c = '/' ∨ c = '.') : hexDigit n ≠ c := by
  rcases hc with rfl | rfl <;> (revert n; decide)

theorem hexBytes_ne {b : List UInt8} {k n : Nat} {c : Char} (hc : c = '/' ∨ c = '.') : c ∉ hexBytes b k n := by
  intro h
  obtain ⟨x, _, hx⟩ := List.mem_flatMap.1 h
  have hlt : x.toNat < 256 := x.toNat_lt
  simp only [hexByte, List.mem_cons, List.not_mem_nil, or_false] at hx
  rcases hx with e | e
  · exact hexDigit_ne (by omega) hc e.symm
  · exact hexDigit_ne (by omega) hc e.symm

theorem uuidText_plain (rand : List UInt8) : uuidText rand ≠ [] ∧ '/' ∉ uuidText rand ∧ '.' ∉ uuidText rand := by
  refine ⟨by simp [uuidText], ?_, ?_⟩
  all_goals
    simp only [uuidText, List.mem_append, List.mem_cons, not_or]
    simp [hexBytes_ne]

/-- An id is ASCII. -/
theorem utf8_uuidText (rand : List UInt8) : utf8 (uuidText rand) = true := by
  have hbytes : ∀ (b : List UInt8) (k n : Nat), ∀ c ∈ hexBytes b k n, c.toNat < 128 := by
    intro b k n c hc
    obtain ⟨x, -, hx⟩ := List.mem_flatMap.1 hc
    have hlt : x.toNat < 256 := x.toNat_lt
    simp only [hexByte, List.mem_cons, List.not_mem_nil, or_false] at hx
    rcases hx with rfl | rfl
    · exact hexDigit_ascii _ (by omega)
    · exact hexDigit_ascii _ (by omega)
  refine utf8_of_ascii fun c hc => ?_
  simp only [uuidText, List.mem_append, List.mem_cons] at hc
  rcases hc with hc | rfl | hc | rfl | hc | rfl | hc | rfl | hc
  all_goals first | exact hbytes _ _ _ c hc | decide

end OortAgent
