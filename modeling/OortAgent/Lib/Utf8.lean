import Mathlib.Data.List.Basic
import OortAgent.Lib.Path

/-!
# Well-formed UTF-8

A text is a list of bytes, each a character with a code below 256. `utf8` runs the automaton of well-formed byte
sequences: no overlong forms, no surrogates, nothing above `U+10FFFF`.

* `utf8_append`: a well-formed text can be cut off at its end.
* `utf8_cut`: a text can be cut before an ASCII character.
* `utf8_of_ascii`: ASCII texts are well-formed.
* `toList_toUTF8`: the bytes of a string, in the order of its array.
-/

namespace OortAgent.Lib

/-- What may come next: a new character, one, two or three more bytes, or the second byte after `E0`, `ED`, `F0` or
`F4`. -/
inductive Utf8
  | start
  | one
  | two
  | three
  | e0
  | ed
  | f0
  | f4
  deriving DecidableEq

/-- One byte. -/
def Utf8.step : Utf8 → Nat → Option Utf8
  | .start, b =>
    if b < 0x80 then some .start
    else if 0xC2 ≤ b ∧ b ≤ 0xDF then some .one
    else if b = 0xE0 then some .e0
    else if b = 0xED then some .ed
    else if 0xE1 ≤ b ∧ b ≤ 0xEF then some .two
    else if b = 0xF0 then some .f0
    else if 0xF1 ≤ b ∧ b ≤ 0xF3 then some .three
    else if b = 0xF4 then some .f4
    else none
  | .one, b => if 0x80 ≤ b ∧ b ≤ 0xBF then some .start else none
  | .two, b => if 0x80 ≤ b ∧ b ≤ 0xBF then some .one else none
  | .three, b => if 0x80 ≤ b ∧ b ≤ 0xBF then some .two else none
  | .e0, b => if 0xA0 ≤ b ∧ b ≤ 0xBF then some .one else none
  | .ed, b => if 0x80 ≤ b ∧ b ≤ 0x9F then some .one else none
  | .f0, b => if 0x90 ≤ b ∧ b ≤ 0xBF then some .two else none
  | .f4, b => if 0x80 ≤ b ∧ b ≤ 0x8F then some .two else none

/-- A text. -/
def Utf8.run : Utf8 → Str → Option Utf8
  | s, [] => some s
  | s, c :: cs => (s.step c.toNat).bind fun s' => s'.run cs

/-- The text is well-formed. -/
def utf8 (s : Str) : Bool := decide (Utf8.run .start s = some .start)

theorem Utf8.run_append {s s' : Utf8} {a b : Str} (h : s.run a = some s') : s.run (a ++ b) = s'.run b := by
  induction a generalizing s with
  | nil => cases h; rfl
  | cons c a ih =>
    obtain ⟨t, ht, h⟩ := Option.bind_eq_some_iff.1 h
    rw [List.cons_append, Utf8.run, ht]
    exact ih h

/-- After a well-formed text the rest decides. -/
theorem utf8_append {a b : Str} (h : utf8 a = true) : utf8 (a ++ b) = utf8 b := by
  rw [utf8, utf8, Utf8.run_append (of_decide_eq_true h)]

/-- ASCII texts are well-formed. -/
theorem utf8_of_ascii {s : Str} (h : ∀ c ∈ s, c.toNat < 128) : utf8 s = true := by
  have hrun : Utf8.run .start s = some .start := by
    induction s with
    | nil => rfl
    | cons c s ih =>
      have hc := h c List.mem_cons_self
      rw [Utf8.run, Utf8.step, if_pos hc]
      exact ih fun d hd => h d (List.mem_cons_of_mem _ hd)
  exact decide_eq_true hrun

/-- Before an ASCII character the text is well-formed so far. -/
theorem utf8_cut {a b : Str} {c : Char} (hc : c.toNat < 128) (h : utf8 (a ++ c :: b) = true) : utf8 a = true := by
  have hrun : ∀ {a : Str} {s : Utf8}, s.run (a ++ c :: b) = some .start → s.run a = some .start := by
    intro a
    induction a with
    | nil =>
      intro s hs
      obtain ⟨t, ht, -⟩ := Option.bind_eq_some_iff.1 hs
      cases s with
      | start => rfl
      | _ =>
        simp only [Utf8.step] at ht
        split at ht
        · omega
        · cases ht
    | cons d a ih =>
      intro s hs
      obtain ⟨t, ht, hs⟩ := Option.bind_eq_some_iff.1 hs
      rw [Utf8.run, ht]
      exact ih hs
  exact decide_eq_true (hrun (of_decide_eq_true h))

theorem toList_loop (b : ByteArray) (i : Nat) (r : List UInt8) :
    ByteArray.toList.loop b i r = r.reverse ++ b.data.toList.drop i := by
  fun_induction ByteArray.toList.loop b i r with
  | case1 i r h ih =>
    have hi : i < b.data.toList.length := h
    have hget : b.get! i = b.data.toList[i] := by
      show b.data[i]! = _
      rw [getElem!_pos b.data i h]
      rfl
    rw [ih, List.reverse_cons, List.append_assoc, List.drop_eq_getElem_cons hi, hget]
    rfl
  | case2 i r h =>
    have hi : b.data.toList.length ≤ i := Nat.le_of_not_lt h
    rw [List.drop_eq_nil_of_le hi, List.append_nil]

/-- The bytes of a string, in the order of its array. -/
theorem toList_toUTF8 (s : String) : s.toUTF8.toList = s.toByteArray.data.toList := by
  rw [ByteArray.toList, toList_loop]
  rfl

end OortAgent.Lib
