import Mathlib.Data.List.TakeWhile
import OortAgent.Lib.Path

/-!
# The text helpers of `Utils.cpp`

`tailname` and `dirname` cut a path at its last slash; `endsWith`, `startsWith` and `chop` work on affixes. `chop` takes
the tail with `substr`, which throws when the text is shorter than the tail: `none` here.

* `dirname_tailname`: the two parts give the path back.
* `chop_append`: what `chop` does to a text that ends with the tail.
-/

namespace OortAgent

open Lib (Str Name)

/-- A character that does not end a part of a path. -/
def notSlash (c : Char) : Bool := decide (c ≠ '/')

@[simp] theorem notSlash_iff {c : Char} : notSlash c = true ↔ c ≠ '/' := by simp [notSlash]

/-- The part of a path after the last slash. -/
def tailname (filepath : Str) : Str := (filepath.reverse.takeWhile notSlash).reverse

/-- The part of a path before the last slash; a path without one is returned whole. -/
def dirname (filepath : Str) : Str :=
  if '/' ∈ filepath then ((filepath.reverse.dropWhile notSlash).tail).reverse else filepath

/-- Does the text end with the tail? -/
def endsWith (str tail : Str) : Bool :=
  decide (tail.length ≤ str.length) && decide (str.drop (str.length - tail.length) = tail)

/-- Does the text start with the head? -/
def startsWith (str head : Str) : Bool :=
  decide (head.length ≤ str.length) && decide (str.take head.length = head)

/-- Remove a given tail; a text that does not end with it is returned whole, one that is shorter throws. -/
def chop (str tail : Str) : Option Str :=
  if str.length < tail.length then none
  else if str.drop (str.length - tail.length) ≠ tail then some str
  else some (str.take (str.length - tail.length))

theorem endsWith_iff {str tail : Str} : endsWith str tail = true ↔ ∃ s, str = s ++ tail := by
  simp only [endsWith, Bool.and_eq_true, decide_eq_true_eq]
  constructor
  · rintro ⟨_, h⟩
    refine ⟨str.take (str.length - tail.length), ?_⟩
    conv_lhs => rw [← List.take_append_drop (str.length - tail.length) str, h]
  · rintro ⟨s, rfl⟩
    simp

theorem startsWith_iff {str head : Str} : startsWith str head = true ↔ ∃ s, str = head ++ s := by
  simp only [startsWith, Bool.and_eq_true, decide_eq_true_eq]
  constructor
  · rintro ⟨_, h⟩
    refine ⟨str.drop head.length, ?_⟩
    conv_lhs => rw [← List.take_append_drop head.length str, h]
  · rintro ⟨s, rfl⟩
    simp

@[simp] theorem chop_append (s tail : Str) : chop (s ++ tail) tail = some s := by
  simp [chop]

/-- A path with a slash is its directory, a slash and its last part. -/
theorem dirname_tailname {p : Str} (h : '/' ∈ p) : p = dirname p ++ '/' :: tailname p := by
  have hr : p.reverse.takeWhile notSlash ++ p.reverse.dropWhile notSlash = p.reverse :=
    List.takeWhile_append_dropWhile
  cases hd : p.reverse.dropWhile notSlash with
  | nil =>
    have := List.dropWhile_eq_nil_iff.1 hd '/' (by simpa using h)
    simp at this
  | cons c cs =>
    have hc : c = '/' := by
      have := List.head_dropWhile_not notSlash (l := p.reverse) (by simp [hd])
      simpa [hd, notSlash] using this
    subst hc
    rw [hd] at hr
    have hp : p = (p.reverse.takeWhile notSlash ++ '/' :: cs).reverse := by rw [hr, List.reverse_reverse]
    conv_lhs => rw [hp]
    simp [dirname, tailname, h, hd]

/-- The last part has no slash. -/
theorem slash_notMem_tailname (p : Str) : '/' ∉ tailname p := by
  intro h
  have := List.mem_takeWhile_imp (List.mem_reverse.1 h)
  simp at this

/-- The last part of a directory entry. -/
theorem tailname_child {d n : Str} (hn : '/' ∉ n) : tailname (d ++ '/' :: n) = n := by
  have : ∀ c ∈ n.reverse, notSlash c = true := by
    intro c hc
    rw [notSlash_iff]
    rintro rfl
    exact hn (by simpa using hc)
  simp only [tailname, List.reverse_append, List.reverse_cons, List.append_assoc, List.singleton_append]
  rw [List.takeWhile_append_of_pos this]
  simp [notSlash]

/-- The directory of a directory entry. -/
theorem dirname_child {d n : Str} (hn : '/' ∉ n) : dirname (d ++ '/' :: n) = d := by
  have h := dirname_tailname (p := d ++ '/' :: n) (by simp)
  rw [tailname_child hn] at h
  exact (List.append_cancel_right h).symm

end OortAgent
