import OortAgent.Pair

/-!
# Prefixes and suffixes

The four helpers for affixes, and the pair of names that rests on them. `endsWith` and `startsWith` ask for the
length first; `behead` needs no question, as `substr` cuts what is left of a short text; `chop` asks nothing, and
its `substr` starts behind the end of a text that is shorter than the tail.

* `chop_agrees_iff`, `behead_agrees`: a cut and its test.
* `twins_agree`: the twin of a twin.
* `affixes_agree_iff`: all of it, for a tail that is not longer than the text.
-/

namespace OortAgent

open Lib

/-- `behead`: remove a given head; a text that does not start with it is returned whole. -/
def behead (str head : Str) : Option Str :=
  if str.take head.length ≠ head then some str
  else if str.length < head.length then none
  else some (str.drop head.length)

/-- `chop` gives a text back, and cuts exactly if `endsWith` holds. -/
def ChopAgrees (str tail : Str) : Prop :=
  ∃ r, chop str tail = some r ∧ (endsWith str tail = true ↔ str = r ++ tail) ∧ (endsWith str tail = false → r = str)

/-- `behead` gives a text back, and cuts exactly if `startsWith` holds. -/
def BeheadAgrees (str head : Str) : Prop :=
  ∃ r, behead str head = some r ∧ (startsWith str head = true ↔ str = head ++ r) ∧
    (startsWith str head = false → r = str)

/-- The twin of a data file or of a metadata file has the file as its twin, and the same holds of their last parts. -/
def TwinsAgree (p : Str) : Prop :=
  (endsWith p DATA_EXT = true →
    ∃ m, metaFile p = some m ∧ dataFile m = some p ∧ metaFile (tailname p) = some (tailname m)) ∧
  (endsWith p META_EXT = true →
    ∃ d, dataFile p = some d ∧ metaFile d = some p ∧ dataFile (tailname p) = some (tailname d))

/-! ## Cuts -/

/-- A text without the tail is returned as it is, unless it is too short. -/
theorem chop_of_not_endsWith {str tail : Str} (h : endsWith str tail = false) (hl : tail.length ≤ str.length) :
    chop str tail = some str := by
  have hne : str.drop (str.length - tail.length) ≠ tail := by
    intro he
    simp [endsWith, hl, he] at h
  rw [chop, if_neg (by omega), if_pos hne]

theorem chop_short {str tail : Str} (h : str.length < tail.length) : chop str tail = none := by rw [chop, if_pos h]

/-- `chop` agrees with its test exactly if the tail is not longer than the text. -/
theorem chop_agrees_iff {str tail : Str} : ChopAgrees str tail ↔ tail.length ≤ str.length := by
  constructor
  · rintro ⟨r, hr, -, -⟩
    by_contra hl
    rw [chop_short (by omega)] at hr
    cases hr
  · intro hl
    cases he : endsWith str tail with
    | true =>
      obtain ⟨s, rfl⟩ := endsWith_iff.1 he
      exact ⟨s, chop_append s tail, by simp [he], by simp [he]⟩
    | false =>
      refine ⟨str, chop_of_not_endsWith he hl, ⟨fun h => absurd h (by simp [he]), ?_⟩, fun _ => rfl⟩
      intro h
      exact endsWith_iff.2 ⟨str, h⟩

theorem behead_append (head s : Str) : behead (head ++ s) head = some s := by
  simp [behead]

/-- Where the head is not there, the first characters are others: a short text has too few. -/
theorem behead_of_not_startsWith {str head : Str} (h : startsWith str head = false) : behead str head = some str := by
  have hne : str.take head.length ≠ head := by
    intro he
    have hl : head.length ≤ str.length := by
      have := congrArg List.length he
      rw [List.length_take] at this
      omega
    simp [startsWith, hl, he] at h
  rw [behead, if_pos hne]

/-- `behead` agrees with its test. -/
theorem behead_agrees (str head : Str) : BeheadAgrees str head := by
  cases he : startsWith str head with
  | true =>
    obtain ⟨s, rfl⟩ := startsWith_iff.1 he
    exact ⟨s, behead_append head s, by simp [he], by simp [he]⟩
  | false =>
    refine ⟨str, behead_of_not_startsWith he, ⟨fun h => absurd h (by simp [he]), ?_⟩, fun _ => rfl⟩
    intro h
    exact startsWith_iff.2 ⟨str, h⟩

/-! ## Twins -/

/-- The last part of a text with an extension. -/
theorem tailname_append {s ext : Str} (hx : '/' ∉ ext) : tailname (s ++ ext) = tailname s ++ ext := by
  have h : ∀ c ∈ ext.reverse, notSlash c = true := by
    intro c hc
    rw [notSlash_iff]
    rintro rfl
    exact hx (List.mem_reverse.1 hc)
  rw [tailname, List.reverse_append, List.takeWhile_append_of_pos h, List.reverse_append, List.reverse_reverse]
  rfl

theorem metaFile_append (s : Str) : metaFile (s ++ DATA_EXT) = some (s ++ META_EXT) := by
  rw [metaFile, chop_append]
  rfl

theorem dataFile_append (s : Str) : dataFile (s ++ META_EXT) = some (s ++ DATA_EXT) := by
  rw [dataFile, chop_append]
  rfl

/-- The names of a pair give each other back. -/
theorem twins_agree (p : Str) : TwinsAgree p := by
  have hd : '/' ∉ DATA_EXT := by decide
  have hm : '/' ∉ META_EXT := by decide
  constructor
  · intro h
    obtain ⟨s, rfl⟩ := endsWith_iff.1 h
    refine ⟨s ++ META_EXT, metaFile_append s, dataFile_append s, ?_⟩
    rw [tailname_append hd, tailname_append hm]
    exact metaFile_append (tailname s)
  · intro h
    obtain ⟨s, rfl⟩ := endsWith_iff.1 h
    refine ⟨s ++ DATA_EXT, dataFile_append s, metaFile_append s, ?_⟩
    rw [tailname_append hm, tailname_append hd]
    exact dataFile_append (tailname s)

/-- **Affixes.** The helpers agree with their tests, and the twins with each other, exactly if the tail is not
longer than the text. -/
theorem affixes_agree_iff (str tail head : Str) :
    (ChopAgrees str tail ∧ BeheadAgrees str head ∧ ∀ p, TwinsAgree p) ↔ tail.length ≤ str.length := by
  constructor
  · rintro ⟨h, -, -⟩
    exact chop_agrees_iff.1 h
  · intro h
    exact ⟨chop_agrees_iff.2 h, behead_agrees str head, twins_agree⟩

/-- `chop("f", ".meta.oort")` throws; `ends_with` says that the text does not end so. -/
theorem chop_throws : chop "f".toList META_EXT = none ∧ endsWith "f".toList META_EXT = false ∧
    ¬ (ChopAgrees "f".toList META_EXT ∧ BeheadAgrees "f".toList [] ∧ ∀ p, TwinsAgree p) := by
  refine ⟨by decide, by decide, ?_⟩
  rintro ⟨⟨r, hr, -, -⟩, -, -⟩
  rw [show chop "f".toList META_EXT = none by decide] at hr
  cases hr

end OortAgent
