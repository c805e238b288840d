import Mathlib.Data.List.Basic
import Mathlib.Data.List.Infix

/-!
# Path texts and the locations they denote

A location is the list of the names on the way from the file up to the root (innermost first), so that `n :: d` is
the entry `n` of the directory `d`. A path text is split at its slashes (`comps`) and walked from its start
(`walk`); without symbolic links the location does not depend on the filesystem, which only decides whether the walk
is possible. A path has no zero byte: a text with one is not a path, and as a C string it would end there.

* `comps_append`: splitting a text at a slash.
* `walk_append`, `norm_child`: the location of `d ++ "/" ++ n` is the child `n` of the location of `d`.
-/

namespace OortAgent.Lib

/-- A text (`std::string`). -/
abbrev Str := List Char

/-- An entry of a directory. -/
abbrev Name := List Char

/-- A location: the names from the file up to the root. -/
abbrev Loc := List Name

/-- The parts of a path between its slashes. -/
def comps : Str → List Name
  | [] => [[]]
  | c :: cs => if c = '/' then [] :: comps cs else match comps cs with
    | [] => [[c]]
    | n :: ns => (c :: n) :: ns

theorem comps_ne_nil : ∀ p : Str, comps p ≠ []
  | [] => by simp [comps]
  | c :: cs => by
    simp only [comps]
    split
    · simp
    · split <;> simp

theorem comps_append (a b : Str) : comps (a ++ '/' :: b) = comps a ++ comps b := by
  induction a with
  | nil => simp [comps]
  | cons c cs ih =>
    simp only [List.cons_append, comps, ih]
    split
    · simp
    · cases h : comps cs with
      | nil => exact absurd h (comps_ne_nil cs)
      | cons n ns => simp

/-- A text without a slash is one part. -/
theorem comps_plain {n : Str} (h : '/' ∉ n) : comps n = [n] := by
  induction n with
  | nil => rfl
  | cons c cs ih =>
    simp only [List.mem_cons, not_or] at h
    simp [comps, Ne.symm h.1, ih h.2]

/-- One part of a path: empty parts and `.` stay, `..` goes up. -/
def enter (cur : Loc) (n : Name) : Loc :=
  if n = [] ∨ n = ['.'] then cur else if n = ['.', '.'] then cur.tail else n :: cur

/-- The parts of a path one after the other. -/
def walk (cur : Loc) : List Name → Loc
  | [] => cur
  | n :: ns => walk (enter cur n) ns

theorem walk_append (cur : Loc) (a b : List Name) : walk cur (a ++ b) = walk (walk cur a) b := by
  induction a generalizing cur with
  | nil => rfl
  | cons n ns ih => exact ih _

/-- The directories that a walk leads through, with its end. -/
def ways (cur : Loc) : List Name → List Loc
  | [] => [cur]
  | n :: ns => cur :: ways (enter cur n) ns

theorem walk_mem_ways {cur : Loc} {ns : List Name} : walk cur ns ∈ ways cur ns := by
  induction ns generalizing cur with
  | nil => exact List.mem_singleton.2 rfl
  | cons n ns ih => exact List.mem_cons_of_mem _ ih

/-- Where the walk of a path starts. -/
def start (cwd : Loc) (p : Str) : Loc := if p.head? = some '/' then [] else cwd

/-- The location that a path denotes. -/
def norm (cwd : Loc) (p : Str) : Loc := walk (start cwd p) (comps p)

/-- A plain entry name: not empty, not `.` or `..`, without a slash. -/
def Plain (n : Name) : Prop := n ≠ [] ∧ n ≠ ['.'] ∧ n ≠ ['.', '.'] ∧ '/' ∉ n

instance (n : Name) : Decidable (Plain n) := inferInstanceAs (Decidable (_ ∧ _))

theorem Plain.enter {n : Name} (h : Plain n) (d : Loc) : enter d n = n :: d := by
  simp [Lib.enter, h.1, h.2.1, h.2.2.1]

theorem start_append {cwd : Loc} {a b : Str} (ha : a ≠ []) : start cwd (a ++ b) = start cwd a := by
  cases a with
  | nil => exact absurd rfl ha
  | cons c cs => simp [start]

/-- The entry `n` of a directory. -/
theorem norm_child {cwd : Loc} {d : Str} {n : Name} (hd : d ≠ []) (hn : Plain n) :
    norm cwd (d ++ '/' :: n) = n :: norm cwd d := by
  rw [norm, norm, start_append hd, comps_append, walk_append, comps_plain hn.2.2.2]
  simp [walk, hn.enter]

/-- An entry of the root directory. -/
theorem norm_root_child {cwd : Loc} {n : Name} (hn : Plain n) : norm cwd ('/' :: n) = [n] := by
  have h : comps ('/' :: n) = [[], n] := by simp [comps, comps_plain hn.2.2.2]
  rw [norm, h]
  simp [start, walk, Lib.enter, hn.1, hn.2.1, hn.2.2.1]

/-- Where the walk of an entry starts does not depend on the entry. -/
theorem start_entry {cwd : Loc} {d : Str} (n : Name) : start cwd (d ++ '/' :: n) = start cwd (d ++ ['/']) := by
  rw [List.append_cons]
  exact start_append (by simp)

/-- Two entries of one directory. -/
theorem norm_sibling {cwd : Loc} {d : Str} {n m : Name} (hn : Plain n) (hm : Plain m) :
    norm cwd (d ++ '/' :: n) = n :: (norm cwd (d ++ '/' :: m)).tail := by
  have hwalk : ∀ {k : Name}, Plain k → norm cwd (d ++ '/' :: k) = k :: walk (start cwd (d ++ ['/'])) (comps d) := by
    intro k hk
    rw [norm, start_entry, comps_append, walk_append, comps_plain hk.2.2.2]
    simp [walk, hk.enter]
  rw [hwalk hn, hwalk hm, List.tail_cons]

end OortAgent.Lib
