import Mathlib.Logic.Function.Basic
import Mathlib.Data.List.Basic

/-!
# Processes

A process is a tree of calls to its environment: it returns, throws, stops for good, or makes a call and goes on with
whatever the environment answers. Nothing is said here about what a call does.

* `Proc.bind`, `Proc.attempt`: sequencing, and the reification of exceptions from which `handle` (a `catch` clause)
  and `ensure` (a destructor) are built.
* `Proc.loop`: a loop with a bound on its rounds; past the bound the process is still running (`Stop.fuel`).
* `Proc.Calls`: every call a process can make satisfies a predicate.
* `Proc.Ends`: every way a process can end, whatever the answers are, satisfies a predicate.
-/

namespace OortAgent.Lib

/-- The calls of an environment, and the type of the answer to each. -/
structure Sig where
  Call : Type
  Res : Call → Type

/-- Why a process never returns: it dies, or the bound of a loop of the model is used up. -/
inductive Stop
  | crash
  | fuel
  deriving DecidableEq

/-- A process that returns an `α` or throws an `ε`. -/
inductive Proc (S : Sig) (ε α : Type) : Type
  | ret (a : α)
  | throw (e : ε)
  | stop (s : Stop)
  | sys (c : S.Call) (k : S.Res c → Proc S ε α)

/-- How a process ends. -/
inductive Outcome (ε α : Type) : Type
  | ret (a : α)
  | throw (e : ε)
  | stop (s : Stop)
  deriving DecidableEq

namespace Proc

variable {S : Sig} {ε α β γ : Type}

/-- Sequencing: exceptions and stops skip the rest. -/
def bind : Proc S ε α → (α → Proc S ε β) → Proc S ε β
  | ret a, f => f a
  | throw e, _ => throw e
  | stop s, _ => stop s
  | sys c k, f => sys c (fun r => bind (k r) f)

/-- Turn an exception into a value. -/
def attempt : Proc S ε α → Proc S ε (Except ε α)
  | ret a => ret (.ok a)
  | throw e => ret (.error e)
  | stop s => stop s
  | sys c k => sys c (fun r => attempt (k r))

instance : Monad (Proc S ε) where
  pure := ret
  bind := bind

/-- One call. -/
def call (c : S.Call) : Proc S ε (S.Res c) := sys c ret

/-- Give a reified outcome back. -/
def resume : Except ε α → Proc S ε α
  | .ok a => ret a
  | .error e => throw e

/-- `try p catch (e) h`. A handler that does not match throws `e` again. -/
def handle (p : Proc S ε α) (h : ε → Proc S ε α) : Proc S ε α :=
  p.attempt.bind fun r => match r with
    | .ok a => ret a
    | .error e => h e

/-- Run `p`, then the destructor `fin`, whether `p` returned or threw. -/
def ensure (p : Proc S ε α) (fin : Proc S ε Unit) : Proc S ε α :=
  p.attempt.bind fun r => fin.bind fun _ => resume r

/-- A loop of at most `n` rounds. -/
def loop : Nat → (β → Proc S ε (β ⊕ γ)) → β → Proc S ε γ
  | 0, _, _ => stop .fuel
  | n + 1, body, b => (body b).bind fun
    | .inl b' => loop n body b'
    | .inr c => ret c

@[simp] theorem bind_eq (p : Proc S ε α) (f : α → Proc S ε β) : p >>= f = p.bind f := rfl

@[simp] theorem pure_eq (a : α) : (pure a : Proc S ε α) = ret a := rfl

@[simp] theorem ret_bind (a : α) (f : α → Proc S ε β) : (ret a : Proc S ε α).bind f = f a := rfl

@[simp] theorem throw_bind (e : ε) (f : α → Proc S ε β) : (throw e : Proc S ε α).bind f = throw e := rfl

@[simp] theorem stop_bind (s : Stop) (f : α → Proc S ε β) : (stop s : Proc S ε α).bind f = stop s := rfl

@[simp] theorem sys_bind (c : S.Call) (k : S.Res c → Proc S ε α) (f : α → Proc S ε β) :
    (sys c k).bind f = sys c (fun r => (k r).bind f) := rfl

@[simp] theorem call_bind (c : S.Call) (f : S.Res c → Proc S ε β) : (call c).bind f = sys c f := rfl

@[simp] theorem resume_ok (a : α) : (resume (.ok a) : Proc S ε α) = ret a := rfl

@[simp] theorem resume_error (e : ε) : (resume (.error e) : Proc S ε α) = throw e := rfl

/-- The outcome of a process that makes no more calls. -/
def outcome? : Proc S ε α → Option (Outcome ε α)
  | ret a => some (.ret a)
  | throw e => some (.throw e)
  | stop s => some (.stop s)
  | sys _ _ => none

theorem outcome?_ret {p : Proc S ε α} {a : α} : p.outcome? = some (.ret a) ↔ p = ret a := by
  cases p <;> simp [outcome?]

/-- The process has returned or thrown. -/
def Finished (p : Proc S ε α) : Prop := (∃ a, p = ret a) ∨ ∃ e, p = throw e

/-! ## The calls of a process -/

/-- Every call that `p` can make satisfies `C`, whatever the answers are. -/
def Calls (C : S.Call → Prop) : Proc S ε α → Prop
  | ret _ => True
  | throw _ => True
  | stop _ => True
  | sys c k => C c ∧ ∀ r, Calls C (k r)

section Calls

variable {C D : S.Call → Prop}

@[simp] theorem calls_ret (a : α) : Calls C (ret a : Proc S ε α) := trivial

@[simp] theorem calls_throw (e : ε) : Calls C (throw e : Proc S ε α) := trivial

@[simp] theorem calls_stop (s : Stop) : Calls C (stop s : Proc S ε α) := trivial

@[simp] theorem calls_sys (c : S.Call) (k : S.Res c → Proc S ε α) :
    Calls C (sys c k) ↔ C c ∧ ∀ r, Calls C (k r) := Iff.rfl

theorem Calls.mono (h : ∀ c, C c → D c) : ∀ {p : Proc S ε α}, Calls C p → Calls D p
  | ret _, _ => trivial
  | throw _, _ => trivial
  | stop _, _ => trivial
  | sys _ _, hp => ⟨h _ hp.1, fun r => (hp.2 r).mono h⟩

theorem Calls.bind : ∀ {p : Proc S ε α} {f : α → Proc S ε β}, Calls C p → (∀ a, Calls C (f a)) → Calls C (p.bind f)
  | ret a, _, _, hf => hf a
  | throw _, _, _, _ => trivial
  | stop _, _, _, _ => trivial
  | sys _ _, _, hp, hf => ⟨hp.1, fun r => (hp.2 r).bind hf⟩

theorem Calls.attempt : ∀ {p : Proc S ε α}, Calls C p → Calls C p.attempt
  | ret _, _ => trivial
  | throw _, _ => trivial
  | stop _, _ => trivial
  | sys _ _, hp => ⟨hp.1, fun r => (hp.2 r).attempt⟩

theorem Calls.handle {p : Proc S ε α} {h : ε → Proc S ε α} (hp : Calls C p) (hh : ∀ e, Calls C (h e)) :
    Calls C (p.handle h) := by
  refine hp.attempt.bind fun r => ?_
  cases r with
  | ok a => trivial
  | error e => exact hh e

theorem Calls.ensure {p : Proc S ε α} {fin : Proc S ε Unit} (hp : Calls C p) (hf : Calls C fin) :
    Calls C (p.ensure fin) := by
  refine hp.attempt.bind fun r => hf.bind fun _ => ?_
  cases r <;> trivial

theorem Calls.loop {body : β → Proc S ε (β ⊕ γ)} (hb : ∀ b, Calls C (body b)) :
    ∀ (n : Nat) (b : β), Calls C (loop n body b)
  | 0, _ => trivial
  | n + 1, b => (hb b).bind fun
    | .inl b' => Calls.loop hb n b'
    | .inr _ => trivial

end Calls

/-! ## The ends of a process -/

/-- However `p` ends, its outcome satisfies `Q`. -/
def Ends (Q : Outcome ε α → Prop) : Proc S ε α → Prop
  | ret a => Q (.ret a)
  | throw e => Q (.throw e)
  | stop s => Q (.stop s)
  | sys _ k => ∀ r, Ends Q (k r)

section Ends

variable {Q Q' : Outcome ε α → Prop}

theorem Ends.mono (h : ∀ o, Q o → Q' o) : ∀ {p : Proc S ε α}, Ends Q p → Ends Q' p
  | ret _, hp => h _ hp
  | throw _, hp => h _ hp
  | stop _, hp => h _ hp
  | sys _ _, hp => fun r => (hp r).mono h

theorem Ends.bind {Q' : Outcome ε β → Prop} : ∀ {p : Proc S ε α} {f : α → Proc S ε β}, Ends (fun o => match o with
      | .ret a => Ends Q' (f a)
      | .throw e => Q' (.throw e)
      | .stop s => Q' (.stop s)) p → Ends Q' (p.bind f)
  | ret _, _, hp => hp
  | throw _, _, hp => hp
  | stop _, _, hp => hp
  | sys _ _, _, hp => fun r => (hp r).bind

theorem Ends.attempt {Q : Outcome ε (Except ε α) → Prop} : ∀ {p : Proc S ε α}, Ends (fun o => match o with
      | .ret a => Q (.ret (.ok a))
      | .throw e => Q (.ret (.error e))
      | .stop s => Q (.stop s)) p → Ends Q p.attempt
  | ret _, hp => hp
  | throw _, hp => hp
  | stop _, hp => hp
  | sys _ _, hp => fun r => (hp r).attempt

theorem Ends.handle {p : Proc S ε α} {h : ε → Proc S ε α} (hp : Ends (fun o => match o with
      | .ret a => Q (.ret a)
      | .throw e => Ends Q (h e)
      | .stop s => Q (.stop s)) p) : Ends Q (p.handle h) := by
  refine Ends.bind (Ends.attempt (hp.mono fun o ho => ?_))
  cases o <;> exact ho

/-- A loop: a round goes on, or it ends the loop well. -/
theorem Ends.loop {body : β → Proc S ε (β ⊕ γ)} {Q : Outcome ε γ → Prop} (hfuel : Q (.stop .fuel))
    (hb : ∀ b, Ends (fun o : Outcome ε (β ⊕ γ) => match o with
      | .ret (.inl _) => True
      | .ret (.inr c) => Q (.ret c)
      | .throw e => Q (.throw e)
      | .stop s => Q (.stop s)) (body b)) : ∀ (n : Nat) (b : β), Ends Q (loop n body b)
  | 0, _ => hfuel
  | n + 1, b => by
    refine Ends.bind ((hb b).mono fun o ho => ?_)
    cases o with
    | ret x => cases x with
      | inl b' => exact Ends.loop hfuel hb n b'
      | inr c => exact ho
    | throw e => exact ho
    | stop s => exact ho

end Ends

end Proc

end OortAgent.Lib
