import OortAgent.Lib.Proc

/-!
# Runs of one process

`Sem` says what a call does to a state, given a choice of the environment (the failure it injects, the name it picks,
how much of a request it serves); `none` means that the environment cannot make that choice now, or that the call
blocks.

* `Run M p s tr o s'`: alone, from `s`, the process `p` makes the calls `tr` and ends with `o` in `s'`.
* `run_bind`, `run_attempt`, `run_handle`, `run_ensure`: how a run of a composed process splits. A proof about a
  program is read off these, one call at a time.
* `run_bind_ret`, `run_try`, `Run.bind_along`: the same where the run returned, for a body that returns at its end, and
  for a first part that can only return.
* `Along M ok s tr`: each call of a trace satisfies a condition on it and the state it is made in (`Run.along`).
* `exec?`: the run for a list of choices, computed (`exec?_sound`).
-/

namespace OortAgent.Lib

/-- What a call does. -/
structure Sem (S : Sig) (σ χ : Type) where
  exec : (c : S.Call) → χ → σ → Option (S.Res c × σ)

/-- A call that was made, the choice of the environment, and the answer. -/
structure Event (S : Sig) (χ : Type) where
  call : S.Call
  choice : χ
  res : S.Res call

section Runs

variable {S : Sig} {σ χ ε α β γ : Type}

/-- A run of `p` alone. -/
inductive Run (M : Sem S σ χ) : Proc S ε α → σ → List (Event S χ) → Outcome ε α → σ → Prop
  | ret (a : α) (s : σ) : Run M (.ret a) s [] (.ret a) s
  | throw (e : ε) (s : σ) : Run M (.throw e) s [] (.throw e) s
  | stop (h : Stop) (s : σ) : Run M (.stop h) s [] (.stop h) s
  | sys {c : S.Call} {k : S.Res c → Proc S ε α} {s s₁ s' : σ} {tr : List (Event S χ)} {o : Outcome ε α} (ch : χ)
      (r : S.Res c) : M.exec c ch s = some (r, s₁) → Run M (k r) s₁ tr o s' →
      Run M (.sys c k) s (⟨c, ch, r⟩ :: tr) o s'

variable {M : Sem S σ χ}

@[simp] theorem run_ret {a : α} {s s' : σ} {tr : List (Event S χ)} {o : Outcome ε α} :
    Run M (.ret a : Proc S ε α) s tr o s' ↔ tr = [] ∧ o = .ret a ∧ s' = s := by
  constructor
  · rintro ⟨⟩; exact ⟨rfl, rfl, rfl⟩
  · rintro ⟨rfl, rfl, rfl⟩; exact .ret a _

@[simp] theorem run_throw {e : ε} {s s' : σ} {tr : List (Event S χ)} {o : Outcome ε α} :
    Run M (.throw e : Proc S ε α) s tr o s' ↔ tr = [] ∧ o = .throw e ∧ s' = s := by
  constructor
  · rintro ⟨⟩; exact ⟨rfl, rfl, rfl⟩
  · rintro ⟨rfl, rfl, rfl⟩; exact .throw e _

@[simp] theorem run_stop {h : Stop} {s s' : σ} {tr : List (Event S χ)} {o : Outcome ε α} :
    Run M (.stop h : Proc S ε α) s tr o s' ↔ tr = [] ∧ o = .stop h ∧ s' = s := by
  constructor
  · rintro ⟨⟩; exact ⟨rfl, rfl, rfl⟩
  · rintro ⟨rfl, rfl, rfl⟩; exact .stop h _

theorem run_sys {c : S.Call} {k : S.Res c → Proc S ε α} {s s' : σ} {tr : List (Event S χ)} {o : Outcome ε α} :
    Run M (.sys c k) s tr o s' ↔
      ∃ ch r s₁ tr', M.exec c ch s = some (r, s₁) ∧ Run M (k r) s₁ tr' o s' ∧ tr = ⟨c, ch, r⟩ :: tr' := by
  constructor
  · intro h
    cases h with
    | sys ch r he hr => exact ⟨ch, r, _, _, he, hr, rfl⟩
  · rintro ⟨ch, r, s₁, tr', he, hr, rfl⟩
    exact .sys ch r he hr

/-- A run ends as the process can end. -/
theorem Run.ends {p : Proc S ε α} {s s' : σ} {tr : List (Event S χ)} {o : Outcome ε α} {Q : Outcome ε α → Prop}
    (h : Run M p s tr o s') (hp : p.Ends Q) : Q o := by
  induction h with
  | ret a s => exact hp
  | throw e s => exact hp
  | stop x s => exact hp
  | sys ch r he _ ih => exact ih (hp r)

/-- A run of a sequence: the first part returned, or it threw or stopped and the rest was skipped. -/
theorem run_bind {p : Proc S ε α} {f : α → Proc S ε β} {s s' : σ} {tr : List (Event S χ)} {o : Outcome ε β} :
    Run M (p.bind f) s tr o s' ↔
      (∃ a s₁ tr₁ tr₂, Run M p s tr₁ (.ret a) s₁ ∧ Run M (f a) s₁ tr₂ o s' ∧ tr = tr₁ ++ tr₂) ∨
      (∃ e, Run M p s tr (.throw e) s' ∧ o = .throw e) ∨ ∃ h, Run M p s tr (.stop h) s' ∧ o = .stop h := by
  induction p generalizing s tr with
  | ret a => simp
  | throw e => simp; tauto
  | stop h => simp; tauto
  | sys c k ih =>
    simp only [Proc.sys_bind, run_sys, ih]
    constructor
    · rintro ⟨ch, r, s₁, tr', he, h, rfl⟩
      rcases h with ⟨a, s₂, tr₁, tr₂, h₁, h₂, rfl⟩ | ⟨e, h, rfl⟩ | ⟨h, h', rfl⟩
      · exact .inl ⟨a, s₂, _, tr₂, ⟨ch, r, s₁, tr₁, he, h₁, rfl⟩, h₂, rfl⟩
      · exact .inr (.inl ⟨e, ⟨ch, r, s₁, tr', he, h, rfl⟩, rfl⟩)
      · exact .inr (.inr ⟨h, ⟨ch, r, s₁, tr', he, h', rfl⟩, rfl⟩)
    · rintro (⟨a, s₂, tr₁, tr₂, ⟨ch, r, s₁, tr', he, h₁, rfl⟩, h₂, rfl⟩ | ⟨e, ⟨ch, r, s₁, tr', he, h, rfl⟩, rfl⟩ |
        ⟨h, ⟨ch, r, s₁, tr', he, h', rfl⟩, rfl⟩)
      · exact ⟨ch, r, s₁, tr' ++ tr₂, he, .inl ⟨a, s₂, tr', tr₂, h₁, h₂, rfl⟩, rfl⟩
      · exact ⟨ch, r, s₁, tr', he, .inr (.inl ⟨e, h, rfl⟩), rfl⟩
      · exact ⟨ch, r, s₁, tr', he, .inr (.inr ⟨h, h', rfl⟩), rfl⟩

/-- A sequence that returned: both parts did. -/
theorem run_bind_ret {p : Proc S ε α} {f : α → Proc S ε β} {s s' : σ} {tr : List (Event S χ)} {b : β} :
    Run M (p.bind f) s tr (.ret b) s' ↔
      ∃ a s₁ tr₁ tr₂, Run M p s tr₁ (.ret a) s₁ ∧ Run M (f a) s₁ tr₂ (.ret b) s' ∧ tr = tr₁ ++ tr₂ := by
  simp [run_bind]

/-- A run with its exceptions reified. -/
theorem run_attempt {p : Proc S ε α} {s s' : σ} {tr : List (Event S χ)} {o : Outcome ε (Except ε α)} :
    Run M p.attempt s tr o s' ↔
      (∃ a, Run M p s tr (.ret a) s' ∧ o = .ret (.ok a)) ∨ (∃ e, Run M p s tr (.throw e) s' ∧ o = .ret (.error e)) ∨
      ∃ h, Run M p s tr (.stop h) s' ∧ o = .stop h := by
  induction p generalizing s tr with
  | ret a => simp [Proc.attempt]; tauto
  | throw e => simp [Proc.attempt]; tauto
  | stop h => simp [Proc.attempt]; tauto
  | sys c k ih =>
    simp only [Proc.attempt, run_sys, ih]
    constructor
    · rintro ⟨ch, r, s₁, tr', he, h, rfl⟩
      rcases h with ⟨a, h, rfl⟩ | ⟨e, h, rfl⟩ | ⟨h, h', rfl⟩
      · exact .inl ⟨a, ⟨ch, r, s₁, tr', he, h, rfl⟩, rfl⟩
      · exact .inr (.inl ⟨e, ⟨ch, r, s₁, tr', he, h, rfl⟩, rfl⟩)
      · exact .inr (.inr ⟨h, ⟨ch, r, s₁, tr', he, h', rfl⟩, rfl⟩)
    · rintro (⟨a, ⟨ch, r, s₁, tr', he, h, rfl⟩, rfl⟩ | ⟨e, ⟨ch, r, s₁, tr', he, h, rfl⟩, rfl⟩ |
        ⟨h, ⟨ch, r, s₁, tr', he, h', rfl⟩, rfl⟩)
      · exact ⟨ch, r, s₁, tr', he, .inl ⟨a, h, rfl⟩, rfl⟩
      · exact ⟨ch, r, s₁, tr', he, .inr (.inl ⟨e, h, rfl⟩), rfl⟩
      · exact ⟨ch, r, s₁, tr', he, .inr (.inr ⟨h, h', rfl⟩), rfl⟩

/-- A run of a `try` block: it returned or stopped, or it threw and the handler ran. -/
theorem run_handle {p : Proc S ε α} {h : ε → Proc S ε α} {s s' : σ} {tr : List (Event S χ)} {o : Outcome ε α} :
    Run M (p.handle h) s tr o s' ↔
      (∃ a, Run M p s tr (.ret a) s' ∧ o = .ret a) ∨ (∃ x, Run M p s tr (.stop x) s' ∧ o = .stop x) ∨
      ∃ e s₁ tr₁ tr₂, Run M p s tr₁ (.throw e) s₁ ∧ Run M (h e) s₁ tr₂ o s' ∧ tr = tr₁ ++ tr₂ := by
  simp only [Proc.handle, run_bind, run_attempt]
  constructor
  · rintro (⟨r, s₁, tr₁, tr₂, (⟨a, h₁, e⟩ | ⟨e', h₁, e⟩ | ⟨x, h₁, e⟩), h₂, rfl⟩ |
      ⟨e, (⟨a, _, he⟩ | ⟨_, _, he⟩ | ⟨_, _, he⟩), _⟩ | ⟨x, (⟨a, _, he⟩ | ⟨_, _, he⟩ | ⟨y, hy, he⟩), rfl⟩)
    · cases e
      obtain ⟨rfl, rfl, rfl⟩ := run_ret.1 h₂
      exact .inl ⟨a, by simpa using h₁, rfl⟩
    · cases e
      exact .inr (.inr ⟨e', s₁, tr₁, tr₂, h₁, h₂, rfl⟩)
    all_goals first | cases e | cases he
    exact .inr (.inl ⟨x, hy, rfl⟩)
  · rintro (⟨a, h₁, rfl⟩ | ⟨x, h₁, rfl⟩ | ⟨e, s₁, tr₁, tr₂, h₁, h₂, rfl⟩)
    · exact .inl ⟨.ok a, s', tr, [], .inl ⟨a, h₁, rfl⟩, run_ret.2 ⟨rfl, rfl, rfl⟩, by simp⟩
    · exact .inr (.inr ⟨x, .inr (.inr ⟨x, h₁, rfl⟩), rfl⟩)
    · exact .inl ⟨.error e, s₁, tr₁, tr₂, .inr (.inl ⟨e, h₁, rfl⟩), h₂, rfl⟩

/-- A run of a `try` block whose body returns at its end. -/
theorem run_try {p : Proc S ε α} {f : α → β} {h : ε → Proc S ε β} {s s' : σ} {tr : List (Event S χ)}
    {o : Outcome ε β} :
    Run M ((p.bind fun a => .ret (f a)).handle h) s tr o s' ↔
      (∃ a, Run M p s tr (.ret a) s' ∧ o = .ret (f a)) ∨ (∃ x, Run M p s tr (.stop x) s' ∧ o = .stop x) ∨
      ∃ e s₁ tr₁ tr₂, Run M p s tr₁ (.throw e) s₁ ∧ Run M (h e) s₁ tr₂ o s' ∧ tr = tr₁ ++ tr₂ := by
  simp only [run_handle, run_bind]
  constructor
  · rintro (⟨b, (⟨a, s₁, tr₁, tr₂, h₁, h₂, rfl⟩ | ⟨_, -, he⟩ | ⟨_, -, he⟩), rfl⟩ |
      ⟨x, (⟨a, s₁, tr₁, tr₂, -, h₂, -⟩ | ⟨_, -, he⟩ | ⟨y, h₁, he⟩), rfl⟩ |
      ⟨e, s₁, tr₁, tr₂, (⟨a, s₂, tr₃, tr₄, -, h₂, -⟩ | ⟨e', h₁, he⟩ | ⟨_, -, he⟩), hh, rfl⟩)
    · obtain ⟨rfl, hb, rfl⟩ := run_ret.1 h₂
      cases hb
      exact .inl ⟨a, by simpa using h₁, rfl⟩
    · cases he
    · cases he
    · cases (run_ret.1 h₂).2.1
    · cases he
    · cases he
      exact .inr (.inl ⟨x, h₁, rfl⟩)
    · cases (run_ret.1 h₂).2.1
    · cases he
      exact .inr (.inr ⟨e, s₁, tr₁, tr₂, h₁, hh, rfl⟩)
    · cases he
  · rintro (⟨a, h₁, rfl⟩ | ⟨x, h₁, rfl⟩ | ⟨e, s₁, tr₁, tr₂, h₁, hh, rfl⟩)
    · exact .inl ⟨f a, .inl ⟨a, s', tr, [], h₁, run_ret.2 ⟨rfl, rfl, rfl⟩, by simp⟩, rfl⟩
    · exact .inr (.inl ⟨x, .inr (.inr ⟨x, h₁, rfl⟩), rfl⟩)
    · exact .inr (.inr ⟨e, s₁, tr₁, tr₂, .inr (.inl ⟨e, h₁, rfl⟩), hh, rfl⟩)

/-- A run with a destructor: the destructor runs on the outcome `o₁` of the body, and replaces it if it throws or stops
itself. -/
theorem run_ensure {p : Proc S ε α} {fin : Proc S ε Unit} {s s' : σ} {tr : List (Event S χ)} {o : Outcome ε α} :
    Run M (p.ensure fin) s tr o s' ↔
      (∃ h, Run M p s tr (.stop h) s' ∧ o = .stop h) ∨
      ∃ o₁ s₁ tr₁ tr₂, (∀ h, o₁ ≠ .stop h) ∧ Run M p s tr₁ o₁ s₁ ∧ tr = tr₁ ++ tr₂ ∧
        ((Run M fin s₁ tr₂ (.ret ()) s' ∧ o = o₁) ∨ (∃ e, Run M fin s₁ tr₂ (.throw e) s' ∧ o = .throw e) ∨
          ∃ h, Run M fin s₁ tr₂ (.stop h) s' ∧ o = .stop h) := by
  -- the destructor and the way back to the outcome of the body
  have hfin : ∀ (r : Except ε α) (s₁ : σ) (tr₂ : List (Event S χ)) (o₁ : Outcome ε α),
      (∀ t o', Run M (Proc.resume r : Proc S ε α) s' t o' s' ↔ t = [] ∧ o' = o₁) →
      (Run M (fin.bind fun _ => Proc.resume r) s₁ tr₂ o s' ↔
        (Run M fin s₁ tr₂ (.ret ()) s' ∧ o = o₁) ∨ (∃ e, Run M fin s₁ tr₂ (.throw e) s' ∧ o = .throw e) ∨
          ∃ h, Run M fin s₁ tr₂ (.stop h) s' ∧ o = .stop h) := by
    intro r s₁ tr₂ o₁ hr
    rw [run_bind]
    refine or_congr ⟨?_, ?_⟩ Iff.rfl
    · rintro ⟨_, s₂, t₁, t₂, h, h', rfl⟩
      have hs : s' = s₂ := by cases r <;> simp_all
      subst hs
      obtain ⟨rfl, rfl⟩ := (hr _ _).1 h'
      exact ⟨by simpa using h, rfl⟩
    · rintro ⟨h, rfl⟩
      exact ⟨(), s', tr₂, [], h, (hr _ _).2 ⟨rfl, rfl⟩, by simp⟩
  simp only [Proc.ensure, run_bind (p := p.attempt), run_attempt]
  constructor
  · rintro (⟨r, s₁, tr₁, tr₂, (⟨a, h₁, e⟩ | ⟨e', h₁, e⟩ | ⟨x, h₁, e⟩), h₂, rfl⟩ |
      ⟨e, (⟨a, _, he⟩ | ⟨_, _, he⟩ | ⟨_, _, he⟩), _⟩ | ⟨x, (⟨a, _, he⟩ | ⟨_, _, he⟩ | ⟨y, hy, he⟩), rfl⟩)
    · cases e
      exact .inr ⟨.ret a, s₁, tr₁, tr₂, by simp, h₁, rfl, (hfin _ _ _ _ (by simp)).1 h₂⟩
    · cases e
      exact .inr ⟨.throw e', s₁, tr₁, tr₂, by simp, h₁, rfl, (hfin _ _ _ _ (by simp)).1 h₂⟩
    all_goals first | cases e | cases he
    exact .inl ⟨x, hy, rfl⟩
  · rintro (⟨x, h, rfl⟩ | ⟨o₁, s₁, tr₁, tr₂, hs, h₁, rfl, h₂⟩)
    · exact .inr (.inr ⟨x, .inr (.inr ⟨x, h, rfl⟩), rfl⟩)
    · left
      cases o₁ with
      | ret a => exact ⟨.ok a, s₁, tr₁, tr₂, .inl ⟨a, h₁, rfl⟩, (hfin _ _ _ _ (by simp)).2 h₂, rfl⟩
      | throw e => exact ⟨.error e, s₁, tr₁, tr₂, .inr (.inl ⟨e, h₁, rfl⟩), (hfin _ _ _ _ (by simp)).2 h₂, rfl⟩
      | stop x => exact absurd rfl (hs x)

/-- A run of a sequence starts with a run of its first part. -/
theorem Run.first {p : Proc S ε α} {f : α → Proc S ε β} {s s' : σ} {tr : List (Event S χ)} {o : Outcome ε β}
    (h : Run M (p.bind f) s tr o s') : ∃ o₁ s₁ tr₁ tr₂, Run M p s tr₁ o₁ s₁ ∧ tr = tr₁ ++ tr₂ ∧
      (tr₂ = [] ∨ ∃ a, o₁ = .ret a ∧ Run M (f a) s₁ tr₂ o s') := by
  rcases run_bind.1 h with ⟨a, s₁, tr₁, tr₂, h₁, h₂, rfl⟩ | ⟨e, h₁, -⟩ | ⟨x, h₁, -⟩
  · exact ⟨.ret a, s₁, tr₁, tr₂, h₁, rfl, .inr ⟨a, rfl, h₂⟩⟩
  · exact ⟨.throw e, s', tr, [], h₁, (List.append_nil _).symm, .inl rfl⟩
  · exact ⟨.stop x, s', tr, [], h₁, (List.append_nil _).symm, .inl rfl⟩

/-- A run of a process that returns at its end. -/
theorem Run.only {p : Proc S ε α} {f : α → β} {s s' : σ} {tr : List (Event S χ)} {o : Outcome ε β}
    (h : Run M (p.bind fun a => .ret (f a)) s tr o s') : ∃ o₁, Run M p s tr o₁ s' := by
  rcases run_bind.1 h with ⟨a, s₁, tr₁, tr₂, h₁, h₂, rfl⟩ | ⟨e, h₁, -⟩ | ⟨x, h₁, -⟩
  · obtain ⟨rfl, -, rfl⟩ := run_ret.1 h₂
    rw [List.append_nil]
    exact ⟨_, h₁⟩
  · exact ⟨_, h₁⟩
  · exact ⟨_, h₁⟩

/-- A run of a `try` block starts with a run of its body. -/
theorem Run.body {p : Proc S ε α} {h : ε → Proc S ε α} {s s' : σ} {tr : List (Event S χ)} {o : Outcome ε α}
    (hr : Run M (p.handle h) s tr o s') : ∃ o₁ s₁ tr₁ tr₂, Run M p s tr₁ o₁ s₁ ∧ tr = tr₁ ++ tr₂ ∧
      (tr₂ = [] ∨ ∃ e, o₁ = .throw e ∧ Run M (h e) s₁ tr₂ o s') := by
  rcases run_handle.1 hr with ⟨a, h₁, -⟩ | ⟨x, h₁, -⟩ | ⟨e, s₁, tr₁, tr₂, h₁, h₂, rfl⟩
  · exact ⟨.ret a, s', tr, [], h₁, (List.append_nil _).symm, .inl rfl⟩
  · exact ⟨.stop x, s', tr, [], h₁, (List.append_nil _).symm, .inl rfl⟩
  · exact ⟨.throw e, s₁, tr₁, tr₂, h₁, rfl, .inr ⟨e, rfl, h₂⟩⟩

/-- The calls of a run are calls of the process. -/
theorem Run.calls {C : S.Call → Prop} {p : Proc S ε α} {s s' : σ} {tr : List (Event S χ)} {o : Outcome ε α}
    (h : Run M p s tr o s') (hp : p.Calls C) : ∀ e ∈ tr, C e.call := by
  induction h with
  | ret a s => simp
  | throw e s => simp
  | stop x s => simp
  | sys ch r he _ ih =>
    intro e hm
    rcases List.mem_cons.1 hm with rfl | hm
    · exact hp.1
    · exact ih (hp.2 r) e hm

/-- The answers of a run are those of the semantics. -/
theorem Run.answers {p : Proc S ε α} {s s' : σ} {tr : List (Event S χ)} {o : Outcome ε α} (h : Run M p s tr o s') :
    ∀ e ∈ tr, ∃ s₁ s₂, M.exec e.call e.choice s₁ = some (e.res, s₂) := by
  induction h with
  | ret a s => simp
  | throw e s => simp
  | stop x s => simp
  | sys ch r he _ ih =>
    intro e hm
    rcases List.mem_cons.1 hm with rfl | hm
    · exact ⟨_, _, he⟩
    · exact ih e hm

/-- What every call of a process keeps, a run of it keeps. -/
theorem Run.keeps {C : S.Call → Prop} {I : σ → Prop}
    (hI : ∀ c ch s r s', C c → M.exec c ch s = some (r, s') → I s → I s')
    {p : Proc S ε α} {s s' : σ} {tr : List (Event S χ)} {o : Outcome ε α} (h : Run M p s tr o s') (hp : p.Calls C)
    (hs : I s) : I s' := by
  induction h with
  | ret a s => exact hs
  | throw e s => exact hs
  | stop x s => exact hs
  | sys ch r he _ ih => exact ih (hp.2 r) (hI _ _ _ _ _ hp.1 he hs)

/-- Every call of the list satisfies `ok` in the state that the calls before it lead to. -/
def Along (M : Sem S σ χ) (ok : σ → Event S χ → Prop) : σ → List (Event S χ) → Prop
  | _, [] => True
  | s, e :: tr => ok s e ∧ ∀ r s', M.exec e.call e.choice s = some (r, s') → Along M ok s' tr

theorem along_cons {ok : σ → Event S χ → Prop} {c : S.Call} {ch : χ} {r : S.Res c} {s s₁ : σ} {tr : List (Event S χ)}
    (he : M.exec c ch s = some (r, s₁)) : Along M ok s (⟨c, ch, r⟩ :: tr) ↔ ok s ⟨c, ch, r⟩ ∧ Along M ok s₁ tr := by
  refine and_congr_right fun _ => ⟨fun h => h r s₁ he, fun h r' s' he' => ?_⟩
  rw [he] at he'
  cases he'
  exact h

/-- The calls of a run, and those after it. -/
theorem Run.along {ok : σ → Event S χ → Prop} {p : Proc S ε α} {s s' : σ} {tr tr' : List (Event S χ)} {o : Outcome ε α}
    (h : Run M p s tr o s') : Along M ok s (tr ++ tr') ↔ Along M ok s tr ∧ Along M ok s' tr' := by
  induction h with
  | ret a s => simp [Along]
  | throw e s => simp [Along]
  | stop x s => simp [Along]
  | sys ch r he _ ih => rw [List.cons_append, along_cons he, along_cons he, ih, and_assoc]

/-- A sequence whose first part can only return. -/
theorem Run.bind_along {ok : σ → Event S χ → Prop} {p : Proc S ε α} {f : α → Proc S ε β} {s s' : σ}
    {tr : List (Event S χ)} {o : Outcome ε β} (h : Run M (p.bind f) s tr o s') (ha : Along M ok s tr)
    (hp : ∀ {tr₁ o₁ s₁}, Run M p s tr₁ o₁ s₁ → Along M ok s tr₁ → ∃ a, o₁ = .ret a) :
    ∃ a s₁ tr₁ tr₂, Run M p s tr₁ (.ret a) s₁ ∧ Along M ok s tr₁ ∧ Run M (f a) s₁ tr₂ o s' ∧ Along M ok s₁ tr₂ ∧
      tr = tr₁ ++ tr₂ := by
  rcases run_bind.1 h with ⟨a, s₁, tr₁, tr₂, h₁, h₂, rfl⟩ | ⟨e, h₁, rfl⟩ | ⟨x, h₁, rfl⟩
  · obtain ⟨ha₁, ha₂⟩ := h₁.along.1 ha
    exact ⟨a, s₁, tr₁, tr₂, h₁, ha₁, h₂, ha₂, rfl⟩
  · obtain ⟨a, he⟩ := hp h₁ ha
    cases he
  · obtain ⟨a, he⟩ := hp h₁ ha
    cases he

/-- The test of `Along`. -/
def alongTest (M : Sem S σ χ) (chk : σ → Event S χ → Bool) : σ → List (Event S χ) → Bool
  | _, [] => true
  | s, e :: tr => chk s e && match M.exec e.call e.choice s with
    | some (_, s') => alongTest M chk s' tr
    | none => true

theorem alongTest_sound {ok : σ → Event S χ → Prop} {chk : σ → Event S χ → Bool}
    (hchk : ∀ s e, chk s e = true → ok s e) :
    ∀ {tr : List (Event S χ)} {s : σ}, alongTest M chk s tr = true → Along M ok s tr
  | [], _, _ => trivial
  | e :: tr, s, h => by
    obtain ⟨he, hrest⟩ := Bool.and_eq_true_iff.1 h
    refine ⟨hchk s e he, fun r s' hx => alongTest_sound hchk ?_⟩
    rw [hx] at hrest
    exact hrest

/-! ## Computing a run -/

/-- The run of `p` with the given choices, if it ends with them. -/
def exec? (M : Sem S σ χ) : Proc S ε α → List χ → σ → Option (List (Event S χ) × Outcome ε α × σ)
  | .ret a, _, s => some ([], .ret a, s)
  | .throw e, _, s => some ([], .throw e, s)
  | .stop h, _, s => some ([], .stop h, s)
  | .sys _ _, [], _ => none
  | .sys c k, ch :: chs, s =>
    (M.exec c ch s).bind fun (r, s₁) => (exec? M (k r) chs s₁).map fun (tr, o, s') => (⟨c, ch, r⟩ :: tr, o, s')

theorem exec?_sound : ∀ {p : Proc S ε α} {chs : List χ} {s : σ} {x : List (Event S χ) × Outcome ε α × σ},
    exec? M p chs s = some x → Run M p s x.1 x.2.1 x.2.2
  | .ret a, _, s, x, h => by cases h; exact .ret a s
  | .throw e, _, s, x, h => by cases h; exact .throw e s
  | .stop y, _, s, x, h => by cases h; exact .stop y s
  | .sys _ _, [], _, _, h => by cases h
  | .sys c k, ch :: chs, s, x, h => by
    simp only [exec?, Option.bind_eq_some_iff, Option.map_eq_some_iff] at h
    obtain ⟨⟨r, s₁⟩, he, ⟨tr, o, s'⟩, hr, rfl⟩ := h
    exact .sys ch r he (exec?_sound hr)

end Runs

end OortAgent.Lib
