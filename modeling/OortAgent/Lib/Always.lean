import OortAgent.Lib.Run

/-!
# What holds at every step of one process

A process may be stopped between any two of its calls.

* `Reach M ok p s tr p' s'`: `p` has come from `s` to `s'` by the calls `tr`, each of which satisfies `ok`, and `p'`
  is left of it.
* `Always M ok I p s Q`: from `s` on every call leads to a state with `I`, and the process ends with `Q`. Rules for
  sequencing, `catch` and loops; `Always.looks` takes the outcome of a part that changes nothing from its runs.
* `Reach.always`: soundness.
* `walk?`: the way that given choices lead to.
-/

namespace OortAgent.Lib

variable {S : Sig} {σ χ ε α β γ : Type}

/-- The states on the way of a process. -/
inductive Reach (M : Sem S σ χ) (ok : σ → Event S χ → Prop) :
    Proc S ε α → σ → List (Event S χ) → Proc S ε α → σ → Prop
  | nil (p : Proc S ε α) (s : σ) : Reach M ok p s [] p s
  | step {c : S.Call} {k : S.Res c → Proc S ε α} {s s₁ s' : σ} {tr : List (Event S χ)} {p' : Proc S ε α} (ch : χ)
      (r : S.Res c) : M.exec c ch s = some (r, s₁) → ok s ⟨c, ch, r⟩ → Reach M ok (k r) s₁ tr p' s' →
      Reach M ok (.sys c k) s (⟨c, ch, r⟩ :: tr) p' s'

/-- Every call leads to a state with `I`, and the process ends with `Q`. -/
def Always (M : Sem S σ χ) (ok : σ → Event S χ → Prop) (I : σ → Prop) :
    Proc S ε α → σ → (Outcome ε α → σ → Prop) → Prop
  | .ret a, s, Q => Q (.ret a) s
  | .throw e, s, Q => Q (.throw e) s
  | .stop _, _, _ => True
  | .sys c k, s, Q => ∀ ch r s', M.exec c ch s = some (r, s') → ok s ⟨c, ch, r⟩ → I s' ∧ Always M ok I (k r) s' Q

variable {M : Sem S σ χ} {ok : σ → Event S χ → Prop} {I : σ → Prop}

@[simp] theorem always_ret {a : α} {s : σ} {Q : Outcome ε α → σ → Prop} :
    Always M ok I (.ret a : Proc S ε α) s Q ↔ Q (.ret a) s := Iff.rfl

@[simp] theorem always_throw {e : ε} {s : σ} {Q : Outcome ε α → σ → Prop} :
    Always M ok I (.throw e : Proc S ε α) s Q ↔ Q (.throw e) s := Iff.rfl

@[simp] theorem always_stop {h : Stop} {s : σ} {Q : Outcome ε α → σ → Prop} :
    Always M ok I (.stop h : Proc S ε α) s Q ↔ True := Iff.rfl

/-- Consequence. -/
theorem Always.mono {Q Q' : Outcome ε α → σ → Prop} (hQ : ∀ o s, Q o s → Q' o s) :
    ∀ {p : Proc S ε α} {s : σ}, Always M ok I p s Q → Always M ok I p s Q'
  | .ret _, _, h => hQ _ _ h
  | .throw _, _, h => hQ _ _ h
  | .stop _, _, _ => trivial
  | .sys _ _, _, h => fun ch r s' he hok => ⟨(h ch r s' he hok).1, (h ch r s' he hok).2.mono hQ⟩

/-- Sequencing. -/
theorem Always.bind {f : α → Proc S ε β} {Q : Outcome ε β → σ → Prop} :
    ∀ {p : Proc S ε α} {s : σ}, Always M ok I p s (fun o s' => match o with
      | .ret a => Always M ok I (f a) s' Q
      | .throw e => Q (.throw e) s'
      | .stop _ => True) → Always M ok I (p.bind f) s Q
  | .ret _, _, h => h
  | .throw _, _, h => h
  | .stop _, _, _ => trivial
  | .sys _ _, _, h => fun ch r s' he hok => ⟨(h ch r s' he hok).1, (h ch r s' he hok).2.bind⟩

/-- Reified exceptions. -/
theorem Always.attempt {Q : Outcome ε (Except ε α) → σ → Prop} :
    ∀ {p : Proc S ε α} {s : σ}, Always M ok I p s (fun o s' => match o with
      | .ret a => Q (.ret (.ok a)) s'
      | .throw e => Q (.ret (.error e)) s'
      | .stop _ => True) → Always M ok I p.attempt s Q
  | .ret _, _, h => h
  | .throw _, _, h => h
  | .stop _, _, _ => trivial
  | .sys _ _, _, h => fun ch r s' he hok => ⟨(h ch r s' he hok).1, (h ch r s' he hok).2.attempt⟩

/-- `try` and `catch`. -/
theorem Always.handle {p : Proc S ε α} {h : ε → Proc S ε α} {s : σ} {Q : Outcome ε α → σ → Prop}
    (hp : Always M ok I p s (fun o s' => match o with
      | .ret a => Q (.ret a) s'
      | .throw e => Always M ok I (h e) s' Q
      | .stop _ => True)) : Always M ok I (p.handle h) s Q := by
  refine Always.bind (Always.attempt (hp.mono fun o s' ho => ?_))
  cases o <;> exact ho

/-- Loops: `J` holds before each round. -/
theorem Always.loop {body : β → Proc S ε (β ⊕ γ)} {Q : Outcome ε γ → σ → Prop} {J : β → σ → Prop}
    (hb : ∀ b s, J b s → Always M ok I (body b) s (fun o s' => match o with
      | .ret (.inl b') => J b' s'
      | .ret (.inr c) => Q (.ret c) s'
      | .throw e => Q (.throw e) s'
      | .stop _ => True)) : ∀ (n : Nat) (b : β) (s : σ), J b s → Always M ok I (.loop n body b) s Q
  | 0, _, _, _ => trivial
  | n + 1, b, s, hJ => by
    refine Always.bind ((hb b s hJ).mono fun o s' ho => ?_)
    cases o with
    | ret x => cases x with
      | inl b' => exact Always.loop hb n b' s' ho
      | inr c => exact ho
    | throw e => exact ho
    | stop x => trivial

/-- A process that changes nothing: its runs say how it ends. -/
theorem Always.looks {C : S.Call → Prop} {s : σ} (hC : ∀ c ch r s', C c → M.exec c ch s = some (r, s') → s' = s)
    (hI : I s) : ∀ {p : Proc S ε α} {Q : Outcome ε α → σ → Prop}, p.Calls C →
    (∀ tr o, Run M p s tr o s → (∀ e ∈ tr, ok s e) → Q o s) → Always M ok I p s Q
  | .ret a, _, _, h => h [] _ (.ret a s) (by simp)
  | .throw e, _, _, h => h [] _ (.throw e s) (by simp)
  | .stop _, _, _, _ => trivial
  | .sys c k, Q, hp, h => fun ch r s' he hok => by
    have hs := hC c ch r s' hp.1 he
    subst hs
    refine ⟨hI, Always.looks hC hI (hp.2 r) fun tr o hr ht => h _ o (.sys ch r he hr) ?_⟩
    intro e he'
    rcases List.mem_cons.1 he' with rfl | he'
    · exact hok
    · exact ht e he'

/-- What a run of a process ends with. -/
theorem Run.always {p : Proc S ε α} {s s' : σ} {tr : List (Event S χ)} {o : Outcome ε α} {Q : Outcome ε α → σ → Prop}
    (h : Run M p s tr o s') (hp : Always M (fun _ _ => True) I p s Q) : (∃ x, o = .stop x) ∨ Q o s' := by
  induction h with
  | ret a s => exact .inr hp
  | throw e s => exact .inr hp
  | stop x s => exact .inl ⟨x, rfl⟩
  | sys ch r he _ ih => exact ih (hp ch r _ he trivial).2

/-- **Soundness**: every state on the way has `I`, and what is left of the process goes on so. -/
theorem Reach.always {p p' : Proc S ε α} {s s' : σ} {tr : List (Event S χ)} {Q : Outcome ε α → σ → Prop}
    (h : Reach M ok p s tr p' s') (hI : I s) (hp : Always M ok I p s Q) : I s' ∧ Always M ok I p' s' Q := by
  induction h with
  | nil p s => exact ⟨hI, hp⟩
  | step ch r he hok _ ih => exact ih (hp ch r _ he hok).1 (hp ch r _ he hok).2

/-- On the way of a sequence: the first part has not returned, or it has and the second is on its way. -/
theorem reach_bind {p : Proc S ε α} {f : α → Proc S ε β} {q : Proc S ε β} {s s' : σ} {tr : List (Event S χ)}
    (h : Reach M ok (p.bind f) s tr q s') :
    (∃ p', q = p'.bind f ∧ Reach M ok p s tr p' s' ∧ ∀ a, p' ≠ .ret a) ∨
    ∃ a s₁ tr₁ tr₂, Run M p s tr₁ (.ret a) s₁ ∧ Reach M ok p s tr₁ (.ret a) s₁ ∧ Reach M ok (f a) s₁ tr₂ q s' ∧
      tr = tr₁ ++ tr₂ := by
  induction p generalizing s tr with
  | ret a => exact .inr ⟨a, s, [], tr, .ret a s, .nil _ _, h, rfl⟩
  | throw e =>
    cases h
    exact .inl ⟨.throw e, rfl, .nil _ _, by simp⟩
  | stop x =>
    cases h
    exact .inl ⟨.stop x, rfl, .nil _ _, by simp⟩
  | sys c k ih =>
    rw [Proc.sys_bind] at h
    cases h with
    | nil => exact .inl ⟨.sys c k, rfl, .nil _ _, by simp⟩
    | step ch r he hok hk =>
      rcases ih r hk with ⟨p', hq, hp, hn⟩ | ⟨a, s₁, tr₁, tr₂, hr, hp, hf, rfl⟩
      · exact .inl ⟨p', hq, .step ch r he hok hp, hn⟩
      · exact .inr ⟨a, s₁, _, tr₂, .sys ch r he hr, .step ch r he hok hp, hf, rfl⟩

/-- The calls made and left are calls of the process. -/
theorem Reach.calls {C : S.Call → Prop} {p p' : Proc S ε α} {s s' : σ} {tr : List (Event S χ)}
    (h : Reach M ok p s tr p' s') (hp : p.Calls C) : (∀ e ∈ tr, C e.call) ∧ p'.Calls C := by
  induction h with
  | nil p s => exact ⟨by simp, hp⟩
  | step ch r he hok _ ih =>
    obtain ⟨ht, hc⟩ := ih (hp.2 r)
    refine ⟨fun e he' => ?_, hc⟩
    rcases List.mem_cons.1 he' with rfl | he'
    · exact hp.1
    · exact ht e he'

/-- Every call made satisfies `ok` in the state it was made in, which is `s` if no call changes it. -/
theorem Reach.ok_of_looks {C : S.Call → Prop} {p p' : Proc S ε α} {s s' : σ} {tr : List (Event S χ)}
    (hC : ∀ c ch s r s', C c → M.exec c ch s = some (r, s') → s' = s) (h : Reach M ok p s tr p' s') (hp : p.Calls C) :
    ∀ e ∈ tr, ok s e := by
  induction h with
  | nil p s => simp
  | step ch r he hok _ ih =>
    have hs := hC _ _ _ _ _ hp.1 he
    subst hs
    intro e he'
    rcases List.mem_cons.1 he' with rfl | he'
    · exact hok
    · exact ih (hp.2 r) e he'

/-- A run whose calls satisfy `ok` in any state is on the way to its end. -/
theorem Run.reach {p : Proc S ε α} {s s' : σ} {tr : List (Event S χ)} {o : Outcome ε α} (h : Run M p s tr o s')
    (hok : ∀ e ∈ tr, ∀ s, ok s e) : ∃ p', Reach M ok p s tr p' s' := by
  induction h with
  | ret a s => exact ⟨_, .nil _ _⟩
  | throw e s => exact ⟨_, .nil _ _⟩
  | stop x s => exact ⟨_, .nil _ _⟩
  | sys ch r he _ ih =>
    obtain ⟨p', hp⟩ := ih fun e he' => hok e (List.mem_cons_of_mem _ he')
    exact ⟨p', .step ch r he (hok _ List.mem_cons_self _) hp⟩

/-! ## Computing a way -/

/-- The way of `p` with the given choices, if each of its calls passes the test. -/
def walk? (M : Sem S σ χ) (chk : σ → Event S χ → Bool) : Proc S ε α → List χ → σ →
    Option (List (Event S χ) × Proc S ε α × σ)
  | p, [], s => some ([], p, s)
  | .sys c k, ch :: chs, s =>
    (M.exec c ch s).bind fun (r, s₁) =>
      if chk s ⟨c, ch, r⟩ then (walk? M chk (k r) chs s₁).map fun (tr, p', s') => (⟨c, ch, r⟩ :: tr, p', s') else none
  | _, _ :: _, _ => none

theorem walk?_sound {chk : σ → Event S χ → Bool} (hchk : ∀ s e, chk s e = true → ok s e) :
    ∀ {chs : List χ} {p : Proc S ε α} {s : σ} {x : List (Event S χ) × Proc S ε α × σ},
    walk? M chk p chs s = some x → Reach M ok p s x.1 x.2.1 x.2.2
  | [], p, s, x, h => by
    have hx : ([], p, s) = x := by cases p <;> exact Option.some.inj h
    subst hx
    exact .nil p s
  | ch :: chs, .sys c k, s, x, h => by
    obtain ⟨⟨r, s₁⟩, he, h⟩ := Option.bind_eq_some_iff.1 h
    dsimp only at h
    split at h
    · rename_i hc
      obtain ⟨⟨tr, p', s'⟩, hr, rfl⟩ := Option.map_eq_some_iff.1 h
      exact .step ch r he (hchk s _ hc) (walk?_sound hchk hr)
    · cases h
  | _ :: _, .ret _, _, _, h => by cases h
  | _ :: _, .throw _, _, _, h => by cases h
  | _ :: _, .stop _, _, _, h => by cases h

end OortAgent.Lib
