import OortAgent.Lib.Run

/-!
# What a process does as long as its environment answers well

* `Proc.Rely G A Q p`: the calls of `p` satisfy `G`, and its outcome satisfies `Q`, as long as the answers satisfy `A`.
  Rules for sequencing, `catch`, a last part and loops.
* `Run.rely`: in a machine whose answers to such calls satisfy `A`, and which keeps an invariant with them, every
  run ends so.
-/

namespace OortAgent.Lib

variable {S : Sig} {σ χ ε α β γ : Type}

namespace Proc

/-- The calls satisfy `G` and the outcome `Q`, as long as the answers satisfy `A`. -/
def Rely (G : S.Call → Prop) (A : (c : S.Call) → S.Res c → Prop) (Q : Outcome ε α → Prop) : Proc S ε α → Prop
  | ret a => Q (.ret a)
  | throw e => Q (.throw e)
  | stop x => Q (.stop x)
  | sys c k => G c ∧ ∀ r, A c r → Rely G A Q (k r)

variable {G : S.Call → Prop} {A : (c : S.Call) → S.Res c → Prop}

/-- Consequence. -/
theorem Rely.mono {Q Q' : Outcome ε α → Prop} (hQ : ∀ o, Q o → Q' o) : ∀ {p : Proc S ε α}, Rely G A Q p → Rely G A Q' p
  | ret _, h => hQ _ h
  | throw _, h => hQ _ h
  | stop _, h => hQ _ h
  | sys _ _, h => ⟨h.1, fun r hr => (h.2 r hr).mono hQ⟩

/-- What holds of all calls and of every end holds whatever the answers are. -/
theorem Rely.of_ends {Q : Outcome ε α → Prop} : ∀ {p : Proc S ε α}, p.Calls G → p.Ends Q → Rely G A Q p
  | ret _, _, he => he
  | throw _, _, he => he
  | stop _, _, he => he
  | sys _ _, hc, he => ⟨hc.1, fun r _ => Rely.of_ends (hc.2 r) (he r)⟩

/-- Sequencing. -/
theorem Rely.bind {Q : Outcome ε β → Prop} {f : α → Proc S ε β} : ∀ {p : Proc S ε α}, Rely G A (fun o => match o with
      | .ret a => Rely G A Q (f a)
      | .throw e => Q (.throw e)
      | .stop x => Q (.stop x)) p → Rely G A Q (p.bind f)
  | ret _, h => h
  | throw _, h => h
  | stop _, h => h
  | sys _ _, h => ⟨h.1, fun r hr => (h.2 r hr).bind⟩

/-- Reified exceptions. -/
theorem Rely.attempt {Q : Outcome ε (Except ε α) → Prop} : ∀ {p : Proc S ε α}, Rely G A (fun o => match o with
      | .ret a => Q (.ret (.ok a))
      | .throw e => Q (.ret (.error e))
      | .stop x => Q (.stop x)) p → Rely G A Q p.attempt
  | ret _, h => h
  | throw _, h => h
  | stop _, h => h
  | sys _ _, h => ⟨h.1, fun r hr => (h.2 r hr).attempt⟩

/-- `try` and `catch`. -/
theorem Rely.handle {Q : Outcome ε α → Prop} {p : Proc S ε α} {h : ε → Proc S ε α} (hp : Rely G A (fun o => match o with
      | .ret a => Q (.ret a)
      | .throw e => Rely G A Q (h e)
      | .stop x => Q (.stop x)) p) : Rely G A Q (p.handle h) := by
  refine Rely.bind (Rely.attempt (hp.mono fun o ho => ?_))
  cases o <;> exact ho

/-- A last part that only returns. -/
theorem Rely.ensure {Q : Outcome ε α → Prop} {p : Proc S ε α} {fin : Proc S ε Unit} (hp : Rely G A Q p)
    (hf : Rely G A (fun o => o = .ret ()) fin) : Rely G A Q (p.ensure fin) := by
  refine Rely.bind (Rely.attempt (hp.mono fun o ho => ?_))
  cases o with
  | stop x => exact ho
  | ret a =>
    refine Rely.bind (hf.mono fun o' ho' => ?_)
    subst ho'
    exact ho
  | throw e =>
    refine Rely.bind (hf.mono fun o' ho' => ?_)
    subst ho'
    exact ho

/-- Loops: `J` holds before each round. -/
theorem Rely.loop {Q : Outcome ε γ → Prop} {J : β → Prop} {body : β → Proc S ε (β ⊕ γ)} (hfuel : Q (.stop .fuel))
    (hb : ∀ b, J b → Rely G A (fun o : Outcome ε (β ⊕ γ) => match o with
      | .ret (.inl b') => J b'
      | .ret (.inr c) => Q (.ret c)
      | .throw e => Q (.throw e)
      | .stop x => Q (.stop x)) (body b)) : ∀ (n : Nat) (b : β), J b → Rely G A Q (loop n body b)
  | 0, _, _ => hfuel
  | n + 1, b, hJ => by
    refine Rely.bind ((hb b hJ).mono fun o ho => ?_)
    cases o with
    | ret x => cases x with
      | inl b' => exact Rely.loop hfuel hb n b' ho
      | inr c => exact ho
    | throw e => exact ho
    | stop x => exact ho

end Proc

/-- **Soundness**: such calls are answered well and keep the invariant. -/
theorem Run.rely {M : Sem S σ χ} {G : S.Call → Prop} {A : (c : S.Call) → S.Res c → Prop} {I : σ → Prop}
    (hM : ∀ c ch s r s', G c → I s → M.exec c ch s = some (r, s') → I s' ∧ A c r) {p : Proc S ε α} {s s' : σ}
    {tr : List (Event S χ)} {o : Outcome ε α} {Q : Outcome ε α → Prop} (h : Run M p s tr o s') (hI : I s)
    (hp : p.Rely G A Q) : Q o ∧ I s' := by
  induction h with
  | ret a s => exact ⟨hp, hI⟩
  | throw e s => exact ⟨hp, hI⟩
  | stop x s => exact ⟨hp, hI⟩
  | sys ch r he _ ih =>
    obtain ⟨hI', hr⟩ := hM _ ch _ r _ hp.1 hI he
    exact ih hI' (hp.2 r hr)

end OortAgent.Lib
