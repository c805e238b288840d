import OortAgent.Lib.Run

/-!
# Interleavings of processes

A pool runs any family of processes over one state; a step is one call of one of them. A request that arrives late is
a process that has not moved yet.

* `Exec M ok P tr P'`: the pool `P` reaches `P'` by the calls `tr`, every step of which satisfies `ok` (a condition on
  the history, the state before the step and the call).
* `Proto`: a global invariant over the history, the state and one ghost value per process. `Follows` says that a
  process keeps it at each of its calls, whatever the others did in between, and ends with a postcondition on its
  ghost value; `Exec.follows` is its soundness.
* Rules for `Follows`: consequence, sequencing, `catch`, destructors, loops, and `Follows.quiet` for processes whose
  calls do not touch what the invariant speaks of.
* `Exec.own`: what one process of a pool has done, as a run of its own.
* `Pool.exec?`: the interleaving of a schedule, computed (`Pool.exec?_sound`).
-/

namespace OortAgent.Lib

variable {S : Sig} {σ χ ε α β ι γ δ : Type}

/-- Processes over one state. -/
structure Pool (S : Sig) (σ ε α ι : Type) where
  state : σ
  procs : ι → Proc S ε α

/-- The calls made so far, oldest first, each with the process that made it. -/
abbrev History (S : Sig) (χ ι : Type) := List (ι × Event S χ)

/-- The interleavings of a pool whose steps satisfy `ok`. -/
inductive Exec [DecidableEq ι] (M : Sem S σ χ) (ok : History S χ ι → σ → ι × Event S χ → Prop) (P : Pool S σ ε α ι) :
    History S χ ι → Pool S σ ε α ι → Prop
  | nil : Exec M ok P [] P
  | step {tr : History S χ ι} {R : Pool S σ ε α ι} {c : S.Call} {k : S.Res c → Proc S ε α} {r : S.Res c} {s' : σ}
      (i : ι) (ch : χ) : Exec M ok P tr R → R.procs i = .sys c k → M.exec c ch R.state = some (r, s') →
      ok tr R.state (i, ⟨c, ch, r⟩) →
      Exec M ok P (tr ++ [(i, ⟨c, ch, r⟩)]) ⟨s', Function.update R.procs i (k r)⟩

/-- A weaker condition on the steps has more interleavings. -/
theorem Exec.mono [DecidableEq ι] {M : Sem S σ χ} {ok ok' : History S χ ι → σ → ι × Event S χ → Prop}
    (h : ∀ tr s e, ok tr s e → ok' tr s e) {P P' : Pool S σ ε α ι} {tr : History S χ ι} (hx : Exec M ok P tr P') :
    Exec M ok' P tr P' := by
  induction hx with
  | nil => exact .nil
  | step i ch _ hp he hok ih => exact .step i ch ih hp he (h _ _ _ hok)

/-- Each event of a history passes a test, given the events before it. -/
def History.passes (chk : History S χ ι → ι × Event S χ → Bool) : History S χ ι → History S χ ι → Bool
  | _, [] => true
  | done, e :: rest => chk done e && passes chk (done ++ [e]) rest

theorem History.passes_snoc {chk : History S χ ι → ι × Event S χ → Bool} {e : ι × Event S χ} (tr : History S χ ι) :
    ∀ done : History S χ ι, passes chk done (tr ++ [e]) = (passes chk done tr && chk (done ++ tr) e) := by
  induction tr with
  | nil =>
    intro done
    simp [passes]
  | cons x tr ih =>
    intro done
    simp [passes, ih, Bool.and_assoc]

/-- The steps of an interleaving whose history passes a test. -/
theorem Exec.of_passes [DecidableEq ι] {M : Sem S σ χ} {ok : History S χ ι → σ → ι × Event S χ → Prop}
    {ok' : History S χ ι → ι × Event S χ → Prop} {chk : History S χ ι → ι × Event S χ → Bool}
    (hchk : ∀ tr e, chk tr e = true → ok' tr e) {P P' : Pool S σ ε α ι} {tr : History S χ ι} (hx : Exec M ok P tr P')
    (h : History.passes chk [] tr = true) : Exec M (fun tr s e => ok tr s e ∧ ok' tr e) P tr P' := by
  induction hx with
  | nil => exact .nil
  | step i ch _ hp he hok ih =>
    rw [History.passes_snoc, List.nil_append, Bool.and_eq_true] at h
    exact .step i ch (ih h.1) hp he ⟨hok, hchk _ _ h.2⟩

/-! ## Protocols -/

/-- A semantics, a condition on steps, and an invariant over the history, the state and the ghost values. -/
structure Proto (S : Sig) (σ χ ι γ : Type) where
  sem : Sem S σ χ
  ok : History S χ ι → σ → ι × Event S χ → Prop
  inv : History S χ ι → σ → (ι → γ) → Prop

variable [DecidableEq ι]

/-- Process `i`, at `p` with ghost value `g`, keeps the invariant at each of its calls and ends with `Q`. -/
def Follows (R : Proto S σ χ ι γ) (i : ι) : Proc S ε α → γ → (γ → Outcome ε α → Prop) → Prop
  | .ret a, g, Q => Q g (.ret a)
  | .throw e, g, Q => Q g (.throw e)
  | .stop _, _, _ => True
  | .sys c k, g, Q => ∀ tr s G ch r s', R.inv tr s G → G i = g → R.sem.exec c ch s = some (r, s') →
      R.ok tr s (i, ⟨c, ch, r⟩) →
      ∃ g', R.inv (tr ++ [(i, ⟨c, ch, r⟩)]) s' (Function.update G i g') ∧ Follows R i (k r) g' Q

section Rules

variable {R : Proto S σ χ ι γ} {i : ι} {g : γ}

@[simp] theorem follows_ret {a : α} {Q : γ → Outcome ε α → Prop} :
    Follows R i (.ret a : Proc S ε α) g Q ↔ Q g (.ret a) := Iff.rfl

@[simp] theorem follows_throw {e : ε} {Q : γ → Outcome ε α → Prop} :
    Follows R i (.throw e : Proc S ε α) g Q ↔ Q g (.throw e) := Iff.rfl

@[simp] theorem follows_stop {h : Stop} {Q : γ → Outcome ε α → Prop} :
    Follows R i (.stop h : Proc S ε α) g Q ↔ True := Iff.rfl

/-- Consequence. -/
theorem Follows.mono {Q Q' : γ → Outcome ε α → Prop} (hQ : ∀ g o, Q g o → Q' g o) :
    ∀ {p : Proc S ε α} {g : γ}, Follows R i p g Q → Follows R i p g Q'
  | .ret _, _, h => hQ _ _ h
  | .throw _, _, h => hQ _ _ h
  | .stop _, _, _ => trivial
  | .sys _ _, _, h => fun tr s G ch r s' hI hg he hok => by
    obtain ⟨g', hI', hk⟩ := h tr s G ch r s' hI hg he hok
    exact ⟨g', hI', hk.mono hQ⟩

/-- Sequencing. -/
theorem Follows.bind {f : α → Proc S ε β} {Q : γ → Outcome ε β → Prop} :
    ∀ {p : Proc S ε α} {g : γ}, Follows R i p g (fun g' o => match o with
      | .ret a => Follows R i (f a) g' Q
      | .throw e => Q g' (.throw e)
      | .stop _ => True) → Follows R i (p.bind f) g Q
  | .ret _, _, h => h
  | .throw _, _, h => h
  | .stop _, _, _ => trivial
  | .sys _ _, _, h => fun tr s G ch r s' hI hg he hok => by
    obtain ⟨g', hI', hk⟩ := h tr s G ch r s' hI hg he hok
    exact ⟨g', hI', hk.bind⟩

/-- Reified exceptions. -/
theorem Follows.attempt {Q : γ → Outcome ε (Except ε α) → Prop} :
    ∀ {p : Proc S ε α} {g : γ}, Follows R i p g (fun g' o => match o with
      | .ret a => Q g' (.ret (.ok a))
      | .throw e => Q g' (.ret (.error e))
      | .stop _ => True) → Follows R i p.attempt g Q
  | .ret _, _, h => h
  | .throw _, _, h => h
  | .stop _, _, _ => trivial
  | .sys _ _, _, h => fun tr s G ch r s' hI hg he hok => by
    obtain ⟨g', hI', hk⟩ := h tr s G ch r s' hI hg he hok
    exact ⟨g', hI', hk.attempt⟩

/-- `try` and `catch`. -/
theorem Follows.handle {p : Proc S ε α} {h : ε → Proc S ε α} {Q : γ → Outcome ε α → Prop}
    (hp : Follows R i p g (fun g' o => match o with
      | .ret a => Q g' (.ret a)
      | .throw e => Follows R i (h e) g' Q
      | .stop _ => True)) : Follows R i (p.handle h) g Q := by
  refine Follows.bind (Follows.attempt (hp.mono fun g' o ho => ?_))
  cases o <;> exact ho

/-- Destructors. -/
theorem Follows.ensure {p : Proc S ε α} {fin : Proc S ε Unit} {Q : γ → Outcome ε α → Prop}
    (hp : Follows R i p g (fun g' o => Follows R i fin g' (fun g'' o' => match o' with
      | .ret _ => Q g'' o
      | .throw e => Q g'' (.throw e)
      | .stop _ => True))) : Follows R i (p.ensure fin) g Q := by
  refine Follows.bind (Follows.attempt (hp.mono fun g' o ho => ?_))
  cases o with
  | ret a => exact Follows.bind (ho.mono fun g'' o' h' => by cases o' <;> exact h')
  | throw e => exact Follows.bind (ho.mono fun g'' o' h' => by cases o' <;> exact h')
  | stop x => trivial

/-- Loops: `J` holds before each round. -/
theorem Follows.loop {body : β → Proc S ε (β ⊕ δ)} {Q : γ → Outcome ε δ → Prop} {J : β → γ → Prop}
    (hb : ∀ b g, J b g → Follows R i (body b) g (fun g' o => match o with
      | .ret (.inl b') => J b' g'
      | .ret (.inr c) => Q g' (.ret c)
      | .throw e => Q g' (.throw e)
      | .stop _ => True)) : ∀ (n : Nat) (b : β) (g : γ), J b g → Follows R i (.loop n body b) g Q
  | 0, _, _, _ => trivial
  | n + 1, b, g, hJ => by
    refine Follows.bind ((hb b g hJ).mono fun g' o ho => ?_)
    cases o with
    | ret x => cases x with
      | inl b' => exact Follows.loop hb n b' g' ho
      | inr c => exact ho
    | throw e => exact ho
    | stop x => trivial

/-- A process ends only as it can end. -/
theorem Follows.ends {Q : γ → Outcome ε α → Prop} {Q' : Outcome ε α → Prop} :
    ∀ {p : Proc S ε α} {g : γ}, Follows R i p g Q → p.Ends Q' → Follows R i p g (fun g' o => Q g' o ∧ Q' o)
  | .ret _, _, h, he => ⟨h, he⟩
  | .throw _, _, h, he => ⟨h, he⟩
  | .stop _, _, _, _ => trivial
  | .sys _ _, _, h, he => fun tr s G ch r s' hI hg hx hok => by
    obtain ⟨g', hI', hk⟩ := h tr s G ch r s' hI hg hx hok
    exact ⟨g', hI', hk.ends (he r)⟩

/-- A process whose calls keep the invariant as they find it keeps its ghost value. -/
theorem Follows.quiet {C : S.Call → Prop}
    (hC : ∀ tr s G c ch r s', C c → R.inv tr s G → R.sem.exec c ch s = some (r, s') → R.ok tr s (i, ⟨c, ch, r⟩) →
      R.inv (tr ++ [(i, ⟨c, ch, r⟩)]) s' G) :
    ∀ {p : Proc S ε α} {g : γ}, p.Calls C → Follows R i p g (fun g' _ => g' = g)
  | .ret _, _, _ => rfl
  | .throw _, _, _ => rfl
  | .stop _, _, _ => trivial
  | .sys c k, g, hp => fun tr s G ch r s' hI hg he hok => by
    refine ⟨g, ?_, Follows.quiet hC (hp.2 r)⟩
    rw [← hg, Function.update_eq_self]
    exact hC tr s G c ch r s' hp.1 hI he hok

end Rules

/-- **Soundness**: if every process follows the protocol, every interleaving keeps the invariant, and what is left of
every process still follows it. -/
theorem Exec.follows {R : Proto S σ χ ι γ} {P P' : Pool S σ ε α ι} {tr : History S χ ι} {G : ι → γ}
    {Q : ι → γ → Outcome ε α → Prop} (hx : Exec R.sem R.ok P tr P') (hI : R.inv [] P.state G)
    (hF : ∀ i, Follows R i (P.procs i) (G i) (Q i)) :
    ∃ G', R.inv tr P'.state G' ∧ ∀ i, Follows R i (P'.procs i) (G' i) (Q i) := by
  induction hx with
  | nil => exact ⟨G, hI, hF⟩
  | @step tr T c k r s' i ch _ hp he hok ih =>
    obtain ⟨G₁, hI₁, hF₁⟩ := ih
    have hi := hF₁ i
    rw [hp] at hi
    obtain ⟨g', hI', hk⟩ := hi _ _ _ _ _ _ hI₁ rfl he hok
    refine ⟨_, hI', fun j => ?_⟩
    by_cases hj : j = i
    · subst hj
      simpa using hk
    · simpa [Function.update_of_ne hj] using hF₁ j

/-! ## The run of one process -/

/-- The calls of one process. -/
def History.own (i : ι) (tr : History S χ ι) : List (Event S χ) := (tr.filter fun e => decide (e.1 = i)).map Prod.snd

@[simp] theorem History.own_nil {i : ι} : own i ([] : History S χ ι) = [] := rfl

theorem History.own_snoc {i : ι} {tr : History S χ ι} {e : ι × Event S χ} :
    own i (tr ++ [e]) = if e.1 = i then own i tr ++ [e.2] else own i tr := by
  by_cases h : e.1 = i <;> simp [own, List.filter_append, h]

/-- The semantics in which the state before each call is given: nothing is said of what others do in between. -/
def Sem.given (M : Sem S σ χ) : Sem S (List σ) χ where
  exec c ch
    | [] => none
    | s :: rest => (M.exec c ch s).map fun x => (x.1, rest)

/-- What one process of a pool has done is a run of its own, between the states that its calls found. -/
theorem Exec.own {M : Sem S σ χ} {ok : History S χ ι → σ → ι × Event S χ → Prop} {P P' : Pool S σ ε α ι}
    {tr : History S χ ι} (hx : Exec M ok P tr P') (i : ι) :
    ∃ ss : List σ, ∀ {rest tr' o s'}, Run M.given (P'.procs i) rest tr' o s' →
      Run M.given (P.procs i) (ss ++ rest) (tr.own i ++ tr') o s' := by
  induction hx with
  | nil => exact ⟨[], fun h => h⟩
  | @step tr R c k r s' j ch _ hp he hok ih =>
    obtain ⟨ss, ih⟩ := ih
    by_cases hj : j = i
    · subst hj
      refine ⟨ss ++ [R.state], fun h => ?_⟩
      rw [History.own_snoc, if_pos rfl, List.append_assoc, List.append_assoc]
      refine ih ?_
      rw [hp]
      refine .sys ch r (show (M.exec c ch R.state).map _ = _ by rw [he]; rfl) ?_
      simpa using h
    · refine ⟨ss, fun h => ?_⟩
      rw [History.own_snoc, if_neg hj]
      exact ih (by simpa [Function.update_of_ne (Ne.symm hj)] using h)

/-! ## Computing an interleaving -/

namespace Pool

/-- The interleaving of a schedule, every step of which passes the test `chk`. -/
def exec? (M : Sem S σ χ) (chk : σ → ι × Event S χ → Bool) :
    Pool S σ ε α ι → List (ι × χ) → Option (History S χ ι × Pool S σ ε α ι)
  | P, [] => some ([], P)
  | P, (i, ch) :: rest =>
    match P.procs i with
    | .sys c k => (M.exec c ch P.state).bind fun (r, s') =>
      if chk P.state (i, ⟨c, ch, r⟩) then
        (exec? M chk ⟨s', Function.update P.procs i (k r)⟩ rest).map fun (tr, P') => ((i, ⟨c, ch, r⟩) :: tr, P')
      else none
    | _ => none

/-- A first step followed by an interleaving. -/
theorem exec_cons {M : Sem S σ χ} {ok : σ → ι × Event S χ → Prop} {P P' : Pool S σ ε α ι} {c : S.Call}
    {k : S.Res c → Proc S ε α} {r : S.Res c} {s' : σ} {i : ι} {ch : χ} {tr : History S χ ι}
    (hp : P.procs i = .sys c k) (he : M.exec c ch P.state = some (r, s')) (hok : ok P.state (i, ⟨c, ch, r⟩))
    (h : Exec M (fun _ => ok) ⟨s', Function.update P.procs i (k r)⟩ tr P') :
    Exec M (fun _ => ok) P ((i, ⟨c, ch, r⟩) :: tr) P' := by
  induction h with
  | nil => exact .step i ch .nil hp he hok
  | step j ch' _ hp' he' hok' ih => exact Exec.step j ch' ih hp' he' hok'

theorem exec?_sound {M : Sem S σ χ} {chk : σ → ι × Event S χ → Bool} {ok : σ → ι × Event S χ → Prop}
    (hchk : ∀ s e, chk s e = true → ok s e) : ∀ {sched : List (ι × χ)} {P : Pool S σ ε α ι}
    {x : History S χ ι × Pool S σ ε α ι}, exec? M chk P sched = some x → Exec M (fun _ => ok) P x.1 x.2
  | [], P, x, h => by cases h; exact .nil
  | (i, ch) :: rest, P, x, h => by
    unfold exec? at h
    split at h
    case h_1 c k hp =>
      simp only [Option.bind_eq_some_iff] at h
      obtain ⟨⟨r, s'⟩, he, h⟩ := h
      split at h
      case isTrue hc =>
        obtain ⟨⟨tr, P'⟩, hr, rfl⟩ := Option.map_eq_some_iff.1 h
        exact exec_cons hp he (hchk _ _ hc) (exec?_sound hchk hr)
      case isFalse => cases h
    case h_2 => cases h

end Pool

end OortAgent.Lib
