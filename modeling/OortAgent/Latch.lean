import Mathlib.Data.Set.Card
import OortAgent.Adcs
import OortAgent.Lib.Pool

/-!
# The latch of the attitude control

`Agent::adcs_command` lets one request at a time into `AgentUAVCANClient::AdcsCommand`: a `sem_guard` tries a static
binary semaphore, remembers in its flag `m_owned` whether it got it, and its destructor posts only then. Here the
requests are processes of a pool, and every operation on the semaphore is a step of its own; so are the entry into
`AdcsCommand` and the way out of it, by a return or an exception.

- `Latch.run_adcsCommand`: alone, a request does what `adcsCommand` says;
- `Latch.follows_adcsCommand`: what each step of a request keeps;
- `Latch.adcs_exclusive`: what holds in every interleaving.
-/

namespace OortAgent.Latch

open Lib

variable {D : Type}

/-! ## The semaphore and its guard -/

/-- The operations of a request that others can see. -/
inductive LatchCall (D : Type)
  | trywait
  | post
  | enter (req : AdcsCommandRequest D)
  | leave

/-- Their answers: a status, and for the way out of `AdcsCommand` its result or its exception. -/
abbrev LatchCall.Res : LatchCall D → Type
  | .trywait => Int
  | .post => Int
  | .enter _ => Unit
  | .leave => Except Exn (AdcsCommandResponse D)

abbrev Calls (D : Type) : Sig := ⟨LatchCall D, LatchCall.Res⟩

/-- A program of a request. -/
abbrev Prog (D α : Type) := Proc (Calls D) Exn α

/-- What the environment decides: whether `sem_trywait` is interrupted, and how `AdcsCommand` ends. -/
structure Choice (D : Type) where
  interrupted : Bool := false
  answer : Except Exn (AdcsCommandResponse D)

/-- What an operation does to the count of the semaphore. -/
def exec : (c : LatchCall D) → Choice D → Nat → Option (c.Res × Nat)
  | .trywait, ch, n => if ch.interrupted ∨ n = 0 then some (-1, n) else some (0, n - 1)
  | .post, _, n => if n = 2147483647 then some (-1, n) else some (0, n + 1)
  | .enter _, _, n => some ((), n)
  | .leave, ch, n => some (ch.answer, n)

abbrev Machine (D : Type) : Sem (Calls D) Nat (Choice D) := ⟨exec⟩

/-- An operation that was made, with its answer. -/
abbrev Ev (D : Type) := Event (Calls D) (Choice D)

/-- `sem_guard`. -/
structure Guard where
  m_owned : Bool := false

/-- `sem_guard::trywait`. -/
def Guard.trywait (guard : Guard) : Prog D Guard := do
  let status ← Proc.call (S := Calls D) .trywait
  if status = 0 then return { guard with m_owned := true } else return guard

/-- `sem_guard::~sem_guard`. -/
def Guard.destroy (guard : Guard) : Prog D Unit :=
  if guard.m_owned then do
    let _ ← Proc.call (S := Calls D) .post
    return ()
  else return ()

/-- `AgentUAVCANClient::AdcsCommand`, seen from outside. -/
def AdcsCommand (req : AdcsCommandRequest D) : Prog D (AdcsCommandResponse D) := do
  Proc.call (S := Calls D) (.enter req)
  match ← Proc.call (S := Calls D) .leave with
  | .error e => .throw e
  | .ok result => return result

/-- `Agent::adcs_command`. -/
def adcsCommand (client : Bool) (req : AdcsCommandRequest D) : Prog D (Response (AdcsCommandResponse D)) :=
  let guard : Guard := {}
  if ¬ client then
    Proc.ensure (return .Bad_Request "Adcs interface is unavailable".toList) guard.destroy
  else do
    let guard ← guard.trywait
    Proc.ensure (do
      if guard.m_owned then
        let result ← AdcsCommand req
        if result.status = "OK".toList then return .Ok result else return .Bad_Request result.reason
      else return .Bad_Request "Request in progress".toList) guard.destroy

theorem reply_eq (r : AdcsCommandResponse D) :
    (if r.status = "OK".toList then pure (.Ok r) else pure (.Bad_Request r.reason) :
      Prog D (Response (AdcsCommandResponse D))) = .ret (if r.status =
        "OK".toList then .Ok r else .Bad_Request r.reason) := by
  split <;> rfl

/-- Alone and not interrupted, a request does what `adcsCommand` says, and leaves the latch as it found it. -/
theorem run_adcsCommand {F ρ τ : Type} {bus : Bus D F ρ τ} {req : AdcsCommandRequest D} {n n' : Nat} {tr : List (Ev D)}
    {o : Outcome Exn (Response (AdcsCommandResponse D))} (h : Run (Machine D) (adcsCommand bus.client req) n tr o n')
    (hch : ∀ e ∈ tr, e.choice.interrupted = false ∧ e.choice.answer = adcsClient bus req) (hn : n ≤ 1)
    (hlatch : bus.latch = decide (n ≠ 0)) :
    n' = n ∧ o = match OortAgent.adcsCommand bus req with
      | .error e => .throw e
      | .ok r => .ret r := by
  unfold adcsCommand at h
  unfold OortAgent.adcsCommand
  dsimp only at h
  split at h
  · rename_i hc
    obtain ⟨-, rfl, rfl⟩ := run_ret.1 h
    exact ⟨rfl, by rw [if_pos hc]⟩
  · rename_i hc
    rw [if_neg hc, hlatch]
    obtain ⟨ch, r, n₁, tr₁, e₁, h₁, rfl⟩ := run_sys.1 h
    have hi : ch.interrupted = false := (hch _ List.mem_cons_self).1
    have hexec : (if ch.interrupted ∨ n = 0 then some (-1, n) else some (0, n - 1) : Option (Int × Nat)) =
        some (r, n₁) := e₁
    rcases Nat.le_one_iff_eq_zero_or_eq_one.1 hn with rfl | rfl
    · rw [if_pos (.inr rfl)] at hexec
      cases hexec
      obtain ⟨-, rfl, rfl⟩ := run_ret.1 h₁
      exact ⟨rfl, rfl⟩
    · rw [if_neg (by simp [hi])] at hexec
      cases hexec
      obtain ⟨_, _, n₂, tr₂, e₂, h₂, rfl⟩ := run_sys.1 h₁
      cases e₂
      obtain ⟨ch₃, a, n₃, tr₃, e₃, h₃, rfl⟩ := run_sys.1 h₂
      have ha : ch₃.answer = adcsClient bus req := (hch ⟨.leave, ch₃, a⟩ (by simp)).2
      cases e₃
      rw [ha] at h₃
      cases hans : adcsClient bus req with
      | error e =>
        rw [hans] at h₃
        obtain ⟨_, _, n₄, tr₄, e₄, h₄, rfl⟩ := run_sys.1 h₃
        cases e₄
        obtain ⟨-, rfl, rfl⟩ := run_throw.1 h₄
        exact ⟨rfl, rfl⟩
      | ok r =>
        rw [hans] at h₃
        have hrun :
            Run (Machine D) (Proc.ensure (if r.status = "OK".toList then pure (.Ok r) else pure (.Bad_Request r.reason))
            (Guard.destroy ⟨true⟩)) 0 tr₃ o n' := h₃
        rw [reply_eq] at hrun
        obtain ⟨_, _, n₄, tr₄, e₄, h₄, rfl⟩ := run_sys.1 hrun
        cases e₄
        obtain ⟨-, rfl, rfl⟩ := run_ret.1 h₄
        refine ⟨rfl, ?_⟩
        dsimp only
        split <;> rfl

/-! ## What the others have seen of a request -/

/-- The state of a request as its operations show it: its guard owns the latch, it is inside `AdcsCommand`, it was
refused the latch, it has posted, and how its `AdcsCommand` ended. -/
structure Trail (D : Type) where
  owned : Bool := false
  inside : Bool := false
  refused : Bool := false
  posted : Bool := false
  answer : Option (Except Exn (AdcsCommandResponse D)) := none

/-- One more operation of the request. -/
def Trail.next (t : Trail D) : Ev D → Trail D
  | ⟨.trywait, _, status⟩ => if (status : Int) = 0 then { t with owned := true } else { t with refused := true }
  | ⟨.post, _, _⟩ => { t with owned := false, posted := true }
  | ⟨.enter _, _, _⟩ => { t with inside := true }
  | ⟨.leave, _, a⟩ => { t with inside := false, answer := some a }

variable {ι : Type} [DecidableEq ι]

/-- What a history shows of a request. -/
def trail (tr : History (Calls D) (Choice D) ι) (i : ι) : Trail D :=
  tr.foldl (fun t e => if e.1 = i then t.next e.2 else t) {}

theorem trail_snoc (tr : History (Calls D) (Choice D) ι) (i j : ι) (e : Ev D) :
    trail (tr ++ [(i, e)]) j = if i = j then (trail tr j).next e else trail tr j := by
  simp [trail, List.foldl_append]

/-- One unit: the latch is free and no guard owns it, or it is taken and one guard does. -/
def Balanced (n : Nat) (G : ι → Trail D) : Prop :=
  (n = 1 ∧ ∀ i, (G i).owned = false) ∨ (n = 0 ∧ ∃ i, (G i).owned = true ∧ ∀ j, j ≠ i → (G j).owned = false)

/-- The invariant of all requests. -/
structure Inv (tr : History (Calls D) (Choice D) ι) (n : Nat) (G : ι → Trail D) : Prop where
  seen : ∀ i, G i = trail tr i
  balanced : Balanced n G
  inside : ∀ i, (G i).inside = true → (G i).owned = true
  spared : ∀ i, (G i).refused = true → (G i).posted = false
  posts : ∀ tr₁ tr₂ i ch r, tr = tr₁ ++ (i, ⟨.post, ch, r⟩) :: tr₂ → (trail tr₁ i).owned = true

/-- The protocol of the requests: any operation may come at any time. -/
def proto (D ι : Type) [DecidableEq ι] : Proto (Calls D) Nat (Choice D) ι (Trail D) where
  sem := Machine D
  ok := fun _ _ _ => True
  inv := Inv

/-- How a request ends that `AdcsCommand` gave an answer. -/
def replyTo : Except Exn (AdcsCommandResponse D) → Outcome Exn (Response (AdcsCommandResponse D))
  | .error e => .throw e
  | .ok r => .ret (if r.status = "OK".toList then .Ok r else .Bad_Request r.reason)

/-- What is known of a request at its end. -/
inductive Ended (t : Trail D) (o : Outcome Exn (Response (AdcsCommandResponse D))) : Prop
  | unavailable : t = {} → o = .ret (.Bad_Request "Adcs interface is unavailable".toList) → Ended t o
  | refused : t = { refused := true } → o = .ret (.Bad_Request "Request in progress".toList) → Ended t o
  | answered (a : Except Exn (AdcsCommandResponse D)) : t = { posted := true, answer := some a } →
    o = replyTo a → Ended t o

section Steps

variable {tr : History (Calls D) (Choice D) ι} {n n' : Nat} {G : ι → Trail D} {i : ι} {e : Ev D}

/-- One operation keeps the invariant if the unit stays one unit and the request may make it. -/
theorem Inv.step {t : Trail D} (h : Inv tr n G) (hg : G i = t) (hb : Balanced n' (Function.update G i (t.next e)))
    (hin : (t.next e).inside = true → (t.next e).owned = true)
    (hsp : (t.next e).refused = true → (t.next e).posted = false)
    (hpost : ∀ ch r, e = ⟨.post, ch, r⟩ → t.owned = true) :
    Inv (tr ++ [(i, e)]) n' (Function.update G i (t.next e)) := by
  subst hg
  refine ⟨fun j => ?_, hb, fun j => ?_, fun j => ?_, fun tr₁ tr₂ j ch r hsplit => ?_⟩
  · rw [trail_snoc]
    by_cases hj : i = j
    · subst hj
      rw [if_pos rfl, Function.update_self, h.seen]
    · rw [if_neg hj, Function.update_of_ne (Ne.symm hj), h.seen]
  · by_cases hj : j = i
    · subst hj
      rw [Function.update_self]
      exact hin
    · rw [Function.update_of_ne hj]
      exact h.inside j
  · by_cases hj : j = i
    · subst hj
      rw [Function.update_self]
      exact hsp
    · rw [Function.update_of_ne hj]
      exact h.spared j
  · rcases List.eq_nil_or_concat tr₂ with rfl | ⟨t, x, rfl⟩
    · obtain ⟨rfl, he⟩ := List.append_inj' hsplit rfl
      cases he
      rw [← h.seen]
      exact hpost ch r rfl
    · rw [List.concat_eq_append, ← List.cons_append, ← List.append_assoc] at hsplit
      exact h.posts tr₁ t j ch r (List.append_inj' hsplit rfl).1

/-- The unit does not move. -/
theorem Balanced.same (h : Balanced n G) {t : Trail D} (ht : t.owned = (G i).owned) :
    Balanced n (Function.update G i t) := by
  have hown : ∀ j, (Function.update G i t j).owned = (G j).owned := by
    intro j
    by_cases hj : j = i
    · subst hj
      rw [Function.update_self, ht]
    · rw [Function.update_of_ne hj]
  simpa only [Balanced, hown] using h

/-- A guard takes the unit. -/
theorem Balanced.take (h : Balanced n G) (hn : n ≠ 0) {t : Trail D} (ht : t.owned = true) :
    Balanced (n - 1) (Function.update G i t) := by
  rcases h with ⟨rfl, hfree⟩ | ⟨hzero, -⟩
  · refine .inr ⟨rfl, i, ?_, fun j hj => ?_⟩
    · rw [Function.update_self, ht]
    · rw [Function.update_of_ne hj, hfree]
  · exact absurd hzero hn

/-- A guard gives its unit back. -/
theorem Balanced.give (h : Balanced n G) (hi : (G i).owned = true) {t : Trail D} (ht : t.owned = false) :
    n = 0 ∧ Balanced 1 (Function.update G i t) := by
  rcases h with ⟨-, hfree⟩ | ⟨rfl, j, -, hothers⟩
  · rw [hfree i] at hi
    cases hi
  · have hij : i = j := by
      by_contra hne
      rw [hothers i hne] at hi
      cases hi
    refine ⟨rfl, .inl ⟨rfl, fun k => ?_⟩⟩
    by_cases hk : k = i
    · subst hk
      rw [Function.update_self, ht]
    · rw [Function.update_of_ne hk, hothers k (hij ▸ hk)]

variable {α : Type}

/-- `sem_trywait`. -/
theorem follows_trywait {k : Int → Prog D α} {Q : Trail D → Outcome Exn α → Prop}
    (hno : ∀ r : Int, r ≠ 0 → Follows (proto D ι) i (k r) { refused := true } Q)
    (hyes : Follows (proto D ι) i (k 0) { owned := true } Q) :
    Follows (proto D ι) i (.sys .trywait k) {} Q := by
  intro tr n G ch r n' hI hg he _
  have hexec : (if ch.interrupted ∨ n = 0 then some (-1, n) else some (0, n - 1) : Option (Int × Nat)) =
      some (r, n') := he
  split at hexec
  · cases hexec
    refine ⟨_, hI.step hg (hI.balanced.same ?_) (fun h => ?_) (fun _ => rfl) (fun _ _ h => ?_), hno _ (by decide)⟩
    · rw [hg]
      rfl
    · cases h
    · cases h
  · rename_i hfree
    cases hexec
    refine ⟨_, hI.step hg (hI.balanced.take (fun hz => hfree (.inr hz)) rfl) (fun _ => rfl) (fun h => ?_)
      (fun _ _ h => ?_),
      hyes⟩
    · cases h
    · cases h

/-- `AdcsCommand`, by a request that owns the latch. -/
theorem follows_AdcsCommand {req : AdcsCommandRequest D} :
    Follows (proto D ι) i (AdcsCommand req) { owned := true } (fun t o => ∃ a, t = { owned := true, answer := some a } ∧
      o = match a with
        | .error e => .throw e
        | .ok r => .ret r) := by
  intro tr n G ch r n' hI hg he _
  cases he
  refine ⟨_, hI.step hg (hI.balanced.same ?_) (fun _ => rfl) (fun h => ?_) (fun _ _ h => ?_), ?_⟩
  · rw [hg]
    rfl
  · cases h
  · cases h
  intro tr n G ch a n' hI hg he _
  cases he
  refine ⟨_, hI.step hg (hI.balanced.same ?_) (fun _ => rfl) (fun h => ?_) (fun _ _ h => ?_), ?_⟩
  · rw [hg]
    rfl
  · cases h
  · cases h
  · cases hans : ch.answer with
    | error e => exact ⟨.error e, by rw [← hans]; rfl, rfl⟩
    | ok r => exact ⟨.ok r, by rw [← hans]; rfl, rfl⟩

/-- The destructor of a guard that owns the latch. -/
theorem follows_destroy {a : Except Exn (AdcsCommandResponse D)} :
    Follows (proto D ι) i (Guard.destroy ⟨true⟩) { owned := true, answer := some a } (fun t o =>
      t = { posted := true, answer := some a } ∧ o = .ret ()) := by
  intro tr n G ch r n' hI hg he _
  have hown : (G i).owned = true := by rw [hg]
  obtain ⟨hzero, hb⟩ := hI.balanced.give hown (t := { posted := true, answer := some a }) rfl
  have hexec : (if n = 2147483647 then some (-1, n) else some (0, n + 1) : Option (Int × Nat)) = some (r, n') := he
  rw [hzero, if_neg (by decide)] at hexec
  cases hexec
  refine ⟨_, hI.step hg hb (fun h => ?_) (fun h => ?_) (fun _ _ _ => rfl), rfl, rfl⟩
  · cases h
  · cases h

/-- A request, from its start to its end. -/
theorem follows_adcsCommand (client : Bool) (req : AdcsCommandRequest D) :
    Follows (proto D ι) i (adcsCommand client req) {} Ended := by
  unfold adcsCommand
  dsimp only
  split
  · exact .unavailable rfl rfl
  · refine follows_trywait (fun r hr => ?_) ?_
    · simp only [Proc.ret_bind, if_neg hr]
      exact .refused rfl rfl
    · refine Follows.ensure (Follows.bind (follows_AdcsCommand.mono fun t o ho => ?_))
      obtain ⟨a, rfl, rfl⟩ := ho
      cases a with
      | error e =>
        refine follows_destroy.mono fun t o ho => ?_
        obtain ⟨rfl, rfl⟩ := ho
        exact .answered (.error e) rfl rfl
      | ok r =>
        dsimp only
        rw [reply_eq]
        refine follows_destroy.mono fun t o ho => ?_
        obtain ⟨rfl, rfl⟩ := ho
        exact .answered (.ok r) rfl rfl

end Steps

/-! ## Every interleaving -/

/-- The pool of the requests, with a free latch. -/
def requests (client : Bool) (reqs : ι → AdcsCommandRequest D) :
    Pool (Calls D) Nat Exn (Response (AdcsCommandResponse D)) ι where
  state := 1
  procs i := adcsCommand client (reqs i)

theorem inv_start : Inv ([] : History (Calls D) (Choice D) ι) 1 (fun _ => {}) := by
  refine ⟨fun i => rfl, .inl ⟨rfl, fun i => rfl⟩, fun i h => ?_, fun i h => ?_, fun tr₁ tr₂ i ch r h => ?_⟩
  · cases h
  · cases h
  · simp at h

/-- A request that has made no operation shows nothing. -/
theorem trail_of_none {tr : History (Calls D) (Choice D) ι} {i : ι} (h : ∀ e, (i, e) ∉ tr) : trail tr i = {} := by
  induction tr using List.reverseRecOn with
  | nil => rfl
  | append_singleton tr x ih =>
    obtain ⟨j, e⟩ := x
    rw [trail_snoc, if_neg]
    · exact ih fun e' he' => h e' (List.mem_append_left _ he')
    · rintro rfl
      exact h e (by simp)

/-- The count of the latch and the number of guards that own it. -/
theorem Balanced.count {n : Nat} {G : ι → Trail D} (h : Balanced n G) :
    (n : ℕ∞) + {i | (G i).owned = true}.encard = 1 := by
  rcases h with ⟨rfl, hfree⟩ | ⟨rfl, i, hi, hothers⟩
  · have hempty : {i | (G i).owned = true} = ∅ := by
      ext i
      simp [hfree i]
    rw [hempty, Set.encard_empty]
    rfl
  · have hone : {i | (G i).owned = true} = {i} := by
      ext j
      by_cases hj : j = i
      · simp [hj, hi]
      · simp [hj, hothers j hj]
    rw [hone, Set.encard_singleton]
    rfl

/-- **One command at a time.** In every interleaving of any number of requests, with `AdcsCommand` returning or
throwing: at most one request is inside `AdcsCommand`; the count of the latch plus the number of guards that own it
is one; a request that was refused does not post, and every post is made by a guard that owns the latch; a request
that is answered "Request in progress" was refused, unless this is the answer of its own `AdcsCommand`; and when
every request has ended or not begun, the latch is free. -/
theorem adcs_exclusive (client : Bool) (reqs : ι → AdcsCommandRequest D) {tr : History (Calls D) (Choice D) ι}
    {P' : Pool (Calls D) Nat Exn (Response (AdcsCommandResponse D)) ι}
    (h : Exec (Machine D) (fun _ _ _ => True) (requests client reqs) tr P') :
    (∀ i j, (trail tr i).inside = true → (trail tr j).inside = true → i = j) ∧
    (P'.state : ℕ∞) + {i | (trail tr i).owned = true}.encard = 1 ∧
    (∀ i, (trail tr i).refused = true → (trail tr i).posted = false) ∧
    (∀ tr₁ tr₂ i ch r, tr = tr₁ ++ (i, ⟨.post, ch, r⟩) :: tr₂ → (trail tr₁ i).owned = true) ∧
    (∀ i, P'.procs i = .ret (.Bad_Request "Request in progress".toList) → (trail tr i).refused = true ∨
      ∃ r : AdcsCommandResponse D, (trail tr i).answer = some (.ok r) ∧ r.reason = "Request in progress".toList) ∧
    ((∀ i, (P'.procs i).Finished ∨ ∀ e, (i, e) ∉ tr) → P'.state = 1) := by
  obtain ⟨G, hI, hF⟩ := Exec.follows (R := proto D ι) (Q := fun _ => Ended) h inv_start fun i =>
    follows_adcsCommand client (reqs i)
  have hG : G = trail tr := funext hI.seen
  subst hG
  have hone : ∀ {i j : ι}, (trail tr i).owned = true → (trail tr j).owned = true → i = j := by
    intro i j hi hj
    rcases hI.balanced with ⟨-, hfree⟩ | ⟨-, k, -, hothers⟩
    · rw [hfree i] at hi
      cases hi
    · by_contra hij
      have hk : i ≠ k ∨ j ≠ k := by
        by_contra hboth
        rw [not_or, not_not, not_not] at hboth
        exact hij (hboth.1.trans hboth.2.symm)
      rcases hk with hk | hk
      · rw [hothers i hk] at hi
        cases hi
      · rw [hothers j hk] at hj
        cases hj
  refine ⟨fun i j hi hj => hone (hI.inside i hi) (hI.inside j hj), hI.balanced.count, hI.spared, hI.posts,
    fun i hi => ?_,
    fun hall => ?_⟩
  · have hend := hF i
    rw [hi] at hend
    rcases hend with ⟨-, ho⟩ | ⟨ht, -⟩ | ⟨a, ht, ho⟩
    · cases ho
    · exact .inl (by rw [ht])
    · refine .inr ?_
      cases a with
      | error e => cases ho
      | ok r =>
        refine ⟨r, by rw [ht], ?_⟩
        simp only [replyTo] at ho
        split at ho
        · cases ho
        · exact (Response.Bad_Request.inj (Outcome.ret.inj ho)).symm
  · have hfree : ∀ i, (trail tr i).owned = false := by
      intro i
      rcases hall i with hfin | hnone
      · have hend : ∃ o, Ended (trail tr i) o := by
          have hend := hF i
          rcases hfin with ⟨a, ha⟩ | ⟨e, he⟩
          · rw [ha] at hend
            exact ⟨_, hend⟩
          · rw [he] at hend
            exact ⟨_, hend⟩
        obtain ⟨o, ⟨ht, -⟩ | ⟨ht, -⟩ | ⟨a, ht, -⟩⟩ := hend <;> rw [ht]
      · rw [trail_of_none hnone]
    rcases hI.balanced with ⟨hn, -⟩ | ⟨-, i, hi, -⟩
    · exact hn
    · rw [hfree i] at hi
      cases hi

namespace Sample

/-- Two requests. -/
def two : Pool (Calls Int) Nat Exn (Response (AdcsCommandResponse Int)) Bool :=
  requests true fun _ => { command := "IDLE".toList }

/-- One request gets the latch, the other one asks while the first is inside, and the first is answered. -/
def turns : List (Bool × Choice Int) :=
  let ch : Choice Int := ⟨false, .ok { status := "OK".toList }⟩
  [(true, ch), (true, ch), (false, ch), (true, ch), (true, ch)]

end Sample

/-- The second request is refused, does not post, and the latch is free in the end. -/
theorem adcs_exclusive_sample : ∃ (tr : History (Calls Int) (Choice Int) Bool) (P' : _),
    Exec (Machine Int) (fun _ _ _ => True) Sample.two tr P' ∧ (trail tr false).refused = true ∧
      (trail tr false).posted = false ∧ (trail tr true).posted = true ∧ P'.state = 1 := by
  obtain ⟨⟨tr, P'⟩, hx, ht⟩ : ∃ x, Pool.exec? (Machine Int) (fun _ _ => true) Sample.two Sample.turns = some x ∧
      ((trail x.1 false).refused && (trail x.1 true).posted) = true ∧ ∀ i, (x.2.procs i).Finished := by
    refine ⟨_, rfl, by decide +kernel, fun i => ?_⟩
    cases i
    · exact .inl ⟨_, rfl⟩
    · exact .inl ⟨_, rfl⟩
  have hexec : Exec (Machine Int) (fun _ _ _ => True) Sample.two tr P' := Pool.exec?_sound (fun _ _ _ => trivial) hx
  rw [Bool.and_eq_true] at ht
  obtain ⟨-, -, hspared, -, -, hfree⟩ := adcs_exclusive true (fun _ => { command := "IDLE".toList }) hexec
  exact ⟨tr, P', hexec, ht.1.1, hspared false ht.1.1, ht.1.2, hfree fun i => .inl (ht.2 i)⟩

end OortAgent.Latch
