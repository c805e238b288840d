import OortAgent.Files

/-!
# Reading a trace

A finished call is described by its calls and their answers. What a condition on "the outcomes of the system calls"
speaks of is read off such a trace: which calls failed at which place (`failedAt`, `doneAt`), the bytes that were
read (`filled`) and written (`written`) there, the figures that `statvfs` left (`vfsAt`), those of the filesystem
itself (`diskAt`), and whether it succeeded (`heardAt`).

The run lemmas of the file utilities are here too: `run_getCrc`, `run_fileInfo`.
-/

namespace OortAgent

open Lib

/-- The operation was refused: an error, or for `stat` a file that is not regular. -/
def Op.refused : (op : Op) → op.Res → Bool
  | .access _ _, .error _ => true
  | .stat _, .error _ => true
  | .stat _, .ok st => !st.isReg
  | .openRead _, .error _ => true
  | .openWrite _, .error _ => true
  | .read _ _ _, .error _ => true
  | .fill _ _ _, r => r.2
  | .write _ _, .error _ => true
  | .fsync _, .error _ => true
  | .close, .error _ => true
  | .rename _ _, .error _ => true
  | .unlink _, .error _ => true
  | .rmdir _, .error _ => true
  | .mkdtemp _, .error _ => true
  | .mkstemp _, .error _ => true
  | .readdir _, .error _ => true
  | _, _ => false

/-- The operation is a `stat`. -/
def Op.isStat : Op → Bool
  | .stat _ => true
  | _ => false

/-- The bytes that a `fill` gave. -/
def Op.filled : (op : Op) → op.Res → Bytes
  | .fill _ _ _, r => r.1
  | _, _ => []

/-- The bytes that a `write` took. -/
def Op.written : (op : Op) → op.Res → Bytes
  | .write _ b, .ok n => b.take n
  | _, _ => []

/-- The name that `mkstemp` or `mkdtemp` made. -/
def Op.made : (op : Op) → op.Res → Option Str
  | .mkstemp _, .ok r => some r.1
  | .mkdtemp _, .ok r => some r
  | _, _ => none

/-- The figures that are in the struct of a `statvfs`. -/
def Op.figures : (op : Op) → op.Res → Option Vfs
  | .statvfs _, r => some r.2
  | _, _ => none

/-- A `statvfs` succeeded, so that the figures are those of the filesystem. -/
def Op.heard : (op : Op) → op.Res → Bool
  | .statvfs _, (.ok _, _) => true
  | _, _ => false

namespace Ev

/-- The place of the call. -/
def site (e : Ev) : Site := e.call.site

/-- The call was refused. -/
def refused (e : Ev) : Bool := e.call.op.refused e.res

@[simp] theorem site_mk (s : Site) (op : Op) (ch : Choice) (r : op.Res) : Ev.site ⟨⟨s, op⟩, ch, r⟩ = s := rfl

@[simp] theorem refused_mk (s : Site) (op : Op) (ch : Choice) (r : op.Res) :
    Ev.refused ⟨⟨s, op⟩, ch, r⟩ = op.refused r := rfl

end Ev

/-- A call at the place was refused. -/
def failedAt (s : Site) (tr : List Ev) : Bool := tr.any fun e => decide (e.site = s) && e.refused

/-- A call at the place went through. -/
def doneAt (s : Site) (tr : List Ev) : Bool := tr.any fun e => decide (e.site = s) && !e.refused

/-- A `stat` at the place was refused. -/
def statFailed (s : Site) (tr : List Ev) : Bool :=
  tr.any fun e => decide (e.site = s) && e.call.op.isStat && e.refused

/-- The bytes read by streams at the place. -/
def filled (s : Site) (tr : List Ev) : Bytes :=
  tr.flatMap fun e => if e.site = s then e.call.op.filled e.res else []

/-- The bytes written at the place. -/
def written (s : Site) (tr : List Ev) : Bytes :=
  tr.flatMap fun e => if e.site = s then e.call.op.written e.res else []

/-- The name that was made at the place. -/
def madeAt (s : Site) (tr : List Ev) : Option Str :=
  tr.findSome? fun e => if e.site = s then e.call.op.made e.res else none

/-- The figures in the struct after the `statvfs` at the place. -/
def vfsAt (s : Site) (tr : List Ev) : Vfs :=
  (tr.findSome? fun e => if e.site = s then e.call.op.figures e.res else none).getD {}

/-- The figures of the filesystem that the first call at the place, a `statvfs`, is about, whether it gave them or
not. -/
def diskAt (s : Site) (tr : List Ev) : Vfs :=
  ((tr.find? fun e => decide (e.site = s)).map fun e => e.choice.vfs).getD {}

/-- The `statvfs` at the place succeeded. -/
def heardAt (s : Site) (tr : List Ev) : Bool := (tr.find? fun e => decide (e.site = s)).any fun e =>
    e.call.op.heard e.res

/-- Every call of the trace is at a place in `S`. -/
def AllAt (S : Site → Prop) (tr : List Ev) : Prop := ∀ e ∈ tr, S e.site

section Lists

variable {s : Site} {e : Ev} {tr tr₁ tr₂ : List Ev} {S : Site → Prop}

@[simp] theorem failedAt_nil : failedAt s [] = false := rfl

@[simp] theorem failedAt_cons : failedAt s (e :: tr) = (decide (e.site = s) && e.refused || failedAt s tr) := rfl

@[simp] theorem failedAt_append : failedAt s (tr₁ ++ tr₂) = (failedAt s tr₁ || failedAt s tr₂) := by
  simp [failedAt]

@[simp] theorem doneAt_nil : doneAt s [] = false := rfl

@[simp] theorem doneAt_cons : doneAt s (e :: tr) = (decide (e.site = s) && !e.refused || doneAt s tr) := rfl

@[simp] theorem doneAt_append : doneAt s (tr₁ ++ tr₂) = (doneAt s tr₁ || doneAt s tr₂) := by
  simp [doneAt]

@[simp] theorem statFailed_nil : statFailed s [] = false := rfl

@[simp] theorem statFailed_cons :
    statFailed s (e :: tr) = (decide (e.site = s) && e.call.op.isStat && e.refused || statFailed s tr) := rfl

@[simp] theorem statFailed_append : statFailed s (tr₁ ++ tr₂) = (statFailed s tr₁ || statFailed s tr₂) := by
  simp [statFailed]

@[simp] theorem filled_nil : filled s [] = [] := rfl

@[simp] theorem filled_cons : filled s (e :: tr) = (if e.site = s then e.call.op.filled e.res else []) ++ filled s tr :=
  rfl

@[simp] theorem filled_append : filled s (tr₁ ++ tr₂) = filled s tr₁ ++ filled s tr₂ := by simp [filled]

@[simp] theorem written_nil : written s [] = [] := rfl

@[simp] theorem written_cons :
    written s (e :: tr) = (if e.site = s then e.call.op.written e.res else []) ++ written s tr := rfl

@[simp] theorem written_append : written s (tr₁ ++ tr₂) = written s tr₁ ++ written s tr₂ := by simp [written]

@[simp] theorem allAt_nil : AllAt S [] := fun _ h => absurd h (List.not_mem_nil)

@[simp] theorem allAt_cons : AllAt S (e :: tr) ↔ S e.site ∧ AllAt S tr := by simp [AllAt]

@[simp] theorem allAt_append : AllAt S (tr₁ ++ tr₂) ↔ AllAt S tr₁ ∧ AllAt S tr₂ := by
  simp only [AllAt, List.mem_append]
  exact ⟨fun h => ⟨fun e he => h e (.inl he), fun e he => h e (.inr he)⟩,
    fun h e he => he.elim (h.1 e) (h.2 e)⟩

theorem failedAt_of_allAt (h : AllAt S tr) (hs : ¬ S s) : failedAt s tr = false := by
  rw [failedAt, List.any_eq_false]
  intro e he
  have : e.site ≠ s := fun e' => hs (e' ▸ h e he)
  simp [this]

theorem doneAt_of_allAt (h : AllAt S tr) (hs : ¬ S s) : doneAt s tr = false := by
  rw [doneAt, List.any_eq_false]
  intro e he
  have : e.site ≠ s := fun e' => hs (e' ▸ h e he)
  simp [this]

theorem statFailed_of_allAt (h : AllAt S tr) (hs : ¬ S s) : statFailed s tr = false := by
  rw [statFailed, List.any_eq_false]
  intro e he
  have : e.site ≠ s := fun e' => hs (e' ▸ h e he)
  simp [this]

theorem filled_of_allAt (h : AllAt S tr) (hs : ¬ S s) : filled s tr = [] := by
  rw [filled, List.flatMap_eq_nil_iff]
  intro e he
  have : e.site ≠ s := fun e' => hs (e' ▸ h e he)
  simp [this]

theorem written_of_allAt (h : AllAt S tr) (hs : ¬ S s) : written s tr = [] := by
  rw [written, List.flatMap_eq_nil_iff]
  intro e he
  have : e.site ≠ s := fun e' => hs (e' ▸ h e he)
  simp [this]

theorem vfsAt_append (h : AllAt S tr₁) (hs : ¬ S s) : vfsAt s (tr₁ ++ tr₂) = vfsAt s tr₂ := by
  have : tr₁.findSome? (fun e => if e.site = s then e.call.op.figures e.res else none) = none := by
    rw [List.findSome?_eq_none_iff]
    intro e he
    have : e.site ≠ s := fun e' => hs (e' ▸ h e he)
    rw [if_neg this]
  simp [vfsAt, List.findSome?_append, this]

@[simp] theorem vfsAt_cons :
    vfsAt s (e :: tr) = ((if e.site = s then e.call.op.figures e.res else none).getD (vfsAt s tr)) := by
  unfold vfsAt
  rw [List.findSome?_cons]
  split <;> simp_all

theorem find_site_append (h : AllAt S tr₁) (hs : ¬ S s) :
    (tr₁ ++ tr₂).find? (fun e => decide (e.site = s)) = tr₂.find? fun e => decide (e.site = s) := by
  rw [List.find?_append, List.find?_eq_none.2, Option.none_or]
  intro e he hse
  exact hs (of_decide_eq_true hse ▸ h e he)

theorem diskAt_append (h : AllAt S tr₁) (hs : ¬ S s) : diskAt s (tr₁ ++ tr₂) = diskAt s tr₂ := by
  rw [diskAt, find_site_append h hs, diskAt]

@[simp] theorem diskAt_cons : diskAt s (e :: tr) = if e.site = s then e.choice.vfs else diskAt s tr := by
  unfold diskAt
  rw [List.find?_cons]
  split <;> simp_all

@[simp] theorem heardAt_cons : heardAt s (e :: tr) = if e.site = s then e.call.op.heard e.res else heardAt s tr := by
  unfold heardAt
  rw [List.find?_cons]
  split <;> simp_all

theorem madeAt_append (h : AllAt S tr₁) (hs : ¬ S s) : madeAt s (tr₁ ++ tr₂) = madeAt s tr₂ := by
  have : tr₁.findSome? (fun e => if e.site = s then e.call.op.made e.res else none) = none := by
    rw [List.findSome?_eq_none_iff]
    intro e he
    have : e.site ≠ s := fun e' => hs (e' ▸ h e he)
    rw [if_neg this]
  simp [madeAt, List.findSome?_append, this]

@[simp] theorem madeAt_cons :
    madeAt s (e :: tr) = (if e.site = s then e.call.op.made e.res else none).or (madeAt s tr) := by
  unfold madeAt
  rw [List.findSome?_cons]
  split <;> simp_all

end Lists

/-! ## Calls that only look -/

/-- The operation leaves the whole world alone. -/
def Op.looks : Op → Bool
  | .access _ _ => true
  | .stat _ => true
  | .openRead _ => true
  | .read _ _ _ => true
  | .fill _ _ _ => true
  | .fsync _ => true
  | .close => true
  | .statvfs _ => true
  | .readdir _ => true
  | .time => true
  | .getTopics => true
  | .cacheEnabled _ => true
  | _ => false

theorem exec_looks {op : Op} {ch : Choice} {w w' : World} {r : op.Res}
    (h : op.exec ch w = some (r, w')) (hq : op.looks = true) : w' = w := by
  cases op
  case read h' off n =>
    cases h' with
    | dir => cases h; rfl
    | file i =>
      simp only [Op.exec] at h
      split at h
      · cases h
      · cases h; rfl
  case fill h' off n => cases h' <;> (cases h; rfl)
  case readdir p =>
    simp only [Op.exec] at h
    split at h
    · cases h; rfl
    · split at h
      · cases h; rfl
      · cases h
  all_goals first | (cases hq; done) | (cases h; rfl)

theorem quiet_of_looks {op : Op} (h : op.looks = true) : op.quiet = true := by
  cases op <;> first | rfl | cases h

/-- A call at one place that only looks. -/
def Looks (s : Site) (c : Call) : Prop := c.site = s ∧ c.op.looks = true

/-- A program that only looks, at one place, leaves the world alone. -/
theorem Run.looks {α : Type} {p : Prog α} {s : Site} {w w' : World} {tr : List Ev} {o : Outcome Exn α}
    (h : Run Machine p w tr o w') (hp : p.Calls (Looks s)) : w' = w ∧ AllAt (· = s) tr :=
  ⟨h.keeps (I := fun x => x = w) (fun _ _ _ _ _ hc he hI => (exec_looks he hc.2).trans hI) hp rfl,
    fun e he => (h.calls hp e he).1⟩

/-! ## Runs of the file utilities -/

section Runs

variable {σ : Type} {M : Sem Calls σ Choice} {x x' : σ} {env : Env} {s : Site} {w w' : World} {tr : List Ev}

/-- A run that starts with a call, in any semantics of the calls. -/
theorem run_ask {α : Type} {op : Op} {k : op.Res → Prog α} {o : Outcome Exn α} :
    Run M ((sys s op).bind k) x tr o x' ↔
      ∃ ch r x₁ tr', M.exec ⟨s, op⟩ ch x = some (r, x₁) ∧ Run M (k r) x₁ tr' o x' ∧ tr = ⟨⟨s, op⟩, ch, r⟩ :: tr' :=
  run_sys

/-- A run that starts with a call. -/
theorem run_call {α : Type} {op : Op} {k : op.Res → Prog α} {o : Outcome Exn α} :
    Run Machine ((sys s op).bind k) w tr o w' ↔
      ∃ ch r w₁ tr', op.exec ch w = some (r, w₁) ∧ Run Machine (k r) w₁ tr' o w' ∧ tr = ⟨⟨s, op⟩, ch, r⟩ :: tr' :=
  run_sys

/-- A `statvfs` that succeeded left the figures of the filesystem. -/
theorem vfsAt_of_heard {α : Type} {p : Prog α} {o : Outcome Exn α} (h : Run Machine p w tr o w')
    (hh : heardAt s tr = true) :
    vfsAt s tr = diskAt s tr := by
  rw [heardAt, Option.any_eq_true] at hh
  obtain ⟨e, he, hheard⟩ := hh
  obtain ⟨hsite, tr₁, tr₂, rfl, hpre⟩ := List.find?_eq_some_iff_append.1 he
  have hat : AllAt (· ≠ s) tr₁ := fun e he => by simpa using hpre e he
  have hs : e.site = s := of_decide_eq_true hsite
  rw [vfsAt_append hat (by simp), diskAt_append hat (by simp), vfsAt_cons, diskAt_cons, if_pos hs, if_pos hs]
  obtain ⟨w₁, w₂, hx⟩ := h.answers e (by simp)
  obtain ⟨⟨s', op⟩, ch, r⟩ := e
  cases op
  case statvfs p =>
    obtain ⟨-, ⟨hr, -, -⟩ | ⟨e, hr, -⟩⟩ := exec_statvfs hx
    · exact congrArg Prod.snd hr
    · rw [show r = _ from hr] at hheard
      cases hheard
  all_goals cases hheard

/-- A process that starts with a call. -/
theorem follows_call {ι γ α : Type} [DecidableEq ι] {R : Proto Calls World Choice ι γ} {i : ι} {g : γ} {op : Op}
    {k : op.Res → Prog α} {Q : γ → Outcome Exn α → Prop} :
    Follows R i ((sys s op).bind k) g Q ↔ ∀ tr w G ch r w', R.inv tr w G → G i = g →
      R.sem.exec ⟨s, op⟩ ch w = some (r, w') → R.ok tr w (i, ⟨⟨s, op⟩, ch, r⟩) →
      ∃ g', R.inv (tr ++ [(i, ⟨⟨s, op⟩, ch, r⟩)]) w' (Function.update G i g') ∧ Follows R i (k r) g' Q := Iff.rfl

/-- A call and what follows. -/
theorem follows_sys_bind {ι γ α : Type} [DecidableEq ι] {R : Proto Calls World Choice ι γ} {i : ι} {g : γ} {op : Op}
    {k : op.Res → Prog α} {Q : γ → Outcome Exn op.Res → Prop} {Q' : γ → Outcome Exn α → Prop}
    (h : Follows R i (sys s op) g Q) (hk : ∀ g' r, Q g' (.ret r) → Follows R i (k r) g' Q') :
    Follows R i ((sys s op).bind k) g Q' := by
  refine follows_call.2 fun tr w G ch r w' hI hg he hok => ?_
  obtain ⟨g', hI', hQ⟩ := h tr w G ch r w' hI hg he hok
  exact ⟨g', hI', hk g' r hQ⟩

/-- A process that starts with a call that only looks, where the invariant is about the world alone. -/
theorem follows_look {ι γ α : Type} [DecidableEq ι] {R : Proto Calls World Choice ι γ} {i : ι} {g : γ} {op : Op}
    {k : op.Res → Prog α} {Q : γ → Outcome Exn α → Prop} (hs : R.sem = Machine)
    (hinv : ∀ tr tr' w G, R.inv tr w G → R.inv tr' w G) (hq : op.looks = true)
    (hk : ∀ tr w G ch r, R.inv tr w G → G i = g → op.exec ch w = some (r, w) → R.ok tr w (i, ⟨⟨s, op⟩, ch, r⟩) →
      Follows R i (k r) g Q) : Follows R i ((sys s op).bind k) g Q := by
  refine follows_call.2 fun tr w G ch r w' hI hg he hok => ⟨g, ?_, ?_⟩
  · rw [hs] at he
    rw [← hg, Function.update_eq_self, exec_looks he hq]
    exact hinv _ _ _ _ hI
  · rw [hs] at he
    have hw := exec_looks he hq
    subst hw
    exact hk tr w' G ch r hI hg he hok

theorem calls_call {α : Type} {C : Call → Prop} {op : Op} {k : op.Res → Prog α} :
    ((sys s op).bind k).Calls C ↔ C ⟨s, op⟩ ∧ ∀ r, (k r).Calls C := Iff.rfl

/-- A call of `getCrc` at a place. -/
def Reads (s : Site) (c : Call) : Prop := Looks s c ∧ c.op.isStat = false

theorem crcRound_calls (h : Handle) (x : Nat × Nat) : (crcRound s h x).Calls (Reads s) := by
  refine calls_call.2 ⟨⟨⟨rfl, rfl⟩, rfl⟩, fun r => ?_⟩
  dsimp only
  split <;> trivial

theorem getCrc_calls (file : Str) : (getCrc env s file).Calls (Reads s) := by
  refine calls_call.2 ⟨⟨⟨rfl, rfl⟩, rfl⟩, fun r => ?_⟩
  cases r with
  | error e => trivial
  | ok h => exact (Proc.Calls.loop (crcRound_calls h) _ _).bind fun _ => trivial

theorem fileStat_calls (file : Str) : (fileStat env s file).Calls (Looks s) := by
  refine calls_call.2 ⟨⟨rfl, rfl⟩, fun r => ?_⟩
  cases r with
  | error e => trivial
  | ok st => dsimp only; split <;> trivial

theorem fileInfo_calls (file : Str) : (fileInfo env s file).Calls (Looks s) :=
  (fileStat_calls file).bind fun _ => ((getCrc_calls file).mono fun _ h => h.1).bind fun _ => trivial

/-- The loop of `getCrc` goes on with the checksum it has. -/
theorem run_crcLoop {h : Handle} : ∀ {n off crc : Nat} {x : σ} {tr : List Ev} {o : Outcome Exn Nat},
    Run M (Proc.loop n (crcRound s h) (off, crc)) x tr o x' → o = .stop .fuel ∨ o = .ret (crc32 crc (filled s tr))
  | 0, _, _, _, _, _, hr => .inl (run_stop.1 hr).2.1
  | n + 1, off, crc, x, tr, o, hr => by
    obtain ⟨ch, ⟨b, bad⟩, x₁, tr', -, hk, rfl⟩ := run_ask.1 hr
    simp only [Proc.pure_eq, Proc.ret_bind] at hk
    split at hk
    · obtain ⟨rfl, rfl, rfl⟩ := run_ret.1 hk
      exact .inr (by simp [Op.filled])
    · rcases run_crcLoop hk with rfl | rfl
      · exact .inl rfl
      · exact .inr (by simp [Op.filled, crc32_append])

/-- `getCrc` looks at the file and gives the checksum of what it read. -/
theorem run_getCrc {file : Str} {o : Outcome Exn Str} (h : Run M (getCrc env s file) x tr o x') :
    statFailed s tr = false ∧ (o = .stop .fuel ∨ o = .ret (crcText (filled s tr))) := by
  refine ⟨?_, ?_⟩
  · rw [statFailed, List.any_eq_false]
    intro e he
    have := (h.calls (getCrc_calls file) e he).2
    simp [this]
  obtain ⟨ch, r, x₁, tr', -, hk, rfl⟩ := run_ask.1 h
  cases r with
  | error e =>
    obtain ⟨rfl, rfl, rfl⟩ := run_ret.1 hk
    exact .inr (by simp [crcText, Op.filled])
  | ok hd =>
    rcases run_bind.1 hk with ⟨crc, x₂, tr₁, tr₂, h₁, h₂, rfl⟩ | ⟨e, h₁, rfl⟩ | ⟨y, h₁, rfl⟩
    · obtain ⟨rfl, rfl, rfl⟩ := run_ret.1 h₂
      rcases run_crcLoop h₁ with h | h <;> cases h
      exact .inr (by simp [crcText, Op.filled])
    · rcases run_crcLoop h₁ with h | h <;> cases h
    · rcases run_crcLoop h₁ with h | h <;> cases h
      exact .inl rfl

/-- What `fileInfo` says of a file: it threw as `stat` was refused, or the checksum is that of what was read. -/
theorem run_fileInfo_said {file : Str} {o : Outcome Exn FileInfo} (h : Run M (fileInfo env s file) x tr o x') :
    AllAt (· = s) tr ∧
    ((∃ e what, o = .throw (.runtime e what) ∧ statFailed s tr = true) ∨
      (statFailed s tr = false ∧ (o = .stop .fuel ∨ ∃ fi, o = .ret fi ∧ fi.crc32 = crcText (filled s tr)))) := by
  refine ⟨fun e he => (h.calls (fileInfo_calls file) e he).1, ?_⟩
  have hstat : ∀ {o₁ tr₁ x₁}, Run M (fileStat env s file) x tr₁ o₁ x₁ →
      (∃ e what, o₁ = .throw (.runtime e what) ∧ statFailed s tr₁ = true) ∨
      ((∃ st, o₁ = .ret st) ∧ statFailed s tr₁ = false ∧ filled s tr₁ = []) := by
    intro o₁ tr₁ x₁ h₁
    obtain ⟨ch, r, x₂, tr', -, hk, rfl⟩ := run_ask.1 h₁
    cases r with
    | error e =>
      obtain ⟨rfl, rfl, rfl⟩ := run_throw.1 hk
      exact .inl ⟨_, _, rfl, by simp [Op.refused, Op.isStat]⟩
    | ok st =>
      dsimp only at hk
      split at hk
      · rename_i hr
        obtain ⟨rfl, rfl, rfl⟩ := run_ret.1 hk
        exact .inr ⟨⟨st, rfl⟩, by simp [Op.refused, hr], by simp [Op.filled]⟩
      · rename_i hr
        obtain ⟨rfl, rfl, rfl⟩ := run_throw.1 hk
        exact .inl ⟨_, _, rfl, by simpa [Op.refused, Op.isStat] using hr⟩
  rcases run_bind.1 h with ⟨st, x₁, tr₁, tr₂, h₁, h₂, rfl⟩ | ⟨e, h₁, rfl⟩ | ⟨y, h₁, rfl⟩
  · obtain ⟨e, what, he, -⟩ | ⟨-, hn, hf⟩ := hstat h₁
    · cases he
    · refine .inr ?_
      rcases run_bind.1 h₂ with ⟨crc, x₂, tr₃, tr₄, h₃, h₄, rfl⟩ | ⟨e, h₃, rfl⟩ | ⟨y, h₃, rfl⟩
      all_goals obtain ⟨hs, h | h⟩ := run_getCrc h₃ <;> cases h
      · obtain ⟨rfl, rfl, rfl⟩ := run_ret.1 h₄
        exact ⟨by simp [hn, hs], .inr ⟨_, rfl, by simp [hf]⟩⟩
      · exact ⟨by simp [hn, hs], .inl rfl⟩
  · obtain ⟨e', what, he, hs⟩ | ⟨⟨st, he⟩, -⟩ := hstat h₁
    · cases he
      exact .inl ⟨e', what, rfl, hs⟩
    · cases he
  · obtain ⟨e', what, he, -⟩ | ⟨⟨st, he⟩, -⟩ := hstat h₁ <;> cases he

/-- `fileStat` was refused and threw, or the file is regular. -/
theorem run_fileStat {file : Str} {o : Outcome Exn Stat} (h : Run Machine (fileStat env s file) w tr o w') :
    (∃ e what, o = .throw (.runtime e what) ∧ statFailed s tr = true) ∨
    ∃ st i, o = .ret st ∧ statFailed s tr = false ∧ filled s tr = [] ∧ w.fs.node (norm w.fs.cwd file) = some (.file i) ∧
      st = ⟨true, (w.fs.inode i).data.length, (w.fs.inode i).mtime, (w.fs.inode i).ctime⟩ := by
  obtain ⟨ch, r, w₁, tr', he, hk, rfl⟩ := run_call.1 h
  cases r with
  | error e =>
    obtain ⟨rfl, rfl, rfl⟩ := run_throw.1 hk
    exact .inl ⟨_, _, rfl, by simp [Op.refused, Op.isStat]⟩
  | ok st =>
    dsimp only at hk
    split at hk
    · rename_i hr
      obtain ⟨rfl, rfl, rfl⟩ := run_ret.1 hk
      obtain ⟨i, -, hi, hst⟩ := FS.pathStat_reg (inject_ok (Prod.mk.inj (Option.some.inj he)).1).2 hr
      exact .inr ⟨st, i, rfl, by simp [Op.refused, hr], by simp [Op.filled], hi, hst⟩
    · rename_i hr
      obtain ⟨rfl, rfl, rfl⟩ := run_throw.1 hk
      exact .inl ⟨_, _, rfl, by simpa [Op.refused, Op.isStat] using hr⟩

/-- `fileInfo` looks at the file: `stat` was refused and it threw, or the file is regular and the checksum is that
of what was read. -/
theorem run_fileInfo {file : Str} {o : Outcome Exn FileInfo} (h : Run Machine (fileInfo env s file) w tr o w') :
    w' = w ∧ AllAt (· = s) tr ∧
    ((∃ e what, o = .throw (.runtime e what) ∧ statFailed s tr = true) ∨
      ((∃ i, w.fs.node (norm w.fs.cwd file) = some (.file i)) ∧ statFailed s tr = false ∧
        (o = .stop .fuel ∨ ∃ fi, o = .ret fi ∧ fi.crc32 = crcText (filled s tr)))) := by
  obtain ⟨hw, ht⟩ := Run.looks h (fileInfo_calls file)
  obtain ⟨-, hthrow | ⟨hstat, hend⟩⟩ := run_fileInfo_said h
  · exact ⟨hw, ht, .inl hthrow⟩
  refine ⟨hw, ht, .inr ⟨?_, hstat, hend⟩⟩
  rcases run_bind.1 h with ⟨st, w₁, tr₁, tr₂, h₁, h₂, rfl⟩ | ⟨e, h₁, rfl⟩ | ⟨y, h₁, rfl⟩
  · obtain ⟨e, what, he, -⟩ | ⟨st', i, -, -, -, hi, -⟩ := run_fileStat h₁
    · cases he
    · exact ⟨i, hi⟩
  · obtain ⟨e', what, -, hs⟩ | ⟨st', i, he, -⟩ := run_fileStat h₁
    · rw [hstat] at hs
      cases hs
    · cases he
  · obtain ⟨e', what, he, -⟩ | ⟨st', i, he, -⟩ := run_fileStat h₁ <;> cases he

end Runs

/-! ## A small world

A working directory `/w` and a directory `/a` with a file on one device, a directory `/b` on another. -/

namespace Sample

/-- The filesystem: `/a/x` holds the two bytes `hi`. -/
def fs : FS :=
  ((((((((FS.base 1).putDir "w".toList [] 1 true).putDir "transfers".toList ["w".toList] 1 true).putDir
    "uploads".toList ["w".toList] 1 true).putDir "upgrades".toList ["w".toList] 1 true).putDir
    "dead".toList ["w".toList] 1 true).putDir "a".toList [] 1 true).putDir "b".toList [] 2 true).putFile
    "x".toList ["a".toList] ⟨[104, 105], true, 0, 0⟩

/-- The world: no allowed topics are set, the caches are disabled. -/
def world : World where
  fs := fs
  topics := []
  caches := fun _ => { enabled := false }
  locked := fun _ => false
  uuids := []

/-- The same filesystem with its names spelled out. -/
def tree : FS :=
  ((((((((FS.base 1).putDir ['w'] [] 1 true).putDir ['t', 'r', 'a', 'n', 's', 'f', 'e', 'r', 's'] [['w']] 1 true).putDir
    ['u', 'p', 'l', 'o', 'a', 'd', 's'] [['w']] 1 true).putDir ['u', 'p', 'g', 'r', 'a', 'd', 'e',
    's'] [['w']] 1 true).putDir
    ['d', 'e', 'a', 'd'] [['w']] 1 true).putDir ['a'] [] 1 true).putDir ['b'] [] 2 true).putFile
    ['x'] [['a']] ⟨[104, 105], true, 0, 0⟩

/-- To evaluate a run, rewrite with it first: the names are decoded from their literals only once. -/
theorem fs_eq : fs = tree := rfl

theorem world_eq : world = { world with fs := tree } := rfl

/-- What is known of `/a/x`. -/
def info : FileInfo where
  id := "x".toList
  path := "/a/x".toList
  size := 2
  modified := 0
  created := 0
  crc32 := "d8932aac".toList

example : crcText [104, 105] = info.crc32 := by decide +kernel

/-- The agent: its working directory is `/w`. -/
def env (codec : Codec) : Env := { workdir := "/w".toList, codec, fuel := 8 }

/-- A call that nothing makes fail. -/
def calm : Choice := {}

/-- A codec for runs in which no metadata is read. -/
def noCodec : Codec := ⟨fun _ => [], fun _ => none⟩

end Sample

end OortAgent
