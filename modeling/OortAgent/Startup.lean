import OortAgent.Letters
import OortAgent.Reclaim

/-!
# The start of an agent

The constructor of `Agent` asks for the name of the machine and makes the directories of the agent. One that is
there already is taken as it is, so an agent goes on with what an earlier one has left.

* `calm_createDirs`: what the loop over the directories makes.
* `agent_starts_iff`: when there is an agent, and what it finds.
* `restarts_are_unseen`: runs in which new agents take the place of old ones are runs of the post office all the same.
-/

namespace OortAgent.Startup

open Lib

/-- `mkdir`: a name that is bound to something is left alone, whether the directory can be changed or not. -/
def pathMkdir (fs : FS) (p : Str) : Except Errno FS :=
  match fs.resolve p with
  | .error e => .error e
  | .ok l => if fs.node l = none then fs.mkdir l else .error .EEXIST

/-- The calls of the constructor. -/
inductive StartCall
  | uname
  | mkdir (path : Str)

/-- Their answers. -/
abbrev StartCall.Res : StartCall → Type
  | .uname => Except Errno (Str × Str)
  | .mkdir _ => Except Errno Unit

abbrev Calls : Sig := ⟨StartCall, StartCall.Res⟩

/-- A part of the constructor. -/
abbrev Prog (α : Type) := Proc Calls Exn α

/-- What the environment decides: whether the call fails, and what the machine is called. -/
structure Choice where
  err : Option Errno := none
  names : Str × Str := ([], [])

def exec (c : StartCall) (ch : Choice) (fs : FS) : Option (c.Res × FS) :=
  match c with
  | .uname => match ch.err with
    | some e => some (.error e, fs)
    | none => some (.ok ch.names, fs)
  | .mkdir p => match ch.err with
    | some e => some (.error e, fs)
    | none => match pathMkdir fs p with
      | .error e => some (.error e, fs)
      | .ok fs' => some (.ok (), fs')

abbrev Machine : Sem Calls FS Choice := ⟨exec⟩

/-- A call that was made, with its answer. -/
abbrev Ev := Event Calls Choice

/-- `Agent::create_dirs`. -/
def createDirs : List Str → Prog Unit
  | [] => return ()
  | dir :: dirs => do
    match ← Proc.call (S := Calls) (.mkdir dir) with
    | .ok _ => createDirs dirs
    | .error e => if e ≠ .EEXIST then .throw (.runtime e ("Error initializing directory ".toList ++ dir)) else
      createDirs dirs

/-- The agent of a configuration, on a machine with these names. -/
def onMachine (env : Env) (names : Str × Str) : Env := { env with nodename := names.1, machine := names.2 }

/-- On the same machine it is the same agent. -/
theorem onMachine_eq {env : Env} {names : Str × Str} (h : names = (env.nodename, env.machine)) :
    onMachine env names = env := by
  rw [h, onMachine]

/-- `Agent::Agent`: `env` has what `newAgent` takes from the configuration. -/
def construct (initialized : Bool) (env : Env) : Prog Env := do
  if ¬ initialized then .throw (.runtime (.other 0) "configuration not initialized".toList)
  else
    match ← Proc.call (S := Calls) .uname with
    | .error e => .throw (.system e "initializing uname".toList)
    | .ok names =>
      createDirs (onMachine env names).allDirs
      return onMachine env names

/-- The caches of a new agent. -/
def newCache (now : Int) : (c : CacheId) → Cache c.Val
  | .dir => Cache.init 5000 now
  | .metafile => Cache.init 5000 now
  | .metainfo => Cache.init 10000 now

/-- What the threads of a new agent share. -/
def newWorld (fs : FS) (uuids : List Str) (now : Int) : World :=
  { fs, topics := [], caches := newCache now, locked := fun _ => false, uuids }

/-! ## The directories -/

section Dirs

variable {env : Env} {fs fs' : FS} {tr : List Ev}

/-- Some of the locations are bound to new directories. -/
structure Grown (L : List Loc) (fs fs' : FS) : Prop where
  cwd : fs'.cwd = fs.cwd
  look : ∀ l, fs'.look l = fs.look l ∨ (l ∈ L ∧ fs.node l = none ∧ ∃ v, fs'.look l = some (.dir v true))

theorem Grown.refl {L : List Loc} : Grown L fs fs := ⟨rfl, fun _ => .inl rfl⟩

/-- What is there stays. -/
theorem Grown.look_of_node {L : List Loc} {l : Loc} (h : Grown L fs fs') (hl : fs.node l ≠ none) :
    fs'.look l = fs.look l :=
  (h.look l).resolve_right fun hr => hl hr.2.1

theorem node_of_isDir {l : Loc} (hl : fs.isDir l = true) : fs.node l ≠ none := by
  obtain ⟨v, b, hv⟩ := FS.isDir_iff.1 hl
  simp [hv]

theorem Grown.isDir {L : List Loc} {l : Loc} (h : Grown L fs fs') (hl : fs.isDir l = true) : fs'.isDir l = true := by
  rw [FS.isDir_of_look (h.look_of_node (node_of_isDir hl)), hl]

/-- A directory that could be changed still can. -/
theorem Grown.open {L : List Loc} {d : Str} (h : Grown L fs fs') (ho : Open fs d) : Open fs' d :=
  ho.congr h.cwd fun _ hl => h.look_of_node (node_of_isDir hl)

theorem Grown.node {L : List Loc} {l : Loc} (h : Grown L fs fs') (hl : fs.node l ≠ none) : fs'.node l ≠ none := by
  intro e
  have hlook := h.look_of_node hl
  rw [FS.look_eq_none.2 e] at hlook
  exact hl (FS.look_eq_none.1 hlook.symm)

theorem Grown.trans {L M : List Loc} {fs₁ : FS} (h : Grown L fs fs₁) (h' : Grown M fs₁ fs') :
    Grown (L ++ M) fs fs' := by
  refine ⟨h'.cwd.trans h.cwd, fun l => ?_⟩
  rcases h'.look l with h₂ | ⟨hm, hno, v, h₂⟩
  · rcases h.look l with h₁ | ⟨hl, hno, v, h₁⟩
    · exact .inl (h₂.trans h₁)
    · exact .inr ⟨List.mem_append_left _ hl, hno, v, h₂.trans h₁⟩
  · refine .inr ⟨List.mem_append_right _ hm, ?_, v, h₂⟩
    by_contra hne
    exact h.node hne hno

theorem Grown.mono {L M : List Loc} (h : Grown L fs fs') (hLM : ∀ l ∈ L, l ∈ M) : Grown M fs fs' :=
  ⟨h.cwd, fun l => (h.look l).imp_right fun hr => ⟨hLM l hr.1, hr.2⟩⟩

theorem Grown.resolve {L : List Loc} {p : Str} {l : Loc} (h : Grown L fs fs') (hl : fs.resolve p = .ok l) :
    fs'.resolve p = .ok l :=
  FS.resolve_mono (fun _ => h.isDir) h.cwd hl

/-- A directory that was made. -/
theorem grown_mkdir {p : Str} (h : pathMkdir fs p = .ok fs') :
    fs.resolve p = .ok (norm fs.cwd p) ∧ fs'.node (norm fs.cwd p) ≠ none ∧ Grown [norm fs.cwd p] fs fs' := by
  unfold pathMkdir at h
  split at h
  · cases h
  rename_i l hl
  split at h
  swap
  · cases h
  rename_i hfree
  have hnorm := FS.resolve_norm hl
  subst hnorm
  obtain ⟨n, d, v, he, hv, -, rfl⟩ := FS.mkdir_ok h
  have hdir : fs.isDir d = true := FS.isDir_iff.2 ⟨v, true, hv⟩
  rw [he] at hl hfree ⊢
  refine ⟨hl, ?_, FS.cwd_putDir, fun l => ?_⟩
  · rw [FS.node_putDir hdir hfree, if_pos rfl]
    simp
  · by_cases e : l = n :: d
    · subst e
      exact .inr ⟨List.mem_singleton_self _, hfree, v, by rw [FS.look_eq_dir, FS.node_putDir hdir hfree, if_pos rfl]⟩
    · refine .inl (FS.look_of_node (by rw [FS.node_putDir hdir hfree, if_neg e]) fun j _ => ?_)
      rw [FS.inode_putDir]

/-- The errors on the way to a location. -/
theorem resolve_error {p : Str} {e : Errno} (h : fs.resolve p = .error e) : e = .ENOENT ∨ e = .ENOTDIR := by
  have hreach : ∀ {ns : List Name} {cur : Loc}, fs.reach cur ns = .error e → e = .ENOENT ∨ e = .ENOTDIR := by
    intro ns
    induction ns with
    | nil =>
      intro cur h
      cases h
    | cons n ns ih =>
      intro cur h
      rw [FS.reach] at h
      split at h
      · exact ih h
      · cases h
        exact .inr rfl
      · cases h
        exact .inl rfl
  rw [FS.resolve] at h
  split at h
  · cases h
    exact .inl rfl
  · exact hreach h

/-- A free name that cannot be bound to a new directory. -/
theorem mkdir_refused {l : Loc} {e : Errno} (h : fs.mkdir l = .error e) (hfree : fs.node l = none) :
    e ≠ .EEXIST ∧ fs.writable l.tail = false := by
  cases l with
  | nil =>
    obtain ⟨v, b, hr⟩ := fs.root
    cases hfree.symm.trans hr
  | cons n d =>
    rw [FS.mkdir] at h
    rw [List.tail_cons, FS.writable]
    split at h
    · rename_i v w hd
      split at h
      · cases h
      · rename_i hw
        cases h
        exact ⟨by simp, by rw [hd]; simpa using hw⟩
    · rename_i i hd
      cases h
      exact ⟨by simp, by rw [hd]⟩
    · rename_i hd
      cases h
      exact ⟨by simp, by rw [hd]⟩

/-- The directory can be made, or something has its name. -/
def Makes (fs : FS) (dir : Str) : Prop :=
  fs.resolve dir = .ok (norm fs.cwd dir) ∧
    (fs.node (norm fs.cwd dir) ≠ none ∨ fs.writable (norm fs.cwd dir).tail = true)

/-- One `mkdir` that is not made to fail. -/
theorem calm_mkdir {dir : Str} {ch : Choice} {r : Except Errno Unit} (he : exec (.mkdir dir) ch fs = some (r, fs'))
    (hch : ch.err = none) :
    (r = .ok () ∧ Makes fs dir ∧ fs'.node (norm fs.cwd dir) ≠ none ∧ Grown [norm fs.cwd dir] fs fs') ∨
    (r = .error .EEXIST ∧ Makes fs dir ∧ fs.node (norm fs.cwd dir) ≠ none ∧ fs' = fs) ∨
    ∃ e, r = .error e ∧ e ≠ .EEXIST ∧ ¬ Makes fs dir ∧ fs' = fs := by
  rw [exec, hch] at he
  dsimp only at he
  cases hm : pathMkdir fs dir with
  | ok fs₁ =>
    rw [hm] at he
    cases he
    obtain ⟨hres, hthere, hG⟩ := grown_mkdir hm
    refine .inl ⟨rfl, ⟨hres, ?_⟩, hthere, hG⟩
    by_cases hn : fs.node (norm fs.cwd dir) = none
    · right
      rw [pathMkdir, hres] at hm
      dsimp only at hm
      rw [if_pos hn] at hm
      obtain ⟨n, d, v, hl, hv, -⟩ := FS.mkdir_ok hm
      rw [hl, List.tail_cons, FS.writable, hv]
    · exact .inl hn
  | error e =>
    rw [hm] at he
    cases he
    right
    rw [pathMkdir] at hm
    split at hm
    · rename_i e' hl
      cases hm
      refine .inr ⟨e, rfl, ?_, fun hM => ?_, rfl⟩
      · rcases resolve_error hl with rfl | rfl <;> simp
      · rw [hM.1] at hl
        cases hl
    · rename_i l hl
      have hnorm := FS.resolve_norm hl
      subst hnorm
      split at hm
      · rename_i hfree
        obtain ⟨hne, hw⟩ := mkdir_refused hm hfree
        refine .inr ⟨e, rfl, hne, fun hM => ?_, rfl⟩
        rcases hM.2 with hthere | hwrite
        · exact hthere hfree
        · rw [hw] at hwrite
          cases hwrite
      · rename_i hthere
        cases hm
        exact .inl ⟨rfl, ⟨hl, .inl hthere⟩, hthere, rfl⟩

/-- How the loop over directories that are beside each other ends: all are there, or there is one that cannot be
made. -/
def EndsBeside (W : Loc) (names : List Name) (fs fs' : FS) (o : Outcome Exn Unit) : Prop :=
  (o = .ret () ∧ ∀ n ∈ names, fs'.node (n :: W) ≠ none ∧ (fs.node (n :: W) ≠ none ∨ fs.writable W = true)) ∨
    (∃ e, o = .throw e) ∧ ∃ n ∈ names, fs.node (n :: W) = none ∧ fs.writable W = false

/-- One directory more, which is there before the others are made. -/
theorem EndsBeside.cons {W : Loc} {n : Name} {names : List Name} {fs₁ : FS} {o : Outcome Exn Unit}
    (h : EndsBeside W names fs₁ fs' o)
    (hG : Grown [n :: W] fs fs₁) (hG' : Grown (names.map (· :: W)) fs₁ fs') (hW : fs.isDir W = true)
    (hthere : fs₁.node (n :: W) ≠ none) (hmake : fs.node (n :: W) ≠ none ∨ fs.writable W = true) :
    EndsBeside W (n :: names) fs fs' o := by
  have hwrite : fs₁.writable W = fs.writable W := by
    obtain ⟨v, b, hv⟩ := FS.isDir_iff.1 hW
    rw [FS.writable_eq_look (v := v) (w := b) (by rw [hG.look_of_node (node_of_isDir hW), FS.look_eq_dir, hv]),
      FS.writable, hv]
  obtain ⟨ho, hall⟩ | ⟨hthrow, m, hm, hfree, hw⟩ := h
  · refine .inl ⟨ho, fun m hm => ?_⟩
    rcases List.mem_cons.1 hm with rfl | hm
    · exact ⟨hG'.node hthere, hmake⟩
    obtain ⟨hm', hor⟩ := hall m hm
    refine ⟨hm', ?_⟩
    rw [hwrite] at hor
    rcases hor with hthere₁ | hw
    · -- it was there before, or it is the one that was made
      rcases hG.look (m :: W) with hlook | ⟨hin, -, -⟩
      · refine .inl fun hfree => hthere₁ ?_
        rw [← FS.look_eq_none, hlook, FS.look_eq_none, hfree]
      · obtain rfl : m = n := by simpa using hin
        exact hmake
    · exact .inr hw
  · refine .inr ⟨hthrow, m, List.mem_cons_of_mem _ hm, ?_, by rw [← hwrite, hw]⟩
    by_contra hne
    exact hG.node hne hfree

/-- The loop over directories that are beside each other: induction over their names. -/
theorem calm_createDirs {d : Str} {W : Loc} : ∀ {names : List Name} {fs fs' : FS} {tr : List Ev} {o : Outcome Exn Unit},
    Run Machine (createDirs (names.map (d ++ '/' :: ·))) fs tr o fs' → (∀ e ∈ tr, e.choice.err = none) →
    (∀ n ∈ names, Plain n) → (∀ n, Plain n → fs.resolve (d ++ '/' :: n) = .ok (n :: W)) → fs.isDir W = true →
    Grown (names.map (· :: W)) fs fs' ∧ EndsBeside W names fs fs' o
  | [], fs, fs', tr, o, h, _, _, _, _ => by
    obtain ⟨-, rfl, rfl⟩ := run_ret.1 h
    exact ⟨.refl, .inl ⟨rfl, by simp⟩⟩
  | n :: names, fs, fs', tr, o, h, hch, hplain, hres, hW => by
    obtain ⟨ch, r, fs₁, tr', he, hk, rfl⟩ := run_sys.1 h
    have hresn := hres n (hplain n List.mem_cons_self)
    have hnorm : norm fs.cwd (d ++ '/' :: n) = n :: W := (FS.resolve_norm hresn).symm
    -- what follows where the directory is there
    have hgo : Run Machine (createDirs (names.map (d ++ '/' :: ·))) fs₁ tr' o fs' → Grown [n :: W] fs fs₁ →
        fs₁.node (n :: W) ≠ none → (fs.node (n :: W) ≠ none ∨ fs.writable W = true) →
        Grown ((n :: names).map (· :: W)) fs fs' ∧ EndsBeside W (n :: names) fs fs' o := by
      intro hrun hG hthere hmake
      obtain ⟨hG', hend⟩ := calm_createDirs hrun (fun e he => hch e (List.mem_cons_of_mem _ he))
        (fun m hm => hplain m (List.mem_cons_of_mem _ hm)) (fun m hm => hG.resolve (hres m hm)) (hG.isDir hW)
      exact ⟨hG.trans hG', hend.cons hG hG' hW hthere hmake⟩
    have hmkdir := calm_mkdir he (hch _ List.mem_cons_self)
    rw [Makes, hnorm] at hmkdir
    obtain ⟨rfl, hM, hthere, hG⟩ | ⟨rfl, hM, hthere, rfl⟩ | ⟨e, rfl, hne, hM, rfl⟩ := hmkdir
    · exact hgo hk hG hthere hM.2
    · have hk' : Run Machine (if Errno.EEXIST ≠ .EEXIST then
          .throw (.runtime .EEXIST ("Error initializing directory ".toList ++ (d ++ '/' :: n)))
        else createDirs (names.map (d ++ '/' :: ·))) fs₁ tr' o fs' := hk
      rw [if_neg (by simp)] at hk'
      exact hgo hk' .refl hthere hM.2
    · have hk' : Run Machine (if e ≠ .EEXIST then
          .throw (.runtime e ("Error initializing directory ".toList ++ (d ++ '/' :: n)))
        else createDirs (names.map (d ++ '/' :: ·))) fs₁ tr' o fs' := hk
      rw [if_pos hne] at hk'
      obtain ⟨-, rfl, rfl⟩ := run_throw.1 hk'
      refine ⟨.refl, .inr ⟨⟨_, rfl⟩, n, List.mem_cons_self, ?_, ?_⟩⟩
      · by_contra hthere
        exact hM ⟨hresn, .inl hthere⟩
      · by_contra hw
        exact hM ⟨hresn, .inr (by simpa using hw)⟩

end Dirs

/-! ## The constructor -/

section Construct

variable {env : Env} {fs fs' : FS} {tr : List Ev}

theorem allDirs_eq : env.allDirs = boxNames.map (env.workdir ++ '/' :: ·) := rfl

/-- The working directory is there, and has the directories of the agent or room for them. -/
def Ready (env : Env) (fs : FS) : Prop :=
  fs.resolve env.transferDir = .ok (norm fs.cwd env.transferDir) ∧
    ∀ n ∈ boxNames, fs.node (n :: env.home fs.cwd) ≠ none ∨ fs.writable (env.home fs.cwd) = true

/-- The working directory of a path in it that resolves. -/
theorem home_there (h : fs.resolve env.transferDir = .ok (norm fs.cwd env.transferDir)) :
    fs.isDir (env.home fs.cwd) = true := by
  have hn : Plain "transfers".toList := by decide
  by_cases hw : env.workdir = []
  · have hroot : env.home fs.cwd = [] := by
      have hup : norm fs.cwd ('/' :: "uploads".toList) = ["uploads".toList] := norm_root_child (by decide)
      rw [Env.home, Env.uploadDir, hw, List.nil_append, show "/uploads".toList = '/' :: "uploads".toList from rfl,
        hup, List.tail_cons]
    obtain ⟨v, b, hr⟩ := fs.root
    rw [hroot]
    exact FS.isDir_iff.2 ⟨v, b, hr⟩
  · have hchild : norm fs.cwd (env.workdir ++ '/' :: "transfers".toList) = "transfers".toList ::
        norm fs.cwd env.workdir :=
      norm_child hw hn
    rw [norm_workdir hn] at hchild
    rw [(List.cons.inj hchild).2]
    exact (FS.isDir_of_resolve_child hw hn h).2

/-- The directories are beside each other. -/
theorem resolve_box (h : fs.resolve env.transferDir = .ok (norm fs.cwd env.transferDir)) {n : Name} (hn : Plain n) :
    fs.resolve (env.workdir ++ '/' :: n) = .ok (n :: env.home fs.cwd) := by
  have := FS.resolve_sibling (d := env.workdir) (n := "transfers".toList) (by decide) hn h
  rwa [norm_transferDir, List.tail_cons] at this

/-- The loop over the directories of the agent. -/
theorem calm_allDirs {o : Outcome Exn Unit} (h : Run Machine (createDirs env.allDirs) fs tr o fs')
    (hch : ∀ e ∈ tr, e.choice.err = none) : Grown (boxNames.map (· :: env.home fs.cwd)) fs fs' ∧
    (o = .ret () ∧ Ready env fs ∧ (∀ n ∈ boxNames, fs'.node (n :: env.home fs.cwd) ≠ none) ∨
      (∃ e, o = .throw e) ∧ ¬ Ready env fs) := by
  by_cases hres : fs.resolve env.transferDir = .ok (norm fs.cwd env.transferDir)
  · rw [allDirs_eq] at h
    obtain ⟨hG, ⟨ho, hmade⟩ | ⟨hthrow, n, hn, hfree, hw⟩⟩ :=
      calm_createDirs h hch (by decide) (fun _ => resolve_box hres) (home_there hres)
    · exact ⟨hG, .inl ⟨ho, ⟨hres, fun n hn => (hmade n hn).2⟩, fun n hn => (hmade n hn).1⟩⟩
    · refine ⟨hG, .inr ⟨hthrow, fun hR => ?_⟩⟩
      rcases hR.2 n hn with hthere | hwrite
      · exact hthere hfree
      · rw [hw] at hwrite
        cases hwrite
  · -- the first directory cannot be made
    obtain ⟨ch, r, fs₁, tr', he, hk, rfl⟩ := run_sys.1 h
    obtain ⟨-, hM, -⟩ | ⟨-, hM, -⟩ | ⟨e, rfl, hne, -, rfl⟩ := calm_mkdir he (hch _ List.mem_cons_self)
    · exact absurd hM.1 hres
    · exact absurd hM.1 hres
    · have hk' : Run Machine (if e ≠ .EEXIST then
          .throw (.runtime e ("Error initializing directory ".toList ++ env.transferDir))
        else createDirs [env.uploadDir, env.upgradeDir, env.deadletterDir]) fs₁ tr' o fs' := hk
      rw [if_pos hne] at hk'
      obtain ⟨-, rfl, rfl⟩ := run_throw.1 hk'
      exact ⟨.refl, .inr ⟨⟨_, rfl⟩, fun hR => hres hR.1⟩⟩

/-- What the constructor does to the directories when no call is made to fail. -/
theorem calm_construct {o : Outcome Exn Env} (h : Run Machine (construct true env) fs tr o fs')
    (hch : ∀ e ∈ tr, e.choice.err = none) : Grown (boxNames.map (· :: env.home fs.cwd)) fs fs' ∧
    ((∃ names, o = .ret (onMachine env names)) ∧ Ready env fs ∧
      (∀ n ∈ boxNames, fs'.node (n :: env.home fs.cwd) ≠ none) ∨
      (∃ e, o = .throw e) ∧ ¬ Ready env fs) := by
  obtain ⟨ch, r, fs₁, tr', he, hk, rfl⟩ := run_sys.1 h
  have herr : ch.err = none := hch _ List.mem_cons_self
  have hfs : fs₁ = fs ∧ r = .ok ch.names := by
    simp only [exec, herr] at he
    cases he
    exact ⟨rfl, rfl⟩
  obtain ⟨rfl, rfl⟩ := hfs
  have hrest : ∀ e ∈ tr', e.choice.err = none := fun e he => hch e (List.mem_cons_of_mem _ he)
  -- the names that are found out are not used for the directories
  have hk' : Run Machine ((createDirs env.allDirs).bind fun _ => .ret (onMachine env ch.names)) fs₁ tr' o fs' := hk
  rcases run_bind.1 hk' with ⟨u, fs₂, tr₁, tr₂, h₁, h₂, rfl⟩ | ⟨e, h₁, rfl⟩ | ⟨x, h₁, rfl⟩
  · obtain ⟨hG, ⟨-, hend⟩ | ⟨⟨e, he⟩, -⟩⟩ := calm_allDirs h₁ fun e he => hrest e (List.mem_append_left _ he)
    · obtain ⟨-, rfl, rfl⟩ := run_ret.1 h₂
      exact ⟨hG, .inl ⟨⟨_, rfl⟩, hend⟩⟩
    · cases he
  · obtain ⟨hG, ⟨ho, -⟩ | ⟨-, hR⟩⟩ := calm_allDirs h₁ hrest
    · cases ho
    · exact ⟨hG, .inr ⟨⟨e, rfl⟩, hR⟩⟩
  · obtain ⟨-, ⟨ho, -⟩ | ⟨⟨e, he⟩, -⟩⟩ := calm_allDirs h₁ hrest
    · cases ho
    · cases he

/-- A directory of an agent that is not there, or can be changed and has no pairs. -/
def Vacant (fs : FS) (d : Str) : Prop :=
  fs.node (norm fs.cwd d) ≠ none → Open fs d ∧ ∀ id, NoPair fs (norm fs.cwd d) id

/-- What is in the directories is none of what is made. -/
theorem Grown.inside {n m : Name} (hG : Grown (boxNames.map (· :: env.home fs.cwd)) fs fs') :
    fs'.look (m :: n :: env.home fs.cwd) = fs.look (m :: n :: env.home fs.cwd) := by
  refine (hG.look _).resolve_right ?_
  rintro ⟨hin, -⟩
  obtain ⟨k, -, hk⟩ := List.mem_map.1 hin
  have := congrArg List.length hk
  simp at this

/-- A vacant directory after the start. -/
theorem Grown.vacant {n : Name} (hn : n ∈ boxNames) (hG : Grown (boxNames.map (· :: env.home fs.cwd)) fs fs')
    (hres : fs.resolve (env.workdir ++ '/' :: n) = .ok (n :: env.home fs.cwd))
    (hV : Vacant fs (env.workdir ++ '/' :: n)) (hthere : fs'.node (n :: env.home fs.cwd) ≠ none) :
    Open fs' (env.workdir ++ '/' :: n) ∧ ∀ id, NoPair fs' (norm fs'.cwd (env.workdir ++ '/' :: n)) id := by
  have hplain : ∀ n ∈ boxNames, Plain n := by decide
  have hnorm : norm fs.cwd (env.workdir ++ '/' :: n) = n :: env.home fs.cwd := norm_workdir (hplain n hn)
  rw [Vacant, hnorm] at hV
  rw [hG.cwd, hnorm]
  by_cases hthere₀ : fs.node (n :: env.home fs.cwd) = none
  · -- the directory is new
    have hlook := (hG.look (n :: env.home fs.cwd)).resolve_left fun e =>
      hthere (FS.look_eq_none.1 (e.trans (FS.look_eq_none.2 hthere₀)))
    obtain ⟨-, -, v, hv⟩ := hlook
    refine ⟨⟨?_, ?_⟩, fun id ext hext => ?_⟩
    · rw [hG.cwd, hnorm]
      exact hG.resolve hres
    · rw [hG.cwd, hnorm]
      exact FS.writable_eq_look hv
    · rw [hG.inside, FS.look_eq_none]
      by_contra hne
      exact node_of_isDir (FS.isDir_of_child hne) hthere₀
  · exact ⟨hG.open (hV hthere₀).1, fun id ext hext => hG.inside.trans ((hV hthere₀).2 id ext hext)⟩

end Construct

/-! ## Restarts -/

section Restarts

variable {env : Env} {cached : CacheId → Bool} {cwd : Loc} {w w' : World} {fs' : FS} {o : Office}

theorem newWorld_holds {fs : FS} {uuids : List Str} {now : Int} {c : CacheId} {key : Str} {v : c.Val} :
    ¬ (newWorld fs uuids now).Holds c key v := by
  rintro ⟨t, ht⟩
  cases c <;> cases ht

/-- What an agent does, and that a new one takes its place between requests, on the same machine. -/
inductive Lasts (env : Env) : Steps World (Option Deed)
  | goes {w w' : World} {d : Deed} : Performs env w d w' → Lasts env w (some d) w'
  | restarts {w : World} {tr : List Ev} {fs' : FS} {now : Int} :
    Run Machine (construct true env) w.fs tr (.ret env) fs' →
    (∀ e ∈ tr, e.choice.err = none) → Lasts env w none (newWorld fs' w.uuids now)

end Restarts

namespace Sample

open OortAgent.Sample

/-- The constructor goes through on the same machine. -/
def start? (env : Env) (chs : List Choice) (now : Int) (w : World) : Option World :=
  (exec? Machine (construct true env) chs w.fs).bind fun (tr, o, fs') => match o with
    | .ret env' => if (tr.all fun e => decide (e.choice.err = none)) && decide
      (env'.nodename = env.nodename ∧ env'.machine = env.machine)
      then some (newWorld fs' w.uuids now) else none
    | _ => none

theorem start?_sound {env : Env} {chs : List Choice} {now : Int} {w w' : World} (h : start? env chs now w = some w') :
    Lasts env w none w' := by
  obtain ⟨⟨tr, o, fs'⟩, hx, hr⟩ := Option.bind_eq_some_iff.1 h
  dsimp only at hr
  split at hr
  · split at hr
    · rename_i env' htest
      cases hr
      obtain ⟨hall, hsame⟩ := Bool.and_eq_true_iff.1 htest
      have hrun := exec?_sound hx
      have hch : ∀ e ∈ tr, e.choice.err = none := fun e he => of_decide_eq_true (List.all_eq_true.1 hall e he)
      obtain ⟨-, ⟨⟨names, ho⟩, -⟩ | ⟨⟨e, ho⟩, -⟩⟩ := calm_construct hrun hch
      · cases ho
        obtain ⟨hnode, hmachine⟩ := of_decide_eq_true hsame
        rw [onMachine_eq (Prod.ext hnode hmachine)] at hrun
        exact .restarts hrun hch
      · cases ho
    · cases hr
  · cases hr

/-- A new agent on a disk with an empty working directory. -/
def bare : World := newWorld ((FS.base 1).putDir ['w'] [] 1 true) [] 0

/-- A new agent where the directories are. -/
def fresh : World := newWorld OortAgent.Sample.fs [] 0

end Sample

section Main

open OortAgent.Sample

variable {env : Env} {fs fs' : FS} {tr : List Ev}

/-- **When an agent starts.** When no call is made to fail, the constructor returns if the working directory is
there and has the directories of the agent, or can be changed; otherwise it throws. Nothing that was there changes.
Where `transfers` and `uploads` are not there before, or have no pairs, a new agent finds nothing to do. -/
theorem agent_starts_iff {o : Outcome Exn Env} (h : Run Machine (construct true env) fs tr o fs')
    (hch : ∀ e ∈ tr, e.choice.err = none) :
    ((∃ names, o = .ret (onMachine env names)) ↔ Ready env fs) ∧ ((∃ e, o = .throw e) ↔ ¬ Ready env fs) ∧
    (∀ l, fs.node l ≠ none → fs'.look l = fs.look l) ∧
    (∀ env', o = .ret env' → Vacant fs env.transferDir → Vacant fs env.uploadDir → ∀ uuids now,
      Idle env' (newWorld fs' uuids now)) := by
  obtain ⟨hG, ⟨⟨names, rfl⟩, hR, hthere⟩ | ⟨⟨e, rfl⟩, hR⟩⟩ := calm_construct h hch
  swap
  · exact ⟨iff_of_false (by simp) hR, iff_of_true ⟨e, rfl⟩ hR, fun l => hG.look_of_node, fun _ hret => by cases hret⟩
  refine ⟨iff_of_true ⟨names, rfl⟩ hR, iff_of_false (by simp) (not_not.2 hR), fun l => hG.look_of_node,
    fun _ he hT hU uuids now => ?_⟩
  cases he
  obtain ⟨hOT, hnoT⟩ := hG.vacant (n := "transfers".toList) (by decide) (resolve_box hR.1 (by decide)) hT
    (hthere _ (by decide))
  obtain ⟨hOU, hnoU⟩ := hG.vacant (n := "uploads".toList) (by decide) (resolve_box hR.1 (by decide)) hU
    (hthere _ (by decide))
  exact ⟨fun _ _ _ => newWorld_holds, hOT, hOU, fun id => ⟨hnoT id, hnoU id⟩⟩

/-- An agent that starts in an empty directory. -/
theorem agent_starts_iff_sample : ∃ tr fs', Run Machine (construct true postEnv) Sample.bare.fs tr
    (.ret postEnv) fs' ∧ Ready postEnv Sample.bare.fs ∧
    Idle postEnv (newWorld fs' [] 0) := by
  have h : (Sample.start? postEnv (List.replicate 5 {}) 0 Sample.bare).isSome = true := by decide +kernel
  obtain ⟨w, hw⟩ := Option.isSome_iff_exists.1 h
  cases Sample.start?_sound hw with
  | @restarts _ tr fs' _ hrun hch =>
    obtain ⟨hstarts, -, -, hidle⟩ := agent_starts_iff hrun hch
    have hno : ∀ n ∈ boxNames, Sample.bare.fs.node (norm Sample.bare.fs.cwd (postEnv.workdir ++ '/' :: n)) = none := by
      decide +kernel
    exact ⟨tr, fs', hrun, hstarts.1 ⟨([], []), rfl⟩,
      hidle _ rfl (absurd (hno _ (by decide))) (absurd (hno _ (by decide))) [] 0⟩

end Main

end OortAgent.Startup
