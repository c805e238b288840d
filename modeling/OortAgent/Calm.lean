import OortAgent.CopyRefines
import OortAgent.Lib.Look
import OortAgent.Query

/-!
# A move that nothing disturbs

In a clean run, `moveFile` of a readable file with the checksum that it is said to have does one of two things:
everything looks as after a rename, or it throws a system error and everything looks as before. There are no other
traces, on whichever device the destination is.

* `calm_fileInfo`: a file is described as it is.
* `park_goes`, `undo_goes`, `publish_goes`: the renames of a copy succeed.
* `look_copied`: what is seen after a copy.
* `run_moveFile_calm`: the two ways in which a move ends.
-/

namespace OortAgent

open Lib

/-! ## Looking at a file -/

section Look

variable {env : Env} {s : Site} {w w' : World} {tr : List Ev} {k : Ino}

/-- Reads of an open file do not fail. -/
theorem calm_fills {α : Type} {p : Prog α} {o : Outcome Exn α} (h : Run Machine p w tr o w')
    (hp : p.Calls fun c : Call => ∃ off n, c.op = .fill (.file k) off n) (ha : Along Machine Clean w tr) :
    Served tr := by
  induction h with
  | ret a w => simp [Served]
  | throw e w => simp [Served]
  | stop x w => simp [Served]
  | @sys c q w w₁ w' tr o ch r he _ ih =>
    obtain ⟨⟨herr, -⟩, ha'⟩ := (along_cons he).1 ha
    refine served_cons.2 ⟨?_, ih (hp.2 r) ha'⟩
    obtain ⟨site, op⟩ := c
    obtain ⟨off, n, hop⟩ := hp.1
    obtain rfl : op = .fill (.file k) off n := hop
    dsimp only at herr
    have hr : r.2 = false := by
      simp only [Op.exec, herr] at he
      rw [← (Prod.mk.inj (Option.some.inj he)).1]
    simpa [Op.refused] using hr

theorem crcLoop_fills {n : Nat} {x : Nat × Nat} :
    (Proc.loop n (crcRound s (.file k)) x).Calls fun c : Call => ∃ off n, c.op = .fill (.file k) off n := by
  refine Proc.Calls.loop (fun y => ?_) _ _
  refine calls_call.2 ⟨⟨_, _, rfl⟩, fun r => ?_⟩
  dsimp only
  split <;> trivial

/-- A file that can be read is opened. -/
theorem pathOpen_readable {fs : FS} {p : Str} {l : Loc} (hl : fs.resolve p = .ok l) (hk : fs.node l = some (.file k))
    (hr : (fs.inode k).readable = true) : fs.pathOpen p = .ok (.file k) := by
  rw [FS.pathOpen, hl]
  simp [hk, hr]

theorem inject_calm {α : Type} {ch : Choice} (h : ch.err = none) (x : Except Errno α) : ch.inject x = x := by
  rw [Choice.inject, h]

/-- What `fileInfo` says of a file that can be read. -/
theorem calm_fileInfo {file : Str} {o : Outcome Exn FileInfo} {l : Loc}
    (h : Run Machine (fileInfo env s file) w tr o w')
    (ha : Along Machine Clean w tr) (hl : w.fs.resolve file = .ok l) (hk : w.fs.node l = some (.file k))
    (hr : (w.fs.inode k).readable = true) (hf : (w.fs.inode k).data.length < env.fuel) :
    o = .ret (infoOf file (w.fs.inode k)) ∧ w' = w := by
  have hn := FS.resolve_norm hl
  subst hn
  refine ⟨fileInfo_served h ?_ hk hf, (Run.looks h (fileInfo_calls file)).1⟩
  have hstat : ∀ {tr₁ : List Ev} {o₁ : Outcome Exn Stat} {w₁ : World}, Run Machine (fileStat env s file) w tr₁ o₁ w₁ →
      Along Machine Clean w tr₁ → Served tr₁ := by
    intro tr₁ o₁ w₁ h₁ ha₁
    obtain ⟨ch, r, w₂, tr₂, he, hk₂, rfl⟩ := run_call.1 h₁
    obtain ⟨⟨herr, -⟩, -⟩ := (along_cons he).1 ha₁
    have hans : r = w.fs.pathStat file (ch.ticks 0) := by
      rw [← inject_calm herr (w.fs.pathStat file (ch.ticks 0))]
      exact (Prod.mk.inj (Option.some.inj he)).1.symm
    rw [FS.pathStat, hl] at hans
    simp only [hk] at hans
    subst hans
    obtain ⟨rfl, -, -⟩ := run_ret.1 hk₂
    exact served_cons.2 ⟨rfl, by simp [Served]⟩
  have hreads : ∀ {tr₁ : List Ev} {o₁ : Outcome Exn Str} {w₁ : World}, Run Machine (getCrc env s file) w tr₁ o₁ w₁ →
      Along Machine Clean w tr₁ → Served tr₁ := by
    intro tr₁ o₁ w₁ h₁ ha₁
    obtain ⟨ch, r, w₂, tr₂, he, hk₂, rfl⟩ := run_call.1 h₁
    obtain ⟨⟨herr, -⟩, ha₂⟩ := (along_cons he).1 ha₁
    have hans : r = .ok (.file k) := by
      rw [← pathOpen_readable hl hk hr, ← inject_calm herr (w.fs.pathOpen file)]
      exact (Prod.mk.inj (Option.some.inj he)).1.symm
    subst hans
    exact served_cons.2 ⟨rfl, calm_fills hk₂ (crcLoop_fills.bind fun _ => trivial) ha₂⟩
  rcases run_bind.1 h with ⟨st, w₁, tr₁, tr₂, h₁, h₂, rfl⟩ | ⟨e, h₁, rfl⟩ | ⟨x, h₁, rfl⟩
  · obtain ⟨ha₁, ha₂⟩ := h₁.along.1 ha
    have hw := (Run.looks h₁ (fileStat_calls file)).1
    subst hw
    refine served_append.2 ⟨hstat h₁ ha₁, ?_⟩
    rcases run_bind.1 h₂ with ⟨crc, w₂, tr₃, tr₄, h₃, h₄, rfl⟩ | ⟨e, h₃, rfl⟩ | ⟨x, h₃, rfl⟩
    · obtain ⟨rfl, -, -⟩ := run_ret.1 h₄
      rw [List.append_nil] at ha₂ ⊢
      exact hreads h₃ ha₂
    · exact hreads h₃ ha₂
    · exact hreads h₃ ha₂
  · exact hstat h₁ ha
  · exact hstat h₁ ha

end Look

/-! ## The renames of a copy -/

/-- A file that was parked in a new directory beside it, where both directories can be changed. -/
structure ParkedBeside (fs fs' : FS) (a t : Loc) (k : Ino) (v : Nat) : Prop extends Parked fs fs' a t k where
  old : fs.node a.tail = some (.dir v true)
  new : fs'.node t = some (.dir v true)
  beside : t.tail = a.tail
  top : t ≠ []

section Renames

variable {fs fs₁ fs₂ fs₃ : FS} {src dest tmpdir dtname pick : Str} {a t l : Loc} {k : Ino} {v : Nat} {x : Inode}

theorem Parked.isDir (h : Parked fs fs₂ a t k) (hl : fs.isDir l = true) : fs₂.isDir l = true := by
  have hne : l ≠ t ∧ l ≠ parkedEntry :: t ∧ l ≠ a := by
    refine ⟨?_, ?_, ?_⟩ <;> rintro rfl
    · simp [FS.isDir, h.free] at hl
    · simp [FS.isDir, node_below_free h.free] at hl
    · simp [FS.isDir, h.file] at hl
  rw [FS.isDir, h.node l hne.1, if_neg hne.2.1, if_neg hne.2.2]
  exact hl

/-- A directory keeps its permission. -/
theorem Parked.writable (h : Parked fs fs₂ a t k) (hl : fs.isDir l = true) : fs₂.writable l = fs.writable l := by
  have hne : l ≠ t ∧ l ≠ parkedEntry :: t ∧ l ≠ a := by
    refine ⟨?_, ?_, ?_⟩ <;> rintro rfl
    · simp [FS.isDir, h.free] at hl
    · simp [FS.isDir, node_below_free h.free] at hl
    · simp [FS.isDir, h.file] at hl
  rw [FS.writable, FS.writable, h.node l hne.1, if_neg hne.2.1, if_neg hne.2.2]

theorem Added.isDir (h : Added fs fs₁ t x) (hl : fs.isDir l = true) : fs₁.isDir l = true := by
  have hne : l ≠ t := by
    rintro rfl
    simp [FS.isDir, h.free] at hl
  rw [FS.isDir, h.node l, if_neg hne]
  exact hl

/-- A file is not in itself, -/
theorem tail_ne_of_file (hk : fs.node a = some (.file k)) : a.tail ≠ a := by
  intro h
  cases a with
  | nil =>
    obtain ⟨v, w, hr⟩ := fs.root
    cases hk.symm.trans hr
  | cons n a => simp at h

/-- The source can be parked. -/
theorem park_goes (hr : fs.resolve src = .ok (norm fs.cwd src)) (hk : fs.node (norm fs.cwd src) = some (.file k))
    (hm : fs.mkdtemp (moveTemplate (dirname src)) pick = some (.ok (tmpdir, fs₁))) :
    ∃ fs₂ v, fs₁.pathRename src (parkedName tmpdir) = .ok fs₂ ∧
      ParkedBeside fs fs₂ (norm fs.cwd src) (norm fs.cwd tmpdir) k v := by
  have hbeside := tail_tmpdir hr hk hm
  obtain ⟨-, htmp, hres, hfree, hd⟩ := FS.mkdtemp_ok hm
  have hne : tmpdir ≠ [] := htmp ▸ fromTemplate_ne_nil
  obtain ⟨n, d, v, hl, hv, -, rfl⟩ := FS.mkdir_ok hd
  have hdir : fs.isDir d = true := FS.isDir_iff.2 ⟨v, true, hv⟩
  have hnode := FS.node_putDir (n := n) (d := d) (v := v) (w := true) hdir (hl ▸ hfree)
  have hd' : d = (norm fs.cwd src).tail := by rw [← hbeside, hl, List.tail_cons]
  have hsrc : norm fs.cwd src ≠ n :: d := by
    intro e
    rw [e, ← hl, hfree] at hk
    cases hk
  have hold : ∀ l, fs.isDir l = true → (fs.putDir n d v true).isDir l = true := by
    intro l h
    by_cases e : l = n :: d
    · rw [FS.isDir, hnode, if_pos e]
    · rw [FS.isDir, hnode, if_neg e]
      exact h
  have hsrcdir : (fs.putDir n d v true).node (norm fs.cwd src).tail = some (.dir v true) := by
    rw [← hd', hnode, if_neg (by simp), hv]
  have hnewdir : (fs.putDir n d v true).node (norm fs.cwd tmpdir) = some (.dir v true) := by rw [hl, hnode, if_pos rfl]
  have hkeep : (fs.putDir n d v true).node (norm fs.cwd src) = some (.file k) := by rw [hnode, if_neg hsrc, hk]
  have hparked : (fs.putDir n d v true).node (parkedEntry :: norm fs.cwd tmpdir) = none := by
    rw [hnode, ← hl, if_neg (by simp), node_below_free hfree]
  obtain ⟨fs₂, hren⟩ := FS.rename_goes (b := parkedEntry :: norm fs.cwd tmpdir) hkeep (by rw [FS.writable, hsrcdir])
    (by rw [List.tail_cons, FS.writable, hnewdir]) (by rw [List.tail_cons, FS.dev, FS.dev, hsrcdir, hnewdir]) (by simp)
    (by rw [FS.isDir, hparked])
  have hpark : (fs.putDir n d v true).pathRename src (parkedName tmpdir) = .ok fs₂ := by
    have h₁ := FS.resolve_mono hold FS.cwd_putDir hr
    have h₂ := FS.resolve_child (FS.resolve_mono hold FS.cwd_putDir hres) (by rw [FS.isDir, hnewdir]) parkedEntry_plain
    rw [FS.pathRename, h₁, show parkedName tmpdir = tmpdir ++ '/' :: parkedEntry from rfl, h₂]
    exact hren
  have hP := parked_of_rename hm hpark hk
  refine ⟨fs₂, v, hpark, hP, by rw [← hd', hv], ?_, hbeside, by rw [hl]; simp⟩
  rw [(FS.rename_file hren hkeep).1, if_neg (by simp), if_neg (by rw [hl]; exact hsrc.symm), hnewdir]

/-- The source can be put back, and then everything looks as before. -/
theorem undo_goes (hne : tmpdir ≠ []) (hr : fs.resolve src = .ok (norm fs.cwd src))
    (ht : fs.resolve tmpdir = .ok (norm fs.cwd tmpdir))
    (h : ParkedBeside fs fs₂ (norm fs.cwd src) (norm fs.cwd tmpdir) k v) :
    ∃ fs₄ fs₅, fs₂.pathRename (parkedName tmpdir) src = .ok fs₄ ∧ fs₄.pathRmdir tmpdir = .ok fs₅ ∧ fs₅.look = fs.look ∧
      fs₅.cwd = fs.cwd := by
  have hP := h.toParked
  have hpk := hP.node_parked
  have hdir : ∀ l, fs.isDir l = true → fs₂.isDir l = true := fun l => hP.isDir
  have hdirT : fs₂.isDir (norm fs.cwd tmpdir) = true := hP.dir
  have htail : (norm fs.cwd src).tail ≠ norm fs.cwd tmpdir := by
    intro e
    have hold := h.old
    rw [e, hP.free] at hold
    cases hold
  have holddir : fs₂.node (norm fs.cwd src).tail = some (.dir v true) := by
    rw [hP.node _ htail, if_neg, if_neg (tail_ne_of_file hP.file), h.old]
    intro e
    have := h.old
    rw [e, node_below_free hP.free] at this
    cases this
  have hgone : fs₂.node (norm fs.cwd src) = none := by
    rw [hP.node _ hP.src_ne.1, if_neg hP.src_ne.2, if_pos rfl]
  have hsrc0 : norm fs.cwd src ≠ [] := by
    intro e
    obtain ⟨v, w, hroot⟩ := fs.root
    have := hP.file
    rw [e] at this
    cases this.symm.trans hroot
  obtain ⟨fs₄, hren⟩ := FS.rename_goes (b := norm fs.cwd src) hpk (by rw [List.tail_cons, FS.writable, h.new])
    (by rw [FS.writable, holddir]) (by rw [List.tail_cons, FS.dev, FS.dev, h.new, holddir]) hsrc0
    (by rw [FS.isDir, hgone])
  obtain ⟨hn₄, hino₄, -, hcwd₄⟩ := FS.rename_file hren hpk
  have hback : fs₂.pathRename (parkedName tmpdir) src = .ok fs₄ := by
    have h₁ := FS.resolve_mono hdir hP.cwd hr
    have h₂ := FS.resolve_child (FS.resolve_mono hdir hP.cwd ht) hdirT parkedEntry_plain
    rw [FS.pathRename, h₁, show parkedName tmpdir = tmpdir ++ '/' :: parkedEntry from rfl, h₂]
    exact hren
  -- nothing is left in the directory
  have hnew₄ : fs₄.node (norm fs.cwd tmpdir) = some (.dir v true) := by
    rw [hn₄, if_neg (Ne.symm hP.src_ne.1), if_neg (by simp), h.new]
  have hempty : ∀ n, fs₄.node (n :: norm fs.cwd tmpdir) = none := by
    intro n
    have hne' : n :: norm fs.cwd tmpdir ≠ norm fs.cwd src := by
      intro e
      have := hP.file
      rw [← e, node_below_free hP.free] at this
      cases this
    rw [hn₄, if_neg hne']
    split
    · rfl
    · rename_i hn
      rw [hP.node _ (by simp), if_neg hn, if_neg hne', node_below_free hP.free]
  have holddir₄ : fs₄.writable (norm fs.cwd tmpdir).tail = true := by
    rw [h.beside, FS.writable, hn₄, if_neg (tail_ne_of_file hP.file), if_neg, holddir]
    intro e
    rw [e, hpk] at holddir
    cases holddir
  obtain ⟨fs₅, hrm⟩ := FS.rmdir_goes (by rw [FS.isDir, hnew₄]) h.top hempty holddir₄
  have hrmdir : fs₄.pathRmdir tmpdir = .ok fs₅ := by
    have hdir₄ : ∀ l, fs.isDir l = true → fs₄.isDir l = true := by
      intro l hl
      have hla : l ≠ norm fs.cwd src := by
        rintro rfl
        simp [FS.isDir, hP.file] at hl
      have hlp : l ≠ parkedEntry :: norm fs.cwd tmpdir := by
        rintro rfl
        simp [FS.isDir, node_below_free hP.free] at hl
      rw [FS.isDir, hn₄, if_neg hla, if_neg hlp]
      exact hP.isDir hl
    rw [FS.pathRmdir, FS.resolve_mono hdir₄ (hcwd₄.trans hP.cwd) ht]
    exact hrm
  have hnode := node_undo hne (by rw [norm_parkedName hne, hP.cwd]; exact hpk) hback hrmdir
  refine ⟨fs₄, fs₅, hback, hrmdir, ?_, (FS.rmdir_frame hrm).2.2.trans (hcwd₄.trans hP.cwd)⟩
  funext l
  refine FS.look_of_node ?_ fun j _ => by rw [hnode.2, hP.inode]
  rw [hnode.1, hP.cwd]
  split
  · rename_i e
    rw [e, hP.free]
  rename_i hlt
  split
  · rename_i e
    rw [e, hP.file]
  rename_i hla
  split
  · rename_i e
    rw [e, node_below_free hP.free]
  rename_i hlp
  rw [hP.node l hlt, if_neg hlp, if_neg hla]

/-- An entry beside a path that leads to no directory. -/
theorem norm_beside_free {m : Name} (hr : fs.resolve dest = .ok (norm fs.cwd dest))
    (hd : fs.isDir (norm fs.cwd dest) = false)
    (hs : '/' ∈ dest) (hm : Plain m) : norm fs.cwd (dirname dest ++ '/' :: m) = m :: (norm fs.cwd dest).tail := by
  have hdest := dirname_tailname hs
  have ht : Plain (tailname dest) := FS.plain_of_resolve (slash_notMem_tailname dest) (by rw [← hdest]; exact hr) hd
  by_cases h : dirname dest = []
  · rw [h, List.nil_append] at hdest
    rw [h, List.nil_append, norm_root_child hm, hdest, norm_root_child ht, List.tail_cons]
  · rw [norm_child h hm]
    conv_rhs => rw [hdest, norm_child h ht, List.tail_cons]

/-- The path has a directory part. -/
def Dirs (p : Str) : Prop := '/' ∈ p ∧ dirname p ≠ []

/-- The directory part of a path that leads to no directory is there. -/
theorem dirname_there {fs : FS} {p : Str} (hp : Dirs p) (hr : fs.resolve p = .ok (norm fs.cwd p))
    (hd : fs.isDir (norm fs.cwd p) = false) :
    fs.resolve (dirname p) = .ok (norm fs.cwd (dirname p)) ∧ fs.isDir (norm fs.cwd (dirname p)) = true := by
  have he := dirname_tailname hp.1
  have ht : Plain (tailname p) := FS.plain_of_resolve (slash_notMem_tailname p) (by rw [← he]; exact hr) hd
  exact FS.isDir_of_resolve_child hp.2 ht (by rw [← he]; exact hr)

/-- The directory part of a path that leads to no directory leads to the directory that it is in. -/
theorem norm_dirname {p : Str} (hp : Dirs p) (hr : fs.resolve p = .ok (norm fs.cwd p))
    (hd : fs.isDir (norm fs.cwd p) = false) :
    norm fs.cwd (dirname p) = (norm fs.cwd p).tail := by
  have he := dirname_tailname hp.1
  have ht : Plain (tailname p) := FS.plain_of_resolve (slash_notMem_tailname p) (by rw [← he]; exact hr) hd
  conv_rhs => rw [he, norm_child hp.2 ht, List.tail_cons]

/-- A name beside a path that leads to no directory. -/
theorem beside_there {p : Str} {m : Name} (hp : Dirs p) (hr : fs.resolve p = .ok (norm fs.cwd p))
    (hd : fs.isDir (norm fs.cwd p) = false) (hm : Plain m) :
    fs.resolve (dirname p ++ '/' :: m) = .ok (m :: (norm fs.cwd p).tail) ∧ fs.isDir (norm fs.cwd p).tail = true := by
  obtain ⟨hdir, hisdir⟩ := dirname_there hp hr hd
  have h := FS.resolve_child hdir hisdir hm
  rw [norm_dirname hp hr hd] at h hisdir
  exact ⟨h, hisdir⟩

/-- A temporary directory can be made beside a path, or a temporary file, if the directory can be changed, and only
then. -/
theorem mkdtemp_goes_iff {p : Str} {y : Except Errno (Str × FS)} (hp : Dirs p) (hr : fs.resolve p = .ok (norm fs.cwd p))
    (hd : fs.isDir (norm fs.cwd p) = false) (h : fs.mkdtemp (moveTemplate (dirname p)) pick = some y) :
    (∃ z, y = .ok z) ↔ fs.writable (norm fs.cwd p).tail = true := by
  rw [FS.mkdtemp] at h
  split at h
  · rename_i hpick
    obtain ⟨hl, hdir⟩ := beside_there hp hr hd (picked_plain hpick)
    rw [fromTemplate_moveTemplate, hl] at h
    dsimp only at h
    split at h
    · cases h
    · rename_i hfree
      rw [← FS.mkdir_goes_iff hdir (not_not.1 hfree)]
      split at h
      · rename_i e hm
        cases h
        simp only [hm, reduceCtorEq, exists_false]
      · rename_i fs' hm
        cases h
        simp only [hm, Except.ok.injEq, exists_eq']
  · cases h

theorem mkstemp_goes_iff {p : Str} {now : Int} {y : Except Errno ((Str × Ino) × FS)} (hp : Dirs p)
    (hr : fs.resolve p = .ok (norm fs.cwd p)) (hd : fs.isDir (norm fs.cwd p) = false)
    (h : fs.mkstemp (moveTemplate (dirname p)) pick now = some y) : (∃ z, y = .ok z) ↔
      fs.writable (norm fs.cwd p).tail = true := by
  rw [FS.mkstemp] at h
  split at h
  · rename_i hpick
    obtain ⟨hl, hdir⟩ := beside_there hp hr hd (picked_plain hpick)
    rw [fromTemplate_moveTemplate, hl] at h
    dsimp only at h
    split at h
    · cases h
    · rename_i hfree
      rw [← FS.mkfile_goes_iff (x := ⟨[], true, now, now⟩) hdir (not_not.1 hfree)]
      split at h
      · rename_i e hm
        cases h
        simp only [hm, reduceCtorEq, exists_false]
      · rename_i fs' hm
        cases h
        simp only [hm, Except.ok.injEq, exists_eq']
  · cases h

/-- The temporary copy is made beside the destination. -/
theorem copy_beside {now : Int} {j : Ino} (hr : fs.resolve dest = .ok (norm fs.cwd dest))
    (hd : fs.node (norm fs.cwd dest) = none)
    (hm : fs.mkstemp (moveTemplate (dirname dest)) pick now = some (.ok ((dtname, j), fs₁))) :
    fs.resolve dtname = .ok (norm fs.cwd dtname) ∧ (norm fs.cwd dtname).tail = (norm fs.cwd dest).tail := by
  obtain ⟨hp, rfl, -, hres, -, -⟩ := FS.mkstemp_ok hm
  refine ⟨hres, ?_⟩
  have hdir : fs.isDir (norm fs.cwd dest) = false := by rw [FS.isDir, hd]
  by_cases hs : '/' ∈ dest
  · rw [fromTemplate_moveTemplate, norm_beside_free hr hdir hs (picked_plain hp), List.tail_cons]
  · -- without a slash the copy would be made inside the destination
    exfalso
    have hne : dest ≠ [] := by
      rintro rfl
      simp [FS.resolve] at hr
    rw [fromTemplate_moveTemplate, dirname, if_neg hs] at hres
    rw [(FS.isDir_of_resolve_child hne (picked_plain hp) hres).2] at hdir
    cases hdir

/-- The copy can be renamed and the parked source removed, and then everything looks as after a rename. -/
theorem publish_goes (hx : fs.pathRename src dest = .error .EXDEV)
    (hd : norm fs.cwd dest ≠ norm fs.cwd src ∧ norm fs.cwd dest ≠ norm fs.cwd tmpdir ∧
      norm fs.cwd dest ≠ parkedEntry :: norm fs.cwd tmpdir)
    (hfree : fs.node (norm fs.cwd dest) = none) (ht : fs.resolve tmpdir = .ok (norm fs.cwd tmpdir))
    (h : ParkedBeside fs fs₂ (norm fs.cwd src) (norm fs.cwd tmpdir) k v)
    (hc : fs₂.resolve dtname = .ok (norm fs.cwd dtname)) (hct : (norm fs.cwd dtname).tail = (norm fs.cwd dest).tail)
    (hw : fs₂.writable (norm fs.cwd dest).tail = true) (hA : Added fs₂ fs₃ (norm fs.cwd dtname) x) :
    ∃ fs₄ fs₅ fs₆, fs₃.pathRename dtname dest = .ok fs₄ ∧ fs₄.pathUnlink (parkedName tmpdir) = .ok fs₅ ∧
      fs₅.pathRmdir tmpdir = .ok fs₆ ∧ fs₆.cwd = fs.cwd ∧ ∀ l, fs₆.look l = if l = norm fs.cwd dest then
        some (.file x.data x.readable) else if l = norm fs.cwd src then none else fs.look l := by
  obtain ⟨hres, hresd, -, hdest0, u, u', hu, hu', huu⟩ := FS.pathRename_exdev hx
  have hP := h.toParked
  set c := norm fs.cwd dtname
  have hcwd : fs₃.cwd = fs.cwd := hA.cwd.trans hP.cwd
  -- the directory of the destination was there, so it is none of the new names
  have hdd : fs.isDir (norm fs.cwd dest).tail = true := FS.isDir_of_dev hu'
  have hddt : (norm fs.cwd dest).tail ≠ norm fs.cwd tmpdir := by
    intro e
    simp [e, FS.isDir, hP.free] at hdd
  have hcfree : fs₂.node c = none := hA.free
  have hct' : c ≠ norm fs.cwd tmpdir := by
    intro e
    have := h.new
    rw [← e, hcfree] at this
    cases this
  have hcp : c ≠ parkedEntry :: norm fs.cwd tmpdir := by
    intro e
    have := hP.node_parked
    rw [← e, hcfree] at this
    cases this
  have hdest₂ : fs₂.node (norm fs.cwd dest) = none := by
    rw [hP.node _ hd.2.1, if_neg hd.2.2, if_neg hd.1, hfree]
  have hdd₃ : fs₃.writable (norm fs.cwd dest).tail = true := by
    rw [FS.writable, hA.node, if_neg]
    · exact hw
    · intro e
      simp [e, FS.writable, hcfree] at hw
  have hcj : fs₃.node c = some (.file fs₂.next) := by rw [hA.node, if_pos rfl]
  have hdest₃ : fs₃.isDir (norm fs.cwd dest) = false := by
    rw [FS.isDir, hA.node]
    split_ifs
    · rfl
    · rw [hdest₂]
  obtain ⟨fs₄, hren⟩ := FS.rename_goes hcj (by rw [hct]; exact hdd₃) hdd₃ (by rw [hct]) hdest0 hdest₃
  obtain ⟨hn₄, hino₄, -, hcwd₄⟩ := FS.rename_file hren hcj
  have hcwd₄' : fs₄.cwd = fs.cwd := hcwd₄.trans hcwd
  have hdir₃ : ∀ l, fs₂.isDir l = true → fs₃.isDir l = true := fun l => hA.isDir
  have hdir₄ : ∀ l, fs₂.isDir l = true → fs₄.isDir l = true := by
    intro l hl
    have hlc : l ≠ c := by
      rintro rfl
      simp [FS.isDir, hcfree] at hl
    have hld : l ≠ norm fs.cwd dest := by
      rintro rfl
      simp [FS.isDir, hdest₂] at hl
    rw [FS.isDir, hn₄, if_neg hld, if_neg hlc]
    exact hA.isDir hl
  have hpub : fs₃.pathRename dtname dest = .ok fs₄ := by
    rw [FS.pathRename, FS.resolve_mono hdir₃ hA.cwd hc,
      FS.resolve_mono (fun l hl => hA.isDir (hP.isDir hl)) hcwd hresd]
    exact hren
  have hn₄' : ∀ l, l ≠ norm fs.cwd dest → l ≠ c → fs₄.node l = fs₂.node l := by
    intro l h₁ h₂
    rw [hn₄, if_neg h₁, if_neg h₂, hA.node, if_neg h₂]
  have hpk₄ : fs₄.node (parkedEntry :: norm fs.cwd tmpdir) = some (.file k) := by
    rw [hn₄' _ hd.2.2.symm hcp.symm, hP.node_parked]
  have hnew₄ : fs₄.node (norm fs.cwd tmpdir) = some (.dir v true) := by
    rw [hn₄' _ hd.2.1.symm hct'.symm, h.new]
  have ht₄ : fs₄.resolve tmpdir = .ok (norm fs.cwd tmpdir) :=
    FS.resolve_mono (fun l hl => hdir₄ l (hP.isDir hl)) hcwd₄' ht
  obtain ⟨fs₅, hul⟩ := FS.unlink_goes hpk₄ (by rw [List.tail_cons, FS.writable, hnew₄])
  have hn₅ := FS.node_unlink hul
  obtain ⟨hino₅, -, hcwd₅⟩ := FS.unlink_frame hul
  have hunlink : fs₄.pathUnlink (parkedName tmpdir) = .ok fs₅ := by
    have := FS.resolve_child ht₄ (by rw [FS.isDir, hnew₄]) parkedEntry_plain
    rw [FS.pathUnlink, show parkedName tmpdir = tmpdir ++ '/' :: parkedEntry from rfl, this]
    exact hul
  have hnew₅ : fs₅.node (norm fs.cwd tmpdir) = some (.dir v true) := by rw [hn₅, if_neg (by simp), hnew₄]
  have hempty : ∀ n, fs₅.node (n :: norm fs.cwd tmpdir) = none := by
    intro n
    rw [hn₅]
    split_ifs with hp
    · rfl
    have h₁ : n :: norm fs.cwd tmpdir ≠ norm fs.cwd dest := fun e => hddt (by rw [← e, List.tail_cons])
    have h₂ : n :: norm fs.cwd tmpdir ≠ c := fun e => hddt (by rw [← hct, ← e, List.tail_cons])
    rw [hn₄' _ h₁ h₂, hP.node _ (by simp), if_neg hp]
    split_ifs
    · rfl
    · exact node_below_free hP.free n
  have hsd₂ : fs₂.node (norm fs.cwd src).tail = some (.dir v true) := by
    have hold := h.old
    rw [hP.node, if_neg, if_neg (tail_ne_of_file hP.file), hold]
    · intro e
      rw [e, node_below_free hP.free] at hold
      cases hold
    · intro e
      rw [e, hP.free] at hold
      cases hold
  have hsd₅ : fs₅.writable (norm fs.cwd tmpdir).tail = true := by
    rw [h.beside, FS.writable, hn₅, if_neg, hn₄', hsd₂]
    · intro e
      rw [e, hdest₂] at hsd₂
      cases hsd₂
    · intro e
      rw [e, hcfree] at hsd₂
      cases hsd₂
    · intro e
      rw [e, hP.node_parked] at hsd₂
      cases hsd₂
  obtain ⟨fs₆, hrm⟩ := FS.rmdir_goes (by rw [FS.isDir, hnew₅]) h.top hempty hsd₅
  have hn₆ := FS.node_rmdir hrm
  obtain ⟨hino₆, -, hcwd₆⟩ := FS.rmdir_frame hrm
  have hrmdir : fs₅.pathRmdir tmpdir = .ok fs₆ := by
    have hdir₅ : ∀ l, fs₄.isDir l = true → fs₅.isDir l = true := by
      intro l hl
      rw [FS.isDir, hn₅, if_neg]
      · exact hl
      · rintro rfl
        simp [FS.isDir, hpk₄] at hl
    rw [FS.pathRmdir, FS.resolve_mono hdir₅ hcwd₅ ht₄]
    exact hrm
  refine ⟨fs₄, fs₅, fs₆, hpub, hunlink, hrmdir, hcwd₆.trans (hcwd₅.trans hcwd₄'), fun l => ?_⟩
  have hino : fs₆.inode = Function.update fs₂.inode fs₂.next x := by rw [hino₆, hino₅, hino₄, hA.inode]
  by_cases hld : l = norm fs.cwd dest
  · have : fs₆.node l = some (.file fs₂.next) := by
      rw [hn₆, if_neg (hld ▸ hd.2.1), hn₅, if_neg (hld ▸ hd.2.2), hn₄, if_pos hld]
    rw [if_pos hld, FS.look_file this, hino]
    simp
  rw [if_neg hld]
  -- what every other name is bound to
  have hnode : fs₆.node l = if l = norm fs.cwd src then none else fs.node l := by
    rw [hn₆]
    split_ifs with h₁ h₂ h₂
    · rfl
    · rw [h₁, hP.free]
    · rw [hn₅, hn₄, if_neg hld, hA.node, hP.node l h₁]
      split_ifs <;> rfl
    · rw [hn₅, hn₄, if_neg hld, hA.node, hP.node l h₁]
      split_ifs with h₃ h₄
      · rw [h₃, node_below_free hP.free]
      · -- the name of the copy was free
        have := hcfree
        rw [← h₄, hP.node l h₁, if_neg h₃, if_neg h₂] at this
        exact this.symm
      · rfl
  split_ifs with hls
  · exact FS.look_eq_none.2 (by rw [hnode, if_pos hls])
  · rw [if_neg hls] at hnode
    refine FS.look_of_node hnode fun j hj => ?_
    rw [hino, Function.update_of_ne, hP.inode]
    rw [hP.next]
    exact Nat.ne_of_lt (fs.bound _ _ hj)

end Renames

/-! ## The copy -/

section Copy

variable {env : Env} {src dest tmpdir dtname : Str} {fi : FileInfo} {w w' : World} {tr : List Ev} {o : Outcome Exn Unit}

theorem calm_rename {s : Site} {a b : Str} {ch : Choice} {r : Except Errno Unit} {fs : FS}
    (he : (Op.rename a b).exec ch w = some (r, w')) (ha : Clean w ⟨⟨s, .rename a b⟩, ch, r⟩)
    (h : w.fs.pathRename a b = .ok fs) :
    r = .ok () ∧ w' = { w with fs } := by
  simp only [Op.exec] at he
  split at he
  · cases he
  · rw [inject_calm ha.1, h] at he
    cases he
    exact ⟨rfl, rfl⟩

theorem calm_unlink {s : Site} {a : Str} {ch : Choice} {r : Except Errno Unit} {fs : FS}
    (he : (Op.unlink a).exec ch w = some (r, w')) (ha : Clean w ⟨⟨s, .unlink a⟩, ch, r⟩)
    (h : w.fs.pathUnlink a = .ok fs) :
    r = .ok () ∧ w' = { w with fs } := by
  simp only [Op.exec] at he
  rw [inject_calm ha.1, h] at he
  cases he
  exact ⟨rfl, rfl⟩

theorem calm_rmdir {s : Site} {a : Str} {ch : Choice} {r : Except Errno Unit} {fs : FS}
    (he : (Op.rmdir a).exec ch w = some (r, w')) (ha : Clean w ⟨⟨s, .rmdir a⟩, ch, r⟩) (h : w.fs.pathRmdir a = .ok fs) :
    r = .ok () ∧ w' = { w with fs } := by
  simp only [Op.exec] at he
  rw [inject_calm ha.1, h] at he
  cases he
  exact ⟨rfl, rfl⟩

/-- A temporary directory is made beside a path, or its directory cannot be changed. -/
theorem calm_mkdtemp {s : Site} {p : Str} {ch : Choice} {r : Except Errno Str}
    (he : (Op.mkdtemp (moveTemplate (dirname p))).exec ch w = some (r, w'))
    (ha : Clean w ⟨⟨s, .mkdtemp (moveTemplate (dirname p))⟩, ch, r⟩) (hp : Dirs p)
    (hr : w.fs.resolve p = .ok (norm w.fs.cwd p))
    (hd : w.fs.isDir (norm w.fs.cwd p) = false) :
    (∃ tmpdir fs, r = .ok tmpdir ∧ w.fs.mkdtemp (moveTemplate (dirname p)) ch.pick = some (.ok (tmpdir, fs)) ∧
      w' = { w with fs } ∧ w.fs.writable (norm w.fs.cwd p).tail = true) ∨
    ∃ e, r = .error e ∧ w' = w ∧ w.fs.writable (norm w.fs.cwd p).tail = false := by
  have herr : ch.err = none := ha.1
  simp only [Op.exec, herr] at he
  obtain ⟨y, hy, he⟩ := Option.map_eq_some_iff.1 he
  have hiff := mkdtemp_goes_iff hp hr hd hy
  cases y with
  | ok z =>
    cases he
    exact .inl ⟨z.1, z.2, rfl, hy, rfl, hiff.1 ⟨z, rfl⟩⟩
  | error e =>
    cases he
    refine .inr ⟨e, rfl, rfl, ?_⟩
    rw [← Bool.not_eq_true, ← hiff]
    rintro ⟨z, hz⟩
    cases hz

theorem calm_mkstemp {s : Site} {p : Str} {ch : Choice} {r : Except Errno (Str × Ino)}
    (he : (Op.mkstemp (moveTemplate (dirname p))).exec ch w = some (r, w'))
    (ha : Clean w ⟨⟨s, .mkstemp (moveTemplate (dirname p))⟩, ch, r⟩) (hp : Dirs p)
    (hr : w.fs.resolve p = .ok (norm w.fs.cwd p))
    (hd : w.fs.isDir (norm w.fs.cwd p) = false) :
    (∃ dtname j fs, r = .ok (dtname, j) ∧
      w.fs.mkstemp (moveTemplate (dirname p)) ch.pick (ch.ticks 0) = some (.ok ((dtname, j), fs)) ∧ w' = { w with fs } ∧
      w.fs.writable (norm w.fs.cwd p).tail = true) ∨
    ∃ e, r = .error e ∧ w' = w ∧ w.fs.writable (norm w.fs.cwd p).tail = false := by
  have herr : ch.err = none := ha.1
  simp only [Op.exec, herr] at he
  obtain ⟨y, hy, he⟩ := Option.map_eq_some_iff.1 he
  have hiff := mkstemp_goes_iff hp hr hd hy
  cases y with
  | ok z =>
    cases he
    exact .inl ⟨z.1.1, z.1.2, z.2, rfl, hy, rfl, hiff.1 ⟨z, rfl⟩⟩
  | error e =>
    cases he
    refine .inr ⟨e, rfl, rfl, ?_⟩
    rw [← Bool.not_eq_true, ← hiff]
    rintro ⟨z, hz⟩
    cases hz

/-- A write moves all its bytes. -/
theorem calm_write {s : Site} {j : Ino} {b : Bytes} {ch : Choice} {r : Except Errno Nat}
    (he : (Op.write j b).exec ch w = some (r, w')) (ha : Clean w ⟨⟨s, .write j b⟩, ch, r⟩) :
    r = .ok b.length ∧ w' = { w with fs := w.fs.append j b (ch.ticks 0) } := by
  have hlen : b.length ≤ ch.len := ha.2
  obtain ⟨n, rfl, rfl, -, -, rfl⟩ | ⟨e, -, -, herr⟩ := exec_write he
  · rw [Nat.min_eq_left hlen, List.take_length]
    exact ⟨rfl, rfl⟩
  · have : ch.err = none := ha.1
    rw [this] at herr
    cases herr

/-- The copy loop copies everything, and the copy can still be read. -/
theorem calm_copyLoop {j k : Ino} {blk : Nat} (hkj : k ≠ j) (hblk : 0 < blk) : ∀ {n off : Nat} {w : World}
    {tr : List Ev},
    Run Machine (Proc.loop n (copyRound (.file k) j blk) off) w tr o w' → Along Machine Clean w tr →
    (w.fs.inode k).data.length - off < n → o = .ret () ∧ ∃ x, w' = { w with fs := w.fs.setInode j x } ∧
      x.data = (w.fs.inode j).data ++ (w.fs.inode k).data.drop off ∧ x.readable = (w.fs.inode j).readable
  | 0, _, _, _, _, _, hn => absurd hn (Nat.not_lt_zero _)
  | n + 1, off, w, tr, h, ha, hn => by
    obtain ⟨ch, r, w₁, tr', he, hk, rfl⟩ := run_call.1 h
    obtain ⟨⟨herr, -⟩, ha'⟩ := (along_cons he).1 ha
    have hw := exec_looks he rfl
    subst hw
    rcases exec_read he with ⟨b, rfl, hpre, hend⟩ | ⟨e, rfl, herr'⟩
    swap
    · cases herr.symm.trans herr'
    cases b with
    | nil =>
      obtain ⟨-, rfl, rfl⟩ := run_ret.1 hk
      refine ⟨rfl, w'.fs.inode j, by simp [FS.setInode], ?_, rfl⟩
      rw [hend rfl (Nat.ne_of_gt hblk), List.append_nil]
    | cons b bs =>
      obtain ⟨ch', r', w₂, tr'', he', hk', rfl⟩ := run_call.1 hk
      obtain ⟨hclean, ha''⟩ := (along_cons he').1 ha'
      obtain ⟨rfl, rfl⟩ := calm_write he' hclean
      have hlen : (b :: bs).length ≤ (w₁.fs.inode k).data.length - off := by
        have := hpre.length_le
        rwa [List.length_drop] at this
      have hlen' : 0 < (b :: bs).length := by simp
      -- the source is another file than the copy
      have hsrc : ((w₁.fs.append j (b :: bs) (ch'.ticks 0)).inode k) = w₁.fs.inode k := by
        rw [FS.append, FS.inode_setInode, Function.update_of_ne hkj]
      obtain ⟨ho, x, rfl, hx, hr⟩ := calm_copyLoop hkj hblk hk' ha'' (by dsimp only; rw [hsrc]; omega)
      dsimp only at hx hr ⊢
      rw [hsrc] at hx
      refine ⟨ho, x, by simp [FS.append, FS.setInode], ?_, ?_⟩
      · obtain ⟨rest, hrest⟩ := hpre
        rw [hx, ← List.drop_drop, ← hrest, List.drop_left]
        simp [FS.append]
      · rw [hr]
        simp [FS.append]

/-- From the opening of the parked source on: the copy has what the source has, is found good, and is renamed. -/
theorem calm_copyInto {blksize : Int} {j k : Ino} {l : Loc}
    (h : Run Machine (copyInto env tmpdir dest fi blksize dtname j) w tr o w') (ha : Along Machine Clean w tr)
    (hpos : 0 < blksize)
    (hl : w.fs.resolve (parkedName tmpdir) = .ok l) (hk : w.fs.node l = some (.file k))
    (hr : (w.fs.inode k).readable = true) (hd : w.fs.resolve dtname = .ok (norm w.fs.cwd dtname))
    (hc : w.fs.node (norm w.fs.cwd dtname) = some (.file j)) (hj : (w.fs.inode j).data = [])
    (hrj : (w.fs.inode j).readable = true)
    (hkj : k ≠ j) (hcrc : fi.crc32 = crcText (w.fs.inode k).data) (hfuel : (w.fs.inode k).data.length < env.fuel) :
    ∃ x tr₁, x.data = (w.fs.inode k).data ∧ x.readable = true ∧
      Run Machine (publishCopy tmpdir dest dtname) { w with fs := w.fs.setInode j x } tr₁ o w' ∧
      Along Machine Clean { w with fs := w.fs.setInode j x } tr₁ := by
  obtain ⟨ch, r, w₁, tr', he, hk', rfl⟩ := run_call.1 h
  obtain ⟨⟨herr, -⟩, ha'⟩ := (along_cons he).1 ha
  have hans : r = .ok (.file k) := by
    rw [← pathOpen_readable hl hk hr, ← inject_calm herr (w.fs.pathOpen (parkedName tmpdir))]
    exact (Prod.mk.inj (Option.some.inj he)).1.symm
  subst hans
  have hw := exec_looks he rfl
  subst hw
  dsimp only at hk'
  rw [if_neg (by omega)] at hk'
  have hloop : ∀ {tr₁ : List Ev} {o₁ : Outcome Exn Unit} {w₂ : World},
      Run Machine (copyBlocks env (.file k) j blksize.toNat) w₁ tr₁ o₁ w₂ → Along Machine Clean w₁ tr₁ →
      o₁ = .ret () ∧ ∃ x, w₂ = { w₁ with fs := w₁.fs.setInode j x } ∧ x.data = (w₁.fs.inode k).data ∧
      x.readable = true := by
    intro tr₁ o₁ w₂ h₁ ha₁
    obtain ⟨ho, x, hw, hx, hrx⟩ := calm_copyLoop hkj (by omega) h₁ ha₁ (by omega)
    exact ⟨ho, x, hw, by simpa [hj] using hx, hrx.trans hrj⟩
  obtain ⟨_, w₂, tr₁, tr₂, h₁, ha₁, h₂, ha₂, rfl⟩ := hk'.bind_along ha' fun h ha => ⟨_, (hloop h ha).1⟩
  obtain ⟨-, x, rfl, hx, hrx⟩ := hloop h₁ ha₁
  obtain ⟨ch₁, r₁, w₃, tr₃, e₁, k₁, rfl⟩ := run_call.1 h₂
  obtain ⟨ch₂, r₂, w₄, tr₄, e₂, k₂, rfl⟩ := run_call.1 k₁
  obtain ⟨ch₃, r₃, w₅, tr₅, e₃, k₃, rfl⟩ := run_call.1 k₂
  have ha₅ := ((along_cons e₃).1 ((along_cons e₂).1 ((along_cons e₁).1 ha₂).2).2).2
  have hx₁ := exec_looks e₁ rfl
  have hx₂ := exec_looks e₂ rfl
  have hx₃ := exec_looks e₃ rfl
  subst hx₁ hx₂ hx₃
  have hverify : ∀ {tr₆ : List Ev} {o₆ : Outcome Exn FileInfo} {w₆ : World},
      Run Machine (fileInfo env .verify dtname) { w₁ with fs := w₁.fs.setInode j x } tr₆ o₆ w₆ →
      Along Machine Clean { w₁ with fs := w₁.fs.setInode j x } tr₆ →
      o₆ = .ret (infoOf dtname x) ∧ w₆ = { w₁ with fs := w₁.fs.setInode j x } := by
    intro tr₆ o₆ w₆ h₆ ha₆
    have hsame : ∀ l, w₁.fs.isDir l = true → (w₁.fs.setInode j x).isDir l = true := fun _ hl => hl
    have hd' : (w₁.fs.setInode j x).resolve dtname = .ok (norm w₁.fs.cwd dtname) := FS.resolve_mono hsame rfl hd
    have := calm_fileInfo h₆ ha₆ hd' hc (by simpa using hrx) (by simpa [hx] using hfuel)
    simpa using this
  obtain ⟨d, w₆, tr₆, tr₇, h₆, ha₆, h₇, ha₇, rfl⟩ := k₃.bind_along ha₅ fun h ha => ⟨_, (hverify h ha).1⟩
  obtain ⟨hd, rfl⟩ := hverify h₆ ha₆
  cases hd
  rw [if_neg (by simp [infoOf, hx, hcrc])] at h₇
  exact ⟨x, tr₇, hx, hrx, h₇, ha₇⟩

/-- Nothing but the filesystem has changed, and not its working directory. -/
def OnlyFiles (w w' : World) : Prop := w' = { w with fs := w'.fs } ∧ w'.fs.cwd = w.fs.cwd

/-- The branch from the parking on, where the temporary copy may be refused. -/
theorem run_parkAndCopy_calm {blksize : Int} {k : Ino} {pick : Str} {fs₁ : FS}
    (h : Run Machine (parkAndCopy env src dest fi blksize tmpdir) { w with fs := fs₁ } tr o w')
    (ha : Along Machine Clean { w with fs := fs₁ } tr) (hpos : 0 < blksize)
    (hx : w.fs.pathRename src dest = .error .EXDEV)
    (hk : w.fs.node (norm w.fs.cwd src) = some (.file k)) (hr : (w.fs.inode k).readable = true)
    (hfree : w.fs.node (norm w.fs.cwd dest) = none)
    (hm : w.fs.mkdtemp (moveTemplate (dirname src)) pick = some (.ok (tmpdir, fs₁)))
    (hcrc : fi.crc32 = crcText (w.fs.inode k).data) (hfuel : (w.fs.inode k).data.length < env.fuel) (hdd : Dirs dest) :
    OnlyFiles w w' ∧
    ((o = .ret () ∧ w.fs.writable (norm w.fs.cwd dest).tail = true ∧
        w'.fs.look = w.fs.renamedLook (norm w.fs.cwd src) (norm w.fs.cwd dest)) ∨
      ((∃ e, o = .throw e ∧ e.isSystem = true) ∧ w.fs.writable (norm w.fs.cwd dest).tail = false ∧
        w'.fs.look = w.fs.look)) := by
  have hres := (FS.pathRename_exdev hx).1
  have hne : tmpdir ≠ [] := (FS.mkdtemp_ok hm).2.1 ▸ fromTemplate_ne_nil
  have ht := (FS.mkdtemp_ok hm).2.2.1
  obtain ⟨fs₂, v, hpark, hP⟩ := park_goes hres hk hm
  obtain ⟨ch₁, r₁, w₁, tr₁, e₁, k₁, rfl⟩ := run_call.1 h
  obtain ⟨hc₁, ha₁⟩ := (along_cons e₁).1 ha
  obtain ⟨rfl, rfl⟩ := calm_rename e₁ hc₁ hpark
  dsimp only at k₁
  have hcopy : ∀ {tr₂ : List Ev} {o₂ : Outcome Exn Unit} {w₂ : World},
      Run Machine (copyParked env tmpdir dest fi blksize) { w with fs := fs₂ } tr₂ o₂ w₂ →
      Along Machine Clean { w with fs := fs₂ } tr₂ →
      ((∃ e, o₂ = .throw e ∧ e.isSystem = true) ∧ w.fs.writable (norm w.fs.cwd dest).tail = false ∧
        w₂ = { w with fs := fs₂ }) ∨
      (o₂ = .ret () ∧ w.fs.writable (norm w.fs.cwd dest).tail = true ∧ OnlyFiles w w₂ ∧
        w₂.fs.look = w.fs.renamedLook (norm w.fs.cwd src) (norm w.fs.cwd dest)) := by
    intro tr₂ o₂ w₂ h₂ ha₂
    obtain ⟨ch₃, r₃, w₃, tr₃, e₃, k₃, rfl⟩ := run_call.1 h₂
    obtain ⟨hc₃, ha₃⟩ := (along_cons e₃).1 ha₂
    have hd := dest_ne hx hk hm
    have hdest₂ : fs₂.node (norm fs₂.cwd dest) = none := by
      rw [hP.cwd, hP.node _ hd.2.1, if_neg hd.2.2, if_neg hd.1, hfree]
    have hdir₂ : ∀ l, w.fs.isDir l = true → fs₂.isDir l = true := fun l => hP.toParked.isDir
    have hdest : fs₂.resolve dest = .ok (norm fs₂.cwd dest) := by
      rw [hP.cwd]
      exact FS.resolve_mono hdir₂ hP.cwd (FS.pathRename_exdev hx).2.1
    have hperm : fs₂.writable (norm fs₂.cwd dest).tail = w.fs.writable (norm w.fs.cwd dest).tail := by
      obtain ⟨-, -, -, -, u, v', -, hv', -⟩ := FS.pathRename_exdev hx
      rw [hP.cwd]
      exact hP.toParked.writable (FS.isDir_of_dev hv')
    obtain ⟨dtname, j, fs₃, rfl, hmk, rfl, hcw⟩ | ⟨e, rfl, rfl, hcw⟩ :=
      calm_mkstemp e₃ hc₃ hdd hdest (by rw [FS.isDir, hdest₂])
    swap
    · obtain ⟨rfl, rfl, rfl⟩ := run_throw.1 k₃
      exact .inl ⟨⟨_, rfl, rfl⟩, by rw [← hperm]; exact hcw, rfl⟩
    refine .inr ?_
    obtain ⟨rfl, hA⟩ := added_of_mkstemp hmk
    rw [hP.cwd] at hA
    obtain ⟨hcres, hctail⟩ := copy_beside hdest hdest₂ hmk
    dsimp only at hperm hcw
    rw [hP.cwd] at hcres hctail hcw hperm
    have hkj : k ≠ fs₂.next := by
      rw [hP.next]
      exact Nat.ne_of_lt (w.fs.bound _ _ hk)
    have hinode : fs₃.inode k = w.fs.inode k := by rw [hA.inode, Function.update_of_ne hkj, hP.inode]
    have hpk : fs₃.node (parkedEntry :: norm w.fs.cwd tmpdir) = some (.file k) := by
      rw [hA.node, if_neg, hP.toParked.node_parked]
      intro e
      have := hA.free
      rw [← e, hP.toParked.node_parked] at this
      cases this
    have hcwd₃ : fs₃.cwd = w.fs.cwd := hA.cwd.trans hP.cwd
    have hdir₃ : ∀ l, fs₂.isDir l = true → fs₃.isDir l = true := fun l => hA.isDir
    have hpres : fs₃.resolve (parkedName tmpdir) = .ok (parkedEntry :: norm w.fs.cwd tmpdir) :=
      FS.resolve_child (FS.resolve_mono (fun l hl => hdir₃ l (hdir₂ l hl)) hcwd₃ ht) (hA.isDir hP.dir) parkedEntry_plain
    obtain ⟨x, tr₄, hxd, hxr, hpub, ha₄⟩ :=
      calm_copyInto (j := fs₂.next) k₃ ha₃ hpos hpres hpk (by rw [hinode]; exact hr)
      (by rw [hcwd₃]; exact FS.resolve_mono hdir₃ hA.cwd hcres) (by rw [hcwd₃, hA.node, if_pos rfl])
      (by simp [hA.inode])
      (by simp [hA.inode]) hkj (by rw [hinode]; exact hcrc) (by rw [hinode]; exact hfuel)
    obtain ⟨fs₄, fs₅, fs₆, h₄, h₅, h₆, hcwd₆, hlook⟩ :=
      publish_goes hx hd hfree ht hP hcres hctail hcw (hA.setInode x)
    obtain ⟨rfl, c₁, r₁, w₄, c₂, r₂, w₅, c₃, r₃, p₁, p₂, p₃, rfl⟩ := run_publishCopy hpub
    obtain ⟨hq₁, hb₁⟩ := (along_cons p₁).1 ha₄
    obtain ⟨rfl, rfl⟩ := calm_rename p₁ hq₁ h₄
    obtain ⟨hq₂, hb₂⟩ := (along_cons p₂).1 hb₁
    obtain ⟨rfl, rfl⟩ := calm_unlink p₂ hq₂ h₅
    obtain ⟨hq₃, -⟩ := (along_cons p₃).1 hb₂
    obtain ⟨rfl, rfl⟩ := calm_rmdir p₃ hq₃ h₆
    refine ⟨rfl, hperm ▸ hcw, ⟨rfl, hcwd₆⟩, funext fun l => ?_⟩
    rw [hlook, FS.renamedLook, FS.look_file hk, hxd, hinode, hxr, hr]
  rcases run_handle.1 k₁ with ⟨a, h₂, rfl⟩ | ⟨y, h₂, rfl⟩ | ⟨e, w₂, tr₂, tr₃, h₂, h₃, rfl⟩
  · obtain ⟨⟨e, he, -⟩, -⟩ | ⟨-, hcw, hcwd, hlook⟩ := hcopy h₂ ha₁
    · cases he
    · exact ⟨hcwd, .inl ⟨rfl, hcw, hlook⟩⟩
  · obtain ⟨⟨e, he, -⟩, -⟩ | ⟨he, -⟩ := hcopy h₂ ha₁
    · cases he
    · cases he
  · obtain ⟨ha₂, ha₃⟩ := h₂.along.1 ha₁
    obtain ⟨⟨e', he, hs⟩, hcw, rfl⟩ | ⟨he, -⟩ := hcopy h₂ ha₂
    swap
    · cases he
    cases he
    obtain ⟨fs₄, fs₅, h₄, h₅, hlook, hcwd⟩ := undo_goes hne hres ht hP
    obtain ⟨rfl, c₁, r₁, w₃, c₂, r₂, p₁, p₂, rfl⟩ := run_undoPark h₃
    obtain ⟨hq₁, hb₁⟩ := (along_cons p₁).1 ha₃
    obtain ⟨rfl, rfl⟩ := calm_rename p₁ hq₁ h₄
    obtain ⟨hq₂, -⟩ := (along_cons p₂).1 hb₁
    obtain ⟨rfl, rfl⟩ := calm_rmdir p₂ hq₂ h₅
    exact ⟨⟨rfl, hcwd⟩, .inr ⟨⟨_, rfl, hs⟩, hcw, hlook⟩⟩

theorem free_of_access {fs : FS} {p : Str} {e : Errno} {l : Loc} (h : fs.pathAccess p .F_OK = .error e)
    (hl : fs.resolve p = .ok l) : fs.node l = none := by
  rw [FS.pathAccess, hl] at h
  cases hn : fs.node l with
  | none => rfl
  | some n => cases n <;> simp [hn] at h

/-- The figures of a directory that is there give a block size. -/
theorem calm_blockSize {u v : Vfs} (hu : 0 < u.f_bsize ∧ u.f_bsize < 2147483648)
    (hv : 0 < v.f_bsize ∧ v.f_bsize < 2147483648) :
    0 < blockSize u v := by
  rw [blockSize, wrap32_of_int] <;> omega

/-- `statvfs` of a directory that is there gives the figures of its filesystem. -/
theorem calm_statvfs {s : Site} {p : Str} {l : Loc} {r : Except Errno Unit × Vfs}
    (he : (Op.statvfs p).exec ch w = some (r, w'))
    (hc : Clean w ⟨⟨s, .statvfs p⟩, ch, r⟩) (hr : w.fs.resolve p = .ok l) (hl : w.fs.isDir l = true) :
    w' = w ∧ r.2 = ch.vfs ∧ 0 < r.2.f_bsize ∧ r.2.f_bsize < 2147483648 := by
  obtain ⟨herr, hfigures⟩ := hc
  obtain ⟨v, b, hn⟩ := FS.isDir_iff.1 hl
  obtain ⟨rfl, ⟨rfl, -, -⟩ | ⟨e, -, hx⟩⟩ := exec_statvfs he
  · exact ⟨rfl, rfl, hfigures l hr (by simp [hn])⟩
  · rw [inject_calm herr, FS.pathAccess, hr] at hx
    simp [hn] at hx

/-- The figures of the filesystem of the destination. -/
def DiskShows (vfs : Vfs) (tr : List Ev) : Prop := ∀ e ∈ tr, e.site = .statvfsDest → e.choice.vfs = vfs

theorem DiskShows.left {vfs : Vfs} {tr₁ tr₂ : List Ev} (h : DiskShows vfs (tr₁ ++ tr₂)) : DiskShows vfs tr₁ :=
  fun e he => h e (List.mem_append_left _ he)

theorem DiskShows.right {vfs : Vfs} {tr₁ tr₂ : List Ev} (h : DiskShows vfs (tr₁ ++ tr₂)) : DiskShows vfs tr₂ :=
  fun e he => h e (List.mem_append_right _ he)

theorem DiskShows.tail {vfs : Vfs} {e : Ev} (h : DiskShows vfs (e :: tr)) : DiskShows vfs tr :=
  fun e' he => h e' (List.mem_cons_of_mem _ he)

/-- There is room in directory `b` for a file of `size` bytes of directory `a`, or none is needed. -/
def RoomFor (env : Env) (fs : FS) (vfs : Vfs) (size : Int) (a b : Loc) : Prop :=
  fs.dev a ≠ fs.dev b → checkDiskFree env size vfs = true

/-- A file of `size` bytes can be moved to the path: its name is free, both directories can be changed, and there is
room. -/
structure Movable (env : Env) (fs : FS) (vfs : Vfs) (size : Int) (a : Loc) (dest : Str) : Prop where
  resolve : fs.resolve dest = .ok (norm fs.cwd dest)
  free : fs.node (norm fs.cwd dest) = none
  source : fs.writable a.tail = true
  target : fs.writable (norm fs.cwd dest).tail = true
  room : RoomFor env fs vfs size a.tail (norm fs.cwd dest).tail

/-- A file that can be moved can be renamed, or its destination is on another device. -/
theorem Movable.rename {fs : FS} {vfs : Vfs} {size : Int} {k : Ino} (h : Movable env fs vfs size (norm fs.cwd src) dest)
    (hr : fs.resolve src = .ok (norm fs.cwd src)) (hk : fs.node (norm fs.cwd src) = some (.file k)) :
    (∃ fs', fs.pathRename src dest = .ok fs') ∨ fs.pathRename src dest = .error .EXDEV := by
  have hne : ∀ {l : Loc}, (∀ v b, fs.node l ≠ some (.dir v b)) → l ≠ [] := by
    rintro l hl rfl
    obtain ⟨v, b, hroot⟩ := fs.root
    exact hl v b hroot
  have hb : norm fs.cwd dest ≠ [] := hne (by simp [h.free])
  rw [FS.pathRename, hr, h.resolve]
  by_cases hdev : fs.dev (norm fs.cwd src).tail = fs.dev (norm fs.cwd dest).tail
  · exact .inl (FS.rename_goes hk h.source h.target hdev hb (by rw [FS.isDir, h.free]))
  · obtain ⟨u, c, hu⟩ := FS.isDir_iff.1 (FS.isDir_of_writable h.source)
    obtain ⟨v, d, hv⟩ := FS.isDir_iff.1 (FS.isDir_of_writable h.target)
    have hu' : fs.dev (norm fs.cwd src).tail = some u := by rw [FS.dev, hu]
    have hv' : fs.dev (norm fs.cwd dest).tail = some v := by rw [FS.dev, hv]
    rw [hu', hv', Option.some.injEq] at hdev
    refine .inr ?_
    show fs.rename _ _ = _
    rw [FS.rename, if_neg (not_or.2 ⟨hne (by simp [hk]), hb⟩), hu', hv']
    exact if_pos hdev

/-- **A calm move.** In a clean run, a readable file with the checksum that it is said to have is renamed if it can
be moved, and otherwise the move throws a system error and nothing has changed. It crashes only if the destination
is on another device and the directory of the source cannot be changed. -/
theorem run_moveFile_calm {k : Ino} (h : Run Machine (moveFile env src dest fi) w tr o w')
    (ha : Along Machine Clean w tr)
    (hl : w.fs.resolve src = .ok (norm w.fs.cwd src)) (hk : w.fs.node (norm w.fs.cwd src) = some (.file k))
    (hr : (w.fs.inode k).readable = true) (hcrc : fi.crc32 = crcText (w.fs.inode k).data)
    (hfuel : (w.fs.inode k).data.length < env.fuel) (hs : Dirs src) (hd : Dirs dest) :
    OnlyFiles w w' ∧
    ((o = .ret () ∧ w.fs.node (norm w.fs.cwd dest) = none ∧
        (∀ vfs, DiskShows vfs tr → Movable env w.fs vfs fi.size (norm w.fs.cwd src) dest) ∧
        w'.fs.look = w.fs.renamedLook (norm w.fs.cwd src) (norm w.fs.cwd dest)) ∨
      ((∃ e, o = .throw e ∧ e.isSystem = true) ∧
        (∀ vfs, DiskShows vfs tr → ¬ Movable env w.fs vfs fi.size (norm w.fs.cwd src) dest) ∧ w'.fs.look = w.fs.look) ∨
      (o = .stop .crash ∧ w.fs.writable (norm w.fs.cwd src).tail = false)) := by
  obtain ⟨ch₁, r₁, w₁, tr₁, e₁, k₁, rfl⟩ := run_call.1 h
  obtain ⟨⟨herr₁, -⟩, ha₁⟩ := (along_cons e₁).1 ha
  have hw₁ := exec_looks e₁ rfl
  subst hw₁
  cases r₁ with
  | ok _ =>
    obtain ⟨-, rfl, rfl⟩ := run_throw.1 k₁
    obtain ⟨n, hn⟩ := FS.pathAccess_ok (inject_ok (Prod.mk.inj (Option.some.inj e₁)).1).2
    refine ⟨⟨rfl, rfl⟩, .inr (.inl ⟨⟨_, rfl, rfl⟩, fun vfs _ hM => ?_, rfl⟩)⟩
    rw [hM.free] at hn
    cases hn
  | error e =>
    have hacc : w₁.fs.pathAccess dest .F_OK = .error e := by
      rw [← inject_calm herr₁ (w₁.fs.pathAccess dest .F_OK)]
      exact (Prod.mk.inj (Option.some.inj e₁)).1
    -- the source is what it is said to be
    have hpre : ∀ {tr₂ : List Ev} {o₂ : Outcome Exn FileInfo} {w₂ : World},
        Run Machine (fileInfo env .precheck src) w₁ tr₂ o₂ w₂ → Along Machine Clean w₁ tr₂ →
        o₂ = .ret (infoOf src (w₁.fs.inode k)) ∧ w₂ = w₁ := fun h₂ ha₂ => calm_fileInfo h₂ ha₂ hl hk hr hfuel
    obtain ⟨pre, w₂, tr₂, tr₃, h₂, ha₂, k₂, ha₃, rfl⟩ := k₁.bind_along ha₁ fun h ha => ⟨_, (hpre h ha).1⟩
    obtain ⟨hinfo, rfl⟩ := hpre h₂ ha₂
    cases hinfo
    rw [if_neg (by simp [infoOf, hcrc])] at k₂
    obtain ⟨ch₃, r₃, w₃, tr₄, e₃, k₃, rfl⟩ := run_call.1 k₂
    obtain ⟨⟨herr₃, -⟩, ha₄⟩ := (along_cons e₃).1 ha₃
    obtain ⟨fs, rfl, -, hren, rfl⟩ | ⟨e', rfl, rfl, hren, -⟩ := exec_rename e₃
    · obtain ⟨-, rfl, rfl⟩ := run_ret.1 k₃
      obtain ⟨-, hresd, hren⟩ := FS.pathRename_ok hren
      obtain ⟨hsw, hdw, hdev, -⟩ := FS.rename_cases hren
      have hfree := free_of_access hacc hresd
      exact ⟨⟨rfl, FS.rename_cwd hren⟩,
        .inl ⟨rfl, hfree, fun vfs _ => ⟨hresd, hfree, hsw, hdw, fun hne => absurd hdev hne⟩,
        FS.look_rename hren hk⟩⟩
    · dsimp only at herr₃
      rw [inject_calm herr₃] at hren
      split at k₃
      · contradiction
      · -- another device
        rename_i heq
        cases heq
        obtain ⟨hresd, hfree⟩ : w₃.fs.resolve dest = .ok (norm w₃.fs.cwd dest) ∧
            w₃.fs.node (norm w₃.fs.cwd dest) = none :=
          ⟨(FS.pathRename_exdev hren).2.1, free_of_access hacc (FS.pathRename_exdev hren).2.1⟩
        have hdev : w₃.fs.dev (norm w₃.fs.cwd src).tail ≠ w₃.fs.dev (norm w₃.fs.cwd dest).tail := by
          obtain ⟨-, -, -, -, u, v, hu, hv, huv⟩ := FS.pathRename_exdev hren
          rw [hu, hv]
          simpa using huv
        obtain ⟨hds, hdsdir⟩ := dirname_there hs hl (by rw [FS.isDir, hk])
        obtain ⟨hdd, hdddir⟩ := dirname_there hd hresd (by rw [FS.isDir, hfree])
        obtain ⟨ch₄, srcvfs, w₄, tr₅, e₄, k₄, rfl⟩ := run_call.1 k₃
        obtain ⟨hc₄, ha₅⟩ := (along_cons e₄).1 ha₄
        obtain ⟨rfl, -, hu⟩ := calm_statvfs e₄ hc₄ hds hdsdir
        obtain ⟨ch₅, destvfs, w₅, tr₆, e₅, k₅, rfl⟩ := run_call.1 k₄
        obtain ⟨hc₅, ha₆⟩ := (along_cons e₅).1 ha₅
        obtain ⟨rfl, hdisk, hv⟩ := calm_statvfs e₅ hc₅ hdd hdddir
        have hpos : 0 < blockSize srcvfs.2 destvfs.2 := calm_blockSize hu hv
        have hfigures : ∀ {vfs : Vfs}, DiskShows vfs (⟨⟨.statvfsDest, .statvfs (dirname dest)⟩, ch₅, destvfs⟩ :: tr₆) →
            destvfs.2 = vfs := fun hv => hdisk.trans (hv _ List.mem_cons_self rfl)
        split at k₅
        · rename_i hspace
          obtain ⟨-, rfl, rfl⟩ := run_throw.1 k₅
          refine ⟨⟨rfl, rfl⟩, .inr (.inl ⟨⟨_, rfl, rfl⟩, fun vfs hv hM => hspace ?_, rfl⟩)⟩
          rw [hfigures hv.tail.right.tail.tail]
          exact hM.room hdev
        rename_i hspace
        obtain ⟨ch₆, r₆, w₆, tr₇, e₆, k₆, rfl⟩ := run_call.1 k₅
        obtain ⟨hc₆, ha₇⟩ := (along_cons e₆).1 ha₆
        obtain ⟨tmpdir, fs₁, rfl, hm, rfl, hsw⟩ | ⟨e, rfl, rfl, hsw⟩ := calm_mkdtemp e₆ hc₆ hs hl (by rw [FS.isDir, hk])
        · obtain ⟨hcwd, ⟨ho, hdw, hlook⟩ | ⟨hthrow, hdw, hlook⟩⟩ :=
            run_parkAndCopy_calm k₆ ha₇ hpos hren hk hr hfree hm hcrc hfuel hd
          · refine ⟨hcwd, .inl ⟨ho, hfree, fun vfs hv => ⟨hresd, hfree, hsw, hdw, fun _ => ?_⟩, hlook⟩⟩
            rw [← hfigures hv.tail.right.tail.tail]
            exact not_not.1 hspace
          · refine ⟨hcwd, .inr (.inl ⟨hthrow, fun vfs _ hM => ?_, hlook⟩)⟩
            rw [hM.target] at hdw
            cases hdw
        · obtain ⟨-, rfl, rfl⟩ := run_stop.1 k₆
          exact ⟨⟨rfl, rfl⟩, .inr (.inr ⟨rfl, hsw⟩)⟩
      · obtain ⟨-, rfl, rfl⟩ := run_throw.1 k₃
        rename_i hx heq
        refine ⟨⟨rfl, rfl⟩, .inr (.inl ⟨⟨_, rfl, rfl⟩, fun vfs _ hM => ?_, rfl⟩)⟩
        rcases hM.rename hl hk with ⟨fs, hfs⟩ | hfs
        · rw [hren] at hfs
          cases hfs
        · rw [hren] at hfs
          cases hfs
          exact hx (Except.error.inj heq).symm

end Copy

end OortAgent
