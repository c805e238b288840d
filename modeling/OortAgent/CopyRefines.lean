import OortAgent.Placed
import OortAgent.Served

/-!
# A copy is a rename

The branch of `move_file` for different devices should leave the names as a rename would: the destination shows the
bytes of the source, the source is gone, and nothing else has changed. When no call fails this depends on the block
size alone, which is the smaller of the two `f_bsize` cut to an `int`.

* `view_copied`: what every name shows after a copy.
* `moveFile_copy_refines_iff`: a copy ends like a rename exactly when its block size is positive, or zero and the
  file empty.
-/

namespace OortAgent

open Lib

/-- Nothing fails: no error is injected, and only the check of the destination and the first rename are refused. -/
def Faultless (tr : List Ev) : Prop :=
  ∀ e ∈ tr, e.choice.err = none ∧ (e.refused = true → e.site = .accessDest ∨ e.site = .rename)

/-- What a name shows after the file at `a` was renamed to `b`. -/
def renamedView (fs : FS) (a b l : Loc) : Option FS.Shown :=
  if l = b then fs.view a else if l = a then none else fs.view l

/-- The names show what they show after a rename, and what every run of the rename branch from the same names leaves. -/
def LikeRename (env : Env) (src dest : Str) (fi : FileInfo) (w w' : World) : Prop :=
  (∀ l, w'.fs.view l = renamedView w.fs (norm w.fs.cwd src) (norm w.fs.cwd dest) l) ∧
  ∀ v v' tr o, v.fs.cwd = w.fs.cwd → v.fs.view = w.fs.view → Run Machine (moveFile env src dest fi) v tr o v' →
    doneAt .rename tr = true → o = .ret () ∧ v'.fs.view = w'.fs.view

/-- The calls of a trace, looked at one by one. -/
def Ev.smooth (e : Ev) : Bool :=
  decide (e.choice.err = none) && (!e.refused || decide (e.site = .accessDest) || decide (e.site = .rename))

/-- A write that took all its bytes. -/
def Op.takesAll : (op : Op) → op.Res → Bool
  | .write _ b, .ok n => decide (b.length ≤ n)
  | .write _ _, .error _ => false
  | _, _ => true

theorem faultless_of_all {tr : List Ev} (h : tr.all Ev.smooth = true) : Faultless tr := by
  intro e he
  have := List.all_eq_true.1 h e he
  simp only [Ev.smooth, Bool.and_eq_true, Bool.or_eq_true, decide_eq_true_eq, Bool.not_eq_true'] at this
  refine ⟨this.1, fun hr => ?_⟩
  rw [hr] at this
  simpa using this.2

theorem fullWrites_of_all {tr : List Ev} (h : tr.all (fun e => e.call.op.takesAll e.res) = true) : FullWrites tr := by
  intro e he j b hop
  have := List.all_eq_true.1 h e he
  obtain ⟨⟨s, op⟩, ch, r⟩ := e
  obtain rfl : op = .write j b := hop
  cases r with
  | error e => cases this
  | ok n => exact List.take_of_length_le (of_decide_eq_true this)

section

variable {env : Env} {src dest tmpdir dtname : Str} {fi : FileInfo} {w w' : World} {tr : List Ev} {o : Outcome Exn Unit}

/-- A run of the rename branch. -/
theorem renamed_of_done (h : Run Machine (moveFile env src dest fi) w tr o w') (hd : doneAt .rename tr = true) :
    o = .ret () ∧ ∃ k fs, w.fs.node (norm w.fs.cwd src) = some (.file k) ∧ w.fs.pathRename src dest = .ok fs ∧
      w' = { w with fs } := by
  obtain ⟨ch, r, w₁, tr', he, hk, rfl⟩ := run_call.1 h
  have hx := exec_looks he rfl
  subst hx
  cases r with
  | ok _ =>
    obtain ⟨rfl, -, -⟩ := run_throw.1 hk
    simp at hd
  | error e =>
    have hlook : ∀ {tr₁ : List Ev} {o₁ : Outcome Exn FileInfo} {w₂ : World},
        Run Machine (fileInfo env .precheck src) w₁ tr₁ o₁ w₂ → doneAt .rename tr₁ = false := fun h₁ =>
      doneAt_of_allAt (run_fileInfo h₁).2.1 (by decide)
    rcases run_bind.1 hk with ⟨pre, w₂, tr₁, tr₂, h₁, h₂, rfl⟩ | ⟨e, h₁, rfl⟩ | ⟨x, h₁, rfl⟩
    · obtain ⟨rfl, -, ⟨e, what, ho, -⟩ | ⟨⟨k, hnode⟩, -⟩⟩ := run_fileInfo h₁
      · cases ho
      split at h₂
      · obtain ⟨rfl, -, -⟩ := run_throw.1 h₂
        simp [hlook h₁] at hd
      · obtain ⟨ch', r', w₃, tr₃, he', hk', rfl⟩ := run_call.1 h₂
        obtain ⟨fs, rfl, -, hr, rfl⟩ | ⟨e, rfl, rfl, -⟩ := exec_rename he'
        · obtain ⟨-, rfl, rfl⟩ := run_ret.1 hk'
          exact ⟨rfl, k, fs, hnode, hr, rfl⟩
        · -- nothing after a refused rename is at its place
          exfalso
          have hnone : doneAt .rename tr₃ = false := by
            split at hk'
            · contradiction
            · exact doneAt_of_allAt (S := AcrossSite) (hk'.calls copyAcross_sites) (by decide)
            · obtain ⟨rfl, -, -⟩ := run_throw.1 hk'
              rfl
          simp [hlook h₁, hnone, Op.refused] at hd
    · simp [hlook h₁] at hd
    · simp [hlook h₁] at hd

/-- What the names show after a rename of a file. -/
theorem view_renamed {fs fs' : FS} {a b : Loc} {k : Ino} (hk : fs.node a = some (.file k))
    (hr : fs.rename a b = .ok fs')
    (l : Loc) : fs'.view l = renamedView fs a b l := by
  obtain ⟨hn, hino, -⟩ := FS.rename_file hr hk
  unfold renamedView
  split
  · rename_i e
    subst e
    rw [FS.view_file (by rw [hn, if_pos rfl]), hino, FS.view_file hk]
  · rename_i hb
    split
    · rename_i e
      exact FS.view_none (by rw [hn, if_neg hb, if_pos e])
    · rename_i ha
      exact FS.view_eq_of_node (by rw [hn, if_neg hb, if_neg ha]) fun j _ => by rw [hino]

/-- The names alone decide what they show after a rename. -/
theorem renamedView_congr {fs fs' : FS} (h : fs'.view = fs.view) (a b l : Loc) :
    renamedView fs' a b l = renamedView fs a b l := by
  simp [renamedView, h]

/-! ## The copy -/

/-- From the opening of the parked source on, when nothing fails: the block size decides what is copied. -/
theorem copyInto_served {blksize : Int} {j k : Ino}
    (h : Run Machine (copyInto env tmpdir dest fi blksize dtname j) w tr o w')
    (hs : Served tr) (hf : FullWrites tr) (hk : w.fs.node (norm w.fs.cwd (parkedName tmpdir)) = some (.file k))
    (hc : w.fs.node (norm w.fs.cwd dtname) = some (.file j)) (hj : (w.fs.inode j).data = []) (hkj : k ≠ j)
    (hfuel : (w.fs.inode k).data.length < env.fuel) :
    (blksize < 0 ∧ ∃ e, o = .throw e) ∨
    (0 ≤ blksize ∧ ∃ x : Inode, x.data = (if blksize = 0 then [] else (w.fs.inode k).data) ∧
      ((crcText x.data ≠ fi.crc32 ∧ ∃ e, o = .throw e) ∨
        (crcText x.data = fi.crc32 ∧ ∃ tr₁, Served tr₁ ∧
          Run Machine (publishCopy tmpdir dest dtname) { w with fs := w.fs.setInode j x } tr₁ o w'))) := by
  obtain ⟨ch, r, w₁, tr', he, hk', rfl⟩ := run_call.1 h
  obtain ⟨hr, hs'⟩ := served_cons.1 hs
  have hf' := (fullWrites_cons.1 hf).2
  have hw := exec_looks he rfl
  subst hw
  cases r with
  | error e => cases hr
  | ok srcfd =>
    have hx := FS.pathOpen_handle (inject_ok (Prod.mk.inj (Option.some.inj he)).1).2 hk
    subst hx
    dsimp only at hk'
    split at hk'
    · rename_i hb
      obtain ⟨-, rfl, -⟩ := run_throw.1 hk'
      exact .inl ⟨hb, _, rfl⟩
    · rename_i hb
      have hb' : 0 ≤ blksize := by omega
      refine .inr ⟨hb', ?_⟩
      -- the loop
      have hloop : ∀ {tr₁ : List Ev} {o₁ : Outcome Exn Unit} {w₂ : World},
          Run Machine (copyBlocks env (.file k) j blksize.toNat) w₁ tr₁ o₁ w₂ → Served tr₁ → FullWrites tr₁ →
          o₁ = .ret () ∧ written .copyWrite tr₁ = if blksize = 0 then [] else (w₁.fs.inode k).data := by
        intro tr₁ o₁ w₂ h₁ hs₁ hf₁
        split
        · rename_i h0
          subst h0
          exact copyLoop_empty (by omega) h₁ hs₁
        · have := copyLoop_served hkj (by omega) h₁ hs₁ hf₁ (by omega)
          rwa [List.drop_zero] at this
      rcases run_bind.1 hk' with ⟨_, w₂, tr₁, tr₂, h₁, h₂, rfl⟩ | ⟨e, h₁, rfl⟩ | ⟨y, h₁, rfl⟩
      · obtain ⟨hs₁, hs₂⟩ := served_append.1 hs'
        obtain ⟨hf₁, hf₂⟩ := fullWrites_append.1 hf'
        obtain ⟨-, -, x, hx, rfl⟩ := run_copyLoop h₁
        rw [hj, List.nil_append, (hloop h₁ hs₁ hf₁).2] at hx
        refine ⟨x, hx, ?_⟩
        obtain ⟨ch₁, r₁, w₃, tr₃, e₁, k₁, rfl⟩ := run_call.1 h₂
        obtain ⟨ch₂, r₂, w₄, tr₄, e₂, k₂, rfl⟩ := run_call.1 k₁
        obtain ⟨ch₃, r₃, w₅, tr₅, e₃, k₃, rfl⟩ := run_call.1 k₂
        have hx₁ := exec_looks e₁ rfl
        have hx₂ := exec_looks e₂ rfl
        have hx₃ := exec_looks e₃ rfl
        subst hx₁ hx₂ hx₃
        have hs₅ : Served tr₅ := (served_cons.1 (served_cons.1 (served_cons.1 hs₂).2).2).2
        have hlen : x.data.length < env.fuel := by
          rw [hx]
          split
          · exact Nat.lt_of_le_of_lt (Nat.zero_le _) hfuel
          · exact hfuel
        have hverify : ∀ {tr₆ : List Ev} {o₆ : Outcome Exn FileInfo} {w₆ : World},
            Run Machine (fileInfo env .verify dtname) { w₁ with fs := w₁.fs.setInode j x } tr₆ o₆ w₆ → Served tr₆ →
            o₆ = .ret (infoOf dtname x) := by
          intro tr₆ o₆ w₆ h₆ hs₆
          have := fileInfo_served (k := j) h₆ hs₆ hc (by simpa using hlen)
          simpa using this
        rcases run_bind.1 k₃ with ⟨d, w₆, tr₆, tr₇, h₆, h₇, rfl⟩ | ⟨e, h₆, rfl⟩ | ⟨y, h₆, rfl⟩
        · obtain ⟨hs₆, hs₇⟩ := served_append.1 hs₅
          cases hverify h₆ hs₆
          have hx₆ := (run_fileInfo h₆).1
          subst hx₆
          split at h₇
          · rename_i hne
            obtain ⟨-, rfl, -⟩ := run_throw.1 h₇
            exact .inl ⟨hne, _, rfl⟩
          · rename_i heq
            exact .inr ⟨not_not.1 heq, tr₇, hs₇, h₇⟩
        · cases hverify h₆ hs₅
        · cases hverify h₆ hs₅
      · cases (hloop h₁ hs' hf').1
      · cases (hloop h₁ hs' hf').1

/-- What every name shows after a copy `x` was published and the parked source removed. -/
theorem view_copied {w₃ w₄ w₅ : World} {fs₂ : FS} {k : Ino} {x : Inode} {ch₂ ch₃ : Choice}
    (hP : Parked w.fs fs₂ (norm w.fs.cwd src) (norm w.fs.cwd tmpdir) k)
    (hA : Added fs₂ w₃.fs (norm w.fs.cwd dtname) x) (hne : tmpdir ≠ [])
    (hd : norm w.fs.cwd dest ≠ norm w.fs.cwd src ∧ norm w.fs.cwd dest ≠ norm w.fs.cwd tmpdir ∧
      norm w.fs.cwd dest ≠ parkedEntry :: norm w.fs.cwd tmpdir)
    (hr : w₃.fs.pathRename dtname dest = .ok w₄.fs)
    (hu : (Op.unlink (parkedName tmpdir)).exec ch₂ w₄ = some (.ok (), w₅))
    (hrm : (Op.rmdir tmpdir).exec ch₃ w₅ = some (.ok (), w')) (l : Loc) :
    w'.fs.view l = if l = norm w.fs.cwd dest then some (.file x.data) else
      if l = norm w.fs.cwd src then none else w.fs.view l := by
  have hcwd : w₃.fs.cwd = w.fs.cwd := hA.cwd.trans hP.cwd
  obtain ⟨-, -, hr⟩ := FS.pathRename_ok hr
  rw [hcwd] at hr
  have hc : w₃.fs.node (norm w.fs.cwd dtname) = some (.file fs₂.next) := by rw [hA.node, if_pos rfl]
  obtain ⟨hnode, hino, -, hcwd₄⟩ := FS.rename_file hr hc
  rw [hcwd] at hcwd₄
  -- the directory of the parked source and its entry are gone, as they were at the start
  obtain ⟨fs₅, -, hu', rfl⟩ | ⟨e, he, -⟩ := exec_unlink hu
  swap
  · cases he
  obtain ⟨fs₆, -, hrm', rfl⟩ | ⟨e, he, -⟩ := exec_rmdir hrm
  swap
  · cases he
  obtain ⟨-, hul⟩ := FS.pathUnlink_ok hu'
  rw [norm_parkedName hne, hcwd₄] at hul
  obtain ⟨-, -, hcwd₅⟩ := FS.unlink_frame hul
  obtain ⟨-, hrd⟩ := FS.pathRmdir_ok hrm'
  have hcwd₅' : fs₅.cwd = w.fs.cwd := hcwd₅.trans hcwd₄
  simp only [hcwd₅'] at hrd
  have hgone := FS.node_rmdir hrd
  by_cases ht : l = norm w.fs.cwd tmpdir
  · subst ht
    rw [if_neg (Ne.symm hd.2.1), if_neg (Ne.symm hP.src_ne.1), FS.view_none hP.free]
    exact FS.view_none (by rw [hgone, if_pos rfl])
  by_cases hp : l = parkedEntry :: norm w.fs.cwd tmpdir
  · subst hp
    rw [if_neg (Ne.symm hd.2.2), if_neg (Ne.symm hP.src_ne.2), FS.view_none (node_below_free hP.free _)]
    exact FS.view_none (by rw [hgone, if_neg ht, FS.node_unlink hul, if_pos rfl])
  rw [view_cleanup hne hu hrm (by rw [hcwd₄]; exact ht) (by rw [hcwd₄]; exact hp)]
  split
  · rename_i e
    rw [FS.view_file (by rw [hnode, if_pos e]), hino, hA.inode]
    simp
  rename_i hb
  by_cases hcl : l = norm w.fs.cwd dtname
  · -- the copy got a name that was free, or that of the source
    rw [FS.view_none (by rw [hnode, if_neg hb, if_pos hcl])]
    split
    · rfl
    · rename_i ha
      have hfree := hA.free
      rw [← hcl, hP.node l ht, if_neg hp, if_neg ha] at hfree
      rw [FS.view_none hfree]
  · have hn : w₄.fs.node l = if l = norm w.fs.cwd src then none else w.fs.node l := by
      rw [hnode, if_neg hb, if_neg hcl, hA.node, if_neg hcl, hP.node l ht, if_neg hp]
    split
    · rename_i ha
      exact FS.view_none (by rw [hn, if_pos ha])
    · rename_i ha
      rw [if_neg ha] at hn
      refine FS.view_eq_of_node hn fun j hj => ?_
      rw [hino, hA.inode, Function.update_of_ne, hP.inode]
      rw [hP.next]
      exact Nat.ne_of_lt (w.fs.bound _ _ hj)

/-! ## The whole branch -/

/-- The calls of a part without the two places at which a refusal is expected. -/
theorem Faultless.served {tr₀ : List Ev} (h : Faultless tr) (hsub : ∀ e ∈ tr₀, e ∈ tr)
    (hs : AllAt (fun s => s ≠ .accessDest ∧ s ≠ .rename) tr₀) : Served tr₀ := by
  intro e he
  cases hr : e.refused with
  | false => rfl
  | true =>
    exfalso
    rcases (h e (hsub e he)).2 hr with h' | h'
    · exact (hs e he).1 h'
    · exact (hs e he).2 h'

/-- What a copy leaves, when nothing fails and its copy of the file was found good. -/
theorem likeRename_iff {w₃ : World} {fs₂ : FS} {k : Ino} {x : Inode} {tr₁ : List Ev} {pick : Str} {fs₁ : FS}
    (hx : w.fs.pathRename src dest = .error .EXDEV) (hk : w.fs.node (norm w.fs.cwd src) = some (.file k))
    (hm : w.fs.mkdtemp (moveTemplate (dirname src)) pick = some (.ok (tmpdir, fs₁)))
    (hP : Parked w.fs fs₂ (norm w.fs.cwd src) (norm w.fs.cwd tmpdir) k)
    (hA : Added fs₂ w₃.fs (norm w.fs.cwd dtname) x) (hs : Served tr₁)
    (h : Run Machine (publishCopy tmpdir dest dtname) w₃ tr₁ o w') :
    (o = .ret () ∧ LikeRename env src dest fi w w') ↔ x.data = (w.fs.inode k).data := by
  obtain ⟨rfl, ch₁, r₁, w₄, ch₂, r₂, w₅, ch₃, r₃, e₁, e₂, e₃, rfl⟩ := run_publishCopy h
  simp only [served_cons, Ev.refused_mk] at hs
  obtain ⟨h₁, h₂, h₃, -⟩ := hs
  have hne : tmpdir ≠ [] := (FS.mkdtemp_ok hm).2.1 ▸ fromTemplate_ne_nil
  cases r₁ with
  | error e => cases h₁
  | ok _ =>
    cases r₂ with
    | error e => cases h₂
    | ok _ =>
      cases r₃ with
      | error e => cases h₃
      | ok _ =>
        obtain ⟨fs₄, -, -, hr, rfl⟩ | ⟨e, he, -⟩ := exec_rename e₁
        swap
        · cases he
        have hdest := dest_ne hx hk hm
        have hv := view_copied hP hA hne hdest hr e₂ e₃
        constructor
        · rintro ⟨-, hl, -⟩
          have hb := hl (norm w.fs.cwd dest)
          rw [hv, if_pos rfl, renamedView, if_pos rfl, FS.view_file hk] at hb
          exact FS.Shown.file.inj (Option.some.inj hb)
        · intro hdata
          have hw : ∀ l, w'.fs.view l = renamedView w.fs (norm w.fs.cwd src) (norm w.fs.cwd dest) l := by
            intro l
            rw [hv, renamedView, FS.view_file hk, hdata]
          refine ⟨rfl, hw, fun v v' tr' o' hcwd hview hrun hd => ?_⟩
          obtain ⟨rfl, j, fs, hj, hren, rfl⟩ := renamed_of_done hrun hd
          refine ⟨rfl, funext fun l => ?_⟩
          obtain ⟨-, -, hren'⟩ := FS.pathRename_ok hren
          rw [view_renamed hj hren', renamedView_congr hview, hcwd, hw]

/-- The branch from the parking on, when nothing fails. -/
theorem parkAndCopy_refines_iff {blksize : Int} {k : Ino} {pick : Str} {fs₁ : FS}
    (h : Run Machine (parkAndCopy env src dest fi blksize tmpdir) { w with fs := fs₁ } tr o w') (hs : Served tr)
    (hf : FullWrites tr) (hx : w.fs.pathRename src dest = .error .EXDEV)
    (hk : w.fs.node (norm w.fs.cwd src) = some (.file k))
    (hm : w.fs.mkdtemp (moveTemplate (dirname src)) pick = some (.ok (tmpdir, fs₁)))
    (hcrc : fi.crc32 = crcText (w.fs.inode k).data) (hfuel : (w.fs.inode k).data.length < env.fuel) :
    (o = .ret () ∧ LikeRename env src dest fi w w') ↔ (0 < blksize ∨ (blksize = 0 ∧ (w.fs.inode k).data = [])) := by
  obtain ⟨ch₁, r₁, w₁, tr₁, e₁, k₁, rfl⟩ := run_call.1 h
  obtain ⟨hr₁, hs₁⟩ := served_cons.1 hs
  have hf₁ := (fullWrites_cons.1 hf).2
  obtain ⟨fs₂, rfl, -, hp, rfl⟩ | ⟨e, rfl, -⟩ := exec_rename e₁
  swap
  · cases hr₁
  have hP := parked_of_rename hm hp hk
  have hne : tmpdir ≠ [] := (FS.mkdtemp_ok hm).2.1 ▸ fromTemplate_ne_nil
  have hthrow : ∀ {e : Exn}, o = .throw e → ¬ (o = .ret () ∧ LikeRename env src dest fi w w') := by
    rintro e rfl ⟨ho, -⟩
    cases ho
  -- the copy is made, and what happens to it is what `copyInto_served` says
  have hbody : ∀ {tr₂ : List Ev} {o₂ : Outcome Exn Unit} {w₂ : World},
      Run Machine (copyParked env tmpdir dest fi blksize) { w with fs := fs₂ } tr₂ o₂ w₂ → Served tr₂ → FullWrites tr₂ →
      ((∃ e, o₂ = .throw e) ∧ ¬ (0 < blksize ∨ (blksize = 0 ∧ (w.fs.inode k).data = []))) ∨
      (o₂ = .ret () ∧ ((o₂ = .ret () ∧ LikeRename env src dest fi w w₂) ↔
        (0 < blksize ∨ (blksize = 0 ∧ (w.fs.inode k).data = [])))) := by
    intro tr₂ o₂ w₂ h₂ hs₂ hf₂
    obtain ⟨ch₃, r₃, w₃, tr₃, e₃, k₃, rfl⟩ := run_call.1 h₂
    obtain ⟨hr₃, hs₃⟩ := served_cons.1 hs₂
    obtain ⟨dtname, j, fs₃, rfl, hmk, rfl⟩ | ⟨e, rfl, -⟩ := exec_mkstemp e₃
    swap
    · cases hr₃
    obtain ⟨rfl, hA⟩ := added_of_mkstemp hmk
    have hcwd : fs₃.cwd = w.fs.cwd := hA.cwd.trans hP.cwd
    have hkj : k ≠ fs₂.next := by
      rw [hP.next]
      exact Nat.ne_of_lt (w.fs.bound _ _ hk)
    have hdata : (fs₃.inode k).data = (w.fs.inode k).data := by
      rw [hA.inode, Function.update_of_ne hkj, hP.inode]
    have hpk : fs₃.node (norm fs₃.cwd (parkedName tmpdir)) = some (.file k) := by
      rw [norm_parkedName hne, hcwd, hA.node, if_neg, hP.node_parked]
      intro e
      have := hA.free
      rw [← e, hP.node_parked] at this
      cases this
    have hc := copyInto_served (j := fs₂.next) (k := k) k₃ hs₃ (fullWrites_cons.1 hf₂).2 hpk
      (by rw [hA.cwd]; simp [hA.node]) (by simp [hA.inode]) hkj (by rw [hdata]; exact hfuel)
    simp only [hdata] at hc
    rcases hc with ⟨hneg, e, rfl⟩ | ⟨hpos, x, hxd, ⟨hbad, e, rfl⟩ | ⟨hgood, tr₄, hs₄, hpub⟩⟩
    · exact .inl ⟨⟨e, rfl⟩, by omega⟩
    · refine .inl ⟨⟨e, rfl⟩, fun hcond => hbad ?_⟩
      rw [hcrc, hxd]
      rcases hcond with h | ⟨h, hnil⟩
      · rw [if_neg (by omega)]
      · rw [if_pos h, hnil]
    · refine .inr ⟨(run_publishCopy hpub).1, ?_⟩
      rw [likeRename_iff hx hk hm hP (by have := hA.setInode x; rwa [hP.cwd] at this) hs₄ hpub, hxd]
      split
      · rename_i h0
        exact ⟨fun h => .inr ⟨h0, h.symm⟩, fun h => by
          rcases h with h | ⟨-, h⟩
          · omega
          · exact h.symm⟩
      · exact ⟨fun _ => .inl (by omega), fun _ => rfl⟩
  rcases run_handle.1 k₁ with ⟨a, h₂, rfl⟩ | ⟨y, h₂, rfl⟩ | ⟨e, w₂, tr₂, tr₃, h₂, h₃, rfl⟩
  · obtain ⟨⟨e, he⟩, -⟩ | ⟨-, hiff⟩ := hbody h₂ hs₁ hf₁
    · cases he
    · exact hiff
  · obtain ⟨⟨e, he⟩, -⟩ | ⟨he, -⟩ := hbody h₂ hs₁ hf₁
    · cases he
    · cases he
  · obtain ⟨-, hno⟩ | ⟨he, -⟩ := hbody h₂ (served_append.1 hs₁).1 (fullWrites_append.1 hf₁).1
    · exact ⟨fun h => absurd h (hthrow (run_undoPark h₃).1), fun h => absurd h hno⟩
    · cases he

/-- **Copies refine renames.** When no call fails, writes are complete, the destination is free and on another
device and has the space, and `fi` has the checksum of the file: `moveFile` returns and leaves the names as the
rename branch leaves them, if and only if the block size that comes out of the two `statvfs` is positive, or zero
and the file empty. -/
theorem moveFile_copy_refines_iff {k : Ino} (h : Run Machine (moveFile env src dest fi) w tr o w')
    (hx : w.fs.pathRename src dest = .error .EXDEV) (hk : w.fs.node (norm w.fs.cwd src) = some (.file k))
    (hfree : w.fs.node (norm w.fs.cwd dest) = none) (hcrc : fi.crc32 = crcText (w.fs.inode k).data)
    (ht : Faultless tr) (hf : FullWrites tr) (hsp : checkDiskFree env fi.size (vfsAt .statvfsDest tr) = true)
    (hfuel : (w.fs.inode k).data.length < env.fuel) :
    (o = .ret () ∧ LikeRename env src dest fi w w') ↔
      (0 < blockSize (vfsAt .statvfsSrc tr) (vfsAt .statvfsDest tr) ∨
        (blockSize (vfsAt .statvfsSrc tr) (vfsAt .statvfsDest tr) = 0 ∧ (w.fs.inode k).data = [])) := by
  -- the destination is free, the source is found good, and the rename reports `EXDEV`
  obtain ⟨ch₁, r₁, w₁, tr₁, e₁, k₁, rfl⟩ := run_call.1 h
  have hw₁ := exec_looks e₁ rfl
  subst hw₁
  obtain ⟨e, rfl⟩ : ∃ e, r₁ = .error e := by
    cases r₁ with
    | error e => exact ⟨e, rfl⟩
    | ok _ =>
      obtain ⟨n, hn⟩ := FS.pathAccess_ok (inject_ok (Prod.mk.inj (Option.some.inj e₁)).1).2
      rw [hfree] at hn
      cases hn
  have hpre : ∀ {tr₂ : List Ev} {o₂ : Outcome Exn FileInfo} {w₂ : World},
      Run Machine (fileInfo env .precheck src) w₁ tr₂ o₂ w₂ → (∀ e ∈ tr₂, e ∈ tr₁) →
      o₂ = .ret (infoOf src (w₁.fs.inode k)) := by
    intro tr₂ o₂ w₂ h₂ hsub
    refine fileInfo_served h₂ (ht.served (fun e he => List.mem_cons_of_mem _ (hsub e he)) fun e he => ?_) hk hfuel
    rw [(run_fileInfo h₂).2.1 e he]
    simp
  rcases run_bind.1 k₁ with ⟨pre, w₂, tr₂, tr₃, h₂, k₂, rfl⟩ | ⟨e', h₂, rfl⟩ | ⟨y, h₂, rfl⟩
  swap
  · cases hpre h₂ fun _ h => h
  swap
  · cases hpre h₂ fun _ h => h
  cases hpre h₂ fun e he => List.mem_append_left _ he
  obtain ⟨rfl, hat, -⟩ := run_fileInfo h₂
  rw [if_neg (by simp [infoOf, hcrc])] at k₂
  obtain ⟨ch₃, r₃, w₃, tr₄, e₃, k₃, rfl⟩ := run_call.1 k₂
  obtain ⟨fs, rfl, -, hr, rfl⟩ | ⟨e', rfl, rfl, he, -⟩ := exec_rename e₃
  · rw [hx] at hr
    cases hr
  have he' : e' = .EXDEV := by
    have := (ht _ (List.mem_cons_of_mem _ (List.mem_append_right _ List.mem_cons_self))).1
    rw [hx, Choice.inject, this] at he
    exact (Except.error.inj he).symm
  subst he'
  -- the figures, the space and the temporary directory
  obtain ⟨ch₄, srcvfs, w₄, tr₅, e₄, k₄, rfl⟩ := run_call.1 k₃
  obtain ⟨ch₅, destvfs, w₅, tr₆, e₅, k₅, rfl⟩ := run_call.1 k₄
  have hw₄ := exec_looks e₄ rfl
  have hw₅ := exec_looks e₅ rfl
  subst hw₄ hw₅
  have hsv : vfsAt .statvfsSrc (⟨⟨.accessDest, .access dest .F_OK⟩, ch₁, .error e⟩ :: (tr₂ ++
      ⟨⟨.rename, .rename src dest⟩, ch₃, .error .EXDEV⟩ :: ⟨⟨.statvfsSrc, .statvfs (dirname src)⟩, ch₄, srcvfs⟩ ::
      ⟨⟨.statvfsDest, .statvfs (dirname dest)⟩, ch₅, destvfs⟩ :: tr₆)) = srcvfs.2 := by
    simp [vfsAt_append hat (s := .statvfsSrc) (by decide), Op.figures]
  have hdv : vfsAt .statvfsDest (⟨⟨.accessDest, .access dest .F_OK⟩, ch₁, .error e⟩ :: (tr₂ ++
      ⟨⟨.rename, .rename src dest⟩, ch₃, .error .EXDEV⟩ :: ⟨⟨.statvfsSrc, .statvfs (dirname src)⟩, ch₄, srcvfs⟩ ::
      ⟨⟨.statvfsDest, .statvfs (dirname dest)⟩, ch₅, destvfs⟩ :: tr₆)) = destvfs.2 := by
    simp [vfsAt_append hat (s := .statvfsDest) (by decide), Op.figures]
  rw [hsv, hdv]
  rw [hdv] at hsp
  rw [if_neg (by simp [hsp])] at k₅
  have hs₆ : Served tr₆ := by
    refine ht.served (fun e he => by simp [he]) fun e he => ?_
    have hsite : AcrossSite e.call.site := k₃.calls copyAcross_sites e (by simp [he])
    exact ⟨fun h' => by rw [show e.call.site = _ from h'] at hsite; revert hsite; decide,
      fun h' => by rw [show e.call.site = _ from h'] at hsite; revert hsite; decide⟩
  have hf₆ : FullWrites tr₆ := by
    simp only [fullWrites_cons, fullWrites_append] at hf
    exact hf.2.2.2.2.2
  obtain ⟨ch₆, r₆, w₆, tr₇, e₆, k₆, rfl⟩ := run_call.1 k₅
  obtain ⟨hr₆, hs₇⟩ := served_cons.1 hs₆
  obtain ⟨tmpdir, fs₁, rfl, hm, rfl⟩ | ⟨e, rfl, -⟩ := exec_mkdtemp e₆
  · exact parkAndCopy_refines_iff k₆ hs₇ (fullWrites_cons.1 hf₆).2 hx hk hm hcrc hfuel
  · cases hr₆

end

/-- The error of an operation, if it was refused. -/
def errno? {α : Type} : Except Errno α → Option Errno
  | .error e => some e
  | .ok _ => none

theorem error_of_errno {α : Type} {x : Except Errno α} {e : Errno} (h : errno? x = some e) : x = .error e := by
  cases x with
  | error e' => rw [Option.some.inj h]
  | ok a => cases h

/-- The hypotheses on the outcomes hold of a copy with block sizes of 4096: the file is moved as by a rename. -/
theorem moveFile_copy_refines_iff_sample : ∃ tr w', Run Machine Sample.move Sample.world tr (.ret ()) w' ∧
    LikeRename (Sample.env Sample.noCodec) "/a/x".toList "/b/y".toList Sample.info Sample.world w' := by
  have h : (exec? Machine Sample.move (Sample.copyChoices Sample.calm) Sample.world).map (fun x =>
        (x.2.1, x.1.all Ev.smooth, x.1.all fun e => e.call.op.takesAll e.res, vfsAt .statvfsSrc x.1,
          vfsAt .statvfsDest x.1)) =
      some (.ret (), true, true, {}, {}) := by
    rw [Sample.world_eq]
    decide +kernel
  obtain ⟨⟨tr, o, w'⟩, hx, he⟩ := Option.map_eq_some_iff.1 h
  simp only [Prod.mk.injEq] at he
  obtain ⟨rfl, ht, hf, hs, hd⟩ := he
  have hrun := exec?_sound hx
  have hk : Sample.world.fs.node (norm Sample.world.fs.cwd "/a/x".toList) = some (.file 0) := by decide +kernel
  have hxdev : Sample.world.fs.pathRename "/a/x".toList "/b/y".toList = .error .EXDEV :=
    error_of_errno (by decide +kernel)
  refine ⟨tr, w', hrun, ((moveFile_copy_refines_iff hrun hxdev hk (by decide +kernel) (by decide +kernel)
    (faultless_of_all ht) (fullWrites_of_all hf) (by rw [hd]; decide +kernel) (by decide +kernel)).2 (.inl ?_)).2⟩
  rw [hs, hd]
  decide

/-- Block sizes of 2 ^ 32 are cut to an `int` that is zero: nothing is copied and `moveFile` throws, though no call
fails. -/
theorem moveFile_copy_large_blocks : ∃ tr e w', Run Machine Sample.move Sample.world tr (.throw e) w' ∧ Faultless tr ∧
    FullWrites tr ∧ checkDiskFree (Sample.env Sample.noCodec) Sample.info.size (vfsAt .statvfsDest tr) = true ∧
    1 ≤ (vfsAt .statvfsSrc tr).f_bsize ∧ 1 ≤ (vfsAt .statvfsDest tr).f_bsize := by
  have h : (exec? Machine Sample.move (List.replicate 5 Sample.calm ++
        [{ vfs := { f_bsize := 4294967296 } }, { vfs := { f_bsize := 4294967296 } }, { pick := "AAAAAA".toList },
          Sample.calm,
          { pick := "BBBBBB".toList }] ++ List.replicate 10 Sample.calm) Sample.world).map (fun x =>
        (x.2.1, x.1.all Ev.smooth, x.1.all fun e => e.call.op.takesAll e.res,
          vfsAt .statvfsSrc x.1, vfsAt .statvfsDest x.1)) =
      some (.throw (.runtime (.other 0) "move_file: CRC Check failed on written file".toList), true, true,
        { f_bsize := 4294967296 }, { f_bsize := 4294967296 }) := by
    rw [Sample.world_eq]
    decide +kernel
  obtain ⟨⟨tr, o, w'⟩, hx, he⟩ := Option.map_eq_some_iff.1 h
  simp only [Prod.mk.injEq] at he
  obtain ⟨rfl, ht, hf, hs, hd⟩ := he
  refine ⟨tr, _, w', exec?_sound hx, faultless_of_all ht, fullWrites_of_all hf, ?_⟩
  rw [hs, hd]
  exact ⟨by decide +kernel, by decide, by decide⟩

end OortAgent
