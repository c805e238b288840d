import OortAgent.MoveRun

/-!
# What a failed `moveFile` leaves behind

`move_file` promises that "if anything goes wrong it sets things back the way they were before". Its handler puts the
source back and removes the temporary directory, but nothing removes the temporary copy, and the handler is not yet in
place when the source is renamed into the directory.

* `moveFile_rollback_iff`: a call sets everything back exactly when `RollsBack` holds of the outcomes of its system
  calls.
* `moveFile_leaves_directory`: a call that does not.
-/

namespace OortAgent

open Lib

/-- The outcomes with which nothing is left behind: the source could be renamed into the temporary directory, and
once the copy was made, it could be filled and checked (or happened to have the name of the source, which then
replaced it). -/
def LeavesNothing (cwd : Loc) (src : Str) (fi : FileInfo) (blksize : Int) (tr : List Ev) : Prop :=
  failedAt .park tr = false ∧
  (doneAt .mkstemp tr = true →
    CopyChecked fi blksize tr ∨ ∃ p, madeAt .mkstemp tr = some p ∧ norm cwd p = norm cwd src)

/-- These outcomes, with the block size that the figures of `statvfs` give. -/
def RollsBack (w : World) (src : Str) (fi : FileInfo) (tr : List Ev) : Prop :=
  LeavesNothing w.fs.cwd src fi (blockSize (vfsAt .statvfsSrc tr) (vfsAt .statvfsDest tr)) tr

section

variable {env : Env} {src dest tmpdir : Str} {fi : FileInfo} {w w₁ w' : World} {tr : List Ev} {o : Outcome Exn Unit}

theorem rollsBack_of_early (h : AllAt EarlySite tr) : RollsBack w src fi tr := by
  unfold RollsBack
  refine ⟨failedAt_of_allAt h (by decide), fun hm => ?_⟩
  rw [doneAt_of_allAt h (by decide)] at hm
  cases hm

/-- The handler, where its calls succeed. -/
theorem run_undoPark_ok {e : Exn} (h : Run Machine (undoPark src tmpdir e) w tr o w') (hu : failedAt .undo tr = false)
    (hr : failedAt .rmdirUndo tr = false) :
    o = .throw e ∧ AllAt EndSite tr ∧ ∃ fs₁ fs₂,
      w.fs.pathRename (parkedName tmpdir) src = .ok fs₁ ∧ fs₁.pathRmdir tmpdir = .ok fs₂ ∧ w'.fs = fs₂ := by
  obtain ⟨rfl, ch₁, r₁, w₁, ch₂, r₂, e₁, e₂, rfl⟩ := run_undoPark h
  obtain ⟨fs₁, rfl, -, h₁, rfl⟩ | ⟨e', rfl, -⟩ := exec_rename e₁
  · obtain ⟨fs₂, rfl, h₂, rfl⟩ | ⟨e', rfl, -⟩ := exec_rmdir e₂
    · exact ⟨rfl, by simp [EndSite], fs₁, fs₂, h₁, h₂, rfl⟩
    · simp [Op.refused] at hr
  · simp [Op.refused] at hu

end

/-! ## The state after the handler -/

section Undo

variable {fs fs₂ fs₃ fs₄ fs₅ : FS} {src tmpdir : Str} {i : Ino}

/-- Without a copy everything is back. -/
theorem Parked.undo (hp : Parked fs fs₂ (norm fs.cwd src) (norm fs.cwd tmpdir) i) (hne : tmpdir ≠ [])
    (hr : fs₂.pathRename (parkedName tmpdir) src = .ok fs₄) (hd : fs₄.pathRmdir tmpdir = .ok fs₅) :
    fs₅.view = fs.view := by
  have hi : fs₂.node (norm fs₂.cwd (parkedName tmpdir)) = some (.file i) := by
    rw [norm_parkedName hne, hp.cwd, hp.node_parked]
  obtain ⟨hnode, hino⟩ := node_undo hne hi hr hd
  rw [hp.cwd] at hnode
  have hback : ∀ l, fs₅.node l = fs.node l := by
    intro l
    rw [hnode]
    split
    · rename_i h; rw [h, hp.free]
    rename_i ht
    split
    · rename_i h; rw [h, hp.file]
    rename_i ha
    split
    · rename_i h; rw [h, node_below_free hp.free]
    rename_i hk
    rw [hp.node l ht, if_neg hk, if_neg ha]
  funext l
  simp only [FS.view, hback, hino, hp.inode]

/-- With a copy, the copy is left, unless it has the name of the source. -/
theorem Parked.undo_copy {c : Loc} {x : Inode} (hp : Parked fs fs₂ (norm fs.cwd src) (norm fs.cwd tmpdir) i)
    (hc : Added fs₂ fs₃ c x) (hne : tmpdir ≠ []) (hr : fs₃.pathRename (parkedName tmpdir) src = .ok fs₄)
    (hd : fs₄.pathRmdir tmpdir = .ok fs₅) : fs₅.view = fs.view ↔ c = norm fs.cwd src := by
  have hcwd : fs₃.cwd = fs.cwd := hc.cwd.trans hp.cwd
  have hpc : parkedEntry :: norm fs.cwd tmpdir ≠ c := by
    rintro rfl
    have := hc.free
    rw [hp.node_parked] at this
    cases this
  have htc : c ≠ norm fs.cwd tmpdir := by
    rintro rfl
    have := hp.dir
    simp [FS.isDir, hc.free] at this
  have hi : fs₃.node (norm fs₃.cwd (parkedName tmpdir)) = some (.file i) := by
    rw [norm_parkedName hne, hcwd, hc.node, if_neg hpc, hp.node_parked]
  obtain ⟨hnode, hino⟩ := node_undo hne hi hr hd
  rw [hcwd] at hnode
  constructor
  · -- the name of the copy was free
    intro hv
    by_contra hcs
    have h₅ : fs₅.node c = some (.file fs₂.next) := by
      rw [hnode, if_neg htc, if_neg hcs, if_neg (Ne.symm hpc), hc.node, if_pos rfl]
    have h₀ : fs.node c = none := by
      have := hc.free
      rwa [hp.node c htc, if_neg (Ne.symm hpc), if_neg hcs] at this
    have := congrFun hv c
    simp [FS.view, h₅, h₀] at this
  · rintro rfl
    have hback : ∀ l, fs₅.node l = fs.node l := by
      intro l
      rw [hnode]
      split
      · rename_i h; rw [h, hp.free]
      rename_i ht
      split
      · rename_i h; rw [h, hp.file]
      rename_i ha
      split
      · rename_i h; rw [h, node_below_free hp.free]
      rename_i hk
      rw [hc.node, if_neg ha, hp.node l ht, if_neg hk, if_neg ha]
    -- the copy's number was not in use
    have hino' : ∀ l j, fs.node l = some (.file j) → fs₅.inode j = fs.inode j := by
      intro l j hj
      have : j ≠ fs₂.next := by
        rw [hp.next]
        exact Nat.ne_of_lt (fs.bound l j hj)
      rw [hino, hc.inode, Function.update_of_ne this, hp.inode]
    funext l
    simp only [FS.view, hback]
    cases hl : fs.node l with
    | none => rfl
    | some n => cases n with
      | dir v w => rfl
      | file j => simp [hino' l j hl]

end Undo

section

variable {env : Env} {src dest tmpdir : Str} {fi : FileInfo} {w w₁ w' : World} {tr : List Ev} {o : Outcome Exn Unit}

/-- A failed parking leaves the temporary directory. -/
theorem mkdtemp_view_ne {fs fs₁ : FS} {tmpl pick : Str} (h : fs.mkdtemp tmpl pick = some (.ok (tmpdir, fs₁))) :
    fs₁.view ≠ fs.view := by
  obtain ⟨-, -, -, hfree, hd⟩ := FS.mkdtemp_ok h
  obtain ⟨n, l, v, hl, hv, -, rfl⟩ := FS.mkdir_ok hd
  rw [hl] at hfree
  have hnode := FS.node_putDir (w := true) (v := v) (FS.isDir_iff.2 ⟨v, true, hv⟩) hfree (n :: l)
  intro hview
  have := congrFun hview (n :: l)
  simp [FS.view, hnode, hfree] at this

/-- The calls of a copy that was made: up to its checks (`tr₀`) and after (`tr₁`). -/
theorem leavesNothing_made {cwd : Loc} {blksize : Int} {ch ch' : Choice} {dtname : Str} {j : Ino} {tr₀ tr₁ : List Ev}
    (h₀ : AllAt CopySite tr₀) (h₁ : AllAt EndSite tr₁) :
    LeavesNothing cwd src fi blksize (⟨⟨.park, .rename src (parkedName tmpdir)⟩, ch, .ok ()⟩ ::
      ⟨⟨.mkstemp, .mkstemp (moveTemplate (dirname dest))⟩, ch', .ok (dtname, j)⟩ :: (tr₀ ++ tr₁)) ↔
    CopyChecked fi blksize tr₀ ∨ norm cwd dtname = norm cwd src := by
  have hpre : AllAt (fun s => s = .park ∨ s = .mkstemp) [⟨⟨.park, .rename src (parkedName tmpdir)⟩, ch, .ok ()⟩,
      ⟨⟨.mkstemp, .mkstemp (moveTemplate (dirname dest))⟩, ch', .ok (dtname, j)⟩] := by simp
  have hpre := copyChecked_append fi blksize tr₀ hpre h₁ (by decide) (by decide)
  simp only [List.cons_append, List.nil_append] at hpre
  rw [LeavesNothing, hpre]
  simp [Op.refused, Op.made, failedAt_of_allAt h₀ (s := .park) (by decide),
    failedAt_of_allAt h₁ (s := .park) (by decide)]

/-- The calls before the parking do not matter. -/
theorem leavesNothing_append {cwd : Loc} {blksize : Int} {tr₀ tr₁ : List Ev} (h : AllAt EarlySite tr₀) :
    LeavesNothing cwd src fi blksize (tr₀ ++ tr₁) ↔ LeavesNothing cwd src fi blksize tr₁ := by
  have hpre := copyChecked_append fi blksize tr₁ h (allAt_nil (S := EarlySite)) (by decide)
    (by decide)
  rw [List.append_nil] at hpre
  rw [LeavesNothing, LeavesNothing, hpre]
  simp [failedAt_of_allAt h (s := .park) (by decide), doneAt_of_allAt h (s := .mkstemp) (by decide),
    madeAt_append h (s := .mkstemp) (by decide)]

/-- What a copy leaves, once there is a temporary directory. -/
theorem parkAndCopy_rollback_iff {blksize : Int} {fs : FS} {pick : Str} {i : Ino}
    (h : Run Machine (parkAndCopy env src dest fi blksize tmpdir) w tr o w') (hf : o ≠ .stop .fuel)
    (hu : failedAt .undo tr = false) (hr : failedAt .rmdirUndo tr = false)
    (hm : fs.mkdtemp (moveTemplate (dirname src)) pick = some (.ok (tmpdir, w.fs)))
    (hi : fs.node (norm fs.cwd src) = some (.file i)) :
    ((∃ e, o = .throw e) → w'.fs.view = fs.view) ↔ LeavesNothing fs.cwd src fi blksize tr := by
  have hne : tmpdir ≠ [] := (FS.mkdtemp_ok hm).2.1 ▸ fromTemplate_ne_nil
  obtain ⟨ch, r, w₂, tr', he, hk, rfl⟩ := run_call.1 h
  obtain ⟨fs₂, rfl, -, hp, rfl⟩ | ⟨e, rfl, rfl, -⟩ := exec_rename he
  swap
  · obtain ⟨rfl, rfl, rfl⟩ := run_throw.1 hk
    simp [LeavesNothing, Op.refused, mkdtemp_view_ne hm]
  have hP := parked_of_rename hm hp hi
  -- a `try` block that does not throw went through its checks
  have hgood : ∀ o', Run Machine (copyParked env tmpdir dest fi blksize) { w with fs := fs₂ } tr' o' w' →
      o' ≠ .stop .fuel → (∀ e, o' ≠ .throw e) →
      LeavesNothing fs.cwd src fi blksize (⟨⟨.park, .rename src (parkedName tmpdir)⟩, ch, .ok ()⟩ :: tr') := by
    intro o' hc hf' ht
    obtain ⟨⟨e, rfl⟩, -⟩ | ⟨ch', dtname, fs₃, x, tr₀, tr₁, -, -, hs, rfl, ⟨-, ⟨e, rfl⟩, -⟩ | ⟨hchk, hpub⟩⟩ :=
      run_copyParked hc hf'
    · exact absurd rfl (ht e)
    · exact absurd rfl (ht e)
    · obtain ⟨-, _, _, _, _, _, _, _, _, -, -, -, rfl⟩ := run_publishCopy hpub
      exact (leavesNothing_made hs (by simp [EndSite])).2 (.inl hchk)
  rcases run_handle.1 hk with ⟨a, hc, rfl⟩ | ⟨x, hc, rfl⟩ | ⟨e, w₃, tr₁, tr₂, hc, hh, rfl⟩
  · exact ⟨fun _ => hgood _ hc (by simp) (by simp), fun _ h => by obtain ⟨e, he⟩ := h; cases he⟩
  · exact ⟨fun _ => hgood _ hc hf (by simp), fun _ h => by obtain ⟨e, he⟩ := h; cases he⟩
  simp only [failedAt_cons, failedAt_append, Bool.or_eq_false_iff] at hu hr
  obtain ⟨rfl, hend, fs₄, fs₅, hr₄, hd₅, hw⟩ := run_undoPark_ok hh hu.2.2 hr.2.2
  obtain ⟨-, rfl, hs, hd⟩ | ⟨ch', dtname, fs₃, x, tr₀, tr₃, hadd, -, hs, rfl, ⟨hn, -, rfl, rfl⟩ | ⟨hchk, hpub⟩⟩ :=
    run_copyParked hc (by simp)
  · -- no copy was made
    have : w'.fs.view = fs.view := hw ▸ hP.undo hne hr₄ hd₅
    refine ⟨fun _ => ⟨?_, fun hm => ?_⟩, fun _ _ => this⟩
    · simp [Op.refused, failedAt_of_allAt hs (s := .park) (by decide), failedAt_of_allAt hend (s := .park) (by decide)]
    · simp [hd, doneAt_of_allAt hend (s := .mkstemp) (by decide)] at hm
  · -- a copy was made, and a check failed
    have := hP.undo_copy hadd hne hr₄ hd₅
    rw [List.append_nil, List.cons_append, leavesNothing_made hs hend, hw]
    simp only [hP.cwd] at this
    simp [hn, this]
  · obtain ⟨ho, -⟩ := run_publishCopy hpub
    cases ho

/-- **Rollback.** Whatever the system calls answer, as long as those of the handler succeed: `moveFile` leaves every
name as it was when it throws, if and only if the outcomes are those of `RollsBack`. -/
theorem moveFile_rollback_iff (h : Run Machine (moveFile env src dest fi) w tr o w') (hf : o ≠ .stop .fuel)
    (hu : failedAt .undo tr = false) (hr : failedAt .rmdirUndo tr = false) :
    ((∃ e, o = .throw e) → w'.fs.view = w.fs.view) ↔ RollsBack w src fi tr := by
  rcases run_moveFile h hf with ⟨rfl, -, -, hs⟩ |
    ⟨i, hi, ⟨fs, -, -, rfl, -, hs⟩ | ⟨ch, tmpdir, w₁, tr₀, tr₁, -, hm, rfl, -, hs, hk⟩⟩
  · exact ⟨fun _ => rollsBack_of_early hs, fun _ _ => rfl⟩
  · exact ⟨fun _ => rollsBack_of_early hs, fun _ h => by obtain ⟨e, he⟩ := h; cases he⟩
  obtain ⟨_, fs₁, hok, hm, rfl⟩ | ⟨e, he, -⟩ := exec_mkdtemp hm
  · cases hok
    simp only [failedAt_append, Bool.or_eq_false_iff] at hu hr
    rw [parkAndCopy_rollback_iff hk hf hu.2 hr.2 hm hi, RollsBack]
    exact (leavesNothing_append hs).symm
  · cases he

end

/-- The source cannot be renamed into the temporary directory: the directory stays. -/
theorem moveFile_leaves_directory : ∃ tr w',
    Run Machine Sample.move Sample.world tr (.throw (.system .EACCES "rename error (xdev)".toList)) w' ∧
    failedAt .undo tr = false ∧ failedAt .rmdirUndo tr = false ∧ w'.fs.view ≠ Sample.world.fs.view := by
  have h : (exec? Machine Sample.move (List.replicate 7 Sample.calm ++
      [{ pick := "AAAAAA".toList }, { err := some .EACCES }]) Sample.world).map (fun x =>
        (x.2.1, failedAt .undo x.1, failedAt .rmdirUndo x.1, x.2.2.fs.view ["file_move_AAAAAA".toList, "a".toList])) =
      some (.throw (.system .EACCES "rename error (xdev)".toList), false, false, some .dir) := by
    rw [Sample.world_eq]
    decide +kernel
  obtain ⟨⟨tr, o, w'⟩, hx, he⟩ := Option.map_eq_some_iff.1 h
  simp only [Prod.mk.injEq] at he
  obtain ⟨rfl, hu, hr, hv⟩ := he
  refine ⟨tr, w', exec?_sound hx, hu, hr, fun e => ?_⟩
  have h₀ : Sample.world.fs.view ["file_move_AAAAAA".toList, "a".toList] = none := by decide +kernel
  rw [e, h₀] at hv
  cases hv

/-- No space for the copy: the source is put back, and nothing is left. -/
theorem moveFile_rollback_iff_no_space : ∃ tr w',
    Run Machine Sample.move Sample.world tr (.throw (.system .ENOSPC "mkstemp error (xdev)".toList)) w' ∧
    w'.fs.view = Sample.world.fs.view := by
  have h : (exec? Machine Sample.move (List.replicate 7 Sample.calm ++
      [{ pick := "AAAAAA".toList }, Sample.calm, { err := some .ENOSPC }, Sample.calm, Sample.calm]) Sample.world).map
        (fun x => (x.2.1, failedAt .undo x.1, failedAt .rmdirUndo x.1, failedAt .park x.1, doneAt .mkstemp x.1)) =
      some (.throw (.system .ENOSPC "mkstemp error (xdev)".toList), false, false, false, false) := by
    rw [Sample.world_eq]
    decide +kernel
  obtain ⟨⟨tr, o, w'⟩, hx, he⟩ := Option.map_eq_some_iff.1 h
  simp only [Prod.mk.injEq] at he
  obtain ⟨rfl, hu, hr, hp, hm⟩ := he
  have hrun := exec?_sound hx
  refine ⟨tr, w', hrun, (moveFile_rollback_iff hrun (by simp) hu hr).2 ⟨hp, fun h => ?_⟩ ⟨_, rfl⟩⟩
  simp [hm] at h

end OortAgent
