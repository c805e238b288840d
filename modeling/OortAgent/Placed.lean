import OortAgent.MoveRun

/-!
# What a `moveFile` that returned has done

After a normal return the file should be at its destination and gone from its source. `move_file` does not look at the
outcome of the last rename of a copy, and the checksums it compares are those of what could be read.

* `moveFile_placed_iff`: a call that returns has moved the file exactly when `Arrives` holds.
* `moveFile_loses_file`: a call that returned and lost the file.
-/

namespace OortAgent

open Lib

/-- A regular file with the checksum of `fi` is at `dest`, and no file is at `src`. -/
def Placed (w w' : World) (src dest : Str) (fi : FileInfo) : Prop :=
  (∃ data, w'.fs.view (norm w.fs.cwd dest) = some (.file data) ∧ crcText data = fi.crc32) ∧
  ∀ data, w'.fs.view (norm w.fs.cwd src) ≠ some (.file data)

/-- When the file arrives. A rename takes the source itself, so its bytes have to have the checksum, and the two
paths have to be different names. A copy takes the bytes that were written, so these have to have it. If the last
rename fails, the file at `dest` is one that was there before, unless the temporary copy itself happens to be at
`dest`. -/
structure Arrives (w : World) (src dest : Str) (fi : FileInfo) (tr : List Ev) : Prop where
  renamed : doneAt .rename tr = true → norm w.fs.cwd src ≠ norm w.fs.cwd dest ∧
    ∃ data, w.fs.view (norm w.fs.cwd src) = some (.file data) ∧ crcText data = fi.crc32
  published : doneAt .publish tr = true → crcText (written .copyWrite tr) = fi.crc32
  unpublished : failedAt .publish tr = true → ∃ p, madeAt .mkstemp tr = some p ∧
    ((norm w.fs.cwd p = norm w.fs.cwd dest ∧ crcText (written .copyWrite tr) = fi.crc32) ∨
      (norm w.fs.cwd p ≠ norm w.fs.cwd dest ∧ norm w.fs.cwd p ≠ norm w.fs.cwd src ∧
        ∃ data, w.fs.view (norm w.fs.cwd dest) = some (.file data) ∧ crcText data = fi.crc32))

section

variable {fs fs' : FS} {src dest : Str} {fi : FileInfo} {i : Ino}

/-- After a rename of the file. -/
theorem placed_of_rename {w w' : World} (hi : w.fs.node (norm w.fs.cwd src) = some (.file i))
    (hr : w.fs.pathRename src dest = .ok w'.fs) :
    Placed w w' src dest fi ↔ norm w.fs.cwd src ≠ norm w.fs.cwd dest ∧
      ∃ data, w.fs.view (norm w.fs.cwd src) = some (.file data) ∧ crcText data = fi.crc32 := by
  obtain ⟨-, -, hr⟩ := FS.pathRename_ok hr
  obtain ⟨hnode, hino, -⟩ := FS.rename_file hr hi
  have hdest : w'.fs.view (norm w.fs.cwd dest) = some (.file (w.fs.inode i).data) := by
    rw [FS.view_file (by rw [hnode, if_pos rfl]), hino]
  by_cases he : norm w.fs.cwd src = norm w.fs.cwd dest
  · refine ⟨fun h => absurd (he ▸ hdest) (h.2 _), fun h => absurd he h.1⟩
  · have hsrc : w'.fs.view (norm w.fs.cwd src) = none := by simp [FS.view, hnode, he]
    simp [Placed, hdest, hsrc, he, FS.view_file hi]

end

/-! ## The end of a copy -/

section Copy

variable {w w₁ w₂ w₃ w₄ w' : World} {src dest tmpdir dtname : Str} {fi : FileInfo} {i : Ino} {x : Inode}
  {ch₁ ch₂ ch₃ : Choice} {r₂ r₃ : Except Errno Unit}

/-- Removing the parked source and its directory touches no other name. -/
theorem view_cleanup (hne : tmpdir ≠ []) (hu : (Op.unlink (parkedName tmpdir)).exec ch₂ w₁ = some (r₂, w₂))
    (hd : (Op.rmdir tmpdir).exec ch₃ w₂ = some (r₃, w')) {l : Loc} (ht : l ≠ norm w₁.fs.cwd tmpdir)
    (hp : l ≠ parkedEntry :: norm w₁.fs.cwd tmpdir) : w'.fs.view l = w₁.fs.view l := by
  have h₂ : w₂.fs.view l = w₁.fs.view l ∧ w₂.fs.cwd = w₁.fs.cwd := by
    obtain ⟨fs, -, hp', rfl⟩ | ⟨e, -, rfl, -⟩ := exec_unlink hu
    · obtain ⟨-, hul⟩ := FS.pathUnlink_ok hp'
      rw [norm_parkedName hne] at hul
      obtain ⟨hino, -, hcwd⟩ := FS.unlink_frame hul
      have hn := FS.node_unlink hul l
      rw [if_neg hp] at hn
      simp [FS.view, hn, hino, hcwd]
    · exact ⟨rfl, rfl⟩
  obtain ⟨fs, -, hp', rfl⟩ | ⟨e, -, rfl⟩ := exec_rmdir hd
  · obtain ⟨-, hrm⟩ := FS.pathRmdir_ok hp'
    rw [h₂.2] at hrm
    obtain ⟨hino, -, -⟩ := FS.rmdir_frame hrm
    have hn := FS.node_rmdir hrm l
    rw [if_neg ht] at hn
    rw [← h₂.1]
    simp [FS.view, hn, hino]
  · exact h₂.1

/-- The destination of a copy is none of the names at the source. -/
theorem dest_ne {fs fs₁ : FS} {pick : Str} (hx : fs.pathRename src dest = .error .EXDEV)
    (hi : fs.node (norm fs.cwd src) = some (.file i))
    (hm : fs.mkdtemp (moveTemplate (dirname src)) pick = some (.ok (tmpdir, fs₁))) :
    norm fs.cwd dest ≠ norm fs.cwd src ∧ norm fs.cwd dest ≠ norm fs.cwd tmpdir ∧
    norm fs.cwd dest ≠ parkedEntry :: norm fs.cwd tmpdir := by
  obtain ⟨hr, -, -, -, u, v, hu, hv, huv⟩ := FS.pathRename_exdev hx
  have htail : norm fs.cwd dest ≠ norm fs.cwd src := fun e => huv (by rw [e, hu] at hv; exact Option.some.inj hv)
  refine ⟨htail, fun e => ?_, fun e => ?_⟩
  · rw [e, tail_tmpdir hr hi hm, hu] at hv
    exact huv (Option.some.inj hv)
  · have hfree := (FS.mkdtemp_ok hm).2.2.2.1
    simp [e, FS.dev, hfree] at hv

/-- The copy was renamed to `dest`. -/
theorem placed_of_published {fs₂ : FS} (hP : Parked w.fs fs₂ (norm w.fs.cwd src) (norm w.fs.cwd tmpdir) i)
    (hA : Added fs₂ w₃.fs (norm w.fs.cwd dtname) x) (hne : tmpdir ≠ [])
    (hd : norm w.fs.cwd dest ≠ norm w.fs.cwd src ∧ norm w.fs.cwd dest ≠ norm w.fs.cwd tmpdir ∧
      norm w.fs.cwd dest ≠ parkedEntry :: norm w.fs.cwd tmpdir)
    (hr : w₃.fs.pathRename dtname dest = .ok w₄.fs)
    (hu : (Op.unlink (parkedName tmpdir)).exec ch₂ w₄ = some (r₂, w₂))
    (hrm : (Op.rmdir tmpdir).exec ch₃ w₂ = some (r₃, w')) : Placed w w' src dest fi ↔ crcText x.data = fi.crc32 := by
  have hcwd : w₃.fs.cwd = w.fs.cwd := hA.cwd.trans hP.cwd
  obtain ⟨-, -, hr⟩ := FS.pathRename_ok hr
  rw [hcwd] at hr
  have hc : w₃.fs.node (norm w.fs.cwd dtname) = some (.file fs₂.next) := by rw [hA.node, if_pos rfl]
  obtain ⟨hnode, hino, -, hcwd₄⟩ := FS.rename_file hr hc
  rw [hcwd] at hcwd₄
  have hsrc := hP.src_ne
  have h₁ : w'.fs.view (norm w.fs.cwd dest) = some (.file x.data) := by
    rw [view_cleanup hne hu hrm (by rw [hcwd₄]; exact hd.2.1) (by rw [hcwd₄]; exact hd.2.2),
      FS.view_file (by rw [hnode, if_pos rfl]), hino, hA.inode]
    simp
  have h₂ : w'.fs.view (norm w.fs.cwd src) = none := by
    rw [view_cleanup hne hu hrm (by rw [hcwd₄]; exact hsrc.1) (by rw [hcwd₄]; exact hsrc.2)]
    apply FS.view_none
    rw [hnode, if_neg (Ne.symm hd.1)]
    split
    · rfl
    · rename_i hs; rw [hA.node, if_neg hs, hP.node _ hsrc.1, if_neg hsrc.2, if_pos rfl]
  simp [Placed, h₁, h₂]

/-- The copy stayed where it was made. -/
theorem placed_of_unpublished {fs₂ : FS} (hP : Parked w.fs fs₂ (norm w.fs.cwd src) (norm w.fs.cwd tmpdir) i)
    (hA : Added fs₂ w₃.fs (norm w.fs.cwd dtname) x) (hne : tmpdir ≠ [])
    (hd : norm w.fs.cwd dest ≠ norm w.fs.cwd src ∧ norm w.fs.cwd dest ≠ norm w.fs.cwd tmpdir ∧
      norm w.fs.cwd dest ≠ parkedEntry :: norm w.fs.cwd tmpdir)
    (hu : (Op.unlink (parkedName tmpdir)).exec ch₂ w₃ = some (r₂, w₂))
    (hrm : (Op.rmdir tmpdir).exec ch₃ w₂ = some (r₃, w')) :
    Placed w w' src dest fi ↔ (norm w.fs.cwd dtname = norm w.fs.cwd dest ∧ crcText x.data = fi.crc32) ∨
      (norm w.fs.cwd dtname ≠ norm w.fs.cwd dest ∧ norm w.fs.cwd dtname ≠ norm w.fs.cwd src ∧
        ∃ data, w.fs.view (norm w.fs.cwd dest) = some (.file data) ∧ crcText data = fi.crc32) := by
  have hcwd : w₃.fs.cwd = w.fs.cwd := hA.cwd.trans hP.cwd
  have hsrc := hP.src_ne
  have hview : ∀ l, l ≠ norm w.fs.cwd tmpdir → l ≠ parkedEntry :: norm w.fs.cwd tmpdir →
      w'.fs.view l = w₃.fs.view l := fun l ht hp =>
    view_cleanup hne hu hrm (by rw [hcwd]; exact ht) (by rw [hcwd]; exact hp)
  have hcopy : w₃.fs.view (norm w.fs.cwd dtname) = some (.file x.data) := by
    rw [FS.view_file (by rw [hA.node, if_pos rfl]), hA.inode]
    simp
  have h₁ := hview _ hd.2.1 hd.2.2
  have h₂ := hview _ hsrc.1 hsrc.2
  have hs : norm w.fs.cwd dtname ≠ norm w.fs.cwd src → w₃.fs.view (norm w.fs.cwd src) = none := fun hc =>
    FS.view_none (by rw [hA.node, if_neg (Ne.symm hc), hP.node _ hsrc.1, if_neg hsrc.2, if_pos rfl])
  by_cases hcd : norm w.fs.cwd dtname = norm w.fs.cwd dest
  · have hcs : norm w.fs.cwd dtname ≠ norm w.fs.cwd src := hcd ▸ hd.1
    rw [hcd] at hcopy
    simp [Placed, h₁, h₂, hcopy, hs hcs, hcd]
  by_cases hcs : norm w.fs.cwd dtname = norm w.fs.cwd src
  · rw [hcs] at hcopy
    simp [Placed, h₂, hcopy, hcs, Ne.symm hd.1]
  have hdest : w₃.fs.view (norm w.fs.cwd dest) = w.fs.view (norm w.fs.cwd dest) := by
    refine FS.view_eq_of_node ?_ fun j hj => ?_
    · rw [hA.node, if_neg (Ne.symm hcd), hP.node _ hd.2.1, if_neg hd.2.2, if_neg hd.1]
    · rw [hA.inode, Function.update_of_ne (by rw [hP.next]; exact Nat.ne_of_lt (w.fs.bound _ _ hj)), hP.inode]
  simp [Placed, h₁, h₂, hs hcs, hdest, hcd, hcs]

end Copy

section

variable {env : Env} {src dest : Str} {fi : FileInfo} {w w' : World} {tr : List Ev} {o : Outcome Exn Unit}

/-- Before the copy is published nothing can be said wrongly. -/
theorem arrives_of_early {S : Site → Prop} (h : AllAt S tr) (hr : doneAt .rename tr = false) (hp : ¬ S .publish) :
    Arrives w src dest fi tr where
  renamed h' := by rw [hr] at h'; cases h'
  published h' := by rw [doneAt_of_allAt h hp] at h'; cases h'
  unpublished h' := by rw [failedAt_of_allAt h hp] at h'; cases h'

/-- **Success.** Whatever the system calls answer: a `moveFile` that returns has put the file at `dest`, with its
checksum, and left no file at `src`, if and only if `Arrives` holds. -/
theorem moveFile_placed_iff (h : Run Machine (moveFile env src dest fi) w tr o w') (hf : o ≠ .stop .fuel) :
    (o = .ret () → Placed w w' src dest fi) ↔ Arrives w src dest fi tr := by
  rcases run_moveFile h hf with ⟨rfl, ho, hd, hs⟩ |
    ⟨i, hi, ⟨fs, hr, rfl, rfl, hd, hs⟩ | ⟨ch, tmpdir, w₁, tr₀, tr₁, hx, hm, rfl, hd, hs, hk⟩⟩
  · refine ⟨fun _ => arrives_of_early hs hd (by decide), fun _ hret => ?_⟩
    rcases ho with ⟨e, rfl⟩ | rfl <;> cases hret
  · rw [forall_prop_of_true rfl, placed_of_rename hi hr]
    refine ⟨fun h => ⟨fun _ => h, fun h' => ?_, fun h' => ?_⟩, fun h => h.renamed hd⟩
    · rw [doneAt_of_allAt hs (by decide)] at h'; cases h'
    · rw [failedAt_of_allAt hs (by decide)] at h'; cases h'
  obtain ⟨_, fs₁, hok, hm', rfl⟩ | ⟨e, he, -⟩ := exec_mkdtemp hm
  swap
  · cases he
  cases hok
  rcases run_parkAndCopy hk hf with ⟨⟨e, rfl⟩, ht⟩ |
    ⟨ch₁, fs₂, ch₂, dtname, fs₃, x, tr₂, tr₃, hp, hA, hdata, hc, rfl, -, hpub⟩
  · refine ⟨fun _ => arrives_of_early (S := fun s => s ≠ .publish) ?_ ?_ (by simp), fun _ hret => by cases hret⟩
    · rw [allAt_append]
      exact ⟨fun e he h' => by have := hs e he; rw [h'] at this; revert this; decide, fun e he => (ht e he).2⟩
    · rw [doneAt_append, hd, doneAt_of_allAt ht (by simp), Bool.or_false]
  obtain ⟨rfl, ch₃, r₃, w₄, ch₄, r₄, w₅, ch₅, r₅, e₃, e₄, e₅, rfl⟩ := run_publishCopy hpub
  have hP := parked_of_rename hm' hp hi
  have hne : tmpdir ≠ [] := (FS.mkdtemp_ok hm').2.1 ▸ fromTemplate_ne_nil
  have hdest := dest_ne hx hi hm'
  rw [hP.cwd] at hA
  -- what is read off the whole trace
  have hren : doneAt .rename tr₂ = false := doneAt_of_allAt hc (by decide)
  have hmade : ∀ rest, madeAt .mkstemp (tr₀ ++ ⟨⟨.park, .rename src (parkedName tmpdir)⟩, ch₁, .ok ()⟩ ::
      ⟨⟨.mkstemp, .mkstemp (moveTemplate (dirname dest))⟩, ch₂, .ok (dtname, fs₂.next)⟩ :: rest) = some dtname :=
    fun rest => by rw [madeAt_append hs (by decide)]; simp [Op.made]
  have hwr := written_of_allAt hs (s := .copyWrite) (by decide)
  have hp₁ := doneAt_of_allAt hs (s := .publish) (by decide)
  have hp₂ := doneAt_of_allAt hc (s := .publish) (by decide)
  have hp₃ := failedAt_of_allAt hs (s := .publish) (by decide)
  have hp₄ := failedAt_of_allAt hc (s := .publish) (by decide)
  obtain ⟨fs₄, rfl, -, hr, rfl⟩ | ⟨e, rfl, rfl, -⟩ := exec_rename e₃
  · rw [forall_prop_of_true rfl, placed_of_published hP hA hne hdest hr e₄ e₅, hdata]
    refine ⟨fun h => ⟨fun h' => ?_, fun _ => ?_, fun h' => ?_⟩, fun h => ?_⟩
    · simp [hd, hren] at h'
    · simpa [hwr, Op.written] using h
    · simp [hp₃, hp₄, Op.refused] at h'
    · simpa [hwr, Op.written] using h.published (by simp [Op.refused])
  · rw [forall_prop_of_true rfl, placed_of_unpublished hP hA hne hdest e₄ e₅, hdata]
    refine ⟨fun h => ⟨fun h' => ?_, fun h' => ?_, fun h' => ⟨dtname, hmade _, ?_⟩⟩, fun h => ?_⟩
    · simp [hd, hren] at h'
    · simp [hp₁, hp₂, Op.refused] at h'
    · simpa [hwr, Op.written] using h
    · obtain ⟨p, hp', h'⟩ := h.unpublished (by simp [Op.refused])
      cases (hmade _).symm.trans hp'
      simpa [hwr, Op.written] using h'

end

/-- The choices of a copy in which only the last rename can be made to fail. -/
def Sample.copyChoices (publish : Choice) : List Choice :=
  List.replicate 7 Sample.calm ++ [{ pick := "AAAAAA".toList }, Sample.calm, { pick := "BBBBBB".toList }] ++
    List.replicate 10 Sample.calm ++ [publish, Sample.calm, Sample.calm]

/-- The last rename fails: `moveFile` returns, there is no file at the destination, and the source is gone. -/
theorem moveFile_loses_file : ∃ tr w', Run Machine Sample.move Sample.world tr (.ret ()) w' ∧
    ¬ Placed Sample.world w' "/a/x".toList "/b/y".toList Sample.info := by
  have h : (exec? Machine Sample.move (Sample.copyChoices { err := some (.other 5) }) Sample.world).map (fun x =>
        (x.2.1, x.2.2.fs.view ["y".toList, "b".toList])) = some (.ret (), none) := by
    rw [Sample.world_eq]
    decide +kernel
  obtain ⟨⟨tr, o, w'⟩, hx, he⟩ := Option.map_eq_some_iff.1 h
  simp only [Prod.mk.injEq] at he
  obtain ⟨rfl, hv⟩ := he
  refine ⟨tr, w', exec?_sound hx, fun hp => ?_⟩
  obtain ⟨⟨data, hd, -⟩, -⟩ := hp
  have hl : norm Sample.world.fs.cwd "/b/y".toList = ["y".toList, "b".toList] := by decide +kernel
  rw [hl, hv] at hd
  cases hd

/-- The last rename succeeds: the file is moved. -/
theorem moveFile_placed_iff_copy : ∃ tr w', Run Machine Sample.move Sample.world tr (.ret ()) w' ∧
    Placed Sample.world w' "/a/x".toList "/b/y".toList Sample.info := by
  have h : (exec? Machine Sample.move (Sample.copyChoices Sample.calm) Sample.world).map (fun x =>
        (x.2.1, doneAt .rename x.1, crcText (written .copyWrite x.1), failedAt .publish x.1)) =
      some (.ret (), false, Sample.info.crc32, false) := by
    rw [Sample.world_eq]
    decide +kernel
  obtain ⟨⟨tr, o, w'⟩, hx, he⟩ := Option.map_eq_some_iff.1 h
  simp only [Prod.mk.injEq] at he
  obtain ⟨rfl, hr, hw, hp⟩ := he
  have hrun := exec?_sound hx
  refine ⟨tr, w', hrun, (moveFile_placed_iff hrun (by simp)).2 ⟨fun h' => ?_, fun _ => hw, fun h' => ?_⟩ rfl⟩
  · rw [hr] at h'; cases h'
  · rw [hp] at h'; cases h'

end OortAgent
