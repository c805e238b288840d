import OortAgent.Lib.Always
import OortAgent.Placed
import OortAgent.Served

/-!
# The good copy of a file that is being moved

From the check of the source on, a file with the checksum of `fi` is on disk at every instant of a `move_file`: at
the source, parked, as a finished copy, or at the destination. The two checks compare checksums that `getCrc`
computes, and `getCrc` takes a file that it cannot open for an empty one: `SoundReads` is what is needed of the
calls it makes.

* `always_moveChecked`: the rest of `moveFile` after its check, step by step.
* `moveFile_keeps_copy`: at every instant after the check the copy is there.
* `moveFile_loses_copy`: a run with a short write and a refused `open` that loses the only copy.
-/

namespace OortAgent

open Lib

/-- A regular file with the checksum `crc` is at `l`. -/
def HasCrc (fs : FS) (crc : Str) (l : Loc) : Prop :=
  ∃ i, fs.node l = some (.file i) ∧ crcText (fs.inode i).data = crc

/-- The names under which `moveFile` keeps a file: the source, its place in a temporary directory beside it, a
temporary file beside the destination, and the destination. -/
inductive Refuge (cwd : Loc) (src dest : Str) : Loc → Prop
  | src : Refuge cwd src dest (norm cwd src)
  | parked (pick : Str) :
    Refuge cwd src dest (parkedEntry :: norm cwd (FS.fromTemplate (moveTemplate (dirname src)) pick))
  | copy (pick : Str) : Refuge cwd src dest (norm cwd (FS.fromTemplate (moveTemplate (dirname dest)) pick))
  | dest : Refuge cwd src dest (norm cwd dest)

/-- A file with the checksum of `fi` is at one of these names. -/
def Kept (cwd : Loc) (src dest : Str) (fi : FileInfo) (w : World) : Prop :=
  ∃ l, Refuge cwd src dest l ∧ HasCrc w.fs fi.crc32 l

/-- The reads of the two checks: no read fails, and where an `open` is refused the file has the checksum of `fi`
anyway, or that is not the checksum of nothing. -/
structure SoundReads (fi : FileInfo) (w : World) (e : Ev) : Prop where
  fills : ∀ h off n, e.call.op = .fill h off n → e.refused = false
  opens : ∀ p, e.call.op = .openRead p → e.site = .precheck ∨ e.site = .verify → e.refused = true →
    fi.crc32 ≠ crcText [] ∨ HasCrc w.fs fi.crc32 (norm w.fs.cwd p)

/-! ## A file survives -/

section Survives

variable {fs fs' : FS} {crc : Str} {a b l : Loc}

theorem HasCrc.renamed (h : HasCrc fs crc a) (hr : fs.rename a b = .ok fs') : HasCrc fs' crc b := by
  obtain ⟨i, hi, hc⟩ := h
  obtain ⟨hn, hino, -⟩ := FS.rename_file hr hi
  exact ⟨i, by rw [hn, if_pos rfl], by rw [hino, hc]⟩

theorem HasCrc.unlink (h : HasCrc fs crc l) (hu : fs.unlink a = .ok fs') (hl : l ≠ a) : HasCrc fs' crc l := by
  obtain ⟨i, hi, hc⟩ := h
  exact ⟨i, by rw [FS.node_unlink hu, if_neg hl, hi], by rw [(FS.unlink_frame hu).1, hc]⟩

theorem HasCrc.rmdir (h : HasCrc fs crc l) (hr : fs.rmdir a = .ok fs') : HasCrc fs' crc l := by
  obtain ⟨i, hi, hc⟩ := h
  refine ⟨i, ?_, by rw [(FS.rmdir_frame hr).1, hc]⟩
  rw [FS.node_rmdir hr, if_neg, hi]
  rintro rfl
  have := (FS.rmdir_ok hr).1
  simp [FS.isDir, hi] at this

end Survives

section Calls

variable {ok : World → Ev → Prop} {I : World → Prop} {α : Type} {s : Site} {op : Op} {w : World} {k : op.Res → Prog α}
  {Q : Outcome Exn α → World → Prop}

theorem always_call : Always Machine ok I ((sys s op).bind k) w Q ↔
    ∀ ch r w', op.exec ch w = some (r, w') → ok w ⟨⟨s, op⟩, ch, r⟩ → I w' ∧ Always Machine ok I (k r) w' Q := Iff.rfl

/-- A call that only looks. -/
theorem always_look (hq : op.looks = true) (hI : I w) (hk : ∀ r, Always Machine ok I (k r) w Q) :
    Always Machine ok I ((sys s op).bind k) w Q := by
  refine always_call.2 fun ch r w' he _ => ?_
  have hw := exec_looks he hq
  subst hw
  exact ⟨hI, hk r⟩

end Calls

/-! ## The checks -/

section Checks

variable {env : Env} {s : Site} {file : Str} {fi pre : FileInfo} {w w' : World} {tr : List Ev}

theorem served_of_fills {h : Handle} {n off crc : Nat} {o : Outcome Exn Nat}
    (hr : Run Machine (Proc.loop n (crcRound s h) (off, crc)) w tr o w')
    (hok : ∀ e ∈ tr, SoundReads fi w e) : Served tr := by
  have hcalls : (Proc.loop n (crcRound s h) (off, crc)).Calls (fun c : Call => ∃ h off n, c.op = .fill h off n) := by
    refine Proc.Calls.loop (fun x => ?_) n _
    refine calls_call.2 ⟨⟨_, _, _, rfl⟩, fun r => ?_⟩
    dsimp only
    split <;> trivial
  intro e he
  obtain ⟨h, off, n, hop⟩ := hr.calls hcalls e he
  exact (hok e he).fills h off n hop

/-- A check that finds the checksum of `fi` was made of a file that has it. -/
theorem fileInfo_sound (hs : s = .precheck ∨ s = .verify) (h : Run Machine (fileInfo env s file) w tr (.ret pre) w')
    (hok : ∀ e ∈ tr, SoundReads fi w e) (hc : pre.crc32 = fi.crc32) : HasCrc w.fs fi.crc32 (norm w.fs.cwd file) := by
  rcases run_bind.1 h with ⟨st, w₁, tr₁, tr₂, h₁, h₂, rfl⟩ | ⟨e, -, he⟩ | ⟨x, -, he⟩
  swap
  · cases he
  swap
  · cases he
  obtain ⟨e, what, ho, -⟩ | ⟨st', i, ho, -, -, hi, -⟩ := run_fileStat h₁
  · cases ho
  have hw₁ := (Run.looks h₁ (fileStat_calls file)).1
  subst hw₁
  rcases run_bind.1 h₂ with ⟨crc, w₂, tr₃, tr₄, h₃, h₄, rfl⟩ | ⟨e, -, he⟩ | ⟨x, -, he⟩
  swap
  · cases he
  swap
  · cases he
  have hcrc : crc = fi.crc32 := by
    obtain ⟨-, hp, -⟩ := run_ret.1 h₄
    rw [← hc, Outcome.ret.inj hp]
  obtain ⟨ch, r, w₃, tr₅, he, hk, rfl⟩ := run_call.1 h₃
  have hw₃ := exec_looks he rfl
  subst hw₃
  cases r with
  | error e =>
    -- the file could not be opened
    obtain ⟨-, ho, -⟩ := run_ret.1 hk
    have hnil : crc = crcText [] := by rw [Outcome.ret.inj ho]; rfl
    rcases (hok ⟨⟨s, .openRead file⟩, ch, .error e⟩ (by simp)).opens file rfl hs rfl with h' | h'
    · exact absurd (hcrc.symm.trans hnil) h'
    · exact h'
  | ok x =>
    have hx := FS.pathOpen_handle (inject_ok (Prod.mk.inj (Option.some.inj he)).1).2 hi
    subst hx
    rcases run_bind.1 hk with ⟨c, w₄, tr₆, tr₇, h₆, h₇, rfl⟩ | ⟨e, -, he⟩ | ⟨x, -, he⟩
    swap
    · cases he
    swap
    · cases he
    have hserved : Served tr₆ := served_of_fills h₆ fun e he => hok e (by simp [he])
    obtain ⟨-, ho, -⟩ := run_ret.1 h₇
    refine ⟨i, hi, ?_⟩
    rw [← hcrc, Outcome.ret.inj ho, crcLoop_ret h₆ hserved, List.drop_zero]
    rfl

end Checks

/-! ## The copy, step by step -/

section Steps

variable {env : Env} {cwd : Loc} {src dest tmpdir dtname : Str} {fi : FileInfo} {w : World}

/-- The good source is parked, as the file `k`. -/
structure Holds (cwd : Loc) (tmpdir : Str) (fi : FileInfo) (k : Ino) (w : World) : Prop where
  wd : w.fs.cwd = cwd
  node : w.fs.node (parkedEntry :: norm cwd tmpdir) = some (.file k)
  good : crcText (w.fs.inode k).data = fi.crc32

theorem Holds.hasCrc {k : Ino} (h : Holds cwd tmpdir fi k w) : HasCrc w.fs fi.crc32 (parkedEntry :: norm cwd tmpdir) :=
  ⟨k, h.node, h.good⟩

/-- The last three calls, with a good copy. -/
theorem always_publishCopy {c : Loc} (hne : tmpdir ≠ []) (hcwd : w.fs.cwd = cwd) (hc : norm cwd dtname = c)
    (hrc : Refuge cwd src dest c) (hg : HasCrc w.fs fi.crc32 c) (hcp : c ≠ parkedEntry :: norm cwd tmpdir)
    (hdp : norm cwd dest ≠ parkedEntry :: norm cwd tmpdir) :
    Always Machine (SoundReads fi) (Kept cwd src dest fi) (publishCopy tmpdir dest dtname) w fun o _ =>
      o = .ret () := by
  subst hc
  -- wherever the copy is after the first call, the other two leave it there
  have hrest : ∀ {w₁ : World} {l : Loc}, w₁.fs.cwd = cwd → Refuge cwd src dest l → HasCrc w₁.fs fi.crc32 l →
      l ≠ parkedEntry :: norm cwd tmpdir → Always Machine (SoundReads fi) (Kept cwd src dest fi)
        ((sys .unlinkParked (.unlink (parkedName tmpdir))).bind fun _ =>
          (sys .rmdirParked (.rmdir tmpdir)).bind fun _ => .ret ()) w₁ fun o _ => o = .ret () := by
    intro w₁ l hcwd₁ hl hg₁ hlp
    refine always_call.2 fun ch r w₂ he _ => ?_
    have hg₂ : HasCrc w₂.fs fi.crc32 l := by
      obtain ⟨fs, -, hu, rfl⟩ | ⟨e, -, rfl, -⟩ := exec_unlink he
      · have hu' := (FS.pathUnlink_ok hu).2
        rw [hcwd₁, norm_parkedName hne] at hu'
        exact hg₁.unlink hu' hlp
      · exact hg₁
    refine ⟨⟨l, hl, hg₂⟩, always_call.2 fun ch' r' w₃ he' _ => ⟨⟨l, hl, ?_⟩, rfl⟩⟩
    obtain ⟨fs, -, hr, rfl⟩ | ⟨e, -, rfl⟩ := exec_rmdir he'
    · exact hg₂.rmdir (FS.pathRmdir_ok hr).2
    · exact hg₂
  refine always_call.2 fun ch r w₁ he _ => ?_
  obtain ⟨fs, -, -, hr, rfl⟩ | ⟨e, -, rfl, -⟩ := exec_rename he
  · have hr' := (FS.pathRename_ok hr).2.2
    rw [hcwd] at hr'
    have hg₁ := hg.renamed hr'
    exact ⟨⟨_, .dest, hg₁⟩, hrest ((FS.rename_cwd hr').trans hcwd) .dest hg₁ hdp⟩
  · exact ⟨⟨_, hrc, hg⟩, hrest hcwd hrc hg hcp⟩

/-- The handler, with the good source parked. -/
theorem always_undoPark {k : Ino} {e : Exn} (hne : tmpdir ≠ [])
    (hp : Refuge cwd src dest (parkedEntry :: norm cwd tmpdir))
    (h : Holds cwd tmpdir fi k w) :
    Always Machine (SoundReads fi) (Kept cwd src dest fi) (undoPark src tmpdir e) w fun _ _ => True := by
  refine always_call.2 fun ch r w₁ he _ => ?_
  have hk : ∃ l, Refuge cwd src dest l ∧ HasCrc w₁.fs fi.crc32 l := by
    obtain ⟨fs, -, -, hr, rfl⟩ | ⟨e, -, rfl, -⟩ := exec_rename he
    · have hr' := (FS.pathRename_ok hr).2.2
      rw [h.wd, norm_parkedName hne] at hr'
      exact ⟨_, .src, h.hasCrc.renamed hr'⟩
    · exact ⟨_, hp, h.hasCrc⟩
  obtain ⟨l, hl, hg⟩ := hk
  refine ⟨⟨l, hl, hg⟩, always_call.2 fun ch' r' w₂ he' _ => ⟨⟨l, hl, ?_⟩, trivial⟩⟩
  obtain ⟨fs, -, hr, rfl⟩ | ⟨e, -, rfl⟩ := exec_rmdir he'
  · exact hg.rmdir (FS.pathRmdir_ok hr).2
  · exact hg

/-- The copy loop writes to the copy only. -/
theorem always_copyBlocks {k j : Ino} {srcfd : Handle} {blk : Nat} {c : Loc}
    (hp : Refuge cwd src dest (parkedEntry :: norm cwd tmpdir)) (h : Holds cwd tmpdir fi k w)
    (hc : w.fs.node c = some (.file j)) (hkj : k ≠ j) :
    Always Machine (SoundReads fi) (Kept cwd src dest fi) (copyBlocks env srcfd j blk) w fun _ w' =>
      Holds cwd tmpdir fi k w' ∧ w'.fs.node c = some (.file j) := by
  refine Always.loop (J := fun _ w' => Holds cwd tmpdir fi k w' ∧ w'.fs.node c = some (.file j))
    (fun off w' hJ => ?_) _ _ _
    ⟨h, hc⟩
  refine always_look rfl ⟨_, hp, hJ.1.hasCrc⟩ fun r => ?_
  rcases r with e | _ | ⟨b, bs⟩
  · exact hJ
  · exact hJ
  · refine always_call.2 fun ch r w₂ he _ => ?_
    have h₂ : Holds cwd tmpdir fi k w₂ ∧ w₂.fs.node c = some (.file j) := by
      obtain ⟨n, -, -, -, -, rfl⟩ | ⟨e, -, rfl, -⟩ := exec_write he
      · refine ⟨⟨hJ.1.wd, hJ.1.node, ?_⟩, hJ.2⟩
        show crcText ((w'.fs.append j _ _).inode k).data = _
        rw [FS.append, FS.inode_setInode, Function.update_of_ne hkj, hJ.1.good]
      · exact hJ
    exact ⟨⟨_, hp, h₂.1.hasCrc⟩, h₂⟩

/-- From the opening of the parked source on. -/
theorem always_copyInto {k j : Ino} {blksize : Int} (hne : tmpdir ≠ [])
    (hp : Refuge cwd src dest (parkedEntry :: norm cwd tmpdir)) (hrc : Refuge cwd src dest (norm cwd dtname))
    (h : Holds cwd tmpdir fi k w) (hc : w.fs.node (norm cwd dtname) = some (.file j)) (hkj : k ≠ j)
    (hdp : norm cwd dest ≠ parkedEntry :: norm cwd tmpdir) :
    Always Machine (SoundReads fi) (Kept cwd src dest fi) (copyInto env tmpdir dest fi blksize dtname j) w fun o w' =>
      ∀ e, o = .throw e → Holds cwd tmpdir fi k w' := by
  have hcp : norm cwd dtname ≠ parkedEntry :: norm cwd tmpdir := by
    intro e
    rw [e, h.node] at hc
    exact hkj (Node.file.inj (Option.some.inj hc))
  refine always_look rfl ⟨_, hp, h.hasCrc⟩ fun r => ?_
  cases r with
  | error e => exact fun _ _ => h
  | ok srcfd =>
    dsimp only
    split
    · exact fun _ _ => h
    · refine Always.bind ((always_copyBlocks hp h hc hkj).mono fun o w₁ ho => ?_)
      cases o with
      | stop x => trivial
      | throw e => exact fun _ _ => ho.1
      | ret _ =>
        have hI : Kept cwd src dest fi w₁ := ⟨_, hp, ho.1.hasCrc⟩
        refine always_look rfl hI fun _ => always_look rfl hI fun _ => always_look rfl hI fun _ => ?_
        refine Always.bind (Always.looks (C := Looks .verify) (fun c ch r w' hl he => exec_looks he hl.2) hI
          (fileInfo_calls dtname) fun tr o hr hok => ?_)
        cases o with
        | stop x => trivial
        | throw e => exact fun _ _ => ho.1
        | ret destfi =>
          dsimp only
          split
          · exact fun _ _ => ho.1
          · rename_i hcrc
            have hg := fileInfo_sound (.inr rfl) hr hok (not_not.1 hcrc)
            rw [ho.1.wd] at hg
            refine (always_publishCopy hne ho.1.wd rfl hrc hg hcp hdp).mono fun o' w' ho' e he => ?_
            rw [ho'] at he
            cases he

/-- The branch for different devices, once there is a temporary directory. -/
theorem always_parkAndCopy {k : Ino} {blksize : Int} {pick : Str} {fs₁ : FS} (hcwd : w.fs.cwd = cwd)
    (hx : w.fs.pathRename src dest = .error .EXDEV) (hk : w.fs.node (norm cwd src) = some (.file k))
    (hg : crcText (w.fs.inode k).data = fi.crc32)
    (hm : w.fs.mkdtemp (moveTemplate (dirname src)) pick = some (.ok (tmpdir, fs₁)))
    (hI : Kept cwd src dest fi { w with fs := fs₁ }) :
    Always Machine (SoundReads fi) (Kept cwd src dest fi) (parkAndCopy env src dest fi blksize tmpdir)
      { w with fs := fs₁ } fun _ _ => True := by
  subst hcwd
  have hne : tmpdir ≠ [] := (FS.mkdtemp_ok hm).2.1 ▸ fromTemplate_ne_nil
  have hp : Refuge w.fs.cwd src dest (parkedEntry :: norm w.fs.cwd tmpdir) := by
    rw [(FS.mkdtemp_ok hm).2.1]
    exact .parked pick
  refine always_call.2 fun ch r w₁ he _ => ?_
  obtain ⟨fs₂, rfl, -, hr, rfl⟩ | ⟨e, rfl, rfl, -⟩ := exec_rename he
  swap
  · exact ⟨hI, trivial⟩
  have hP := parked_of_rename hm hr hk
  have hh : Holds w.fs.cwd tmpdir fi k { w with fs := fs₂ } :=
    ⟨hP.cwd, hP.node_parked, by show crcText (fs₂.inode k).data = _; rw [hP.inode, hg]⟩
  refine ⟨⟨_, hp, hh.hasCrc⟩, Always.handle ?_⟩
  refine always_call.2 fun ch' r' w₂ he' _ => ?_
  obtain ⟨dtname, j, fs₃, rfl, hmk, rfl⟩ | ⟨e, rfl, rfl⟩ := exec_mkstemp he'
  · obtain ⟨rfl, hA⟩ := added_of_mkstemp hmk
    have hkj : k ≠ fs₂.next := by
      rw [hP.next]
      exact Nat.ne_of_lt (w.fs.bound _ _ hk)
    have hh' : Holds w.fs.cwd tmpdir fi k { w with fs := fs₃ } := by
      refine ⟨hA.cwd.trans hP.cwd, ?_, ?_⟩
      · show fs₃.node _ = _
        rw [hA.node, if_neg, hP.node_parked]
        intro e
        have := hA.free
        rw [← e, hP.node_parked] at this
        cases this
      · show crcText (fs₃.inode k).data = _
        rw [hA.inode, Function.update_of_ne hkj, hP.inode, hg]
    have hrc : Refuge w.fs.cwd src dest (norm w.fs.cwd dtname) := by
      rw [(FS.mkstemp_ok hmk).2.1]
      exact .copy ch'.pick
    refine ⟨⟨_, hp, hh'.hasCrc⟩, (always_copyInto hne hp hrc hh' ?_ hkj (dest_ne hx hk hm).2.2).mono fun o w' ho => ?_⟩
    · show fs₃.node _ = _
      rw [hA.node, if_pos]
      show norm w.fs.cwd dtname = norm fs₂.cwd dtname
      rw [hP.cwd]
    · cases o with
      | ret _ => trivial
      | stop x => trivial
      | throw e => exact always_undoPark hne hp (ho e rfl)
  · exact ⟨⟨_, hp, hh.hasCrc⟩, always_undoPark hne hp hh⟩

/-- `moveFile` after its check of the source. -/
def moveChecked (env : Env) (src dest : Str) (fi : FileInfo) : Prog Unit := do
  match ← sys .rename (.rename src dest) with
  | .ok _ => return ()
  | .error .EXDEV => copyAcross env src dest fi
  | .error e => .throw (.system e "Error renaming".toList)

/-- From the check on a good copy is there, whatever the calls do. -/
theorem always_moveChecked (hcwd : w.fs.cwd = cwd) (h : HasCrc w.fs fi.crc32 (norm cwd src)) :
    Always Machine (SoundReads fi) (Kept cwd src dest fi) (moveChecked env src dest fi) w fun _ _ => True := by
  have hI : Kept cwd src dest fi w := ⟨_, .src, h⟩
  refine always_call.2 fun ch r w₁ he _ => ?_
  obtain ⟨fs, rfl, -, hr, rfl⟩ | ⟨e, rfl, rfl, hinj, hne⟩ := exec_rename he
  · have hr' := (FS.pathRename_ok hr).2.2
    rw [hcwd] at hr'
    exact ⟨⟨_, .dest, h.renamed hr'⟩, trivial⟩
  refine ⟨hI, ?_⟩
  split
  · trivial
  · rename_i hx
    cases hx
    have hxdev : w₁.fs.pathRename src dest = .error .EXDEV := by
      unfold Choice.inject at hinj
      split at hinj
      · rename_i x hx
        cases hinj
        exact absurd hx hne
      · exact hinj
    refine always_look rfl hI fun srcvfs => always_look rfl hI fun destvfs => ?_
    generalize checkDiskFree env fi.size destvfs.2 = space
    cases space with
    | false => trivial
    | true =>
      refine always_call.2 fun ch' r' w₂ he' _ => ?_
      obtain ⟨tmpdir, fs₁, rfl, hm, rfl⟩ | ⟨e, rfl, rfl⟩ := exec_mkdtemp he'
      · obtain ⟨k, hk, hg⟩ := h
        obtain ⟨v, hnode, hino, -⟩ := FS.node_mkdtemp hm
        have hI' : Kept cwd src dest fi { w₁ with fs := fs₁ } := by
          refine ⟨_, .src, k, ?_, ?_⟩
          · show fs₁.node _ = _
            rw [hnode, if_neg, hk]
            intro e
            have := (FS.mkdtemp_ok hm).2.2.2.1
            rw [← e, hk] at this
            cases this
          · show crcText (fs₁.inode k).data = _
            rw [hino, hg]
        exact ⟨hI', always_parkAndCopy hcwd hxdev hk hg hm hI'⟩
      · exact ⟨hI, trivial⟩
  · trivial

end Steps

/-! ## Every instant of a move -/

/-- The check of the source has been passed: the rename has been tried, or is the next call. -/
def PastCheck (tr : List Ev) (p : Prog Unit) : Prop :=
  (∃ e ∈ tr, e.site = .rename) ∨ ∃ op k, p = .sys ⟨.rename, op⟩ k

theorem not_pastCheck {tr : List Ev} {p : Prog Unit} (ht : ∀ e ∈ tr, e.site ≠ .rename)
    (hp : ∀ op k, p ≠ .sys ⟨.rename, op⟩ k) : ¬ PastCheck tr p := by
  rintro (⟨e, he, hs⟩ | ⟨op, k, h⟩)
  · exact ht e he hs
  · exact hp op k h

/-- **Nothing is lost on the way.** Stopped at any instant after its check of the source, `moveFile` leaves a file
with the checksum of `fi` at one of the names it uses, if the reads of its checks are sound. -/
theorem moveFile_keeps_copy {env : Env} {src dest : Str} {fi : FileInfo} {w w' : World} {tr : List Ev} {p : Prog Unit}
    (h : Reach Machine (SoundReads fi) (moveFile env src dest fi) w tr p w') (hp : PastCheck tr p) :
    Kept w.fs.cwd src dest fi w' := by
  have hlooks : ∀ c ch (v : World) r v', Looks .precheck c → Machine.exec c ch v = some (r, v') → v' = v :=
    fun c ch v r v' hl he => exec_looks he hl.2
  cases h with
  | nil => exact absurd hp (not_pastCheck (by simp) (by intro op k h; cases h))
  | step ch r he _ h₁ =>
    have he' : (Op.access dest .F_OK).exec ch w = some (r, _) := he
    have hw := exec_looks he' rfl
    subst hw
    cases r with
    | ok _ =>
      cases h₁
      exact absurd hp (not_pastCheck (by simp) (by intro op k h; cases h))
    | error e =>
      rcases reach_bind (p := fileInfo env .precheck src) h₁ with ⟨q, rfl, hq, hret⟩ |
        ⟨pre, w₂, tr₁, tr₂, hrun, hreach, h₂, rfl⟩
      · -- still at the check
        obtain ⟨htr, hcalls⟩ := hq.calls (fileInfo_calls src)
        refine absurd hp (not_pastCheck (fun e he => ?_) fun op k hk => ?_)
        · rcases List.mem_cons.1 he with rfl | he
          · simp
          · have := (htr e he).1
            simp [Ev.site, this]
        · cases q with
          | ret a => exact hret a rfl
          | throw e => cases hk
          | stop x => cases hk
          | sys c k' =>
            cases hk
            exact absurd hcalls.1.1 (by simp)
      · have hw₂ := (Run.looks hrun (fileInfo_calls src)).1
        subst hw₂
        split at h₂
        · cases h₂
          refine absurd hp (not_pastCheck (fun e he => ?_) (by intro op k h; cases h))
          rw [List.append_nil] at he
          rcases List.mem_cons.1 he with rfl | he
          · simp
          · have := (hreach.calls (fileInfo_calls src)).1 e he
            simp [Ev.site, this.1]
        · rename_i hcrc
          have hg := fileInfo_sound (.inl rfl) hrun (hreach.ok_of_looks hlooks (fileInfo_calls src)) (not_not.1 hcrc)
          exact (h₂.always ⟨_, .src, hg⟩ (always_moveChecked rfl hg)).1

/-- The reads of a call are sound in any state if it is not refused, or no read. -/
def Ev.sound (e : Ev) : Bool := match e.call.op with
  | .openRead _ => !e.refused
  | .fill _ _ _ => !e.refused
  | _ => true

theorem soundReads_of_all {fi : FileInfo} {tr : List Ev} (h : tr.all Ev.sound = true) :
    ∀ e ∈ tr, ∀ w, SoundReads fi w e := by
  intro e he w
  have hs := List.all_eq_true.1 h e he
  refine ⟨fun x off n hop => ?_, fun p hop _ hr => ?_⟩
  · rw [Ev.sound, hop] at hs
    simpa using hs
  · rw [Ev.sound, hop, hr] at hs
    cases hs

/-- A copy across devices, to its end. -/
theorem moveFile_keeps_copy_sample : ∃ tr p w',
    Reach Machine (SoundReads Sample.info) Sample.move Sample.world tr p w' ∧ PastCheck tr p ∧
    Kept Sample.world.fs.cwd "/a/x".toList "/b/y".toList Sample.info w' := by
  have h : (exec? Machine Sample.move (Sample.copyChoices Sample.calm) Sample.world).map (fun x =>
        (x.1.all Ev.sound, x.1.any fun e => decide (Ev.site e = .rename))) = some (true, true) := by
    rw [Sample.world_eq]
    decide +kernel
  obtain ⟨⟨tr, o, w'⟩, hx, he⟩ := Option.map_eq_some_iff.1 h
  simp only [Prod.mk.injEq] at he
  obtain ⟨hs, hr⟩ := he
  obtain ⟨p, hp⟩ :=
    (exec?_sound hx).reach (fun e he w => soundReads_of_all hs e he w : ∀ e ∈ tr, ∀ w, SoundReads Sample.info w e)
  have hpast : PastCheck tr p := by
    obtain ⟨e, he, hd⟩ := List.any_eq_true.1 hr
    exact .inl ⟨e, he, of_decide_eq_true hd⟩
  exact ⟨tr, p, w', hp, hpast, moveFile_keeps_copy hp hpast⟩

/-- A file of four bytes whose checksum is zero. -/
def Sample.zeroFs : FS :=
  (((FS.base 1).putDir "a".toList [] 1 true).putDir "b".toList [] 2 true).putFile "x".toList ["a".toList]
    ⟨[157, 10, 217, 109], true, 0, 0⟩

/-- What is known of it. -/
def Sample.zeroInfo : FileInfo := { Sample.info with size := 4, crc32 := "00000000".toList }

/-- A call that reads a file is not refused. -/
def Ev.readsWell (e : Ev) : Bool := match e.call.op with
  | .fill _ _ _ => !e.refused
  | .read _ _ _ => !e.refused
  | _ => true

/-- No file of the checksum is at `l`. -/
def lacksCrc (fs : FS) (crc : Str) (l : Loc) : Bool := match fs.node l with
  | some (.file i) => decide (crcText (fs.inode i).data ≠ crc)
  | _ => true

/-- The copy gets one byte only, and it cannot be opened to be checked: its checksum is taken to be zero, the source is
removed, and no file with the checksum of `fi` is left. No read fails. -/
theorem moveFile_loses_copy : ∃ tr w', Run Machine
      (moveFile (Sample.env Sample.noCodec) "/a/x".toList "/b/y".toList Sample.zeroInfo)
      { Sample.world with fs := Sample.zeroFs } tr (.ret ()) w' ∧
    HasCrc Sample.zeroFs Sample.zeroInfo.crc32 (norm [] "/a/x".toList) ∧
    (∀ e ∈ tr, ∀ h off n, e.call.op = .fill h off n ∨ e.call.op = .read h off n → Ev.refused e = false) ∧
    ∀ l, ¬ HasCrc w'.fs Sample.zeroInfo.crc32 l := by
  have h : (exec? Machine (moveFile (Sample.env Sample.noCodec) "/a/x".toList "/b/y".toList Sample.zeroInfo)
        (List.replicate 7 Sample.calm ++ [{ pick := "AAAAAA".toList }, Sample.calm, { pick := "BBBBBB".toList },
          Sample.calm,
          Sample.calm, { len := 1 }, Sample.calm, Sample.calm, Sample.calm, Sample.calm, Sample.calm,
          { err := some (.other 24) }, Sample.calm, Sample.calm, Sample.calm])
        { Sample.world with fs := Sample.zeroFs }).map (fun x => (x.2.1,
          x.1.all Ev.readsWell, x.2.2.fs.names.keys.all (lacksCrc x.2.2.fs Sample.zeroInfo.crc32))) =
      some (.ret (), true, true) := by decide +kernel
  obtain ⟨⟨tr, o, w'⟩, hx, he⟩ := Option.map_eq_some_iff.1 h
  simp only [Prod.mk.injEq] at he
  obtain ⟨rfl, hr, hn⟩ := he
  refine ⟨tr, w', exec?_sound hx, ⟨0, by decide +kernel, by decide +kernel⟩, fun e he x off n hop => ?_, ?_⟩
  · have := List.all_eq_true.1 hr e he
    rcases hop with hop | hop
    · simpa [Ev.readsWell, hop] using this
    · simpa [Ev.readsWell, hop] using this
  · rintro l ⟨i, hi, hc⟩
    have hl : l ∈ w'.fs.names.keys := AList.mem_keys.1 (AList.lookup_isSome.1 (Option.isSome_iff_exists.2 ⟨_, hi⟩))
    have := List.all_eq_true.1 hn l hl
    simp [lacksCrc, hi, hc] at this

end OortAgent
