import OortAgent.Move
import OortAgent.Trace

/-!
# Runs of `moveFile`

The ways a call of `moveFile` can go, read off its program once: each lemma gives the calls that were made, the exact
state they left, and how the program ended.
-/

namespace OortAgent

open Lib

section Calls

variable {C : Call → Prop} {env : Env} {tmpdir dest dtname : Str} {fi : FileInfo}

theorem copyRound_calls {h : Handle} {j : Ino} {blk off : Nat} (hq : ∀ s op, op.quiet = true → C ⟨s, op⟩)
    (hw : ∀ b, C ⟨.copyWrite, .write j b⟩) : (copyRound h j blk off).Calls C := by
  refine calls_call.2 ⟨hq _ _ rfl, fun r => ?_⟩
  rcases r with e | _ | ⟨b, bs⟩
  · trivial
  · trivial
  · exact calls_call.2 ⟨hw _, fun _ => trivial⟩

/-- The calls of a copy before its end only look, and write to the copy. -/
theorem copyInto_calls {blksize : Int} {j : Ino} (hq : ∀ s op, op.quiet = true → C ⟨s, op⟩)
    (hw : ∀ b, C ⟨.copyWrite, .write j b⟩) (hp : (publishCopy tmpdir dest dtname).Calls C) :
    (copyInto env tmpdir dest fi blksize dtname j).Calls C := by
  refine calls_call.2 ⟨hq _ _ rfl, fun r => ?_⟩
  cases r with
  | error e => trivial
  | ok h =>
    dsimp only
    split
    · trivial
    refine (Proc.Calls.loop (fun off => copyRound_calls hq hw) _ _).bind fun _ => calls_call.2 ⟨hq _ _ rfl, fun _ =>
      calls_call.2 ⟨hq _ _ rfl, fun _ => calls_call.2 ⟨hq _ _ rfl, fun _ => ?_⟩⟩⟩
    refine ((fileInfo_calls dtname).mono fun c hc => hq _ _ (quiet_of_looks hc.2)).bind fun destfi => ?_
    split
    · trivial
    · exact hp

end Calls

/-! ## Runs in any semantics -/

section Said

variable {σ : Type} {M : Sem Calls σ Choice} {x x' : σ} {src dest tmpdir dtname : Str} {tr : List Ev}
  {o : Outcome Exn Unit}

theorem run_copyLoop_said {srcfd : Handle} {j : Ino} {blk : Nat} : ∀ {n off : Nat} {x : σ} {tr : List Ev},
    Run M (Proc.loop n (copyRound srcfd j blk) off) x tr o x' →
    AllAt (fun s => s = .copyRead ∨ s = .copyWrite) tr ∧ (o = .ret () ∨ o = .stop .fuel)
  | 0, off, x, _, h => by
    obtain ⟨rfl, rfl, -⟩ := run_stop.1 h
    exact ⟨allAt_nil, .inr rfl⟩
  | n + 1, off, x, tr, h => by
    obtain ⟨ch, r, x₁, tr', -, hk, rfl⟩ := run_ask.1 h
    rcases r with e | _ | ⟨b, bs⟩
    · obtain ⟨rfl, rfl, -⟩ := run_ret.1 hk
      exact ⟨by simp, .inl rfl⟩
    · obtain ⟨rfl, rfl, -⟩ := run_ret.1 hk
      exact ⟨by simp, .inl rfl⟩
    · obtain ⟨ch', r, x₂, tr'', -, hk', rfl⟩ := run_ask.1 hk
      obtain ⟨ht, ho⟩ := run_copyLoop_said hk'
      exact ⟨by simpa using ht, ho⟩

theorem run_publishCopy_said (h : Run M (publishCopy tmpdir dest dtname) x tr o x') :
    o = .ret () ∧ ∃ ch₁ r₁ ch₂ r₂ ch₃ r₃,
      tr = [⟨⟨.publish, .rename dtname dest⟩, ch₁, r₁⟩, ⟨⟨.unlinkParked, .unlink (parkedName tmpdir)⟩, ch₂, r₂⟩,
        ⟨⟨.rmdirParked, .rmdir tmpdir⟩, ch₃, r₃⟩] := by
  obtain ⟨ch₁, r₁, x₁, tr₁, -, k₁, rfl⟩ := run_ask.1 h
  obtain ⟨ch₂, r₂, x₂, tr₂, -, k₂, rfl⟩ := run_ask.1 k₁
  obtain ⟨ch₃, r₃, x₃, tr₃, -, k₃, rfl⟩ := run_ask.1 k₂
  obtain ⟨rfl, rfl, -⟩ := run_ret.1 k₃
  exact ⟨rfl, ch₁, r₁, ch₂, r₂, ch₃, r₃, rfl⟩

theorem run_undoPark_said {e : Exn} (h : Run M (undoPark src tmpdir e) x tr o x') :
    o = .throw e ∧ ∃ ch₁ r₁ ch₂ r₂,
      tr = [⟨⟨.undo, .rename (parkedName tmpdir) src⟩, ch₁, r₁⟩, ⟨⟨.rmdirUndo, .rmdir tmpdir⟩, ch₂, r₂⟩] := by
  obtain ⟨ch₁, r₁, x₁, tr₁, -, k₁, rfl⟩ := run_ask.1 h
  obtain ⟨ch₂, r₂, x₂, tr₂, -, k₂, rfl⟩ := run_ask.1 k₁
  obtain ⟨rfl, rfl, -⟩ := run_throw.1 k₂
  exact ⟨rfl, ch₁, r₁, ch₂, r₂, rfl⟩

end Said

section Runs

variable {env : Env} {src dest tmpdir dtname : Str} {fi : FileInfo} {w w' : World} {tr : List Ev} {o : Outcome Exn Unit}

/-- The copy loop only appends to the copy, and what it appends are the bytes that the writes took. -/
theorem run_copyLoop {srcfd : Handle} {j : Ino} {blk : Nat} : ∀ {n off : Nat} {w : World} {tr : List Ev},
    Run Machine (Proc.loop n (copyRound srcfd j blk) off) w tr o w' →
    AllAt (fun s => s = .copyRead ∨ s = .copyWrite) tr ∧ (o = .ret () ∨ o = .stop .fuel) ∧
    ∃ x, x.data = (w.fs.inode j).data ++ written .copyWrite tr ∧ w' = { w with fs := w.fs.setInode j x }
  | 0, _, w, _, h => by
    obtain ⟨rfl, rfl, rfl⟩ := run_stop.1 h
    exact ⟨allAt_nil, .inr rfl, w'.fs.inode j, by simp, by simp [FS.setInode]⟩
  | n + 1, off, w, tr, h => by
    obtain ⟨ch, r, w₁, tr', he, hk, rfl⟩ := run_call.1 h
    have hx := exec_looks he rfl
    subst hx
    rcases r with e | _ | ⟨b, bs⟩
    · obtain ⟨rfl, rfl, rfl⟩ := run_ret.1 hk
      exact ⟨by simp, .inl rfl, w'.fs.inode j, by simp, by simp [FS.setInode]⟩
    · obtain ⟨rfl, rfl, rfl⟩ := run_ret.1 hk
      exact ⟨by simp, .inl rfl, w'.fs.inode j, by simp, by simp [FS.setInode]⟩
    · obtain ⟨ch', r, w₂, tr'', he', hk', rfl⟩ := run_call.1 hk
      obtain ⟨ht, ho, x, hx, hw⟩ := run_copyLoop hk'
      refine ⟨by simpa using ht, ho, x, ?_, ?_⟩
      · rcases exec_write he' with ⟨m, rfl, -, -, -, rfl⟩ | ⟨e, rfl, rfl, -⟩
        · simp [hx, FS.append, Op.written]
        · simp [hx, Op.written]
      · rcases exec_write he' with ⟨m, rfl, -, -, -, rfl⟩ | ⟨e, rfl, rfl, -⟩
        · simp [hw, FS.append, FS.setInode]
        · exact hw

/-- The last three calls of a copy. -/
theorem run_publishCopy (h : Run Machine (publishCopy tmpdir dest dtname) w tr o w') :
    o = .ret () ∧ ∃ ch₁ r₁ w₁ ch₂ r₂ w₂ ch₃ r₃, (Op.rename dtname dest).exec ch₁ w = some (r₁, w₁) ∧
      (Op.unlink (parkedName tmpdir)).exec ch₂ w₁ = some (r₂, w₂) ∧ (Op.rmdir tmpdir).exec ch₃ w₂ = some (r₃, w') ∧
      tr = [⟨⟨.publish, .rename dtname dest⟩, ch₁, r₁⟩, ⟨⟨.unlinkParked, .unlink (parkedName tmpdir)⟩, ch₂, r₂⟩,
        ⟨⟨.rmdirParked, .rmdir tmpdir⟩, ch₃, r₃⟩] := by
  obtain ⟨ch₁, r₁, w₁, tr₁, h₁, k₁, rfl⟩ := run_call.1 h
  obtain ⟨ch₂, r₂, w₂, tr₂, h₂, k₂, rfl⟩ := run_call.1 k₁
  obtain ⟨ch₃, r₃, w₃, tr₃, h₃, k₃, rfl⟩ := run_call.1 k₂
  obtain ⟨rfl, rfl, rfl⟩ := run_ret.1 k₃
  exact ⟨rfl, ch₁, r₁, w₁, ch₂, r₂, w₂, ch₃, r₃, h₁, h₂, h₃, rfl⟩

/-- The checks between the making of the copy and its renaming went well. -/
def CopyChecked (fi : FileInfo) (blksize : Int) (tr : List Ev) : Prop :=
  failedAt .openParked tr = false ∧ 0 ≤ blksize ∧ statFailed .verify tr = false ∧ crcText (filled .verify tr) = fi.crc32

/-- The places of the calls between the making of the copy and its renaming. -/
def CopySite (s : Site) : Prop :=
  s = .openParked ∨ s = .copyRead ∨ s = .copyWrite ∨ s = .closeSrc ∨ s = .fsyncDest ∨ s = .closeDest ∨ s = .verify

instance : DecidablePred CopySite := fun _ => inferInstanceAs (Decidable (_ ∨ _))

/-- The copy is filled with the bytes that the writes took; then a check failed, or it was renamed. -/
theorem run_copyInto {blksize : Int} {j : Ino}
    (h : Run Machine (copyInto env tmpdir dest fi blksize dtname j) w tr o w')
    (hf : o ≠ .stop .fuel) :
    ∃ x tr₀ tr₁, x.data = (w.fs.inode j).data ++ written .copyWrite tr₀ ∧ AllAt CopySite tr₀ ∧ tr = tr₀ ++ tr₁ ∧
      ((¬ CopyChecked fi blksize tr₀ ∧ (∃ e, o = .throw e) ∧ tr₁ = [] ∧ w' = { w with fs := w.fs.setInode j x }) ∨
        (CopyChecked fi blksize tr₀ ∧
          Run Machine (publishCopy tmpdir dest dtname) { w with fs := w.fs.setInode j x } tr₁ o w')) := by
  have hself : w = { w with fs := w.fs.setInode j (w.fs.inode j) } := by simp [FS.setInode]
  obtain ⟨ch, r, w₁, tr', he, hk, rfl⟩ := run_call.1 h
  have hx := exec_looks he rfl
  subst hx
  cases r with
  | error e =>
    obtain ⟨rfl, rfl, rfl⟩ := run_throw.1 hk
    refine ⟨w'.fs.inode j, _, [], ?_, ?_, (List.append_nil _).symm, .inl ⟨?_, ⟨_, rfl⟩, rfl, hself⟩⟩
    · simp
    · simp [CopySite]
    · simp [CopyChecked, Op.refused]
  | ok srcfd =>
    dsimp only at hk
    split at hk
    · rename_i hb
      obtain ⟨rfl, rfl, rfl⟩ := run_throw.1 hk
      refine ⟨w'.fs.inode j, _, [], ?_, ?_, (List.append_nil _).symm, .inl ⟨?_, ⟨_, rfl⟩, rfl, hself⟩⟩
      · simp
      · simp [CopySite]
      · rintro ⟨-, hb', -⟩
        omega
    · rename_i hb
      rcases run_bind.1 hk with ⟨_, w₂, tr₁, tr₂, h₁, h₂, rfl⟩ | ⟨e, h₁, rfl⟩ | ⟨y, h₁, rfl⟩
      all_goals obtain ⟨ht, ho, x, hx, hw⟩ := run_copyLoop h₁
      · subst hw
        obtain ⟨ch₁, r₁, w₃, tr₃, e₁, k₁, rfl⟩ := run_call.1 h₂
        obtain ⟨ch₂, r₂, w₄, tr₄, e₂, k₂, rfl⟩ := run_call.1 k₁
        obtain ⟨ch₃, r₃, w₅, tr₅, e₃, k₃, rfl⟩ := run_call.1 k₂
        have hx₁ := exec_looks e₁ rfl
        have hx₂ := exec_looks e₂ rfl
        have hx₃ := exec_looks e₃ rfl
        subst hx₁ hx₂ hx₃
        -- the calls up to the verification `t`, and what is read off them
        have hpre : ∀ t, AllAt (· = .verify) t →
            ∃ tr₀, tr₀ = ⟨⟨.openParked, .openRead (parkedName tmpdir)⟩, ch, .ok srcfd⟩ ::
            (tr₁ ++ ⟨⟨.closeSrc, .close⟩, ch₁, r₁⟩ :: ⟨⟨.fsyncDest, .fsync j⟩, ch₂, r₂⟩ ::
              ⟨⟨.closeDest, .close⟩, ch₃, r₃⟩ :: t) ∧ AllAt CopySite tr₀ ∧
            written .copyWrite tr₀ = written .copyWrite tr₁ ∧
            (CopyChecked fi blksize tr₀ ↔ statFailed .verify t = false ∧ crcText (filled .verify t) = fi.crc32) := by
          intro t hv
          refine ⟨_, rfl, ?_, ?_, ?_⟩
          · simp only [allAt_cons, allAt_append, Ev.site_mk]
            refine ⟨by decide, fun e he => ?_, by decide, by decide, by decide, fun e he => by rw [hv e he]; decide⟩
            rcases ht e he with h | h <;> rw [h] <;> decide
          · simp [written_of_allAt hv (s := .copyWrite) (by decide)]
          · have h₁ := failedAt_of_allAt ht (s := .openParked) (by decide)
            have h₂ := failedAt_of_allAt hv (s := .openParked) (by decide)
            have h₃ := statFailed_of_allAt ht (s := .verify) (by decide)
            have h₄ := filled_of_allAt ht (s := .verify) (by decide)
            simp [CopyChecked, Op.refused, h₁, h₂, h₃, h₄]
            omega
        rcases run_bind.1 k₃ with ⟨dfi, w₆, tr₆, tr₇, h₆, h₇, rfl⟩ | ⟨e, h₆, rfl⟩ | ⟨y, h₆, rfl⟩
        all_goals obtain ⟨rfl, hv, hcase⟩ := run_fileInfo h₆
        · obtain ⟨tr₀, htr, hs, hwr, hchk⟩ := hpre _ hv
          obtain ⟨e, what, he', -⟩ | ⟨-, hst, he' | ⟨fi', he', hcrc⟩⟩ := hcase
          · cases he'
          · cases he'
          · cases he'
            split at h₇
            · rename_i hne
              obtain ⟨rfl, rfl, rfl⟩ := run_throw.1 h₇
              refine ⟨x, tr₀, [], by rw [hx, hwr], hs, by simp [htr], .inl ⟨?_, ⟨_, rfl⟩, rfl, rfl⟩⟩
              rw [hchk, ← hcrc]
              exact fun h => hne h.2
            · rename_i hne
              refine ⟨x, tr₀, tr₇, by rw [hx, hwr], hs, by simp [htr], .inr ⟨?_, h₇⟩⟩
              rw [hchk, ← hcrc]
              exact ⟨hst, by simpa using hne⟩
        · obtain ⟨tr₀, htr, hs, hwr, hchk⟩ := hpre _ hv
          obtain ⟨e, what, he', hst⟩ | ⟨-, hst, he' | ⟨fi', he', hcrc⟩⟩ := hcase <;> cases he'
          refine ⟨x, tr₀, [], by rw [hx, hwr], hs, by simp [htr], .inl ⟨?_, ⟨_, rfl⟩, rfl, rfl⟩⟩
          rw [hchk, hst]
          simp
        · obtain ⟨e, what, he', hst⟩ | ⟨-, hst, he' | ⟨fi', he', hcrc⟩⟩ := hcase <;> cases he'
          exact absurd rfl hf
      · rcases ho with ho | ho <;> cases ho
      · rcases ho with ho | ho <;> cases ho
        exact absurd rfl hf

/-- The places of the calls that end a copy, one way or the other. -/
def EndSite (s : Site) : Prop :=
  s = .publish ∨ s = .unlinkParked ∨ s = .rmdirParked ∨ s = .undo ∨ s = .rmdirUndo

instance : DecidablePred EndSite := fun _ => inferInstanceAs (Decidable (_ ∨ _))

/-- The places of the calls before the source is parked. -/
def EarlySite (s : Site) : Prop :=
  s = .accessDest ∨ s = .precheck ∨ s = .rename ∨ s = .statvfsSrc ∨ s = .statvfsDest ∨ s = .mkdtemp

instance : DecidablePred EarlySite := fun _ => inferInstanceAs (Decidable (_ ∨ _))

/-- The places of the calls of a move across devices, once the rename was refused. -/
def AcrossSite (s : Site) : Prop :=
  s = .statvfsSrc ∨ s = .statvfsDest ∨ s = .mkdtemp ∨ s = .park ∨ s = .mkstemp ∨ CopySite s ∨ EndSite s

instance : DecidablePred AcrossSite := fun _ => inferInstanceAs (Decidable (_ ∨ _))

/-- Across devices: there was no space or no temporary directory, or the copy was begun. -/
theorem run_copyAcross (h : Run Machine (copyAcross env src dest fi) w tr o w') :
    (w' = w ∧ ((∃ e, o = .throw e) ∨ o = .stop .crash) ∧ doneAt .rename tr = false ∧ AllAt EarlySite tr) ∨
    ∃ ch tmpdir w₁ tr₀ tr₁, (Op.mkdtemp (moveTemplate (dirname src))).exec ch w = some (.ok tmpdir, w₁) ∧
      tr = tr₀ ++ tr₁ ∧ doneAt .rename tr₀ = false ∧ AllAt EarlySite tr₀ ∧
      Run Machine (parkAndCopy env src dest fi (blockSize (vfsAt .statvfsSrc tr) (vfsAt .statvfsDest tr)) tmpdir)
        w₁ tr₁ o w' := by
  obtain ⟨ch₁, v₁, w₁, tr₁, e₁, k₁, rfl⟩ := run_call.1 h
  obtain ⟨ch₂, v₂, w₂, tr₂, e₂, k₂, rfl⟩ := run_call.1 k₁
  have hx₁ := exec_looks e₁ rfl
  have hx₂ := exec_looks e₂ rfl
  subst hx₁ hx₂
  split at k₂
  · obtain ⟨rfl, rfl, rfl⟩ := run_throw.1 k₂
    exact .inl ⟨rfl, .inl ⟨_, rfl⟩, by simp, by simp [EarlySite]⟩
  · obtain ⟨ch₃, r, w₃, tr₃, e₃, k₃, rfl⟩ := run_call.1 k₂
    cases r with
    | error e =>
      obtain ⟨rfl, rfl, rfl⟩ := run_stop.1 k₃
      obtain ⟨p, fs, h, -⟩ | ⟨e', -, rfl⟩ := exec_mkdtemp e₃
      · cases h
      · exact .inl ⟨rfl, .inr rfl, by simp, by simp [EarlySite]⟩
    | ok tmpdir =>
      refine .inr ⟨ch₃, tmpdir, w₃, [_, _, _], tr₃, e₃, rfl, by simp, by simp [EarlySite], ?_⟩
      simpa [Op.figures] using k₃

/-- The ways a call of `moveFile` goes: nothing changes; the file is renamed; or it is taken for a copy. -/
theorem run_moveFile (h : Run Machine (moveFile env src dest fi) w tr o w') (hf : o ≠ .stop .fuel) :
    (w' = w ∧ ((∃ e, o = .throw e) ∨ o = .stop .crash) ∧ doneAt .rename tr = false ∧ AllAt EarlySite tr) ∨
    ∃ i, w.fs.node (norm w.fs.cwd src) = some (.file i) ∧
      ((∃ fs, w.fs.pathRename src dest = .ok fs ∧ w' = { w with fs } ∧ o = .ret () ∧ doneAt .rename tr = true ∧
          AllAt EarlySite tr) ∨
        ∃ ch tmpdir w₁ tr₀ tr₁, w.fs.pathRename src dest = .error .EXDEV ∧
          (Op.mkdtemp (moveTemplate (dirname src))).exec ch w = some (.ok tmpdir, w₁) ∧
          tr = tr₀ ++ tr₁ ∧ doneAt .rename tr₀ = false ∧ AllAt EarlySite tr₀ ∧
          Run Machine (parkAndCopy env src dest fi (blockSize (vfsAt .statvfsSrc tr) (vfsAt .statvfsDest tr)) tmpdir)
            w₁ tr₁ o w') := by
  obtain ⟨ch₁, r₁, w₁, tr₁, e₁, k₁, rfl⟩ := run_call.1 h
  have hx := exec_looks e₁ rfl
  subst hx
  cases r₁ with
  | ok _ =>
    obtain ⟨rfl, rfl, rfl⟩ := run_throw.1 k₁
    exact .inl ⟨rfl, .inl ⟨_, rfl⟩, by simp, by simp [EarlySite]⟩
  | error e =>
    rcases run_bind.1 k₁ with ⟨pre, w₂, tr₂, tr₃, h₂, k₂, rfl⟩ | ⟨e', h₂, rfl⟩ | ⟨y, h₂, rfl⟩
    all_goals
      obtain ⟨rfl, ht, hcase⟩ := run_fileInfo h₂
      have ht' : AllAt EarlySite _ := fun e he => .inr (.inl (ht e he))
      have hd := doneAt_of_allAt ht (s := .rename) (by decide)
    · obtain ⟨e, what, he, -⟩ | ⟨⟨i, hi⟩, -⟩ := hcase
      · cases he
      split at k₂
      · obtain ⟨rfl, rfl, rfl⟩ := run_throw.1 k₂
        exact .inl ⟨rfl, .inl ⟨_, rfl⟩, by simp [hd], by simp [ht', EarlySite]⟩
      obtain ⟨ch₃, r₃, w₃, tr₃, e₃, k₃, rfl⟩ := run_call.1 k₂
      obtain ⟨fs, rfl, -, hr, rfl⟩ | ⟨e', rfl, rfl, he, hne⟩ := exec_rename e₃
      · obtain ⟨rfl, rfl, rfl⟩ := run_ret.1 k₃
        exact .inr ⟨i, hi, .inl ⟨fs, hr, rfl, rfl, by simp [Op.refused], by simp [ht', EarlySite]⟩⟩
      · split at k₃
        · rename_i h; cases h
        · rename_i h
          cases h
          have hr : w₃.fs.pathRename src dest = .error .EXDEV := by
            unfold Choice.inject at he
            split at he
            · rename_i x hx; cases he; exact absurd hx hne
            · exact he
          -- the figures of the whole trace are those of its last part
          have hv : ∀ s, s = .statvfsSrc ∨ s = .statvfsDest →
              vfsAt s (⟨⟨.accessDest, .access dest .F_OK⟩, ch₁, .error e⟩ :: (tr₂ ++
                ⟨⟨.rename, .rename src dest⟩, ch₃, .error .EXDEV⟩ :: tr₃)) = vfsAt s tr₃ := by
            rintro s (rfl | rfl)
            · simp [vfsAt_append ht (s := .statvfsSrc) (by decide)]
            · simp [vfsAt_append ht (s := .statvfsDest) (by decide)]
          rcases run_copyAcross k₃ with ⟨hw, ho, hd', hs⟩ | ⟨ch, tmpdir, w₁, tr₀, tr₁, hm, rfl, hd', hs, hk⟩
          · exact .inl ⟨hw, ho, by simp [hd, hd', Op.refused], by simp [ht', hs, EarlySite]⟩
          · refine .inr ⟨i, hi, .inr ⟨ch, tmpdir, w₁, ⟨⟨.accessDest, .access dest .F_OK⟩, ch₁, .error e⟩ :: (tr₂ ++
              ⟨⟨.rename, .rename src dest⟩, ch₃, .error .EXDEV⟩ :: tr₀), tr₁, hr, hm, ?_, ?_, ?_, ?_⟩⟩
            · simp
            · simp [hd, hd', Op.refused]
            · simp [ht', hs, EarlySite]
            · rw [hv _ (.inl rfl), hv _ (.inr rfl)]
              exact hk
        · obtain ⟨rfl, rfl, rfl⟩ := run_throw.1 k₃
          exact .inl ⟨rfl, .inl ⟨_, rfl⟩, by simp [hd, Op.refused], by simp [ht', EarlySite]⟩
    · exact .inl ⟨rfl, .inl ⟨_, rfl⟩, by simp [hd], by simp [ht', EarlySite]⟩
    · obtain ⟨e, what, he, -⟩ | ⟨-, -, he | ⟨fi', he, -⟩⟩ := hcase <;> cases he
      exact absurd rfl hf

end Runs

section Sites

variable {env : Env} {src dest tmpdir : Str} {fi : FileInfo}

theorem across_at {s : Site} {op : Op} (h : AcrossSite s) : AcrossSite (Call.site ⟨s, op⟩) := h

/-- A call of the branch for different devices. The file systems are looked up, and the temporary names made, in
what comes before the last slash of the two paths. -/
structure AcrossCall (src dest : Str) (c : Call) : Prop where
  site : AcrossSite c.site
  source : c.site = .statvfsSrc → c.op = .statvfs (dirname src)
  target : c.site = .statvfsDest → c.op = .statvfs (dirname dest)
  parking : c.site = .mkdtemp → c.op = .mkdtemp (moveTemplate (dirname src))
  copy : c.site = .mkstemp → c.op = .mkstemp (moveTemplate (dirname dest))

/-- The other calls. -/
theorem AcrossCall.plain {s : Site} {op : Op} (h : AcrossSite s)
    (hs : s ≠ .statvfsSrc ∧ s ≠ .statvfsDest ∧ s ≠ .mkdtemp ∧ s ≠ .mkstemp) : AcrossCall src dest ⟨s, op⟩ :=
  ⟨h, fun e => absurd e hs.1, fun e => absurd e hs.2.1, fun e => absurd e hs.2.2.1, fun e => absurd e hs.2.2.2⟩

theorem publishCopy_across {dtname : Str} : (publishCopy tmpdir dest dtname).Calls (AcrossCall src dest) :=
  calls_call.2 ⟨.plain (by decide) (by decide), fun _ => calls_call.2 ⟨.plain (by decide) (by decide), fun _ =>
    calls_call.2 ⟨.plain (by decide) (by decide), fun _ => trivial⟩⟩⟩

theorem copyRound_across {h : Handle} {j : Ino} {blk off : Nat} :
    (copyRound h j blk off).Calls (AcrossCall src dest) := by
  refine calls_call.2 ⟨.plain (by decide) (by decide), fun r => ?_⟩
  rcases r with e | _ | ⟨b, bs⟩
  · trivial
  · trivial
  · exact calls_call.2 ⟨.plain (by decide) (by decide), fun _ => trivial⟩

/-- From the opening of the parked source on. -/
theorem copyInto_across {blksize : Int} {dtname : Str} {j : Ino} :
    (copyInto env tmpdir dest fi blksize dtname j).Calls (AcrossCall src dest) := by
  refine calls_call.2 ⟨.plain (by decide) (by decide), fun r => ?_⟩
  cases r with
  | error e => trivial
  | ok h =>
    dsimp only
    split
    · trivial
    · refine (Proc.Calls.loop (fun _ => copyRound_across) _ _).bind fun _ =>
        calls_call.2 ⟨.plain (by decide) (by decide), fun _ =>
        calls_call.2
          ⟨.plain (by decide) (by decide), fun _ => calls_call.2 ⟨.plain (by decide) (by decide), fun _ => ?_⟩⟩⟩
      refine ((fileInfo_calls _).mono fun c hc => ?_).bind fun destfi => ?_
      · obtain ⟨s, op⟩ := c
        obtain ⟨rfl, -⟩ := hc
        exact .plain (by decide) (by decide)
      · split
        · trivial
        · exact publishCopy_across

theorem copyAcross_calls : (copyAcross env src dest fi).Calls (AcrossCall src dest) := by
  have hsrc : AcrossCall src dest ⟨.statvfsSrc, .statvfs (dirname src)⟩ := by
    constructor <;> first | exact across_at (by decide) | exact fun _ => rfl | exact fun h => nomatch h
  have hdest : AcrossCall src dest ⟨.statvfsDest, .statvfs (dirname dest)⟩ := by
    constructor <;> first | exact across_at (by decide) | exact fun _ => rfl | exact fun h => nomatch h
  have hpark : AcrossCall src dest ⟨.mkdtemp, .mkdtemp (moveTemplate (dirname src))⟩ := by
    constructor <;> first | exact across_at (by decide) | exact fun _ => rfl | exact fun h => nomatch h
  have hcopy : AcrossCall src dest ⟨.mkstemp, .mkstemp (moveTemplate (dirname dest))⟩ := by
    constructor <;> first | exact across_at (by decide) | exact fun _ => rfl | exact fun h => nomatch h
  unfold copyAcross
  refine calls_call.2 ⟨hsrc, fun srcvfs => calls_call.2 ⟨hdest, fun destvfs => ?_⟩⟩
  generalize checkDiskFree env fi.size destvfs.2 = space
  cases space with
  | false => trivial
  | true =>
    refine calls_call.2 ⟨hpark, fun r => ?_⟩
    cases r with
    | error e => trivial
    | ok tmpdir =>
      refine calls_call.2 ⟨.plain (by decide) (by decide), fun r => ?_⟩
      cases r with
      | error e => trivial
      | ok _ =>
        refine Proc.Calls.handle (calls_call.2 ⟨hcopy, fun r => ?_⟩) fun e =>
          calls_call.2 ⟨.plain (by decide) (by decide), fun _ =>
          calls_call.2 ⟨.plain (by decide) (by decide), fun _ => trivial⟩⟩
        rcases r with e | ⟨dtname, j⟩
        · trivial
        · exact copyInto_across

/-- The places of its calls. -/
theorem copyAcross_sites : (copyAcross env src dest fi).Calls (fun c : Call => AcrossSite c.site) :=
  copyAcross_calls.mono fun _ hc => hc.site

/-- The calls of `move_file`. -/
theorem moveFile_calls {C : Call → Prop} (hdest : ∀ op, C ⟨.accessDest, op⟩) (hsrc : ∀ op, C ⟨.precheck, op⟩)
    (hrename : ∀ op, C ⟨.rename, op⟩) (hacross : ∀ c, AcrossCall src dest c → C c) :
    (moveFile env src dest fi).Calls C := by
  refine calls_call.2 ⟨hdest _, fun r => ?_⟩
  cases r with
  | ok _ => trivial
  | error _ =>
    refine ((fileInfo_calls _).mono fun c hc => ?_).bind fun precheck => ?_
    · obtain ⟨s, op⟩ := c
      obtain ⟨rfl, -⟩ := hc
      exact hsrc op
    · split
      · trivial
      · refine calls_call.2 ⟨hrename _, fun r => ?_⟩
        split
        · trivial
        · exact copyAcross_calls.mono hacross
        · trivial

end Sites

/-! ## The parked source -/

/-- The entry of the parked source. -/
def parkedEntry : Name := "file_move".toList

/-- The file `i` at `a` was moved to its place in a new directory `t`. -/
structure Parked (fs fs' : FS) (a t : Loc) (i : Ino) : Prop where
  file : fs.node a = some (.file i)
  free : fs.node t = none
  node : ∀ l, l ≠ t → fs'.node l = if l = parkedEntry :: t then some (.file i) else if l = a then none else fs.node l
  dir : fs'.isDir t = true
  inode : fs'.inode = fs.inode
  next : fs'.next = fs.next
  cwd : fs'.cwd = fs.cwd

theorem parkedEntry_plain : Plain parkedEntry := by decide

section Park

variable {fs fs₁ fs₂ fs₃ fs₄ : FS} {src tmpdir d : Str} {pick : Str} {i : Ino}

/-- The names that the templates of `move_file` give. -/
theorem fromTemplate_moveTemplate :
    FS.fromTemplate (moveTemplate d) pick = d ++ '/' :: ("file_move_".toList ++ pick) := by
  have h : moveTemplate d = (d ++ "/file_move_".toList) ++ "XXXXXX".toList := by simp [moveTemplate]
  have hl : (moveTemplate d).length - 6 = (d ++ "/file_move_".toList).length := by simp [moveTemplate]
  rw [FS.fromTemplate, hl, h, List.take_left]
  simp

theorem fromTemplate_ne_nil : FS.fromTemplate (moveTemplate d) pick ≠ [] := by
  simp [fromTemplate_moveTemplate]

theorem picked_plain (h : FS.Pick pick) : Plain ("file_move_".toList ++ pick) := by
  refine ⟨by simp, by simp, by simp, fun hm => ?_⟩
  rcases List.mem_append.1 hm with hm | hm
  · revert hm; decide
  · have := List.all_eq_true.1 h.2 _ hm
    revert this; decide

/-- The location of a name that a template gave. -/
theorem norm_picked (cwd : Loc) (d : Str) {pick : Str} (hp : FS.Pick pick) :
    ∃ l, norm cwd (FS.fromTemplate (moveTemplate d) pick) = ("file_move_".toList ++ pick) :: l := by
  rw [fromTemplate_moveTemplate]
  by_cases hd : d = []
  · exact ⟨[], by rw [hd, List.nil_append, norm_root_child (picked_plain hp)]⟩
  · exact ⟨_, norm_child hd (picked_plain hp)⟩

/-- An entry beside a file. -/
theorem norm_beside {m : Name} (hr : fs.resolve src = .ok (norm fs.cwd src))
    (hi : fs.node (norm fs.cwd src) = some (.file i)) (hs : '/' ∈ src) (hm : Plain m) :
    norm fs.cwd (dirname src ++ '/' :: m) = m :: (norm fs.cwd src).tail := by
  have hsrc := dirname_tailname hs
  have ht : Plain (tailname src) :=
    FS.plain_of_resolve_file (slash_notMem_tailname src) (by rw [← hsrc]; exact hr) hi
  by_cases hd : dirname src = []
  · rw [hd, List.nil_append] at hsrc
    rw [hd, List.nil_append, norm_root_child hm, hsrc, norm_root_child ht, List.tail_cons]
  · rw [norm_child hd hm]
    conv_rhs => rw [hsrc, norm_child hd ht, List.tail_cons]

/-- The temporary directory is beside the source. -/
theorem tail_tmpdir (hr : fs.resolve src = .ok (norm fs.cwd src)) (hi : fs.node (norm fs.cwd src) = some (.file i))
    (hm : fs.mkdtemp (moveTemplate (dirname src)) pick = some (.ok (tmpdir, fs₁))) :
    (norm fs.cwd tmpdir).tail = (norm fs.cwd src).tail := by
  obtain ⟨hp, rfl, -, -, hd⟩ := FS.mkdtemp_ok hm
  rw [fromTemplate_moveTemplate] at hd ⊢
  by_cases hs : '/' ∈ src
  · rw [norm_beside hr hi hs (picked_plain hp), List.tail_cons]
  · -- without a slash the directory would be made inside the file
    have hd' : dirname src = src := by rw [dirname, if_neg hs]
    have hne : src ≠ [] := by
      rintro rfl
      simp [FS.resolve] at hr
    rw [hd', norm_child hne (picked_plain hp)] at hd
    obtain ⟨n, l, v, hl, hv, -, -⟩ := FS.mkdir_ok hd
    cases hl
    rw [hi] at hv
    cases hv

theorem norm_parkedName {cwd : Loc} (h : tmpdir ≠ []) :
    norm cwd (parkedName tmpdir) = parkedEntry :: norm cwd tmpdir :=
  norm_child h parkedEntry_plain

/-- A name below one that is not there is not there. -/
theorem node_below_free {t : Loc} (h : fs.node t = none) (n : Name) : fs.node (n :: t) = none := by
  by_contra hn
  have := FS.isDir_of_child hn
  simp [FS.isDir, h] at this

theorem Parked.src_ne {a t : Loc} (h : Parked fs fs₁ a t i) : a ≠ t ∧ a ≠ parkedEntry :: t := by
  constructor
  · rintro rfl
    have := h.file
    rw [h.free] at this
    cases this
  · rintro rfl
    have := h.file
    rw [node_below_free h.free] at this
    cases this

/-- The place of the parked source. -/
theorem Parked.node_parked {a t : Loc} (h : Parked fs fs₁ a t i) : fs₁.node (parkedEntry :: t) = some (.file i) := by
  rw [h.node _ (by simp), if_pos rfl]

/-- `mkdtemp` and the first rename park the source. -/
theorem parked_of_rename (hm : fs.mkdtemp (moveTemplate d) pick = some (.ok (tmpdir, fs₁)))
    (hr : fs₁.pathRename src (parkedName tmpdir) = .ok fs₂) (hi : fs.node (norm fs.cwd src) = some (.file i)) :
    Parked fs fs₂ (norm fs.cwd src) (norm fs.cwd tmpdir) i := by
  obtain ⟨-, htmp, -, hfree, hd⟩ := FS.mkdtemp_ok hm
  have hne : tmpdir ≠ [] := htmp ▸ fromTemplate_ne_nil
  obtain ⟨n, l, v, hl, hv, -, rfl⟩ := FS.mkdir_ok hd
  have hnode := FS.node_putDir (n := n) (d := l) (v := v) (w := true) (FS.isDir_iff.2 ⟨v, true, hv⟩) (hl ▸ hfree)
  have hsrc : norm fs.cwd src ≠ norm fs.cwd tmpdir := fun e => by rw [e, hfree] at hi; cases hi
  obtain ⟨-, -, hr⟩ := FS.pathRename_ok hr
  simp only [FS.cwd_putDir, norm_parkedName hne] at hr
  have hi₁ : (fs.putDir n l v true).node (norm fs.cwd src) = some (.file i) := by rw [hnode, if_neg (hl ▸ hsrc), hi]
  obtain ⟨hn₂, hino, hnext, hcwd⟩ := FS.rename_file hr hi₁
  have ht : fs₂.node (norm fs.cwd tmpdir) = some (.dir v true) := by
    rw [hn₂, if_neg (by simp), if_neg (Ne.symm hsrc), hnode, ← hl, if_pos rfl]
  refine ⟨hi, hfree, fun k hk => ?_, FS.isDir_iff.2 ⟨v, true, ht⟩, by simp [hino], by simp [hnext], by simp [hcwd]⟩
  rw [hn₂, hnode, ← hl, if_neg hk]

/-- The handler puts the source back and takes the directory away. -/
theorem node_undo (hne : tmpdir ≠ []) (hi : fs.node (norm fs.cwd (parkedName tmpdir)) = some (.file i))
    (hr : fs.pathRename (parkedName tmpdir) src = .ok fs₁) (hd : fs₁.pathRmdir tmpdir = .ok fs₂) :
    (∀ l, fs₂.node l = if l = norm fs.cwd tmpdir then none else if l = norm fs.cwd src then some (.file i) else
      if l = parkedEntry :: norm fs.cwd tmpdir then none else fs.node l) ∧ fs₂.inode = fs.inode := by
  obtain ⟨-, -, hr⟩ := FS.pathRename_ok hr
  obtain ⟨hn, hino, -, hcwd⟩ := FS.rename_file hr hi
  obtain ⟨-, hd⟩ := FS.pathRmdir_ok hd
  obtain ⟨-, -, -, -, hfs⟩ := FS.rmdir_ok hd
  refine ⟨fun l => ?_, by rw [hfs, FS.inode_erase, hino]⟩
  rw [FS.node_rmdir hd, hcwd, hn, norm_parkedName hne]

end Park

/-! ## The copy -/

/-- A new file at `t`. -/
structure Added (fs fs' : FS) (t : Loc) (x : Inode) : Prop where
  free : fs.node t = none
  node : ∀ l, fs'.node l = if l = t then some (.file fs.next) else fs.node l
  inode : fs'.inode = Function.update fs.inode fs.next x
  cwd : fs'.cwd = fs.cwd

/-- `mkstemp` adds an empty file. -/
theorem added_of_mkstemp {fs fs' : FS} {tmpl pick p : Str} {now : Int} {j : Ino}
    (h : fs.mkstemp tmpl pick now = some (.ok ((p, j), fs'))) :
    j = fs.next ∧ Added fs fs' (norm fs.cwd p) ⟨[], true, now, now⟩ := by
  obtain ⟨-, -, rfl, -, hfree, hm⟩ := FS.mkstemp_ok h
  obtain ⟨n, d, hl, hw, hn, rfl⟩ := FS.mkfile_ok hm
  have hd := FS.isDir_of_writable hw
  rw [hl] at hn
  refine ⟨rfl, hfree, fun l => ?_, FS.inode_putFile hd hn, by simp⟩
  rw [FS.node_putFile hd hn, hl]

/-- Another content for the new file. -/
theorem Added.setInode {fs fs' : FS} {t : Loc} {x : Inode} (h : Added fs fs' t x) (y : Inode) :
    Added fs (fs'.setInode fs.next y) t y :=
  ⟨h.free, h.node, by simp [h.inode], h.cwd⟩

/-- Calls elsewhere do not change the outcome of the checks. -/
theorem copyChecked_append {S T : Site → Prop} (fi : FileInfo) (b : Int) {tr₁ : List Ev} (tr₂ : List Ev) {tr₃ : List Ev}
    (h₁ : AllAt S tr₁)
    (h₃ : AllAt T tr₃) (hS : ¬ S .openParked ∧ ¬ S .verify) (hT : ¬ T .openParked ∧ ¬ T .verify) :
    CopyChecked fi b (tr₁ ++ (tr₂ ++ tr₃)) ↔ CopyChecked fi b tr₂ := by
  simp [CopyChecked, failedAt_of_allAt h₁ hS.1, failedAt_of_allAt h₃ hT.1, statFailed_of_allAt h₁ hS.2,
    statFailed_of_allAt h₃ hT.2, filled_of_allAt h₁ hS.2, filled_of_allAt h₃ hT.2]

section RunParked

variable {env : Env} {dest tmpdir : Str} {fi : FileInfo} {w w' : World} {tr : List Ev} {o : Outcome Exn Unit}

/-- The `try` block: `mkstemp` failed; or there is a copy, and it was left where a check failed, or renamed. -/
theorem run_copyParked {blksize : Int} (h : Run Machine (copyParked env tmpdir dest fi blksize) w tr o w')
    (hf : o ≠ .stop .fuel) :
    ((∃ e, o = .throw e) ∧ w' = w ∧ AllAt (· = .mkstemp) tr ∧ doneAt .mkstemp tr = false) ∨
    ∃ ch dtname fs₁ x tr₀ tr₁, Added w.fs fs₁ (norm w.fs.cwd dtname) x ∧ x.data = written .copyWrite tr₀ ∧
      AllAt CopySite tr₀ ∧
      tr = ⟨⟨.mkstemp, .mkstemp (moveTemplate (dirname dest))⟩, ch, .ok (dtname, w.fs.next)⟩ :: (tr₀ ++ tr₁) ∧
      ((¬ CopyChecked fi blksize tr₀ ∧ (∃ e, o = .throw e) ∧ tr₁ = [] ∧ w' = { w with fs := fs₁ }) ∨
        (CopyChecked fi blksize tr₀ ∧ Run Machine (publishCopy tmpdir dest dtname) { w with fs := fs₁ } tr₁ o w')) := by
  obtain ⟨ch, r, w₁, tr', he, hk, rfl⟩ := run_call.1 h
  obtain ⟨dtname, j, fs, rfl, hm, rfl⟩ | ⟨e, rfl, rfl⟩ := exec_mkstemp he
  · obtain ⟨rfl, hadd⟩ := added_of_mkstemp hm
    obtain ⟨x, tr₀, tr₁, hx, hs, rfl, hend⟩ := run_copyInto hk hf
    have hdata : (fs.inode w.fs.next).data = [] := by simp [hadd.inode]
    rw [hdata, List.nil_append] at hx
    exact .inr ⟨ch, dtname, _, x, tr₀, tr₁, hadd.setInode x, hx, hs, rfl, hend⟩
  · obtain ⟨rfl, rfl, rfl⟩ := run_throw.1 hk
    exact .inl ⟨⟨_, rfl⟩, rfl, by simp, by simp [Op.refused]⟩

/-- The handler: it makes its two calls and throws again. -/
theorem run_undoPark {src : Str} {e : Exn} (h : Run Machine (undoPark src tmpdir e) w tr o w') :
    o = .throw e ∧ ∃ ch₁ r₁ w₁ ch₂ r₂, (Op.rename (parkedName tmpdir) src).exec ch₁ w = some (r₁, w₁) ∧
      (Op.rmdir tmpdir).exec ch₂ w₁ = some (r₂, w') ∧
      tr = [⟨⟨.undo, .rename (parkedName tmpdir) src⟩, ch₁, r₁⟩, ⟨⟨.rmdirUndo, .rmdir tmpdir⟩, ch₂, r₂⟩] := by
  obtain ⟨ch₁, r₁, w₁, tr₁, e₁, k₁, rfl⟩ := run_call.1 h
  obtain ⟨ch₂, r₂, w₂, tr₂, e₂, k₂, rfl⟩ := run_call.1 k₁
  obtain ⟨rfl, rfl, rfl⟩ := run_throw.1 k₂
  exact ⟨rfl, ch₁, r₁, w₁, ch₂, r₂, e₁, e₂, rfl⟩

/-- A copy threw without publishing anything, or it went through its checks to the end. -/
theorem run_parkAndCopy {src : Str} {blksize : Int}
    (h : Run Machine (parkAndCopy env src dest fi blksize tmpdir) w tr o w')
    (hf : o ≠ .stop .fuel) :
    ((∃ e, o = .throw e) ∧ AllAt (fun s => s ≠ .rename ∧ s ≠ .publish) tr) ∨
    ∃ ch fs₂ ch' dtname fs₃ x tr₀ tr₁, w.fs.pathRename src (parkedName tmpdir) = .ok fs₂ ∧
      Added fs₂ fs₃ (norm fs₂.cwd dtname) x ∧ x.data = written .copyWrite tr₀ ∧ AllAt CopySite tr₀ ∧
      tr = ⟨⟨.park, .rename src (parkedName tmpdir)⟩, ch, .ok ()⟩ ::
        ⟨⟨.mkstemp, .mkstemp (moveTemplate (dirname dest))⟩, ch', .ok (dtname, fs₂.next)⟩ :: (tr₀ ++ tr₁) ∧
      CopyChecked fi blksize tr₀ ∧ Run Machine (publishCopy tmpdir dest dtname) { w with fs := fs₃ } tr₁ o w' := by
  have hcopy : ∀ tr, AllAt CopySite tr → AllAt (fun s => s ≠ .rename ∧ s ≠ .publish) tr := fun tr ht e he => by
    have := ht e he
    constructor <;> (intro h; rw [h] at this; revert this; decide)
  obtain ⟨ch, r, w₂, tr', he, hk, rfl⟩ := run_call.1 h
  obtain ⟨fs₂, rfl, -, hp, rfl⟩ | ⟨e, rfl, rfl, -⟩ := exec_rename he
  swap
  · obtain ⟨rfl, rfl, rfl⟩ := run_throw.1 hk
    exact .inl ⟨⟨_, rfl⟩, by simp⟩
  rcases run_handle.1 hk with ⟨a, hc, rfl⟩ | ⟨x, hc, rfl⟩ | ⟨e, w₃, tr₁, tr₂, hc, hh, rfl⟩
  · obtain ⟨⟨e, he⟩, -⟩ | ⟨ch', dtname, fs₃, x, tr₀, tr₁, hadd, hx, hs, rfl, ⟨-, ⟨e, he⟩, -⟩ | ⟨hchk, hpub⟩⟩ :=
      run_copyParked hc hf
    · cases he
    · cases he
    · exact .inr ⟨ch, fs₂, ch', dtname, fs₃, x, tr₀, tr₁, hp, hadd, hx, hs, rfl, hchk, hpub⟩
  · obtain ⟨⟨e, he⟩, -⟩ | ⟨ch', dtname, fs₃, x, tr₀, tr₁, hadd, hx, hs, rfl, ⟨-, ⟨e, he⟩, -⟩ | ⟨hchk, hpub⟩⟩ :=
      run_copyParked hc hf
    · cases he
    · cases he
    · cases (run_publishCopy hpub).1
  · obtain ⟨rfl, ch₁, r₁, w₁, ch₂, r₂, -, -, rfl⟩ := run_undoPark hh
    refine .inl ⟨⟨_, rfl⟩, ?_⟩
    obtain ⟨-, -, hs, -⟩ | ⟨ch', dtname, fs₃, x, tr₀, tr₁, -, -, hs, rfl, ⟨-, -, rfl, -⟩ | ⟨-, hpub⟩⟩ :=
      run_copyParked hc (by simp)
    · have hs' : AllAt (fun s => s ≠ .rename ∧ s ≠ .publish) tr₁ := fun e he => by rw [hs e he]; decide
      simp [hs']
    · simp [hcopy tr₀ hs]
    · cases (run_publishCopy hpub).1

end RunParked

/-- A file to another device. -/
def Sample.move : Prog Unit :=
  moveFile (Sample.env Sample.noCodec) "/a/x".toList "/b/y".toList Sample.info

end OortAgent
