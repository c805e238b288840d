import OortAgent.MoveRun
import OortAgent.Served

/-!
# Checksums of files that cannot be read

The loop of `getCrc` stops at the end of the file and at an error alike, and gives the checksum of what it has read.

- `crcLoop_part`: the loop returns, and what it has read is the beginning of the file;
- `fileInfo_truth_iff`: when `file_info` throws or tells the checksum of the whole file.
-/

namespace OortAgent

open Lib

/-- `file_info` threw, or told the checksum of the whole file. -/
def Truthful (data : Bytes) (o : Outcome Exn FileInfo) : Prop :=
  (∃ e, o = .throw e) ∨ ∃ fi, o = .ret fi ∧ fi.crc32 = crcText data

section Reading

variable {env : Env} {s : Site} {w w' : World} {tr : List Ev} {k : Ino}

/-- A block read gives bytes from the offset on, and all that it asked for unless it is refused. -/
theorem exec_fill_part {off n : Nat} {ch : Choice} {r : Bytes × Bool}
    (h : (Op.fill (.file k) off n).exec ch w = some (r, w')) : r.1 <+: (w.fs.inode k).data.drop off := by
  have h' := (Prod.mk.inj (Option.some.inj h)).1
  rw [← h']
  cases ch.err with
  | none => exact List.take_prefix _ _
  | some e => exact List.take_prefix _ _

/-- The loop of `getCrc` returns, and what it has read is the beginning of the rest of the file. -/
theorem crcLoop_part : ∀ {n off crc : Nat} {w : World} {tr : List Ev} {o : Outcome Exn Nat},
    Run Machine (Proc.loop n (crcRound s (.file k)) (off, crc)) w tr o w' → (w.fs.inode k).data.length - off < n →
    (∃ c, o = .ret c) ∧ filled s tr <+: (w.fs.inode k).data.drop off
  | 0, _, _, _, _, _, _, hn => absurd hn (Nat.not_lt_zero _)
  | n + 1, off, crc, w, tr, o, hr, hn => by
    obtain ⟨ch, ⟨b, bad⟩, w₁, tr', he, hk, rfl⟩ := run_call.1 hr
    have hb : b <+: (w.fs.inode k).data.drop off := exec_fill_part he
    have hw := exec_looks he rfl
    subst hw
    simp only [Proc.pure_eq, Proc.ret_bind] at hk
    split at hk
    · obtain ⟨rfl, rfl, -⟩ := run_ret.1 hk
      exact ⟨⟨_, rfl⟩, by simpa [Op.filled] using hb⟩
    · rename_i hlen
      rw [not_or] at hlen
      obtain ⟨rest, hrest⟩ := hb
      have hlong : b.length + rest.length = (w₁.fs.inode k).data.length - off := by
        rw [← List.length_append, hrest, List.length_drop]
      obtain ⟨hret, hpre⟩ := crcLoop_part hk (by omega)
      refine ⟨hret, ?_⟩
      have hdrop : (w₁.fs.inode k).data.drop (off + b.length) = rest := by
        rw [← List.drop_drop, ← hrest, List.drop_left]
      rw [hdrop] at hpre
      simp only [filled_cons, Ev.site_mk, if_true, Op.filled]
      rw [← hrest]
      exact List.prefix_append_right_inj b |>.2 hpre

/-- `getCrc` of a regular file gives the checksum of its beginning, as far as it was read. -/
theorem getCrc_part {file : Str} {o : Outcome Exn Str} (h : Run Machine (getCrc env s file) w tr o w')
    (hk : w.fs.node (norm w.fs.cwd file) = some (.file k)) (hf : (w.fs.inode k).data.length < env.fuel) :
    o = .ret (crcText (filled s tr)) ∧ filled s tr <+: (w.fs.inode k).data := by
  have hgot := (run_getCrc h).2
  obtain ⟨ch, r, w₁, tr', he, hk', rfl⟩ := run_call.1 h
  have hw := exec_looks he rfl
  subst hw
  cases r with
  | error e =>
    obtain ⟨rfl, rfl, -⟩ := run_ret.1 hk'
    exact ⟨hgot.resolve_left (by simp), by simp [Op.filled]⟩
  | ok x =>
    have hx := FS.pathOpen_handle (inject_ok (Prod.mk.inj (Option.some.inj he)).1).2 hk
    subst hx
    have hpart : ∀ {o₁ : Outcome Exn Nat} {tr₁ : List Ev} {w₂ : World},
        Run Machine (Proc.loop env.fuel (crcRound s (.file k)) (0, 0)) w₁ tr₁ o₁ w₂ →
        (∃ c, o₁ = .ret c) ∧ filled s tr₁ <+: (w₁.fs.inode k).data := by
      intro o₁ tr₁ w₂ h₁
      simpa using crcLoop_part h₁ (by omega)
    rcases run_bind.1 hk' with ⟨crc, w₂, tr₁, tr₂, h₁, h₂, rfl⟩ | ⟨e, h₁, rfl⟩ | ⟨x, h₁, rfl⟩
    · obtain ⟨rfl, rfl, -⟩ := run_ret.1 h₂
      refine ⟨hgot.resolve_left (by simp), ?_⟩
      simpa [Op.filled] using (hpart h₁).2
    · obtain ⟨⟨c, hc⟩, -⟩ := hpart h₁
      cases hc
    · obtain ⟨⟨c, hc⟩, -⟩ := hpart h₁
      cases hc

/-- `fileInfo` of a regular file throws where its `stat` is refused, and else gives the checksum of the beginning of
the file, as far as it was read. -/
theorem fileInfo_part {file : Str} {o : Outcome Exn FileInfo} (h : Run Machine (fileInfo env s file) w tr o w')
    (hk : w.fs.node (norm w.fs.cwd file) = some (.file k)) (hf : (w.fs.inode k).data.length < env.fuel) :
    (statFailed s tr = true ∧ ∃ e, o = .throw e) ∨
    (statFailed s tr = false ∧ ∃ fi, o = .ret fi ∧
      fi.crc32 = crcText ((w.fs.inode k).data.take (filled s tr).length)) := by
  rcases run_bind.1 h with ⟨st, w₁, tr₁, tr₂, h₁, h₂, rfl⟩ | ⟨e, h₁, rfl⟩ | ⟨x, h₁, rfl⟩
  · obtain ⟨e, what, ho, -⟩ | ⟨st', i, ho, hst, hfill, -, -⟩ := run_fileStat h₁
    · cases ho
    have hw := (Run.looks h₁ (fileStat_calls file)).1
    subst hw
    refine .inr ?_
    rcases run_bind.1 h₂ with ⟨crc, w₂, tr₃, tr₄, h₃, h₄, rfl⟩ | ⟨e, h₃, rfl⟩ | ⟨x, h₃, rfl⟩
    · obtain ⟨rfl, rfl, -⟩ := run_ret.1 h₄
      obtain ⟨ho, hpre⟩ := getCrc_part h₃ hk hf
      have hcrc := Outcome.ret.inj ho
      refine ⟨by simp [hst, (run_getCrc h₃).1], _, rfl, ?_⟩
      simp only [filled_append, List.append_nil, hfill, List.nil_append]
      rw [← List.prefix_iff_eq_take.1 hpre]
      exact hcrc
    · cases (getCrc_part h₃ hk hf).1
    · cases (getCrc_part h₃ hk hf).1
  · obtain ⟨e', what, -, hst⟩ | ⟨st, i, ho, -⟩ := run_fileStat h₁
    · exact .inl ⟨hst, e, rfl⟩
    · cases ho
  · obtain ⟨e', what, ho, -⟩ | ⟨st, i, ho, -⟩ := run_fileStat h₁
    · cases ho
    · cases ho

end Reading

/-- **The truth about a file.** Whatever opens and reads fail, `file_info` of a regular file throws or tells the
checksum of its complete content if and only if its `stat` is refused, or no call is, or the bytes it got before the
refused call have the checksum of the whole file. -/
theorem fileInfo_truth_iff {env : Env} {s : Site} {file : Str} {w w' : World} {tr : List Ev}
    {o : Outcome Exn FileInfo} {k : Ino}
    (h : Run Machine (fileInfo env s file) w tr o w') (hk : w.fs.node (norm w.fs.cwd file) = some (.file k))
    (hf : (w.fs.inode k).data.length < env.fuel) :
    Truthful (w.fs.inode k).data o ↔ statFailed s tr = true ∨ Served tr ∨
      crcText ((w.fs.inode k).data.take (filled s tr).length) = crcText (w.fs.inode k).data := by
  rcases fileInfo_part h hk hf with ⟨hst, e, rfl⟩ | ⟨hst, fi, rfl, hcrc⟩
  · exact iff_of_true (.inl ⟨e, rfl⟩) (.inl hst)
  · have htrue : Truthful (w.fs.inode k).data (.ret fi) ↔ fi.crc32 = crcText (w.fs.inode k).data := by
      constructor
      · rintro (⟨e, he⟩ | ⟨fi', he, hc⟩)
        · cases he
        · cases he
          exact hc
      · intro hc
        exact .inr ⟨fi, rfl, hc⟩
    rw [htrue, hcrc]
    constructor
    · intro heq
      exact .inr (.inr heq)
    · rintro (hbad | hserved | heq)
      · rw [hst] at hbad
        cases hbad
      · have hinfo := Outcome.ret.inj (fileInfo_served h hserved hk hf)
        rw [← hcrc, hinfo, infoOf]
      · exact heq

/-- The sample file is read to its end. -/
theorem fileInfo_truth_iff_sample : ∃ tr o w',
    Run Machine (fileInfo (Sample.env Sample.noCodec) .sendInfo "/a/x".toList) Sample.world tr
    o w' ∧ Truthful [104, 105] o := by
  have h : (exec? Machine (fileInfo (Sample.env Sample.noCodec) .sendInfo "/a/x".toList) (List.replicate 3 Sample.calm)
      Sample.world).map (fun x => x.1.all fun e => !(Ev.refused e)) = some true := by decide +kernel
  obtain ⟨⟨tr, o, w'⟩, hx, he⟩ := Option.map_eq_some_iff.1 h
  have hrun := exec?_sound hx
  have hdata : (Sample.world.fs.inode 0).data = [104, 105] := by decide +kernel
  have htruth := (fileInfo_truth_iff (k := 0) hrun (by decide +kernel) (by decide +kernel)).2
    (.inr (.inl fun e hm => by simpa using List.all_eq_true.1 he e hm))
  rw [hdata] at htruth
  exact ⟨tr, o, w', hrun, htruth⟩

/-- What is said of the sample file if it cannot be opened. -/
def Sample.unread : FileInfo := { Sample.info with crc32 := "00000000".toList }

/-- The file cannot be opened, neither when its information is taken nor when the move looks at it: the checksum is
that of nothing, and the move accepts it. -/
theorem fileInfo_untrue_accepted :
    (∃ tr w', Run Machine (fileInfo (Sample.env Sample.noCodec) .sendInfo "/a/x".toList) Sample.world tr
      (.ret Sample.unread) w') ∧
    Sample.world.fs.node (norm Sample.world.fs.cwd "/a/x".toList) = some (.file 0) ∧
    Sample.unread.crc32 ≠ crcText (Sample.world.fs.inode 0).data ∧
    ∃ tr w', Run Machine (moveFile (Sample.env Sample.noCodec) "/a/x".toList "/a/y".toList Sample.unread)
      Sample.world tr (.ret ()) w' := by
  have h₁ : (exec? Machine (fileInfo (Sample.env Sample.noCodec) .sendInfo "/a/x".toList)
      [Sample.calm, { err := some .EMFILE }] Sample.world).map (fun x => x.2.1) = some (.ret Sample.unread) := by
        decide +kernel
  have h₂ : (exec? Machine (moveFile (Sample.env Sample.noCodec) "/a/x".toList "/a/y".toList Sample.unread)
      [Sample.calm, Sample.calm, { err := some .EMFILE }, Sample.calm] Sample.world).map (fun x =>
        x.2.1) = some (.ret ()) := by
    decide +kernel
  obtain ⟨⟨tr₁, o₁, w₁⟩, hx₁, ho₁⟩ := Option.map_eq_some_iff.1 h₁
  obtain ⟨⟨tr₂, o₂, w₂⟩, hx₂, ho₂⟩ := Option.map_eq_some_iff.1 h₂
  simp only at ho₁ ho₂
  subst ho₁ ho₂
  exact ⟨⟨tr₁, w₁, exec?_sound hx₁⟩, by decide +kernel, by decide +kernel, tr₂, w₂, exec?_sound hx₂⟩

end OortAgent
