import OortAgent.MoveRun
import OortAgent.SendRun

/-!
# How moves and cached reads end

Which exception leaves `move_file` or `Cache::get`, read off the outcomes of the calls.

* `moveFile_end`: a move returns or throws a `system_error`, its source or its copy does not pass a check, there can
  be no buffer for the copy, or `mkdtemp` failed and the process dies.
* `run_cacheGet`: a hit, or a run of the wrapped function.
-/

namespace OortAgent

open Lib

/-! ## How a move ends -/

/-- The check of a copy went well. -/
def CopyVerified (crc : Str) (tr : List Ev) : Prop :=
  statFailed .verify tr = false ∧ crcText (filled .verify tr) = crc

/-- The check of a source, if it was made, went well. -/
def SourceChecked (crc : Str) (tr : List Ev) : Prop :=
  failedAt .accessDest tr = true → statFailed .precheck tr = false ∧ crcText (filled .precheck tr) = crc

/-- The block size of a copy. -/
def moveBlocks (tr : List Ev) : Int := blockSize (vfsAt .statvfsSrc tr) (vfsAt .statvfsDest tr)

/-- How a copy ends: it returns or throws a `system_error`, its check fails, there can be no buffer, or `mkdtemp`
failed. -/
inductive CopyEnd (crc : Str) (blksize : Int) (tr : List Ev) : Outcome Exn Unit → Prop
  | fine {o : Outcome Exn Unit} : o = .ret () ∨ (∃ e, o = .throw e ∧ e.isSystem = true) → failedAt .mkdtemp tr = false →
    (doneAt .openParked tr = true → 0 ≤ blksize ∧ CopyVerified crc tr) → CopyEnd crc blksize tr o
  | bad {e : Exn} : e.isSystem = false → e.isRuntime = true → failedAt .mkdtemp tr = false →
    doneAt .openParked tr = true →
    0 ≤ blksize → ¬ CopyVerified crc tr → CopyEnd crc blksize tr (.throw e)
  | block {e : Exn} : e.isRuntime = false → failedAt .mkdtemp tr = false → doneAt .openParked tr = true → blksize < 0 →
    CopyEnd crc blksize tr (.throw e)
  | crash : failedAt .mkdtemp tr = true → CopyEnd crc blksize tr (.stop .crash)

/-- A place that does not matter for the end of a copy. -/
def Aside (s : Site) : Prop := s ≠ .mkdtemp ∧ s ≠ .openParked ∧ s ≠ .verify

instance : DecidablePred Aside := fun _ => inferInstanceAs (Decidable (_ ∧ _))

section Move

variable {σ : Type} {M : Sem Calls σ Choice} {w w' : σ} {crc : Str} {blksize : Int} {tr tr₀ tr₁ : List Ev}
  {o : Outcome Exn Unit} {env : Env} {src dest tmpdir dtname : Str} {fi : FileInfo}

theorem copyVerified_aside (h₀ : AllAt Aside tr₀) (h₁ : AllAt Aside tr₁) :
    CopyVerified crc (tr₀ ++ (tr ++ tr₁)) ↔ CopyVerified crc tr := by
  have ha : ¬ Aside .verify := by decide
  simp [CopyVerified, statFailed_of_allAt h₀ ha, statFailed_of_allAt h₁ ha, filled_of_allAt h₀ ha,
    filled_of_allAt h₁ ha]

/-- Calls at other places. -/
theorem CopyEnd.aside (h : CopyEnd crc blksize tr o) (h₀ : AllAt Aside tr₀) (h₁ : AllAt Aside tr₁) :
    CopyEnd crc blksize (tr₀ ++ (tr ++ tr₁)) o := by
  have hm : failedAt .mkdtemp (tr₀ ++ (tr ++ tr₁)) = failedAt .mkdtemp tr := by
    have ha : ¬ Aside .mkdtemp := by decide
    simp [failedAt_of_allAt h₀ ha, failedAt_of_allAt h₁ ha]
  have hp : doneAt .openParked (tr₀ ++ (tr ++ tr₁)) = doneAt .openParked tr := by
    have ha : ¬ Aside .openParked := by decide
    simp [doneAt_of_allAt h₀ ha, doneAt_of_allAt h₁ ha]
  have hv : CopyVerified crc (tr₀ ++ (tr ++ tr₁)) ↔ CopyVerified crc tr := copyVerified_aside h₀ h₁
  cases h with
  | fine ho hm' hc => exact .fine ho (hm.trans hm') fun h => by rw [hv]; exact hc (hp ▸ h)
  | bad hs hr hm' hp' hb hc => exact .bad hs hr (hm.trans hm') (hp.trans hp') hb (by rwa [hv])
  | block hr hm' hp' hb => exact .block hr (hm.trans hm') (hp.trans hp') hb
  | crash hm' => exact .crash (hm.trans hm')

/-- From the opening of the parked source on. -/
theorem copyInto_end {j : Ino} (h : Run M (copyInto env tmpdir dest fi blksize dtname j) w tr o w')
    (hf : o ≠ .stop .fuel) : CopyEnd fi.crc32 blksize tr o := by
  obtain ⟨ch, r, w₁, tr', -, hk, rfl⟩ := run_ask.1 h
  cases r with
  | error e =>
    obtain ⟨rfl, rfl, rfl⟩ := run_throw.1 hk
    exact .fine (.inr ⟨_, rfl, rfl⟩) (by simp) (by simp [Op.refused])
  | ok srcfd =>
    dsimp only at hk
    split at hk
    · rename_i hb
      obtain ⟨rfl, rfl, rfl⟩ := run_throw.1 hk
      exact .block rfl (by simp) (by simp [Op.refused]) hb
    rename_i hb
    rcases run_bind.1 hk with ⟨_, w₂, tr₁, tr₂, h₁, h₂, rfl⟩ | ⟨e, h₁, rfl⟩ | ⟨y, h₁, rfl⟩
    · obtain ⟨ht, -⟩ := run_copyLoop_said h₁
      obtain ⟨ch₁, r₁, w₃, tr₃, e₁, k₁, rfl⟩ := run_ask.1 h₂
      obtain ⟨ch₂, r₂, w₄, tr₄, e₂, k₂, rfl⟩ := run_ask.1 k₁
      obtain ⟨ch₃, r₃, w₅, tr₅, e₃, k₃, rfl⟩ := run_ask.1 k₂
      -- the calls before and after the check do not matter
      have ht' : AllAt Aside tr₁ := fun e he => by rcases ht e he with h | h <;> rw [h] <;> decide
      have hmid : AllAt Aside (tr₁ ++ [⟨⟨.closeSrc, .close⟩, ch₁, r₁⟩, ⟨⟨.fsyncDest, .fsync j⟩, ch₂, r₂⟩,
          ⟨⟨.closeDest, .close⟩, ch₃, r₃⟩]) := by
        simp [ht', Aside]
      have hopen : doneAt .openParked (⟨⟨.openParked, .openRead (parkedName tmpdir)⟩, ch, .ok srcfd⟩ ::
          (tr₁ ++ ⟨⟨.closeSrc, .close⟩, ch₁, r₁⟩ :: ⟨⟨.fsyncDest, .fsync j⟩, ch₂, r₂⟩ ::
            ⟨⟨.closeDest, .close⟩, ch₃, r₃⟩ ::
            tr₅)) = true := by
        simp [Op.refused]
      have hverify : ∀ t t', tr₅ = t ++ t' → AllAt Aside t' → (CopyVerified fi.crc32
          (⟨⟨.openParked, .openRead (parkedName tmpdir)⟩, ch, .ok srcfd⟩ ::
            (tr₁ ++ ⟨⟨.closeSrc, .close⟩, ch₁, r₁⟩ :: ⟨⟨.fsyncDest, .fsync j⟩, ch₂, r₂⟩ ::
              ⟨⟨.closeDest, .close⟩, ch₃, r₃⟩ :: tr₅)) ↔ CopyVerified fi.crc32 t) := by
        rintro t t' rfl ht
        refine Iff.trans ?_ (copyVerified_aside hmid ht)
        simp [CopyVerified]
      have hmk : ∀ t, AllAt (· ≠ .mkdtemp) t → tr₅ = t → failedAt .mkdtemp
          (⟨⟨.openParked, .openRead (parkedName tmpdir)⟩, ch, .ok srcfd⟩ ::
            (tr₁ ++ ⟨⟨.closeSrc, .close⟩, ch₁, r₁⟩ :: ⟨⟨.fsyncDest, .fsync j⟩, ch₂, r₂⟩ ::
              ⟨⟨.closeDest, .close⟩, ch₃, r₃⟩ :: tr₅)) = false := by
        rintro t ht rfl
        simp [failedAt_of_allAt ht' (s := .mkdtemp) (by decide), failedAt_of_allAt ht (s := .mkdtemp) (by simp)]
      rcases run_bind.1 k₃ with ⟨dfi, w₆, tr₆, tr₇, h₆, h₇, rfl⟩ | ⟨e, h₆, rfl⟩ | ⟨y, h₆, rfl⟩
      all_goals obtain ⟨hv, hcase⟩ := run_fileInfo_said h₆
      · obtain ⟨e, what, he, -⟩ | ⟨hst, he | ⟨fi', he, hcrc⟩⟩ := hcase
        · cases he
        · cases he
        cases he
        split at h₇
        · rename_i hne
          obtain ⟨rfl, rfl, rfl⟩ := run_throw.1 h₇
          refine .bad rfl rfl (hmk tr₆ (fun e he => by rw [hv e he]; decide) (by simp)) hopen (by omega) ?_
          rw [hverify tr₆ [] rfl allAt_nil]
          exact fun hc => hne (hcrc.trans hc.2)
        · rename_i heq
          obtain ⟨rfl, ch₄, r₄, ch₅, r₅, ch₆, r₆, rfl⟩ := run_publishCopy_said h₇
          refine .fine (.inl rfl) (hmk _ ?_ rfl) fun _ => ⟨by omega, ?_⟩
          · simp only [allAt_append, allAt_cons, Ev.site_mk]
            exact ⟨fun e he => by rw [hv e he]; decide, by decide, by decide, by decide, allAt_nil⟩
          · rw [hverify tr₆ _ rfl (by simp [Aside])]
            exact ⟨hst, by rw [← hcrc]; exact not_not.1 heq⟩
      · obtain ⟨e', what, he, hst⟩ | ⟨-, he | ⟨fi', he, -⟩⟩ := hcase
        · cases he
          refine .bad rfl rfl (hmk _ (fun e he => by rw [hv e he]; decide) rfl) hopen (by omega) ?_
          rw [hverify tr₅ [] (by simp) allAt_nil]
          exact fun hc => by rw [hc.1] at hst; cases hst
        · cases he
        · cases he
      · obtain ⟨e', what, he, -⟩ | ⟨-, he | ⟨fi', he, -⟩⟩ := hcase
        · cases he
        · cases he
          exact absurd rfl hf
        · cases he
    · obtain ⟨-, ho⟩ := run_copyLoop_said h₁
      rcases ho with ho | ho <;> cases ho
    · obtain ⟨-, ho⟩ := run_copyLoop_said h₁
      rcases ho with ho | ho
      · cases ho
      · cases ho
        exact absurd rfl hf

/-- From the parking of the source on. -/
theorem parkAndCopy_end (h : Run M (parkAndCopy env src dest fi blksize tmpdir) w tr o w') (hf : o ≠ .stop .fuel) :
    CopyEnd fi.crc32 blksize tr o := by
  obtain ⟨ch, r, w₁, tr', -, hk, rfl⟩ := run_ask.1 h
  cases r with
  | error e =>
    obtain ⟨rfl, rfl, rfl⟩ := run_throw.1 hk
    exact .fine (.inr ⟨_, rfl, rfl⟩) (by simp) (by simp)
  | ok _ =>
    -- the `try` block ends as its copy does
    have hcopy : ∀ {tr : List Ev} {o : Outcome Exn Unit} {w'' : σ},
        Run M (copyParked env tmpdir dest fi blksize) w₁ tr o w'' →
        o ≠ .stop .fuel → CopyEnd fi.crc32 blksize tr o := by
      intro tr o w'' hc hf'
      obtain ⟨ch', r', w₂, tr₁, -, hk', rfl⟩ := run_ask.1 hc
      cases r' with
      | error e =>
        obtain ⟨rfl, rfl, rfl⟩ := run_throw.1 hk'
        exact .fine (.inr ⟨_, rfl, rfl⟩) (by simp) (by simp)
      | ok x =>
        have hone : AllAt Aside [⟨⟨.mkstemp, .mkstemp (moveTemplate (dirname dest))⟩, ch', .ok x⟩] := by simp [Aside]
        simpa using (copyInto_end hk' hf').aside hone allAt_nil
    have hpark : ∀ {tr tr₁ : List Ev} {o : Outcome Exn Unit}, CopyEnd fi.crc32 blksize tr o → AllAt Aside tr₁ →
        CopyEnd fi.crc32 blksize (⟨⟨.park, .rename src (parkedName tmpdir)⟩, ch, .ok ()⟩ :: (tr ++ tr₁)) o := by
      intro tr tr₁ o hc h₁
      have hone : AllAt Aside [⟨⟨.park, .rename src (parkedName tmpdir)⟩, ch, .ok ()⟩] := by simp [Aside]
      exact hc.aside hone h₁
    rcases run_handle.1 hk with ⟨a, hc, rfl⟩ | ⟨x, hc, rfl⟩ | ⟨e, w₃, tr₁, tr₂, hc, hh, rfl⟩
    · simpa using hpark (hcopy hc hf) allAt_nil
    · simpa using hpark (hcopy hc hf) allAt_nil
    · obtain ⟨rfl, ch₁, r₁, ch₂, r₂, rfl⟩ := run_undoPark_said hh
      exact hpark (hcopy hc (by simp)) (by simp [Aside])

/-- Across devices. -/
theorem copyAcross_end (h : Run M (copyAcross env src dest fi) w tr o w') (hf : o ≠ .stop .fuel) :
    CopyEnd fi.crc32 (moveBlocks tr) tr o := by
  obtain ⟨ch₁, v₁, w₁, tr₁, -, k₁, rfl⟩ := run_ask.1 h
  obtain ⟨ch₂, v₂, w₂, tr₂, -, k₂, rfl⟩ := run_ask.1 k₁
  split at k₂
  · obtain ⟨rfl, rfl, rfl⟩ := run_throw.1 k₂
    exact .fine (.inr ⟨_, rfl, rfl⟩) (by simp) (by simp)
  obtain ⟨ch₃, r, w₃, tr₃, -, k₃, rfl⟩ := run_ask.1 k₂
  cases r with
  | error e =>
    obtain ⟨rfl, rfl, rfl⟩ := run_stop.1 k₃
    exact .crash (by simp [Op.refused])
  | ok tmpdir =>
    have hb : moveBlocks
        (⟨⟨.statvfsSrc, .statvfs (dirname src)⟩, ch₁, v₁⟩ :: ⟨⟨.statvfsDest, .statvfs (dirname dest)⟩, ch₂, v₂⟩ ::
        ⟨⟨.mkdtemp, .mkdtemp (moveTemplate (dirname src))⟩, ch₃, .ok tmpdir⟩ :: tr₃) = blockSize v₁.2 v₂.2 := by
      simp [moveBlocks, Op.figures]
    rw [hb]
    have hend := parkAndCopy_end k₃ hf
    cases hend with
    | fine ho hm hc => exact .fine ho (by simp [hm, Op.refused]) (by simpa [CopyVerified] using hc)
    | bad hs hr hm hp hb hc =>
      exact .bad hs hr (by simp [hm, Op.refused]) (by simp [hp]) hb (by simpa [CopyVerified] using hc)
    | block hr hm hp hb => exact .block hr (by simp [hm, Op.refused]) (by simp [hp]) hb
    | crash hm => exact .crash (by simp [hm])

/-- How a move ends: its source does not pass its check, or it does and the move ends as a copy. -/
theorem moveFile_end (h : Run M (moveFile env src dest fi) w tr o w') (hf : o ≠ .stop .fuel) :
    (¬ SourceChecked fi.crc32 tr ∧ doneAt .openParked tr = false ∧ failedAt .mkdtemp tr = false ∧
      ∃ e, o = .throw e ∧ e.isSystem = false ∧ e.isRuntime = true) ∨
    (SourceChecked fi.crc32 tr ∧ CopyEnd fi.crc32 (moveBlocks tr) tr o) := by
  obtain ⟨ch₁, r₁, w₁, tr₁, -, k₁, rfl⟩ := run_ask.1 h
  cases r₁ with
  | ok _ =>
    obtain ⟨rfl, rfl, rfl⟩ := run_throw.1 k₁
    exact .inr ⟨by simp [SourceChecked, Op.refused], .fine (.inr ⟨_, rfl, rfl⟩) (by simp) (by simp)⟩
  | error e =>
    rcases run_bind.1 k₁ with ⟨pre, w₂, tr₂, tr₃, h₂, k₂, rfl⟩ | ⟨e', h₂, rfl⟩ | ⟨y, h₂, rfl⟩
    all_goals
      obtain ⟨ht, hcase⟩ := run_fileInfo_said h₂
      have hopen := doneAt_of_allAt ht (s := .openParked) (by decide)
      have hmk := failedAt_of_allAt ht (s := .mkdtemp) (by decide)
    · obtain ⟨e, what, he, -⟩ | ⟨hst, he | ⟨fi', he, hcrc⟩⟩ := hcase
      · cases he
      · cases he
      cases he
      -- the calls after the check are not at its place
      have hchecked : ∀ t, AllAt (fun s => s ≠ .precheck ∧ s ≠ .accessDest) t → (SourceChecked fi.crc32
          (⟨⟨.accessDest, .access dest .F_OK⟩, ch₁, .error e⟩ :: (tr₂ ++ t)) ↔ pre.crc32 = fi.crc32) := by
        intro t ht'
        simp [SourceChecked, Op.refused, hst, hcrc, statFailed_of_allAt ht' (s := .precheck) (by simp),
          filled_of_allAt ht' (s := .precheck) (by simp)]
      split at k₂
      · rename_i hne
        obtain ⟨rfl, rfl, rfl⟩ := run_throw.1 k₂
        exact .inl ⟨by rw [hchecked [] allAt_nil]; exact hne, by simp [hopen], by simp [hmk], _, rfl, rfl, rfl⟩
      rename_i heq
      have heq' := not_not.1 heq
      obtain ⟨ch₃, r₃, w₃, tr₃, -, k₃, rfl⟩ := run_ask.1 k₂
      -- a move that does not come to a copy
      have hshort : o = .ret () ∨ (∃ e, o = .throw e ∧ e.isSystem = true) → tr₃ = [] → SourceChecked fi.crc32
            (⟨⟨.accessDest, .access dest .F_OK⟩, ch₁, .error e⟩ ::
              (tr₂ ++ ⟨⟨.rename, .rename src dest⟩, ch₃, r₃⟩ :: tr₃)) ∧
          CopyEnd fi.crc32 (moveBlocks
            (⟨⟨.accessDest, .access dest .F_OK⟩, ch₁, .error e⟩ ::
              (tr₂ ++ ⟨⟨.rename, .rename src dest⟩, ch₃, r₃⟩ :: tr₃)))
            (⟨⟨.accessDest, .access dest .F_OK⟩, ch₁, .error e⟩ ::
              (tr₂ ++ ⟨⟨.rename, .rename src dest⟩, ch₃, r₃⟩ :: tr₃)) o := by
        rintro ho rfl
        exact ⟨(hchecked _ (by simp)).2 heq', .fine ho (by simp [hmk]) (by simp [hopen])⟩
      split at k₃
      · obtain ⟨rfl, rfl, rfl⟩ := run_ret.1 k₃
        exact .inr (hshort (.inl rfl) rfl)
      · have hacross : AllAt AcrossSite tr₃ := k₃.calls copyAcross_sites
        have hlate : AllAt (fun s => s ≠ .precheck ∧ s ≠ .accessDest) tr₃ := fun x hx =>
          ⟨fun hs => by have := hacross x hx; rw [hs] at this; revert this; decide,
            fun hs => by have := hacross x hx; rw [hs] at this; revert this; decide⟩
        have hblocks : moveBlocks (⟨⟨.accessDest, .access dest .F_OK⟩, ch₁, .error e⟩ ::
            (tr₂ ++ ⟨⟨.rename, .rename src dest⟩, ch₃, .error .EXDEV⟩ :: tr₃)) = moveBlocks tr₃ := by
          simp [moveBlocks, vfsAt_append ht (s := .statvfsSrc) (by decide),
            vfsAt_append ht (s := .statvfsDest) (by decide)]
        have hbefore : AllAt Aside (⟨⟨.accessDest, .access dest .F_OK⟩, ch₁, .error e⟩ ::
            (tr₂ ++ [⟨⟨.rename, .rename src dest⟩, ch₃, .error .EXDEV⟩])) := by
          have ht' : AllAt Aside tr₂ := fun x hx => by rw [ht x hx]; decide
          simp [Aside, ht']
        refine .inr ⟨(hchecked _ (by simpa using hlate)).2 heq', ?_⟩
        rw [hblocks]
        simpa using (copyAcross_end k₃ hf).aside hbefore allAt_nil
      · obtain ⟨rfl, rfl, rfl⟩ := run_throw.1 k₃
        exact .inr (hshort (.inr ⟨_, rfl, rfl⟩) rfl)
    · obtain ⟨e'', what, he, hst⟩ | ⟨-, he | ⟨fi', he, -⟩⟩ := hcase
      · cases he
        exact .inl ⟨by simp [SourceChecked, Op.refused, hst], by simp [hopen], by simp [hmk], _, rfl, rfl, rfl⟩
      · cases he
      · cases he
    · obtain ⟨e'', what, he, -⟩ | ⟨-, he | ⟨fi', he, -⟩⟩ := hcase
      · cases he
      · cases he
        exact absurd rfl hf
      · cases he

end Move

/-! ## Cached reads -/

section Cached

variable {c : CacheId} {key : Str} {fn : Prog c.Val} {w w' : World} {tr : List Ev} {o : Outcome Exn c.Val}

/-- A value that was put into a cache can be read. -/
theorem valueAt_emplace_ne_none {T : Type} (c : Cache T) (key : Str) (now : Int) (v : T) :
    (c.emplace key now v).valueAt key ≠ none := by
  unfold Cache.emplace
  cases h : c.contents.lookup key with
  | none => simp [Cache.valueAt, AList.lookup_insert]
  | some x => simp [Cache.valueAt, h]

/-- What `Cache::get` does under the lock. -/
def locked (c : CacheId) (key : Str) (fn : Prog c.Val) : Prog c.Val := do
  match ← sys .cache (.cacheFind c key) with
  | .inl v => return v
  | .inr now =>
    let v ← fn
    match ← sys .cache (.cacheStore c key now v) with
    | some v => return v
    | none => .throw (.logic "unordered_map::at".toList)

end Cached

end OortAgent
