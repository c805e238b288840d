import OortAgent.Space

/-!
# The free space that a copy leaves

`move_file` asks `checkDiskFree` before it copies to another device. The free space that the configuration says is
to be kept never reaches the members of the agent that `checkDiskFree` looks at.

* `guarded_iff`: when the check of an agent without limits says that the space is kept.
* `reserve_enforced_iff`: for which requests the space is kept.
* `sendFile_ignores_reserve`: the default configuration, and a file that takes half of the space that is to be kept.
-/

namespace OortAgent

open Lib

/-- The free space that the configuration asks for was there when the copy began, and the file besides. -/
def KeepsFree (cfg : AgentConfig) (len : Nat) (tr : List Ev) : Prop :=
  cfg.reserve (diskAt .statvfsDest tr) ≤ (diskAt .statvfsDest tr).free - len

/-- The check for `sz` bytes says that a file of `len` bytes leaves what the configuration asks for. -/
def Guarded (env : Env) (cfg : AgentConfig) (sz : Int) (len : Nat) (heard : Bool) : Prop :=
  Ensures env sz heard fun disk => cfg.reserve disk ≤ disk.free - len

/-- The megabytes that the configuration asks for, in bytes. -/
def AgentConfig.minFreeBytes (cfg : AgentConfig) : Int := if 0 < cfg.minFreeMb then cfg.minFreeMb * 1048576 else 0

section Check

variable {env : Env} {cfg : AgentConfig} {sz : Int} {len : Nat} {heard : Bool}

theorem AgentConfig.minFreeBytes_nonneg (cfg : AgentConfig) : 0 ≤ cfg.minFreeBytes := by
  unfold minFreeBytes
  split <;> omega

/-- Without a percentage the same is asked for on every filesystem. -/
theorem AgentConfig.reserve_of_pct (h : cfg.minFreePct ≤ 0) (vfs : Vfs) : cfg.reserve vfs = cfg.minFreeBytes := by
  rw [reserve, if_neg (by omega : ¬ 0 < cfg.minFreePct)]
  exact max_eq_left cfg.minFreeBytes_nonneg

/-- A percentage asks for more than is free on some filesystem that passes the check. -/
theorem lt_reserve_barely (h : 0 < cfg.minFreePct) (sz : Int) : (sz.toNat : Int) < cfg.reserve (barely sz) := by
  rw [AgentConfig.reserve, if_pos h]
  refine lt_of_lt_of_le ?_ (le_max_right _ _)
  have hsize : 1 * ((sz.toNat : Int) + 1) ≤ cfg.minFreePct * (sz.toNat + 1) :=
    Int.mul_le_mul_of_nonneg_right h (by omega)
  show (sz.toNat : Int) < cfg.minFreePct * ((1 : Nat) * (100 * (sz.toNat + 1) : Nat)) / 100
  push_cast
  rw [Int.one_mul, Int.mul_left_comm, Int.mul_ediv_cancel_left _ (by decide)]
  omega

/-- Without limits in the agent, the check is enough exactly if no percentage is asked for and nothing has to be
free, or the figures were given and the megabytes and the file are not more than what was weighed. -/
theorem guarded_iff (hd : env.minFreeDisk ≤ 0) (hp : env.minFreePct ≤ 0) (hsz : sz < 9223372036854775808) :
    Guarded env cfg sz len heard ↔ cfg.minFreePct ≤ 0 ∧
      (cfg.minFreeBytes + len = 0 ∨ heard = true ∧ cfg.minFreeBytes + len ≤ sz.toNat) := by
  have hbytes := cfg.minFreeBytes_nonneg
  unfold Guarded
  by_cases hpct : cfg.minFreePct ≤ 0
  · simp only [AgentConfig.reserve_of_pct hpct, hpct, true_and]
    cases heard with
    | false =>
      rw [ensures_unheard hd hp hsz]
      constructor
      · intro h
        have hnone : cfg.minFreeBytes ≤ 0 - len := h { f_bavail := 0 }
        exact .inl (by omega)
      · rintro (h | ⟨h, -⟩) disk
        · have := disk.free_nonneg
          omega
        · cases h
    | true =>
      rw [ensures_heard]
      constructor
      · intro h
        have hle := h _ (checkDiskFree_barely hd hp hsz)
        rw [free_barely] at hle
        exact .inr ⟨rfl, by omega⟩
      · intro hle disk hpass
        have hfits := (checkDiskFree_unlimited hd hp).1 hpass
        have hfree := diskFree_le disk
        have hnonneg := disk.free_nonneg
        rcases hle with h | ⟨-, h⟩ <;> omega
  · refine ⟨fun h => ?_, fun h => absurd h.1 hpct⟩
    have hkept : cfg.reserve (barely sz) ≤ (barely sz).free - len :=
      h (barely sz) (barely sz) (fun _ => rfl) (checkDiskFree_barely hd hp hsz)
    have hmore : (sz.toNat : Int) < cfg.reserve (barely sz) := lt_reserve_barely (by omega) sz
    rw [free_barely] at hkept
    omega

/-- For a size that went through an `int` nothing may be asked for. -/
theorem minFreeBytes_wrap32_iff :
    (cfg.minFreeBytes + len = 0 ∨ heard = true ∧ cfg.minFreeBytes + len ≤ (wrap32 len).toNat) ↔
    cfg.minFreeMb ≤ 0 ∧ (len = 0 ∨ heard = true ∧ len < 2147483648) := by
  have hle : (wrap32 len).toNat ≤ len := by
    by_cases hlen : len < 2147483648
    · rw [wrap32_of_int (by omega) (by omega)]
      omega
    · have := wrap32_lt (x := len) (by omega)
      omega
  by_cases hmb : cfg.minFreeMb ≤ 0
  · have hbytes : cfg.minFreeBytes = 0 := if_neg (by omega)
    rw [hbytes, ← le_wrap32_iff]
    constructor
    · rintro (h | ⟨hh, h⟩)
      · exact ⟨hmb, .inl (by omega)⟩
      · exact ⟨hmb, .inr ⟨hh, by omega⟩⟩
    · rintro ⟨-, h | ⟨hh, h⟩⟩
      · exact .inl (by omega)
      · exact .inr ⟨hh, by omega⟩
  · have hbytes : cfg.minFreeBytes = cfg.minFreeMb * 1048576 := if_pos (by omega)
    rw [hbytes]
    refine ⟨fun h => ?_, fun h => absurd h.1 hmb⟩
    rcases h with h | ⟨-, h⟩ <;> omega

end Check

section Requests

variable {env : Env} {w w' : World} {tr : List Ev}

/-- The `try` block of a request that moved its file. -/
theorem run_retrieveMove_ok {src srcMeta dest : Str} {fi : FileInfo}
    (h : Run Machine (retrieveMove env src srcMeta dest) w tr (.ret (.Ok fi)) w') :
    ∃ w₁ tr₁ tr₂, AllAt Apart tr₁ ∧ tr = tr₁ ++ tr₂ ∧
      Run Machine (moveFile env src dest fi) w₁ tr₂ (.ret ()) w' := by
  rcases run_handle.1 h with ⟨a, h₁, ho⟩ | ⟨x, -, ho⟩ | ⟨e, w₁, tr₁, tr₂, -, h₂, -⟩
  · cases ho
    obtain ⟨tm, w₁, tr₁, tr₂, h₂, h₃, rfl⟩ := run_bind_ret.1 h₁
    obtain ⟨_, w₂, tr₃, tr₄, h₄, h₅, rfl⟩ := run_bind_ret.1 h₃
    obtain ⟨rfl, ho, rfl⟩ := run_ret.1 h₅
    cases ho
    exact ⟨w₁, tr₁, tr₃,
      h₂.calls (readTransferMetaCached_sites (P := Apart) (by simp [Apart]) (by simp [Apart]) (by simp [Apart])
      (by simp [Apart]) _), by simp, h₄⟩
  · cases ho
  · unfold retrieveCatch at h₂
    split at h₂
    · cases (run_ret.1 h₂).2.1
    · split at h₂
      · obtain ⟨_, w₂, tr₃, tr₄, -, h₄, -⟩ := run_bind_ret.1 h₂
        cases (run_ret.1 h₄).2.1
      · cases (run_throw.1 h₂).2.1

/-- A request that returned `Ok` moved the file that it describes. -/
theorem run_retrieveFile_ok {req : RetrieveFileRequest} {fi : FileInfo}
    (h : Run Machine (retrieveFile env req) w tr (.ret (.Ok fi)) w') :
    ∃ w₁ w₂ tr₁ tr₂ tr₃, AllAt Apart tr₁ ∧ AllAt Apart tr₃ ∧ tr = tr₁ ++ tr₂ ++ tr₃ ∧
      Run Machine (moveFile env (env.uploadDir ++ '/' :: (req.id ++ DATA_EXT)) req.savePath fi)
        w₁ tr₂ (.ret ()) w₂ := by
  unfold retrieveFile at h
  dsimp only at h
  split at h
  · cases (run_ret.1 h).2.1
  obtain ⟨ch, r, w₁, tr₁, -, h₁, rfl⟩ := run_call.1 h
  cases r with
  | error e => cases (run_ret.1 h₁).2.1
  | ok _ =>
    obtain ⟨res, w₂, tr₂, tr₃, h₂, h₃, rfl⟩ := run_bind_ret.1 h₁
    cases res with
    | Bad_Request m => cases (run_ret.1 h₃).2.1
    | Ok fi' =>
      obtain ⟨ch', r', w₃, tr₄, -, h₄, rfl⟩ := run_call.1 h₃
      obtain ⟨rfl, ho, rfl⟩ := run_ret.1 h₄
      cases ho
      obtain ⟨w₄, tr₅, tr₆, hs, rfl, hm⟩ := run_retrieveMove_ok h₂
      refine ⟨w₄, w₂, ⟨⟨.accessMeta, .access (env.uploadDir ++ '/' :: (req.id ++ META_EXT)) .R_OK⟩, ch, .ok ()⟩ ::
        tr₅, tr₆,
        [⟨⟨.removeMeta, .unlink (env.uploadDir ++ '/' :: (req.id ++ META_EXT))⟩, ch', r'⟩], ?_, ?_, by simp, hm⟩
      · simp [hs, Apart]
      · simp [Apart]

end Requests

/-- Without an option `-m` the free space to keep is 20%. -/
theorem parseOptions_default {su : Startup} {argv : List Str} {cfg : AgentConfig} (h : parseOptions su argv = .ok cfg)
    (hm : cfg.use_defaults.minfree = true) : cfg.minFreePct = 20 := by
  unfold parseOptions at h
  cases hc : applyOptions su {} (getopt none argv.tail) with
  | error e =>
    rw [hc] at h
    cases h
  | ok c =>
    rw [hc] at h
    simp only [bind, Except.bind] at h
    split at h
    · cases h
    · split at h
      · cases h
      · cases h
        exact if_pos hm

/-- Without a percentage there was an option `-m`. -/
theorem minfree_of_pct {su : Startup} {argv : List Str} {cfg : AgentConfig} (h : parseOptions su argv = .ok cfg)
    (hp : cfg.minFreePct ≤ 0) : cfg.use_defaults.minfree = false := by
  cases hd : cfg.use_defaults.minfree with
  | false => rfl
  | true =>
    have := parseOptions_default h hd
    omega

/-- **The reserve.** A file is sent to another device, or retrieved, by the agent that `main` builds from accepted
arguments. The check of the free space is enough for the space that the arguments ask for, or that is the default,
if and only if there is an option `-m` and no percentage is asked for, and, for a file that is sent, no megabytes
either, and it is empty, or `statvfs` succeeded and it is shorter than 2 ^ 31 bytes; for a file that is retrieved,
if it and the megabytes are nothing, or `statvfs` succeeded and they are not more than the size in its metadata. -/
theorem reserve_enforced_iff {su : Startup} {argv : List Str} {cfg : AgentConfig} (h : parseOptions su argv = .ok cfg)
    (program : Env) :
    (∀ req w tr id w' k, Run Machine (sendFile (newAgent program cfg) req) w tr (.ret (.Ok id)) w' → Begun tr →
      w.fs.node (norm w.fs.cwd req.filepath) = some (.file k) →
      Weighed (newAgent program cfg) (wrap32 (w.fs.inode k).data.length) tr ∧
      (Guarded (newAgent program cfg) cfg (wrap32 (w.fs.inode k).data.length) (w.fs.inode k).data.length
          (heardAt .statvfsDest tr) ↔
        cfg.use_defaults.minfree = false ∧ cfg.minFreePct ≤ 0 ∧ cfg.minFreeMb ≤ 0 ∧
          ((w.fs.inode k).data.length = 0 ∨ heardAt .statvfsDest tr = true ∧ (w.fs.inode k).data.length < 2147483648)) ∧
      (cfg.use_defaults.minfree = false ∧ cfg.minFreePct ≤ 0 ∧ cfg.minFreeMb ≤ 0 ∧
          ((w.fs.inode k).data.length = 0 ∨ heardAt .statvfsDest tr = true ∧ (w.fs.inode k).data.length < 2147483648) →
        KeepsFree cfg (w.fs.inode k).data.length tr)) ∧
    ∀ req w tr (fi : FileInfo) w' k, Run Machine (retrieveFile (newAgent program cfg) req) w tr (.ret (.Ok fi)) w' →
      Begun tr →
      w.fs.node (norm w.fs.cwd ((newAgent program cfg).uploadDir ++ '/' :: (req.id ++ DATA_EXT))) = some (.file k) →
      Weighed (newAgent program cfg) fi.size tr ∧
      (Guarded (newAgent program cfg) cfg fi.size (w.fs.inode k).data.length (heardAt .statvfsDest tr) ↔
        cfg.use_defaults.minfree = false ∧ cfg.minFreePct ≤ 0 ∧ (cfg.minFreeBytes + (w.fs.inode k).data.length = 0 ∨
          heardAt .statvfsDest tr = true ∧ cfg.minFreeBytes + (w.fs.inode k).data.length ≤ fi.size.toNat)) ∧
      (cfg.use_defaults.minfree = false ∧ cfg.minFreePct ≤ 0 ∧ (cfg.minFreeBytes + (w.fs.inode k).data.length = 0 ∨
          heardAt .statvfsDest tr = true ∧ cfg.minFreeBytes + (w.fs.inode k).data.length ≤ fi.size.toNat) →
        KeepsFree cfg (w.fs.inode k).data.length tr) := by
  have hd : (newAgent program cfg).minFreeDisk ≤ 0 := by simp [newAgent]
  have hp : (newAgent program cfg).minFreePct ≤ 0 := by simp [newAgent]
  have hoption : ∀ {P : Prop}, (cfg.use_defaults.minfree = false ∧ cfg.minFreePct ≤ 0 ∧ P) ↔ (cfg.minFreePct ≤ 0 ∧ P) :=
    ⟨And.right, fun hc => ⟨minfree_of_pct h hc.1, hc⟩⟩
  constructor
  · intro req w tr id w' k hrun hb hk
    obtain ⟨k', hk', hw⟩ := run_sendFile_weighed hrun hb
    rw [hk] at hk'
    cases hk'
    have hguard : Guarded _ cfg _ (w.fs.inode k).data.length (heardAt .statvfsDest tr) ↔ _ :=
      guarded_iff hd hp (hw.lt hd hp)
    rw [minFreeBytes_wrap32_iff, ← hoption] at hguard
    exact ⟨hw, hguard, fun hc => hw.disk hrun (hguard.2 hc)⟩
  · intro req w tr fi w' k hrun hb _
    obtain ⟨w₁, w₂, tr₁, tr₂, tr₃, h₁, h₃, rfl, hmove⟩ := run_retrieveFile_ok hrun
    have hw := weighed_frame h₁ h₃ (run_moveFile_weighed hmove (begun_frame h₁ h₃ hb))
    have hguard : Guarded _ cfg _ (w.fs.inode k).data.length (heardAt .statvfsDest (tr₁ ++ tr₂ ++ tr₃)) ↔ _ :=
      guarded_iff hd hp (hw.lt hd hp)
    rw [← hoption] at hguard
    exact ⟨hw, hguard, fun hc => hw.disk hrun (hguard.2 hc)⟩

namespace Sample

/-- A file on another device than the working directory. -/
def awayFs : FS := fs.putFile "z".toList ["b".toList] ⟨[104, 105], true, 0, 0⟩

/-- The configuration without a free space to keep: the arguments have `-m 0M`. -/
def openConfig : AgentConfig := { config with minFreePct := -1, minFreeMb := 0, use_defaults := { minfree := false } }

/-- The filesystem that the file is sent to: 100 of 1000 bytes are free. -/
def nearlyFull : Vfs := { f_frsize := 10, f_blocks := 100, f_bavail := 10 }

end Sample

/-- The file is sent to that filesystem, whatever free space the configuration asks for. -/
theorem send_away (cfg : AgentConfig) (hdir : cfg.workdir = "/w".toList) : ∃ tr id w', Run Machine
      (sendFile (newAgent (Sample.env Sample.noCodec) cfg) ⟨[], "/b/z".toList, "t".toList, {}⟩)
      { Sample.world with fs := Sample.awayFs } tr (.ret (.Ok id)) w' ∧ Begun tr ∧ heardAt .statvfsDest tr = true ∧
    diskAt .statvfsDest tr = Sample.nearlyFull := by
  have hagent : newAgent (Sample.env Sample.noCodec) cfg = Sample.env Sample.noCodec := by
    rw [newAgent, hdir]
    rfl
  rw [hagent]
  have h : (exec? Machine (sendFile (Sample.env Sample.noCodec) ⟨[], "/b/z".toList, "t".toList, {}⟩)
        ([{ rand := List.replicate 16 0 }] ++ List.replicate 15 Sample.calm ++
          [{ vfs := Sample.nearlyFull }, { pick := "AAAAAA".toList }, Sample.calm, { pick := "BBBBBB".toList }] ++
          List.replicate 13 Sample.calm)
        { Sample.world with fs := Sample.awayFs }).map (fun x => (x.2.1, x.1.any fun e => decide (Ev.site e = .mkdtemp),
          heardAt .statvfsDest x.1, diskAt .statvfsDest x.1)) =
      some (.ret (.Ok (uuidText (List.replicate 16 0))), true, true, Sample.nearlyFull) := by
    rw [Sample.awayFs, Sample.fs_eq]
    decide +kernel
  obtain ⟨⟨tr, o, w'⟩, hx, he⟩ := Option.map_eq_some_iff.1 h
  simp only [Prod.mk.injEq] at he
  obtain ⟨rfl, hb, hheard, hv⟩ := he
  obtain ⟨e, he, hs⟩ := List.any_eq_true.1 hb
  exact ⟨tr, _, w', exec?_sound hx, ⟨e, he, of_decide_eq_true hs⟩, hheard, hv⟩

/-- `-m 0M` asks for no free space, and none is kept; without `-m` it is 20%, and the check is not enough. -/
theorem reserve_enforced_iff_sample :
    (∃ tr, Begun tr ∧ KeepsFree Sample.openConfig 2 tr) ∧
    ∃ tr, Begun tr ∧ ¬ Guarded (newAgent (Sample.env Sample.noCodec) Sample.config) Sample.config 2 2
      (heardAt .statvfsDest tr) := by
  have h₀ : parseOptions Sample.startup (Sample.argv ++ ["-m".toList, "0M".toList]) = .ok Sample.openConfig := by
    decide +kernel
  have h₁ : parseOptions Sample.startup Sample.argv = .ok Sample.config := by decide +kernel
  have hk : Sample.awayFs.node (norm Sample.awayFs.cwd "/b/z".toList) = some (.file 1) := by decide +kernel
  have hlen : (Sample.awayFs.inode 1).data.length = 2 := by decide +kernel
  constructor
  · obtain ⟨tr, id, w', hrun, hb, hheard, -⟩ := send_away Sample.openConfig rfl
    obtain ⟨-, -, hkeep⟩ := (reserve_enforced_iff h₀ (Sample.env Sample.noCodec)).1 _ _ _ _ _ 1 hrun hb hk
    rw [hlen] at hkeep
    exact ⟨tr, hb, hkeep ⟨rfl, by decide, by decide, .inr ⟨hheard, by decide⟩⟩⟩
  · obtain ⟨tr, id, w', hrun, hb, -⟩ := send_away Sample.config rfl
    obtain ⟨-, hguard, -⟩ := (reserve_enforced_iff h₁ (Sample.env Sample.noCodec)).1 _ _ _ _ _ 1 hrun hb hk
    rw [hlen] at hguard
    exact ⟨tr, hb, fun hg => absurd (hguard.1 hg).1 (by decide)⟩

/-- The default configuration: 20% of 1000 bytes are to be kept free. A file of two bytes is sent to a filesystem
with 100 free bytes, and the request returns `Ok`. -/
theorem sendFile_ignores_reserve : ∃ tr id w', Run Machine
      (sendFile (newAgent (Sample.env Sample.noCodec) Sample.config) ⟨[], "/b/z".toList, "t".toList, {}⟩)
      { Sample.world with fs := Sample.awayFs } tr (.ret (.Ok id)) w' ∧
    parseOptions Sample.startup Sample.argv = .ok Sample.config ∧ Begun tr ∧ ¬ KeepsFree Sample.config 2 tr := by
  obtain ⟨tr, id, w', hrun, hb, -, hdisk⟩ := send_away Sample.config rfl
  refine ⟨tr, id, w', hrun, by decide +kernel, hb, ?_⟩
  rw [KeepsFree, hdisk]
  decide

end OortAgent
