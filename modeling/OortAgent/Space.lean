import OortAgent.Config
import OortAgent.MoveRun
import OortAgent.Pair
import OortAgent.SendRun

/-!
# The arithmetic of free space

`checkDiskFree` multiplies the megabytes to keep as `int` and everything else as `int64_t`.

- `checkDiskFree_eq`: what it compares, with the megabytes as they are after the multiplication;
- `checkDiskFree_exact_iff`: it answers as unbounded integers would exactly for settings below 2048 megabytes;
- `copy_space_iff`: the size that is weighed before a copy is the one of the `FileInfo`, not that of the file.
-/

namespace OortAgent

open Lib

/-- The size of a filesystem. -/
def Vfs.total (vfs : Vfs) : Int := vfs.f_frsize * vfs.f_blocks

/-- The free space that the members of the agent ask for, in unbounded integers. -/
def Env.wanted (env : Env) (vfs : Vfs) : Int := max (env.minFreeDisk * 1048576) (env.minFreePct * vfs.total / 100)

/-- The free space that is kept: the megabytes went through an `int`. -/
def Env.kept (env : Env) (vfs : Vfs) : Int :=
  if 0 < env.minFreePct then max (wrap32 (env.minFreeDisk * 1048576)) (env.minFreePct * vfs.total / 100)
  else wrap32 (env.minFreeDisk * 1048576)

/-- A size and a filesystem below 2 ^ 56 bytes. -/
structure Sized (sz : Int) (vfs : Vfs) : Prop where
  nonneg : 0 ≤ sz
  size : sz < 72057594037927936
  total : vfs.total < 72057594037927936
  free : vfs.free < 72057594037927936

/-- The answer is the one of unbounded integers. -/
def ExactCheck (env : Env) (sz : Int) (vfs : Vfs) : Prop :=
  checkDiskFree env sz vfs = true ↔ sz + env.wanted vfs ≤ vfs.free

/-- The members of the agent: megabytes in an `int`, and a percentage. -/
structure Settings (env : Env) : Prop where
  mb : 0 ≤ env.minFreeDisk
  mbInt : env.minFreeDisk < 2147483648
  pct : 0 ≤ env.minFreePct
  pctMax : env.minFreePct ≤ 100

section Arithmetic

variable {env : Env} {sz : Int} {vfs : Vfs}

theorem Vfs.total_nonneg (vfs : Vfs) : 0 ≤ vfs.total := Int.mul_nonneg (Int.natCast_nonneg _) (Int.natCast_nonneg _)

theorem Vfs.free_nonneg (vfs : Vfs) : 0 ≤ vfs.free := Int.mul_nonneg (Int.natCast_nonneg _) (Int.natCast_nonneg _)

theorem Sized.diskFree_eq (h : Sized sz vfs) : diskFree vfs = vfs.free := by
  have := vfs.free_nonneg
  have := h.free
  exact wrap64_of_int (x := vfs.free) (by omega) (by omega)

theorem Sized.diskSize_eq (h : Sized sz vfs) : diskSize vfs = vfs.total := by
  have := vfs.total_nonneg
  have := h.total
  exact wrap64_of_int (x := vfs.total) (by omega) (by omega)

/-- A percentage of the size is a size. -/
theorem Settings.share (hs : Settings env) (vfs : Vfs) :
    0 ≤ env.minFreePct * vfs.total ∧ env.minFreePct * vfs.total ≤ 100 * vfs.total :=
  ⟨Int.mul_nonneg hs.pct vfs.total_nonneg, Int.mul_le_mul_of_nonneg_right hs.pctMax vfs.total_nonneg⟩

/-- The multiplication of the megabytes, cut twice, is cut once. -/
theorem wrap32_megabytes (mb : Int) : wrap32 (wrap32 (mb * 1024) * 1024) = wrap32 (mb * 1048576) := by
  unfold wrap32
  rw [Int.bmod_mul_bmod, Int.mul_assoc]
  rfl

/-- What `checkDiskFree` compares. -/
theorem checkDiskFree_eq (hs : Settings env) (h : Sized sz vfs) :
    checkDiskFree env sz vfs = decide (sz + env.kept vfs ≤ vfs.free) := by
  have hmb := hs.mb
  have hb := wrap32_bounds (env.minFreeDisk * 1048576)
  have hshare := hs.share vfs
  have htotal := h.total
  have hnonneg := h.nonneg
  have hsize := h.size
  have hneeded : (if env.minFreeDisk > 0 then wrap64 (sz + wrap32 (wrap32 (env.minFreeDisk * 1024) * 1024)) else sz) =
      sz + wrap32 (env.minFreeDisk * 1048576) := by
    split
    · rw [wrap32_megabytes, wrap64_of_int (by omega) (by omega)]
    · rename_i hzero
      have hz : env.minFreeDisk = 0 := by omega
      rw [hz, wrap32_of_int (by omega) (by omega)]
      omega
  unfold checkDiskFree Env.kept
  rw [hneeded, h.diskFree_eq, h.diskSize_eq]
  dsimp only
  split
  · rw [wrap64_of_int (x := env.minFreePct * vfs.total) (by omega) (by omega), Int.tdiv_eq_ediv_of_nonneg hshare.1,
      wrap64_of_int (by omega) (by omega)]
    congr 1
    simp only [ge_iff_le, eq_iff_iff]
    omega
  · rfl

/-- What is kept is never more than what is wanted. -/
theorem Settings.kept_le (hs : Settings env) (vfs : Vfs) : env.kept vfs ≤ env.wanted vfs := by
  have hmb := hs.mb
  have hle : wrap32 (env.minFreeDisk * 1048576) ≤ env.minFreeDisk * 1048576 := by
    by_cases hbig : 2147483648 ≤ env.minFreeDisk * 1048576
    · exact Int.le_of_lt (wrap32_lt hbig)
    · rw [wrap32_of_int (by omega) (by omega)]
  unfold Env.kept Env.wanted
  split <;> omega

/-- Below 2048 megabytes it is what is wanted. -/
theorem Settings.kept_eq (hs : Settings env) (hmb : env.minFreeDisk < 2048) (vfs : Vfs) :
    env.kept vfs = env.wanted vfs := by
  have hnonneg := hs.mb
  unfold Env.kept Env.wanted
  rw [wrap32_of_int (by omega) (by omega)]
  split
  · rfl
  · have hp : env.minFreePct = 0 := by have := hs.pct; omega
    rw [hp]
    omega

/-- The comparison is exact where both amounts are on one side of the free space. -/
theorem exactCheck_iff (hs : Settings env) (h : Sized sz vfs) :
    ExactCheck env sz vfs ↔ vfs.free < sz + env.kept vfs ∨ sz + env.wanted vfs ≤ vfs.free := by
  have hle := hs.kept_le vfs
  unfold ExactCheck
  rw [checkDiskFree_eq hs h, decide_eq_true_iff]
  omega

/-- A filesystem of 2047 megabytes, all of them free. -/
def Sample.twoGigabytes : Vfs := { f_frsize := 1048576, f_blocks := 2047, f_bavail := 2047 }

theorem sized_twoGigabytes : Sized 0 Sample.twoGigabytes := by
  constructor <;> decide

/-- It is too small for 2048 megabytes or more, and this goes unnoticed. -/
theorem not_exactCheck_twoGigabytes (hs : Settings env) (hmb : 2048 ≤ env.minFreeDisk) :
    ¬ ExactCheck env 0 Sample.twoGigabytes := by
  have htotal : Sample.twoGigabytes.total = 2146435072 := by decide
  have hfree : Sample.twoGigabytes.free = 2146435072 := by decide
  have hpct := hs.pctMax
  have hcut : wrap32 (env.minFreeDisk * 1048576) ≤ 2146435072 := by
    unfold wrap32
    rw [Int.bmod_def]
    split <;> omega
  rw [exactCheck_iff hs sized_twoGigabytes, hfree]
  unfold Env.kept Env.wanted
  rw [htotal]
  split <;> omega

/-- **The arithmetic of free space.** The answers of an agent are those of unbounded integers, for all sizes and
filesystems below 2 ^ 56 bytes, if and only if less than 2048 megabytes are to be kept. From there on a single
answer is still right exactly where the free space is enough for all of the megabytes, or not enough for what the
`int` has left of them. -/
theorem checkDiskFree_exact_iff (hs : Settings env) :
    ((∀ sz vfs, Sized sz vfs → ExactCheck env sz vfs) ↔ env.minFreeDisk < 2048) ∧
    ∀ sz vfs, Sized sz vfs → (ExactCheck env sz vfs ↔
      env.minFreeDisk < 2048 ∨ vfs.free < sz + env.kept vfs ∨ sz + env.wanted vfs ≤ vfs.free) := by
  have hsmall : env.minFreeDisk < 2048 → ∀ sz vfs, Sized sz vfs → ExactCheck env sz vfs := by
    intro hmb sz vfs h
    rw [exactCheck_iff hs h, hs.kept_eq hmb]
    omega
  refine ⟨⟨fun hall => ?_, hsmall⟩, fun sz vfs h => ?_⟩
  · by_contra hmb
    exact not_exactCheck_twoGigabytes hs (by omega) (hall _ _ sized_twoGigabytes)
  · rw [← exactCheck_iff hs h]
    exact ⟨Or.inr, fun hor => hor.elim (fun hmb => hsmall hmb sz vfs h) id⟩

end Arithmetic

/-- The agent with a number of megabytes to keep free. -/
def Sample.keeping (mb : Int) : Env := { Sample.env Sample.noCodec with minFreeDisk := mb, minFreePct := 0 }

/-- 2047 megabytes are kept exactly, 2048 are not. -/
theorem checkDiskFree_exact_iff_sample :
    (∀ sz vfs, Sized sz vfs → ExactCheck (Sample.keeping 2047) sz vfs) ∧
    ¬ ∀ sz vfs, Sized sz vfs → ExactCheck (Sample.keeping 2048) sz vfs := by
  have h₀ : Settings (Sample.keeping 2047) := by constructor <;> decide
  have h₁ : Settings (Sample.keeping 2048) := by constructor <;> decide
  exact ⟨(checkDiskFree_exact_iff h₀).1.2 (by decide), fun h => absurd ((checkDiskFree_exact_iff h₁).1.1 h) (by decide)⟩

/-- 2048 megabytes are to be kept, the filesystem has no free space, and a file of one byte is let through. -/
theorem checkDiskFree_yes_on_full :
    Settings (Sample.keeping 2048) ∧ Sized 1 { f_bavail := 0 } ∧
    checkDiskFree (Sample.keeping 2048) 1 { f_bavail := 0 } = true ∧
    ¬ (1 + (Sample.keeping 2048).wanted { f_bavail := 0 } ≤ Vfs.free { f_bavail := 0 }) := by
  refine ⟨by constructor <;> decide, by constructor <;> decide, by decide, by decide⟩

/-! ## The size that is weighed -/

/-- A copy to another device was begun: the check of the free space had been passed. -/
def Begun (tr : List Ev) : Prop := ∃ e ∈ tr, e.site = .mkdtemp

/-- A file said to have `sz` bytes passed the check for the destination of the run. -/
def Weighed (env : Env) (sz : Int) (tr : List Ev) : Prop := checkDiskFree env sz (vfsAt .statvfsDest tr) = true

/-- What the check for `sz` bytes says of a filesystem, whatever its figures are: the check is about them if
`statvfs` succeeded, and about the contents of a struct that nobody filled if it failed. -/
def Ensures (env : Env) (sz : Int) (heard : Bool) (P : Vfs → Prop) : Prop :=
  ∀ disk shown : Vfs, (heard = true → shown = disk) → checkDiskFree env sz shown = true → P disk

/-- The check for `sz` bytes says that `len` bytes are free. -/
def Ample (env : Env) (sz : Int) (len : Nat) (heard : Bool) : Prop := Ensures env sz heard fun disk =>
    (len : Int) ≤ disk.free

section Weighing

variable {env : Env} {sz : Int} {len : Nat} {w w' : World} {tr tr₁ tr₂ : List Ev}

theorem begun_append : Begun (tr₁ ++ tr₂) ↔ Begun tr₁ ∨ Begun tr₂ := by
  simp only [Begun, List.mem_append, or_and_right, exists_or]

theorem not_begun {S : Site → Prop} (h : AllAt S tr) (hs : ¬ S .mkdtemp) : ¬ Begun tr := by
  rintro ⟨e, he, hm⟩
  exact hs (hm ▸ h e he)

/-- A move that began a copy had weighed the size it was given. -/
theorem run_moveFile_weighed {src dest : Str} {fi : FileInfo} {o : Outcome Exn Unit}
    (h : Run Machine (moveFile env src dest fi) w tr o w') (hb : Begun tr) : Weighed env fi.size tr := by
  obtain ⟨ch₁, r₁, w₁, tr₁, -, k₁, rfl⟩ := run_call.1 h
  obtain ⟨x, hx, hm⟩ := hb
  rcases List.mem_cons.1 hx with rfl | hx₁
  · cases hm
  cases r₁ with
  | ok _ =>
    obtain ⟨rfl, -, -⟩ := run_throw.1 k₁
    cases hx₁
  | error e =>
    obtain ⟨o₂, w₂, tr₂, tr₃, h₂, rfl, h₃⟩ := k₁.first
    have hat := (run_fileInfo h₂).2.1
    have hx₃ : x ∈ tr₃ := (List.mem_append.1 hx₁).resolve_left fun hx₂ => by cases (hat x hx₂).symm.trans hm
    rcases h₃ with rfl | ⟨pre, -, k₂⟩
    · cases hx₃
    split at k₂
    · obtain ⟨rfl, -, -⟩ := run_throw.1 k₂
      cases hx₃
    obtain ⟨ch₃, r₃, w₃, tr₄, -, k₃, rfl⟩ := run_call.1 k₂
    rcases List.mem_cons.1 hx₃ with rfl | hx₄
    · cases hm
    split at k₃
    · obtain ⟨rfl, -, -⟩ := run_ret.1 k₃
      cases hx₄
    · obtain ⟨ch₄, srcvfs, w₄, tr₅, -, k₄, rfl⟩ := run_call.1 k₃
      obtain ⟨ch₅, destvfs, w₅, tr₆, -, k₅, rfl⟩ := run_call.1 k₄
      split at k₅
      · obtain ⟨rfl, -, -⟩ := run_throw.1 k₅
        simp only [List.mem_cons, List.not_mem_nil, or_false] at hx₄
        rcases hx₄ with rfl | rfl <;> cases hm
      · rename_i hsp
        rw [not_not] at hsp
        unfold Weighed
        simpa [vfsAt_append hat (s := .statvfsDest) (by decide), Op.figures] using hsp
    · obtain ⟨rfl, -, -⟩ := run_throw.1 k₃
      cases hx₄

/-- `diskFree` never says more than there is. -/
theorem diskFree_le (vfs : Vfs) : diskFree vfs ≤ vfs.free :=
  wrap64_le (Int.mul_nonneg (Int.natCast_nonneg _) (Int.natCast_nonneg _))

/-- Without limits the check is that the file fits. -/
theorem checkDiskFree_unlimited {vfs : Vfs} (hd : env.minFreeDisk ≤ 0) (hp : env.minFreePct ≤ 0) :
    checkDiskFree env sz vfs = true ↔ sz ≤ diskFree vfs := by
  unfold checkDiskFree
  rw [if_neg (by omega)]
  dsimp only
  rw [if_neg (by omega), decide_eq_true_iff, ge_iff_le]

/-- What was weighed is an `int64_t`. -/
theorem Weighed.lt (h : Weighed env sz tr) (hd : env.minFreeDisk ≤ 0) (hp : env.minFreePct ≤ 0) :
    sz < 9223372036854775808 :=
  Int.lt_of_le_of_lt ((checkDiskFree_unlimited hd hp).1 h) (wrap64_lt _)

/-- What the check says holds of the filesystem of the destination. -/
theorem Weighed.disk {α : Type} {p : Prog α} {o : Outcome Exn α} {P : Vfs → Prop} (h : Weighed env sz tr)
    (hrun : Run Machine p w tr o w') (hP : Ensures env sz (heardAt .statvfsDest tr) P) : P (diskAt .statvfsDest tr) :=
  hP _ _ (vfsAt_of_heard hrun) h

/-- Figures that just pass the check for `sz` bytes. -/
def barely (sz : Int) : Vfs := { f_frsize := 1, f_bavail := sz.toNat, f_blocks := 100 * (sz.toNat + 1) }

@[simp] theorem free_barely : (barely sz).free = sz.toNat := Int.one_mul _

theorem checkDiskFree_barely (hd : env.minFreeDisk ≤ 0) (hp : env.minFreePct ≤ 0) (hsz : sz < 9223372036854775808) :
    checkDiskFree env sz (barely sz) = true := by
  rw [checkDiskFree_unlimited hd hp]
  have hfree : diskFree (barely sz) = sz.toNat := by
    show wrap64 ((1 : Nat) * sz.toNat) = sz.toNat
    rw [wrap64_of_int (by omega) (by omega)]
    omega
  omega

/-- A check of figures that nobody gave says nothing. -/
theorem ensures_unheard {P : Vfs → Prop} (hd : env.minFreeDisk ≤ 0) (hp : env.minFreePct ≤ 0)
    (hsz : sz < 9223372036854775808) :
    Ensures env sz false P ↔ ∀ disk, P disk :=
  ⟨fun h disk => h disk (barely sz) (fun hf => by cases hf) (checkDiskFree_barely hd hp hsz),
    fun h disk _ _ _ => h disk⟩

theorem ensures_heard {P : Vfs → Prop} : Ensures env sz true P ↔ ∀ disk, checkDiskFree env sz disk = true → P disk :=
  ⟨fun h disk hc => h disk disk (fun _ => rfl) hc, fun h disk _ hs hc => h disk (hs rfl ▸ hc)⟩

/-- A place outside of a copy and its check of the free space. -/
def Apart (s : Site) : Prop := s ≠ .mkdtemp ∧ s ≠ .statvfsDest

theorem begun_frame {tr₃ : List Ev} (h₁ : AllAt Apart tr₁) (h₃ : AllAt Apart tr₃) (hb : Begun (tr₁ ++ tr₂ ++ tr₃)) :
    Begun tr₂ := by
  rw [begun_append, begun_append] at hb
  rcases hb with (hb | hb) | hb
  · exact absurd hb (not_begun h₁ fun hs => hs.1 rfl)
  · exact hb
  · exact absurd hb (not_begun h₃ fun hs => hs.1 rfl)

/-- The figures of a run do not depend on calls at other places. -/
theorem vfsAt_frame {tr₃ : List Ev} (h₁ : AllAt (· ≠ .statvfsDest) tr₁) (h₃ : AllAt (· ≠ .statvfsDest) tr₃) :
    vfsAt .statvfsDest (tr₁ ++ tr₂ ++ tr₃) = vfsAt .statvfsDest tr₂ := by
  rw [List.append_assoc, vfsAt_append h₁ (by simp)]
  have hnone : tr₃.findSome? (fun e => if e.site = .statvfsDest then e.call.op.figures e.res else none) = none := by
    rw [List.findSome?_eq_none_iff]
    intro e he
    rw [if_neg (h₃ e he)]
  unfold vfsAt
  rw [List.findSome?_append, hnone, Option.or_none]

/-- Calls at other places do not matter. -/
theorem weighed_frame {sz : Int} {tr₃ : List Ev} (h₁ : AllAt Apart tr₁) (h₃ : AllAt Apart tr₃)
    (h : Weighed env sz tr₂) :
    Weighed env sz (tr₁ ++ tr₂ ++ tr₃) := by
  unfold Weighed
  rw [vfsAt_frame (fun e he => (h₁ e he).2) (fun e he => (h₃ e he).2)]
  exact h

/-- The second `try` block of `send_file` moves the file, and may remove the metadata. -/
theorem run_finishSend_move {req : SendFileRequest} {id dest destmeta : Str} {fi : FileInfo}
    {o : Outcome Exn (Response Str)}
    (h : Run Machine (finishSend env req id dest destmeta fi) w tr o w') :
    ∃ o₁ w₁ tr₁ tr₂, Run Machine (moveFile env req.filepath dest fi) w tr₁ o₁ w₁ ∧ tr = tr₁ ++ tr₂ ∧
      AllAt (· = .unlinkMeta) tr₂ := by
  obtain ⟨o₁, w₁, tr₁, tr₂, h₁, rfl, h₂⟩ := h.body
  obtain ⟨o₃, h₃⟩ := h₁.only
  refine ⟨o₃, w₁, tr₁, tr₂, h₃, rfl, ?_⟩
  rcases h₂ with rfl | ⟨e, -, h₂⟩
  · exact allAt_nil
  split at h₂
  · obtain ⟨ch, r, w₄, tr', -, h₅, rfl⟩ := run_call.1 h₂
    obtain ⟨rfl, -, -⟩ := run_ret.1 h₅
    simp
  · obtain ⟨rfl, -, -⟩ := run_throw.1 h₂
    exact allAt_nil

/-- A request to send that began a copy had weighed the size of the source, as an `int`. -/
theorem run_sendFile_weighed {req : SendFileRequest} {o : Outcome Exn (Response Str)}
    (h : Run Machine (sendFile env req) w tr o w') (hb : Begun tr) :
    ∃ k, w.fs.node (norm w.fs.cwd req.filepath) = some (.file k) ∧
      Weighed env (wrap32 (w.fs.inode k).data.length) tr := by
  have hnot : ∀ {t : List Ev}, AllAt SendSite t → ¬ Begun t := fun ht => not_begun ht (by decide)
  obtain ⟨o₁, w₁, t₁, t₂, h₁, rfl, h₂⟩ := h.first
  obtain ⟨ch, r, w₂, t₀, e₁, hu, rfl⟩ := run_call.1 h₁
  obtain ⟨rfl, rfl, rfl⟩ := run_ret.1 hu
  have hfs : w₁.fs = w.fs := exec_quiet rfl e₁
  rcases h₂ with rfl | ⟨id, hid, h₂⟩
  · exact absurd hb (hnot (by simp [SendSite]))
  cases hid
  dsimp only at h₂
  split at h₂
  · obtain ⟨rfl, -, -⟩ := run_ret.1 h₂
    exact absurd hb (hnot (by simp [SendSite]))
  obtain ⟨ch', ts, w₃, t₃, e₃, h₃, rfl⟩ := run_call.1 h₂
  have hw₃ := exec_looks e₃ rfl
  subst hw₃
  split at h₃
  · obtain ⟨rfl, -, -⟩ := run_ret.1 h₃
    exact absurd hb (hnot (by simp [SendSite]))
  obtain ⟨ch'', r', w₄, t₄, e₄, h₄, rfl⟩ := run_call.1 h₃
  have hw₄ := exec_looks e₄ rfl
  subst hw₄
  cases r' with
  | error e =>
    obtain ⟨rfl, -, -⟩ := run_ret.1 h₄
    exact absurd hb (hnot (by simp [SendSite]))
  | ok _ =>
    obtain ⟨o₅, w₅, t₅, t₆, h₅, rfl, h₆⟩ := h₄.first
    have hsites : AllAt SendSite t₅ := h₅.calls (startSend_calls (C := fun c => SendSite c.site) fun _ _ hs => hs)
    rcases h₆ with rfl | ⟨res, rfl, h₆⟩
    · exact absurd hb (hnot (by simp [SendSite, hsites]))
    cases res with
    | Bad_Request m =>
      obtain ⟨rfl, -, -⟩ := run_ret.1 h₆
      exact absurd hb (hnot (by simp [SendSite, hsites]))
    | Ok fi =>
      obtain ⟨k, hk, hsize⟩ := size_of_prepareSend (run_startSend_ok h₅)
      obtain ⟨o₇, w₇, t₇, t₈, hmove, rfl, hlast⟩ := run_finishSend_move h₆
      refine ⟨k, hfs ▸ hk, ?_⟩
      have hpre : AllAt Apart ([⟨⟨.mkUUID, .urandom⟩, ch, r⟩, ⟨⟨.checkTopic, .getTopics⟩, ch', ts⟩,
          ⟨⟨.accessSrcDir, .access (dirname req.filepath) .W_OK⟩, ch'', .ok ()⟩] ++ t₅) := by
        have hall : ∀ s, SendSite s → Apart s := by
          intro s hs
          constructor <;> rintro rfl <;> revert hs <;> decide
        have h₀ : AllAt Apart t₅ := fun e he => hall _ (hsites e he)
        simp [h₀, Apart]
      have hpost : AllAt Apart t₈ := by
        intro e he
        rw [hlast e he]
        simp [Apart]
      have hbegun : Begun t₇ := begun_frame hpre hpost (by simpa using hb)
      have hw := weighed_frame hpre hpost (run_moveFile_weighed hmove hbegun)
      rw [hsize, hfs] at hw
      simpa using hw

/-- The `try` block of `retrieve_file` moves the file that the metadata describes, and may quarantine it. -/
theorem run_retrieveMove_weighed {srcfile srcMeta dest : Str} {o : Outcome Exn (Response FileInfo)}
    (h : Run Machine (retrieveMove env srcfile srcMeta dest) w tr o w') (hb : Begun tr) :
    ∃ tm w₁ tr₁ tr₂, Run Machine (readTransferMetaCached env srcMeta) w tr₁ (.ret tm) w₁ ∧ tr = tr₁ ++ tr₂ ∧
      Weighed env tm.fileInfo.size tr := by
  obtain ⟨o₁, w₁, tr₁, tr₂, h₁, rfl, h₂⟩ := h.body
  have hpost : AllAt Apart tr₂ := by
    rcases h₂ with rfl | ⟨e, -, h₂⟩
    · exact allAt_nil
    · refine h₂.calls (C := fun c : Call => Apart c.site) ?_
      unfold retrieveCatch
      split
      · trivial
      · split
        · exact (endeaden_sites (by simp [Apart]) (by simp [Apart]) _).bind fun _ => trivial
        · trivial
  obtain ⟨o₃, w₃, tr₃, tr₄, h₃, rfl, h₄⟩ := h₁.first
  have hpre : AllAt Apart tr₃ :=
    h₃.calls (readTransferMetaCached_sites (by simp [Apart]) (by simp [Apart]) (by simp [Apart])
      (by simp [Apart]) srcMeta)
  rcases h₄ with rfl | ⟨tm, rfl, h₄⟩
  · have hall : AllAt Apart (tr₃ ++ [] ++ tr₂) := by simp [hpre, hpost]
    exact absurd hb (not_begun hall fun hs => hs.1 rfl)
  obtain ⟨o₅, h₅⟩ := h₄.only
  have hw := weighed_frame hpre hpost (run_moveFile_weighed h₅ (begun_frame hpre hpost hb))
  exact ⟨tm, w₃, tr₃, tr₄ ++ tr₂, h₃, by simp, hw⟩

/-- A request to retrieve that began a copy had weighed the size that the metadata gives. -/
theorem run_retrieveFile_weighed {req : RetrieveFileRequest} {o : Outcome Exn (Response FileInfo)}
    (h : Run Machine (retrieveFile env req) w tr o w') (hb : Begun tr) :
    ∃ tm w₁ tr₁, Run Machine (readTransferMetaCached env (env.uploadDir ++ '/' :: (req.id ++ META_EXT))) w tr₁
      (.ret tm) w₁ ∧
      tr₁ <:+: tr ∧ Weighed env tm.fileInfo.size tr := by
  unfold retrieveFile at h
  dsimp only at h
  split at h
  · obtain ⟨rfl, -, -⟩ := run_ret.1 h
    obtain ⟨e, he, -⟩ := hb
    cases he
  obtain ⟨ch, r, w₁, tr₁, e₁, h₁, rfl⟩ := run_call.1 h
  have hw₁ := exec_looks e₁ rfl
  subst hw₁
  have hfirst : AllAt Apart [⟨⟨.accessMeta, .access (env.uploadDir ++ '/' :: (req.id ++ META_EXT)) .R_OK⟩, ch, r⟩] := by
    simp [Apart]
  cases r with
  | error e =>
    obtain ⟨rfl, -, -⟩ := run_ret.1 h₁
    exact absurd hb (not_begun hfirst fun hs => hs.1 rfl)
  | ok _ =>
    obtain ⟨o₂, w₂, tr₂, tr₃, h₂, rfl, h₃⟩ := h₁.first
    have hpost : AllAt Apart tr₃ := by
      rcases h₃ with rfl | ⟨res, -, h₃⟩
      · exact allAt_nil
      cases res with
      | Bad_Request m =>
        obtain ⟨rfl, -, -⟩ := run_ret.1 h₃
        exact allAt_nil
      | Ok fi =>
        obtain ⟨ch', r', w₃, tr₄, -, h₄, rfl⟩ := run_call.1 h₃
        obtain ⟨rfl, -, -⟩ := run_ret.1 h₄
        simp [Apart]
    have hb₂ : Begun tr₂ := begun_frame hfirst hpost (by simpa using hb)
    obtain ⟨tm, w₄, tr₅, tr₆, h₅, rfl, hw⟩ := run_retrieveMove_weighed h₂ hb₂
    refine ⟨tm, w₄, tr₅, h₅, ?_, ?_⟩
    · exact ⟨[⟨⟨.accessMeta, .access (env.uploadDir ++ '/' :: (req.id ++ META_EXT)) .R_OK⟩, ch, .ok ()⟩],
        tr₆ ++ tr₃, by simp⟩
    · simpa using weighed_frame hfirst hpost hw

/-- Without limits the check is enough for every filesystem exactly if no space is needed, or the figures were given
and the file is not longer than what was weighed. -/
theorem ample_iff {heard : Bool} (hd : env.minFreeDisk ≤ 0) (hp : env.minFreePct ≤ 0) (hsz : sz < 9223372036854775808) :
    Ample env sz len heard ↔ len = 0 ∨ heard = true ∧ len ≤ sz.toNat := by
  unfold Ample
  cases heard with
  | false =>
    rw [ensures_unheard hd hp hsz]
    constructor
    · intro h
      have hnone : (len : Int) ≤ 0 := h { f_bavail := 0 }
      omega
    · rintro (rfl | ⟨h, -⟩) disk
      · exact disk.free_nonneg
      · cases h
  | true =>
    rw [ensures_heard]
    constructor
    · intro h
      have hle := h _ (checkDiskFree_barely hd hp hsz)
      rw [free_barely] at hle
      exact .inr ⟨rfl, by omega⟩
    · intro hle disk hpass
      have hfits := (checkDiskFree_unlimited hd hp).1 hpass
      have hfree := diskFree_le disk
      have hnonneg := disk.free_nonneg
      omega

/-- `retrieve_file` asks for the figures of what is before the last slash of the save path. -/
theorem retrieveFile_target {req : RetrieveFileRequest} : (retrieveFile env req).Calls fun c : Call =>
    c.site = .statvfsDest → c.op = .statvfs (dirname req.savePath) := by
  have hother : ∀ s : Site, s ≠ .statvfsDest → ∀ op : Op,
      (fun c : Call => c.site = .statvfsDest → c.op = .statvfs (dirname req.savePath)) ⟨s, op⟩ :=
        fun _ hs _ he => absurd he hs
  have hdead : ∀ file, (endeaden env file).Calls fun c : Call => c.site = .statvfsDest →
      c.op = .statvfs (dirname req.savePath) :=
    fun file => (endeaden_sites (P := (· ≠ .statvfsDest)) (by decide) (by decide) file).mono fun _ hc he => absurd he hc
  unfold retrieveFile
  dsimp only
  split
  · trivial
  refine calls_call.2 ⟨hother _ (by decide) _, fun r => ?_⟩
  cases r with
  | error e => trivial
  | ok _ =>
    refine Proc.Calls.bind (Proc.Calls.handle ?_ fun e => ?_) fun res => ?_
    · refine ((readTransferMetaCached_sites (P := (· ≠ .statvfsDest)) (by decide) (by decide) (by decide)
        (by decide) _).mono
        fun _ hc he => absurd he hc).bind fun tm => ?_
      exact (moveFile_calls (hother _ (by decide)) (hother _ (by decide)) (hother _ (by decide)) fun _ hc =>
        hc.target).bind
        fun _ => trivial
    · unfold retrieveCatch
      split
      · trivial
      · split
        · exact (hdead _).bind fun _ => trivial
        · trivial
    · cases res with
      | Bad_Request m => trivial
      | Ok fi => exact calls_call.2 ⟨hother _ (by decide) _, fun _ => trivial⟩

/-- A save path directly in the root has the empty text for its directory, of which `statvfs` knows nothing. -/
theorem retrieve_root_unheard {req : RetrieveFileRequest} {o : Outcome Exn (Response FileInfo)}
    (h : Run Machine (retrieveFile env req) w tr o w') (hroot : dirname req.savePath = []) :
    heardAt .statvfsDest tr = false := by
  rw [Bool.eq_false_iff]
  intro hh
  rw [heardAt, Option.any_eq_true] at hh
  obtain ⟨e, he, hheard⟩ := hh
  have hop := h.calls retrieveFile_target e (List.mem_of_find?_eq_some he)
    (of_decide_eq_true (List.find?_some (p := fun e : Ev => decide (e.site = .statvfsDest)) he))
  obtain ⟨w₁, w₂, hx⟩ := h.answers e (List.mem_of_find?_eq_some he)
  obtain ⟨⟨s, op⟩, ch, r⟩ := e
  dsimp only at hop
  subst hop
  obtain ⟨-, ⟨-, -, hacc⟩ | ⟨e, hr, -⟩⟩ := exec_statvfs hx
  · rw [hroot] at hacc
    cases hacc
  · rw [show r = _ from hr] at hheard
    cases hheard

/-- A number of bytes is at most what an `int` makes of it exactly if it is an `int`. -/
theorem le_wrap32_iff {len : Nat} : len ≤ (wrap32 len).toNat ↔ len < 2147483648 := by
  constructor
  · intro hle
    by_contra hbig
    have := wrap32_lt (x := len) (by omega)
    omega
  · intro hlt
    rw [wrap32_of_int (by omega) (by omega)]
    omega

end Weighing

/-- **The size that is weighed.** When a request to send has begun a copy, what was weighed against the free space
of the destination was the length of the file as an `int`; this is enough for every destination if and only if the
file is empty, or `statvfs` succeeded and it is shorter than 2 ^ 31 bytes. When a request to retrieve has begun a
copy, the size that the metadata gives was weighed; this is enough if and only if the file is empty, or `statvfs`
succeeded and it is not longer than that. -/
theorem copy_space_iff (program : Env) (cfg : AgentConfig) :
    (∀ req w tr o w' k, Run Machine (sendFile (newAgent program cfg) req) w tr o w' → Begun tr →
      w.fs.node (norm w.fs.cwd req.filepath) = some (.file k) →
      Weighed (newAgent program cfg) (wrap32 (w.fs.inode k).data.length) tr ∧
      (Ample (newAgent program cfg) (wrap32 (w.fs.inode k).data.length) (w.fs.inode k).data.length
        (heardAt .statvfsDest tr) ↔
        (w.fs.inode k).data.length = 0 ∨ heardAt .statvfsDest tr = true ∧ (w.fs.inode k).data.length < 2147483648) ∧
      ((w.fs.inode k).data.length = 0 ∨ heardAt .statvfsDest tr = true ∧ (w.fs.inode k).data.length < 2147483648 →
        ((w.fs.inode k).data.length : Int) ≤ (diskAt .statvfsDest tr).free)) ∧
    ∀ req w tr o w' k, Run Machine (retrieveFile (newAgent program cfg) req) w tr o w' → Begun tr →
      w.fs.node (norm w.fs.cwd ((newAgent program cfg).uploadDir ++ '/' :: (req.id ++ DATA_EXT))) = some (.file k) →
      ∃ tm w₁ tr₁, Run Machine (readTransferMetaCached (newAgent program cfg)
          ((newAgent program cfg).uploadDir ++ '/' :: (req.id ++ META_EXT))) w tr₁ (.ret tm) w₁ ∧ tr₁ <:+: tr ∧
        Weighed (newAgent program cfg) tm.fileInfo.size tr ∧
        (Ample (newAgent program cfg) tm.fileInfo.size (w.fs.inode k).data.length (heardAt .statvfsDest tr) ↔
          (w.fs.inode k).data.length = 0 ∨
            heardAt .statvfsDest tr = true ∧ (w.fs.inode k).data.length ≤ tm.fileInfo.size.toNat) ∧
        ((w.fs.inode k).data.length = 0 ∨
            heardAt .statvfsDest tr = true ∧ (w.fs.inode k).data.length ≤ tm.fileInfo.size.toNat →
          ((w.fs.inode k).data.length : Int) ≤ (diskAt .statvfsDest tr).free) ∧
        (dirname req.savePath = [] → heardAt .statvfsDest tr = false) := by
  have hd : (newAgent program cfg).minFreeDisk ≤ 0 := by simp [newAgent]
  have hp : (newAgent program cfg).minFreePct ≤ 0 := by simp [newAgent]
  constructor
  · intro req w tr o w' k hrun hb hk
    obtain ⟨k', hk', hw⟩ := run_sendFile_weighed hrun hb
    rw [hk] at hk'
    cases hk'
    have hample : Ample _ _ (w.fs.inode k).data.length (heardAt .statvfsDest tr) ↔ _ := ample_iff hd hp (hw.lt hd hp)
    rw [le_wrap32_iff] at hample
    exact ⟨hw, hample, fun hc => hw.disk hrun (hample.2 hc)⟩
  · intro req w tr o w' k hrun hb _
    obtain ⟨tm, w₁, tr₁, hread, hin, hw⟩ := run_retrieveFile_weighed hrun hb
    have hample : Ample _ _ (w.fs.inode k).data.length (heardAt .statvfsDest tr) ↔ _ := ample_iff hd hp (hw.lt hd hp)
    exact ⟨tm, w₁, tr₁, hread, hin, hw, hample, fun hc => hw.disk hrun (hample.2 hc), retrieve_root_unheard hrun⟩

/-- The metadata of the pair in `uploads` says one byte less than there are. -/
def Sample.shortTm : TransferMeta := { Sample.tm with fileInfo := { Sample.tm.fileInfo with size := 1 } }

/-- Its text. -/
def Sample.shortText : Bytes :=
  ("\x7b\"destination\":\"\",\"file_info\":\x7b\"crc32\":\"d8932aac\",\"created\":0,\"id\":\"f\",\"modified\":0," ++
    "\"path\":\"/a/x\",\"size\":1\x7d,\"meta_version\":\"\",\"node\":\"\",\"send_options\":\x7b\"TTLParams\":\x7b" ++
    "\"bulk\":43200,\"surplus\":172800,\"urgent\":9000\x7d,\"reliable\":true\x7d,\"time\":0," ++
    "\"topic\":\"t\"\x7d").toUTF8.toList

/-- Its bytes. -/
theorem Sample.shortText_eq : Sample.shortText =
    [123, 34, 100, 101, 115, 116, 105, 110, 97, 116, 105, 111, 110, 34, 58, 34, 34, 44, 34, 102, 105, 108, 101, 95,
      105, 110, 102, 111, 34, 58, 123, 34, 99, 114, 99, 51, 50, 34, 58, 34, 100, 56, 57, 51, 50, 97, 97, 99, 34, 44,
      34, 99, 114, 101, 97, 116, 101, 100, 34, 58, 48, 44, 34, 105, 100, 34, 58, 34, 102, 34, 44, 34, 109, 111, 100,
      105, 102, 105, 101, 100, 34, 58, 48, 44, 34, 112, 97, 116, 104, 34, 58, 34, 47, 97, 47, 120, 34, 44, 34, 115,
      105, 122, 101, 34, 58, 49, 125, 44, 34, 109, 101, 116, 97, 95, 118, 101, 114, 115, 105, 111, 110, 34, 58, 34,
      34, 44, 34, 110, 111, 100, 101, 34, 58, 34, 34, 44, 34, 115, 101, 110, 100, 95, 111, 112, 116, 105, 111, 110,
      115, 34, 58, 123, 34, 84, 84, 76, 80, 97, 114, 97, 109, 115, 34, 58, 123, 34, 98, 117, 108, 107, 34, 58, 52,
      51, 50, 48, 48, 44, 34, 115, 117, 114, 112, 108, 117, 115, 34, 58, 49, 55, 50, 56, 48, 48, 44, 34, 117, 114,
      103, 101, 110, 116, 34, 58, 57, 48, 48, 48, 125, 44, 34, 114, 101, 108, 105, 97, 98, 108, 101, 34, 58, 116,
      114, 117, 101, 125, 44, 34, 116, 105, 109, 101, 34, 58, 48, 44, 34, 116, 111, 112, 105, 99, 34, 58, 34, 116,
      34, 125] := by
  rw [Sample.shortText, toList_toUTF8]
  rw [String.toByteArray_append, String.toByteArray_append, String.toByteArray_append,
    ByteArray.toList_data_append, ByteArray.toList_data_append, ByteArray.toList_data_append]
  decide +kernel

/-- The filesystem with that pair. -/
def Sample.shortFs : FS :=
  (Sample.fs.putFile "f.data.oort".toList ["uploads".toList, "w".toList] ⟨[104, 105], true, 0, 0⟩).putFile
    "f.meta.oort".toList ["uploads".toList, "w".toList] ⟨Sample.shortText, true, 0, 0⟩

/-- The agent that reads it, with the default configuration. -/
def Sample.shortEnv : Env := Sample.env (Codec.sample Sample.shortTm Sample.shortText)

/-- A request for the pair, to another device with one byte free: the copy is begun, and its first write fails. -/
theorem retrieve_short : ∃ tr o w', Run Machine
      (retrieveFile (newAgent Sample.shortEnv Sample.config) ⟨"f".toList, "/b/y".toList⟩)
      { Sample.world with fs := Sample.shortFs } tr o w' ∧ Begun tr ∧ heardAt .statvfsDest tr = true ∧
    (diskAt .statvfsDest tr).free = 1 := by
  have h : (exec? Machine (retrieveFile (newAgent Sample.shortEnv Sample.config) ⟨"f".toList, "/b/y".toList⟩)
        (List.replicate 10 Sample.calm ++ [{ vfs := { f_frsize := 1, f_blocks := 100, f_bavail := 1 } },
          { pick := "AAAAAA".toList }, Sample.calm, { pick := "BBBBBB".toList }, Sample.calm, Sample.calm,
          { err := some .ENOSPC }] ++ List.replicate 11 Sample.calm)
        { Sample.world with fs := Sample.shortFs }).map (fun x => x.1.any (fun e => decide (Ev.site e = .mkdtemp)) &&
          (heardAt .statvfsDest x.1 && decide ((diskAt .statvfsDest x.1).free = 1))) = some true := by
    rw [Sample.shortEnv, Sample.shortFs, Sample.shortText_eq, Sample.fs_eq]
    decide +kernel
  obtain ⟨⟨tr, o, w'⟩, hx, he⟩ := Option.map_eq_some_iff.1 h
  simp only [Bool.and_eq_true, decide_eq_true_eq] at he
  obtain ⟨hb, hheard, hfree⟩ := he
  obtain ⟨e, hm, hs⟩ := List.any_eq_true.1 hb
  exact ⟨tr, o, w', exec?_sound hx, ⟨e, hm, of_decide_eq_true hs⟩, hheard, hfree⟩

/-- In that run the size of the metadata was weighed. -/
theorem copy_space_iff_sample : ∃ tr o w' tm, Run Machine
      (retrieveFile (newAgent Sample.shortEnv Sample.config) ⟨"f".toList, "/b/y".toList⟩)
      { Sample.world with fs := Sample.shortFs } tr o w' ∧ Weighed (newAgent Sample.shortEnv Sample.config) tm tr ∧
      (Ample (newAgent Sample.shortEnv Sample.config) tm 2 true ↔ 2 ≤ tm.toNat) := by
  obtain ⟨tr, o, w', hrun, hb, hheard, -⟩ := retrieve_short
  obtain ⟨tm, -, -, -, -, hw, hample, -⟩ :=
    (copy_space_iff Sample.shortEnv Sample.config).2 _ _ _ _ _ 1 hrun hb (by decide +kernel)
  have hlen : (Sample.shortFs.inode 1).data.length = 2 := by decide +kernel
  rw [hheard, hlen] at hample
  exact ⟨tr, o, w', tm.fileInfo.size, hrun, hw, by simpa using hample⟩

/-- A file of two bytes whose metadata says one is copied to a filesystem with one byte free. -/
theorem retrieve_outgrows_space : ∃ tr o w' k, Run Machine
      (retrieveFile (newAgent Sample.shortEnv Sample.config) ⟨"f".toList, "/b/y".toList⟩)
      { Sample.world with fs := Sample.shortFs } tr o w' ∧ Begun tr ∧
    Sample.shortFs.node (norm Sample.shortFs.cwd "/w/uploads/f.data.oort".toList) = some (.file k) ∧
    crcText (Sample.shortFs.inode k).data = Sample.shortTm.fileInfo.crc32 ∧
    ¬ ((Sample.shortFs.inode k).data.length : Int) ≤ (diskAt .statvfsDest tr).free := by
  obtain ⟨tr, o, w', hrun, hb, -, hfree⟩ := retrieve_short
  refine ⟨tr, o, w', 1, hrun, hb, by decide +kernel, by decide +kernel, ?_⟩
  rw [hfree]
  decide +kernel

end OortAgent
