import OortAgent.MoveRun

/-!
# Runs in which nothing is refused

What the loops that read and copy a file do when every call goes through: they come to the end of the file, if the
bound on their rounds is beyond its length.

* `getCrc_served`, `fileInfo_served`: the checksum is that of the whole file.
* `copyBlocks_served`: with a usable block size and complete writes the whole file is copied.
-/

namespace OortAgent

open Lib

/-- No call of the trace was refused. -/
def Served (tr : List Ev) : Prop := ∀ e ∈ tr, e.refused = false

/-- Every write of the trace took all its bytes. -/
def FullWrites (tr : List Ev) : Prop := ∀ e ∈ tr, ∀ j b, e.call.op = .write j b → e.call.op.written e.res = b

section Lists

variable {e : Ev} {tr tr₁ tr₂ : List Ev}

@[simp] theorem served_cons : Served (e :: tr) ↔ e.refused = false ∧ Served tr := by simp [Served]

@[simp] theorem served_append : Served (tr₁ ++ tr₂) ↔ Served tr₁ ∧ Served tr₂ := by
  simp only [Served, List.mem_append]
  exact ⟨fun h => ⟨fun e he => h e (.inl he), fun e he => h e (.inr he)⟩, fun h e he => he.elim (h.1 e) (h.2 e)⟩

@[simp] theorem fullWrites_cons :
    FullWrites (e :: tr) ↔ (∀ j b, e.call.op = .write j b → e.call.op.written e.res = b) ∧ FullWrites tr := by
  simp [FullWrites]

@[simp] theorem fullWrites_append : FullWrites (tr₁ ++ tr₂) ↔ FullWrites tr₁ ∧ FullWrites tr₂ := by
  simp only [FullWrites, List.mem_append]
  exact ⟨fun h => ⟨fun e he => h e (.inl he), fun e he => h e (.inr he)⟩, fun h e he => he.elim (h.1 e) (h.2 e)⟩

end Lists

section Read

variable {env : Env} {s : Site} {w w' : World} {tr : List Ev} {k : Ino}

/-- A block read of a file that is not refused. -/
theorem exec_fill {off n : Nat} {ch : Choice} {r : Bytes × Bool}
    (h : (Op.fill (.file k) off n).exec ch w = some (r, w')) (hr : r.2 = false) :
    r.1 = ((w.fs.inode k).data.drop off).take n := by
  have h' := (Prod.mk.inj (Option.some.inj h)).1
  rw [← h'] at hr ⊢
  cases he : ch.err with
  | none => rfl
  | some e =>
    rw [he] at hr
    cases hr

/-- The loop of `getCrc` comes to the end of the file. -/
theorem crcLoop_served : ∀ {n off crc : Nat} {w : World} {tr : List Ev} {o : Outcome Exn Nat},
    Run Machine (Proc.loop n (crcRound s (.file k)) (off, crc)) w tr o w' → Served tr →
    (w.fs.inode k).data.length - off < n → o = .ret (crc32 crc ((w.fs.inode k).data.drop off))
  | 0, _, _, _, _, _, _, _, hn => absurd hn (Nat.not_lt_zero _)
  | n + 1, off, crc, w, tr, o, hr, hs, hn => by
    obtain ⟨ch, ⟨b, bad⟩, w₁, tr', he, hk, rfl⟩ := run_call.1 hr
    obtain ⟨hbad, hs'⟩ := served_cons.1 hs
    have hbad' : bad = false := hbad
    subst hbad'
    have hb : b = ((w.fs.inode k).data.drop off).take 1024 := exec_fill he rfl
    have hw := exec_looks he rfl
    subst hw
    simp only [Bool.false_eq_true, false_or, Proc.pure_eq, Proc.ret_bind] at hk
    split at hk
    · rename_i hlen
      obtain ⟨-, rfl, -⟩ := run_ret.1 hk
      have : ((w₁.fs.inode k).data.drop off).length < 1024 := by
        rw [hb, List.length_take] at hlen
        omega
      rw [hb, List.take_of_length_le (by omega)]
    · rename_i hlen
      have hlen' : b.length = 1024 ∧ 1024 ≤ (w₁.fs.inode k).data.length - off := by
        rw [hb, List.length_take, List.length_drop] at hlen ⊢
        omega
      rw [crcLoop_served hk hs' (by omega), hlen'.1, crc32_append, hb, ← List.drop_drop,
        List.take_append_drop]

/-- A checksum that the loop of `getCrc` gave, with no read refused, is that of the file from the offset on. -/
theorem crcLoop_ret : ∀ {n off crc c : Nat} {w : World} {tr : List Ev},
    Run Machine (Proc.loop n (crcRound s (.file k)) (off, crc)) w tr (.ret c) w' → Served tr →
    c = crc32 crc ((w.fs.inode k).data.drop off)
  | 0, _, _, _, _, _, hr, _ => by cases (run_stop.1 hr).2.1
  | n + 1, off, crc, c, w, tr, hr, hs => by
    obtain ⟨ch, ⟨b, bad⟩, w₁, tr', he, hk, rfl⟩ := run_call.1 hr
    obtain ⟨hbad, hs'⟩ := served_cons.1 hs
    have hbad' : bad = false := hbad
    subst hbad'
    have hb : b = ((w.fs.inode k).data.drop off).take 1024 := exec_fill he rfl
    have hw := exec_looks he rfl
    subst hw
    simp only [Bool.false_eq_true, false_or, Proc.pure_eq, Proc.ret_bind] at hk
    split at hk
    · rename_i hlen
      obtain ⟨-, hc, -⟩ := run_ret.1 hk
      have : ((w₁.fs.inode k).data.drop off).length < 1024 := by
        rw [hb, List.length_take] at hlen
        omega
      rw [Outcome.ret.inj hc, hb, List.take_of_length_le (by omega)]
    · rename_i hlen
      have hlen' : b.length = 1024 := by
        rw [hb, List.length_take] at hlen ⊢
        omega
      rw [crcLoop_ret hk hs', hlen', crc32_append, hb, ← List.drop_drop, List.take_append_drop]

/-- `getCrc` gives the checksum of the whole file. -/
theorem getCrc_served {file : Str} {o : Outcome Exn Str} (h : Run Machine (getCrc env s file) w tr o w')
    (hs : Served tr)
    (hk : w.fs.node (norm w.fs.cwd file) = some (.file k)) (hf : (w.fs.inode k).data.length < env.fuel) :
    o = .ret (crcText (w.fs.inode k).data) := by
  obtain ⟨ch, r, w₁, tr', he, hk', rfl⟩ := run_call.1 h
  obtain ⟨hr, hs'⟩ := served_cons.1 hs
  have hw := exec_looks he rfl
  subst hw
  cases r with
  | error e => cases hr
  | ok x =>
    have hx := FS.pathOpen_handle (inject_ok (Prod.mk.inj (Option.some.inj he)).1).2 hk
    subst hx
    rcases run_bind.1 hk' with ⟨crc, w₂, tr₁, tr₂, h₁, h₂, rfl⟩ | ⟨e, h₁, rfl⟩ | ⟨x, h₁, rfl⟩
    · have := crcLoop_served h₁ (served_append.1 hs').1 (by omega)
      cases this
      obtain ⟨-, rfl, -⟩ := run_ret.1 h₂
      rw [crcText, List.drop_zero]
    · have := crcLoop_served h₁ hs' (by omega)
      cases this
    · have := crcLoop_served h₁ hs' (by omega)
      cases this

/-- What `fileInfo` says of a file. -/
def infoOf (file : Str) (x : Inode) : FileInfo where
  id := tailname file
  path := file
  created := wrap32 x.ctime
  modified := wrap32 x.mtime
  size := wrap32 x.data.length
  crc32 := crcText x.data

/-- `fileInfo` describes the whole file. -/
theorem fileInfo_served {file : Str} {o : Outcome Exn FileInfo} (h : Run Machine (fileInfo env s file) w tr o w')
    (hs : Served tr) (hk : w.fs.node (norm w.fs.cwd file) = some (.file k))
    (hf : (w.fs.inode k).data.length < env.fuel) :
    o = .ret (infoOf file (w.fs.inode k)) := by
  have hstat : ∀ {tr₁ : List Ev} {o₁ : Outcome Exn Stat} {w₁ : World}, Run Machine (fileStat env s file) w tr₁ o₁ w₁ →
      Served tr₁ → o₁ = .ret ⟨true, (w.fs.inode k).data.length, (w.fs.inode k).mtime, (w.fs.inode k).ctime⟩ := by
    intro tr₁ o₁ w₁ h₁ hs₁
    rcases run_fileStat h₁ with ⟨e, what, -, hf⟩ | ⟨st, i, rfl, -, -, hi, rfl⟩
    · obtain ⟨e, he, hr⟩ := List.any_eq_true.1 hf
      rw [hs₁ e he] at hr
      simp at hr
    · rw [hk] at hi
      cases hi
      rfl
  rcases run_bind.1 h with ⟨st, w₁, tr₁, tr₂, h₁, h₂, rfl⟩ | ⟨e, h₁, rfl⟩ | ⟨x, h₁, rfl⟩
  · obtain ⟨hs₁, hs₂⟩ := served_append.1 hs
    cases hstat h₁ hs₁
    have hw := (Run.looks h₁ (fileStat_calls file)).1
    subst hw
    rcases run_bind.1 h₂ with ⟨crc, w₂, tr₃, tr₄, h₃, h₄, rfl⟩ | ⟨e, h₃, rfl⟩ | ⟨x, h₃, rfl⟩
    · cases getCrc_served h₃ (served_append.1 hs₂).1 hk hf
      obtain ⟨-, rfl, -⟩ := run_ret.1 h₄
      rfl
    · cases getCrc_served h₃ hs₂ hk hf
    · cases getCrc_served h₃ hs₂ hk hf
  · cases hstat h₁ hs
  · cases hstat h₁ hs

end Read

section Copy

variable {w w' : World} {tr : List Ev} {k j : Ino} {o : Outcome Exn Unit}

/-- The copy loop comes to the end of the file, and everything from the offset on is written. -/
theorem copyLoop_served {blk : Nat} (hkj : k ≠ j) (hblk : 0 < blk) : ∀ {n off : Nat} {w : World} {tr : List Ev},
    Run Machine (Proc.loop n (copyRound (.file k) j blk) off) w tr o w' → Served tr → FullWrites tr →
    (w.fs.inode k).data.length - off < n → o = .ret () ∧ written .copyWrite tr = (w.fs.inode k).data.drop off
  | 0, _, _, _, _, _, _, hn => absurd hn (Nat.not_lt_zero _)
  | n + 1, off, w, tr, h, hs, hf, hn => by
    obtain ⟨ch, r, w₁, tr', he, hk, rfl⟩ := run_call.1 h
    obtain ⟨hr, hs'⟩ := served_cons.1 hs
    have hw := exec_looks he rfl
    subst hw
    rcases exec_read he with ⟨b, rfl, hpre, hend⟩ | ⟨e, rfl, -⟩
    swap
    · cases hr
    cases b with
    | nil =>
      obtain ⟨rfl, rfl, rfl⟩ := run_ret.1 hk
      refine ⟨rfl, ?_⟩
      rw [hend rfl (Nat.ne_of_gt hblk)]
      rfl
    | cons b bs =>
      obtain ⟨ch', r', w₂, tr'', he', hk', rfl⟩ := run_call.1 hk
      have hall : (Op.write j (b :: bs)).written r' = b :: bs := by
        have := (fullWrites_cons.1 (fullWrites_cons.1 hf).2).1
        exact this j (b :: bs) rfl
      -- the source is another file than the copy
      have hsrc : (w₂.fs.inode k).data = (w₁.fs.inode k).data := by
        obtain ⟨m, -, -, -, -, rfl⟩ | ⟨e, -, rfl, -⟩ := exec_write he'
        · show ((w₁.fs.append j _ _).inode k).data = _
          rw [FS.append, FS.inode_setInode, Function.update_of_ne hkj]
        · rfl
      have hlen : (b :: bs).length ≤ (w₁.fs.inode k).data.length - off := by
        have := hpre.length_le
        rwa [List.length_drop] at this
      have hlen' : 0 < (b :: bs).length := by simp
      obtain ⟨ho, hwr⟩ :=
        copyLoop_served hkj hblk hk' (served_cons.1 hs').2 (fullWrites_cons.1 (fullWrites_cons.1 hf).2).2
        (by rw [hsrc]; omega)
      refine ⟨ho, ?_⟩
      obtain ⟨rest, hrest⟩ := hpre
      rw [written_cons, written_cons, hwr, hsrc]
      simp only [Ev.site_mk, reduceCtorEq, if_false, if_true, List.nil_append, hall]
      rw [← List.drop_drop, ← hrest, List.drop_left]

/-- Without a block size nothing is copied. -/
theorem copyLoop_empty {n : Nat} (hn : 0 < n) (h : Run Machine (Proc.loop n (copyRound (.file k) j 0) 0) w tr o w')
    (hs : Served tr) : o = .ret () ∧ written .copyWrite tr = [] := by
  obtain ⟨n, rfl⟩ := Nat.exists_eq_succ_of_ne_zero (Nat.ne_of_gt hn)
  obtain ⟨ch, r, w₁, tr', he, hk, rfl⟩ := run_call.1 h
  obtain ⟨hr, -⟩ := served_cons.1 hs
  simp only [Op.exec] at he
  rw [if_neg (by simp)] at he
  have hr' := (Prod.mk.inj (Option.some.inj he)).1
  rcases r with e | b
  · cases hr
  · have hb := (inject_ok hr').2
    rw [Nat.zero_min, List.take_zero] at hb
    cases hb
    obtain ⟨rfl, rfl, rfl⟩ := run_ret.1 hk
    exact ⟨rfl, rfl⟩

end Copy

end OortAgent
