import Mathlib.Data.List.Perm.Basic
import OortAgent.Cache
import OortAgent.Lib.Pool
import OortAgent.Lib.Posix
import OortAgent.Models
import OortAgent.Uuid

/-!
# The agent's environment

What the agent's threads share (`World`): the filesystem, the allowed topics, the three caches with their locks, and
the ids handed out so far. What a thread can do to it (`Op`) is a system call, a read of the clock or of
`/dev/urandom`, or a step of a cache; `Site` says from which place of the source a call is made.

`Choice` is what the environment decides at a call: a failure to inject, how many bytes a read or write moves, the
name that `mkdtemp` picks, the clock, the order of a directory, the figures of `statvfs`. `Op.exec` computes the
answer and the new world. A `rename` reports `EXDEV` exactly when the two directories are on different devices: that
is no failure to inject.

* `exec_quiet`: most calls leave the filesystem alone; `exec_rename`, `exec_unlink`, `exec_rmdir`, `exec_mkdtemp`,
  `exec_mkstemp`, `exec_openWrite`, `exec_write`: what the others do.
* `Clean`: a call of a run in which nothing goes wrong.
-/

namespace OortAgent

open Lib

/-- The caches of an agent. -/
inductive CacheId
  | dir
  | metafile
  | metainfo
  deriving DecidableEq

/-- What a cache holds. -/
abbrev CacheId.Val : CacheId → Type
  | .dir => List Name
  | .metafile => List Name
  | .metainfo => TransferMeta

/-- The calls of the source, by place and purpose. -/
inductive Site
  -- Agent::move_file
  | accessDest | precheck | rename | statvfsSrc | statvfsDest | mkdtemp | park | mkstemp | openParked | copyRead
  | copyWrite | closeSrc | fsyncDest | closeDest | verify | publish | unlinkParked | rmdirParked | undo | rmdirUndo
  -- Agent::endeaden
  | endeaden | endeadenTwin
  -- Agent::read_transfer_meta
  | readMeta
  -- Agent::send_file
  | mkUUID | checkTopic | accessSrcDir | sendInfo | time | openMeta | insertMeta | unlinkBadMeta | flushMeta | fsyncMeta
  | flushClose | closeMeta | unlinkMeta
  -- Agent::retrieve_file
  | accessMeta | removeMeta
  -- Agent::files_info
  | listFiles | entryInfo
  -- Agent::collector_info
  | setTopics | getTopics | sysinfo | fileNames
  -- Cache::get
  | cache
  -- Cleaner::cleanOldFiles, Files::oldFiles
  | cleanTime | cleanList | cleanStat | cleanMeta | cleanAccess | cleanData
  deriving DecidableEq

/-- The part of a `struct statvfs` that is looked at. -/
structure Vfs where
  f_bsize : Nat := 4096
  f_frsize : Nat := 4096
  f_blocks : Nat := 1000000
  f_bavail : Nat := 500000
  deriving DecidableEq

/-- One operation of a thread on the world. `fill` is a block read of an `ifstream`: it gives fewer bytes than asked for
only at the end of the file or after an error. -/
inductive Op
  | access (p : Str) (m : Mode)
  | stat (p : Str)
  | openRead (p : Str)
  | openWrite (p : Str)
  | read (h : Handle) (off n : Nat)
  | fill (h : Handle) (off n : Nat)
  | write (i : Ino) (b : Bytes)
  | fsync (i : Ino)
  | close
  | rename (a b : Str)
  | unlink (p : Str)
  | rmdir (p : Str)
  | mkdtemp (tmpl : Str)
  | mkstemp (tmpl : Str)
  | statvfs (p : Str)
  | readdir (p : Str)
  | time
  | urandom
  | getTopics
  | setTopics (ts : List Str)
  | cacheEnabled (c : CacheId)
  | cacheLock (c : CacheId)
  | cacheFind (c : CacheId) (key : Str)
  | cacheStore (c : CacheId) (key : Str) (now : Int) (v : c.Val)
  | cacheUnlock (c : CacheId)

/-- The answer to an operation. `fill` gives its bytes and whether an error ended it; `statvfs` gives its status,
which the code never looks at, and what is in the caller's struct afterwards. -/
abbrev Op.Res : Op → Type
  | .access _ _ => Except Errno Unit
  | .stat _ => Except Errno Stat
  | .openRead _ => Except Errno Handle
  | .openWrite _ => Except Errno Ino
  | .read _ _ _ => Except Errno Bytes
  | .fill _ _ _ => Bytes × Bool
  | .write _ _ => Except Errno Nat
  | .fsync _ => Except Errno Unit
  | .close => Except Errno Unit
  | .rename _ _ => Except Errno Unit
  | .unlink _ => Except Errno Unit
  | .rmdir _ => Except Errno Unit
  | .mkdtemp _ => Except Errno Str
  | .mkstemp _ => Except Errno (Str × Ino)
  | .statvfs _ => Except Errno Unit × Vfs
  | .readdir _ => Except Errno (List Name)
  | .time => Int
  | .urandom => List UInt8
  | .getTopics => List Str
  | .setTopics _ => Unit
  | .cacheEnabled _ => Bool
  | .cacheLock _ => Unit
  | .cacheFind c _ => c.Val ⊕ Int
  | .cacheStore c _ _ _ => Option c.Val
  | .cacheUnlock _ => Unit

/-- An operation made at a place of the source. -/
structure Call where
  site : Site
  op : Op

/-- The calls of the agent. -/
abbrev Calls : Sig := ⟨Call, fun c => c.op.Res⟩

/-- A program of the agent. -/
abbrev Prog (α : Type) := Proc Calls Exn α

/-- Make a call. -/
def sys (s : Site) (op : Op) : Prog op.Res := Proc.call (S := Calls) ⟨s, op⟩

/-- What the threads share. -/
structure World where
  fs : FS
  topics : List Str
  caches : (c : CacheId) → Cache c.Val
  locked : CacheId → Bool
  uuids : List Str

/-- What the environment decides at a call. `vfs` are the figures of the filesystem that a `statvfs` is about,
`junk` is what an uninitialized struct holds. -/
structure Choice where
  err : Option Errno := none
  len : Nat := 1048576
  pick : Str := []
  ticks : Nat → Int := fun _ => 0
  vfs : Vfs := {}
  junk : Vfs := {}
  order : List Name := []
  rand : List UInt8 := []

/-- An outcome that an injected failure takes the place of. -/
def Choice.inject {α : Type} (ch : Choice) (x : Except Errno α) : Except Errno α :=
  match ch.err with
  | some e => .error e
  | none => x

/-- The extension of metadata files. -/
def META_EXT : Str := ".meta.oort".toList

/-- The extension of data files. -/
def DATA_EXT : Str := ".data.oort".toList

/-- No file and no earlier request has the id. -/
def World.unusedId (w : World) (id : Str) : Bool :=
  decide (id ∉ w.uuids) &&
    w.fs.names.keys.all fun l => decide (l.head? ≠ some (id ++ META_EXT) ∧ l.head? ≠ some (id ++ DATA_EXT))

/-- The world after a change of the filesystem that may fail. -/
def World.update (w : World) : Except Errno FS → Except Errno Unit × World
  | .ok fs => (.ok (), { w with fs })
  | .error e => (.error e, w)

/-- What an operation does. `none`: the environment cannot choose this, or the operation blocks. -/
def Op.exec : (op : Op) → Choice → World → Option (op.Res × World)
  | .access p m, ch, w => some (ch.inject (w.fs.pathAccess p m), w)
  | .stat p, ch, w => some (ch.inject (w.fs.pathStat p (ch.ticks 0)), w)
  | .openRead p, ch, w => some (ch.inject (w.fs.pathOpen p), w)
  | .openWrite p, ch, w => match ch.inject (w.fs.create p (ch.ticks 0)) with
    | .ok (i, fs) => some (.ok i, { w with fs })
    | .error e => some (.error e, w)
  | .read .dir _ _, ch, w => some (ch.inject (.error .EISDIR), w)
  | .read (.file i) off n, ch, w =>
    let rest := (w.fs.inode i).data.drop off
    -- before the end of the file at least one byte comes
    if ch.err = none ∧ ch.len = 0 ∧ rest ≠ [] ∧ n ≠ 0 then none
    else some (ch.inject (.ok (rest.take (min n ch.len))), w)
  | .fill .dir _ _, _, w => some (([], true), w)
  | .fill (.file i) off n, ch, w =>
    let rest := (w.fs.inode i).data.drop off
    some (match ch.err with
      | none => (rest.take n, false)
      | some _ => (rest.take (min n ch.len), true), w)
  | .write i b, ch, w => match ch.err with
    | some e => some (.error e, w)
    | none =>
      -- a write that moves nothing fails
      if ch.len = 0 ∧ b ≠ [] then none
      else some (.ok (min b.length ch.len), { w with fs := w.fs.append i (b.take ch.len) (ch.ticks 0) })
  | .fsync _, ch, w => some (ch.inject (.ok ()), w)
  | .close, ch, w => some (ch.inject (.ok ()), w)
  | .rename a b, ch, w =>
    if ch.err = some .EXDEV then none else some (w.update (ch.inject (w.fs.pathRename a b)))
  | .unlink p, ch, w => some (w.update (ch.inject (w.fs.pathUnlink p)))
  | .rmdir p, ch, w => some (w.update (ch.inject (w.fs.pathRmdir p)))
  | .mkdtemp tmpl, ch, w => match ch.err with
    | some e => some (.error e, w)
    | none => (w.fs.mkdtemp tmpl ch.pick).map fun
      | .ok (p, fs) => (.ok p, { w with fs })
      | .error e => (.error e, w)
  | .mkstemp tmpl, ch, w => match ch.err with
    | some e => some (.error e, w)
    | none => (w.fs.mkstemp tmpl ch.pick (ch.ticks 0)).map fun
      | .ok (p, fs) => (.ok p, { w with fs })
      | .error e => (.error e, w)
  | .statvfs p, ch, w =>
    some (match ch.inject (w.fs.pathAccess p .F_OK) with
      | .ok _ => (.ok (), ch.vfs)
      | .error e => (.error e, ch.junk), w)
  | .readdir p, ch, w => match ch.inject (w.fs.pathEntries p) with
    | .error e => some (.error e, w)
    | .ok ns => if ch.order.isPerm ns then some (.ok ch.order, w) else none
  | .time, ch, w => some (ch.ticks 0, w)
  | .urandom, ch, w =>
    let id := uuidText ch.rand
    if ch.rand.length = 16 ∧ w.unusedId id then some (ch.rand, { w with uuids := id :: w.uuids }) else none
  | .getTopics, _, w => some (w.topics, w)
  | .setTopics ts, _, w => some ((), { w with topics := ts })
  | .cacheEnabled c, _, w => some ((w.caches c).enabled, w)
  | .cacheLock c, _, w =>
    if w.locked c then none else some ((), { w with locked := Function.update w.locked c true })
  | .cacheFind c key, ch, w =>
    let (c', r) := (w.caches c).find ch.ticks key
    some (r, { w with caches := Function.update w.caches c c' })
  | .cacheStore c key now v, _, w =>
    let c' := (w.caches c).emplace key now v
    some (c'.valueAt key, { w with caches := Function.update w.caches c c' })
  | .cacheUnlock c, _, w => some ((), { w with locked := Function.update w.locked c false })

/-- The semantics of the agent's calls. -/
abbrev Machine : Sem Calls World Choice := ⟨fun c ch w => c.op.exec ch w⟩

/-- A call that was made, with its answer. -/
abbrev Ev := Event Calls Choice

/-! ## What a call does to the filesystem -/

/-- The operation leaves the filesystem alone. -/
def Op.quiet : Op → Bool
  | .openWrite _ => false
  | .write _ _ => false
  | .rename _ _ => false
  | .unlink _ => false
  | .rmdir _ => false
  | .mkdtemp _ => false
  | .mkstemp _ => false
  | _ => true

section Exec

variable {ch : Choice} {w w' : World}

theorem exec_quiet {op : Op} {r : op.Res} (hq : op.quiet = true) (h : op.exec ch w = some (r, w')) : w'.fs = w.fs := by
  cases op
  case openWrite => cases hq
  case write => cases hq
  case rename => cases hq
  case unlink => cases hq
  case rmdir => cases hq
  case mkdtemp => cases hq
  case mkstemp => cases hq
  case read h' off n =>
    cases h' with
    | dir => cases h; rfl
    | file i =>
      simp only [Op.exec] at h
      split at h
      · cases h
      · cases h; rfl
  case fill h' off n =>
    cases h' with
    | dir => cases h; rfl
    | file i => cases h; rfl
  case readdir p =>
    simp only [Op.exec] at h
    split at h
    · cases h; rfl
    · split at h
      · cases h; rfl
      · cases h
  case urandom =>
    simp only [Op.exec] at h
    split at h
    · cases h; rfl
    · cases h
  case cacheLock c =>
    simp only [Op.exec] at h
    split at h
    · cases h
    · cases h; rfl
  all_goals (cases h; rfl)

theorem inject_ok {α : Type} {x : Except Errno α} {a : α} (h : ch.inject x = .ok a) : ch.err = none ∧ x = .ok a := by
  unfold Choice.inject at h
  split at h
  · cases h
  · rename_i he; exact ⟨he, h⟩

/-- A change of names that succeeded, or nothing. -/
theorem update_cases {x : Except Errno FS} {r : Except Errno Unit} (h : w.update x = (r, w')) :
    (∃ fs, r = .ok () ∧ x = .ok fs ∧ w' = { w with fs }) ∨ ∃ e, r = .error e ∧ x = .error e ∧ w' = w := by
  cases x with
  | ok fs => cases h; exact .inl ⟨fs, rfl, rfl, rfl⟩
  | error e => cases h; exact .inr ⟨e, rfl, rfl, rfl⟩

theorem exec_rename {a b : Str} {r : Except Errno Unit} (h : (Op.rename a b).exec ch w = some (r, w')) :
    (∃ fs, r = .ok () ∧ ch.err = none ∧ w.fs.pathRename a b = .ok fs ∧ w' = { w with fs }) ∨
    ∃ e, r = .error e ∧ w' = w ∧ ch.inject (w.fs.pathRename a b) = .error e ∧ ch.err ≠ some .EXDEV := by
  simp only [Op.exec] at h
  split at h
  · cases h
  rename_i hx
  rcases update_cases (Option.some.inj h) with ⟨fs, rfl, hf, rfl⟩ | ⟨e, rfl, he, rfl⟩
  · exact .inl ⟨fs, rfl, (inject_ok hf).1, (inject_ok hf).2, rfl⟩
  · exact .inr ⟨e, rfl, rfl, he, hx⟩

theorem exec_unlink {p : Str} {r : Except Errno Unit} (h : (Op.unlink p).exec ch w = some (r, w')) :
    (∃ fs, r = .ok () ∧ w.fs.pathUnlink p = .ok fs ∧ w' = { w with fs }) ∨
    ∃ e, r = .error e ∧ w' = w ∧ ch.inject (w.fs.pathUnlink p) = .error e := by
  rcases update_cases (Option.some.inj h) with ⟨fs, rfl, hf, rfl⟩ | ⟨e, rfl, he, rfl⟩
  · exact .inl ⟨fs, rfl, (inject_ok hf).2, rfl⟩
  · exact .inr ⟨e, rfl, rfl, he⟩

/-- A directory was listed, in some order. -/
theorem exec_readdir {p : Str} {names : List Name} (h : (Op.readdir p).exec ch w = some (.ok names, w')) :
    ∃ ns, w.fs.pathEntries p = .ok ns ∧ names.Perm ns ∧ ch.err = none := by
  simp only [Op.exec] at h
  split at h
  · cases h
  · rename_i ns hns
    split at h
    · rename_i hp
      cases h
      exact ⟨ns, (inject_ok hns).2, List.isPerm_iff.1 hp, (inject_ok hns).1⟩
    · cases h

/-- `statvfs` gives the figures of the filesystem, or fails and leaves the struct as it was. -/
theorem exec_statvfs {p : Str} {r : Except Errno Unit × Vfs} (h : (Op.statvfs p).exec ch w = some (r, w')) :
    w' = w ∧ ((r = (.ok (), ch.vfs) ∧ ch.err = none ∧ w.fs.pathAccess p .F_OK = .ok ()) ∨
      ∃ e, r = (.error e, ch.junk) ∧ ch.inject (w.fs.pathAccess p .F_OK) = .error e) := by
  obtain ⟨hr, rfl⟩ := Prod.mk.inj (Option.some.inj h)
  refine ⟨rfl, ?_⟩
  split at hr
  · rename_i hok
    exact .inl ⟨hr.symm, inject_ok hok⟩
  · rename_i e he
    exact .inr ⟨e, hr.symm, he⟩

theorem exec_rmdir {p : Str} {r : Except Errno Unit} (h : (Op.rmdir p).exec ch w = some (r, w')) :
    (∃ fs, r = .ok () ∧ w.fs.pathRmdir p = .ok fs ∧ w' = { w with fs }) ∨ ∃ e, r = .error e ∧ w' = w := by
  rcases update_cases (Option.some.inj h) with ⟨fs, rfl, hf, rfl⟩ | ⟨e, rfl, he, rfl⟩
  · exact .inl ⟨fs, rfl, (inject_ok hf).2, rfl⟩
  · exact .inr ⟨e, rfl, rfl⟩

theorem exec_mkdtemp {tmpl : Str} {r : Except Errno Str} (h : (Op.mkdtemp tmpl).exec ch w = some (r, w')) :
    (∃ p fs, r = .ok p ∧ w.fs.mkdtemp tmpl ch.pick = some (.ok (p, fs)) ∧ w' = { w with fs }) ∨
    ∃ e, r = .error e ∧ w' = w := by
  simp only [Op.exec] at h
  split at h
  · cases h; exact .inr ⟨_, rfl, rfl⟩
  · obtain ⟨x, hx, he⟩ := Option.map_eq_some_iff.1 h
    cases x with
    | ok y => obtain ⟨p, fs⟩ := y; cases he; exact .inl ⟨p, fs, rfl, hx, rfl⟩
    | error e => cases he; exact .inr ⟨e, rfl, rfl⟩

theorem exec_mkstemp {tmpl : Str} {r : Except Errno (Str × Ino)} (h : (Op.mkstemp tmpl).exec ch w = some (r, w')) :
    (∃ p i fs, r = .ok (p, i) ∧ w.fs.mkstemp tmpl ch.pick (ch.ticks 0) = some (.ok ((p, i), fs)) ∧
      w' = { w with fs }) ∨ ∃ e, r = .error e ∧ w' = w := by
  simp only [Op.exec] at h
  split at h
  · cases h; exact .inr ⟨_, rfl, rfl⟩
  · obtain ⟨x, hx, he⟩ := Option.map_eq_some_iff.1 h
    cases x with
    | ok y => obtain ⟨⟨p, i⟩, fs⟩ := y; cases he; exact .inl ⟨p, i, fs, rfl, hx, rfl⟩
    | error e => cases he; exact .inr ⟨e, rfl, rfl⟩

theorem exec_openWrite {p : Str} {r : Except Errno Ino} (h : (Op.openWrite p).exec ch w = some (r, w')) :
    (∃ i fs, r = .ok i ∧ w.fs.create p (ch.ticks 0) = .ok (i, fs) ∧ w' = { w with fs }) ∨
    ∃ e, r = .error e ∧ w' = w := by
  simp only [Op.exec] at h
  split at h
  · rename_i i fs hx; cases h; exact .inl ⟨i, fs, rfl, (inject_ok hx).2, rfl⟩
  · rename_i e hx; cases h; exact .inr ⟨e, rfl, rfl⟩

theorem exec_write {i : Ino} {b : Bytes} {r : Except Errno Nat} (h : (Op.write i b).exec ch w = some (r, w')) :
    (∃ n, r = .ok n ∧ n = min b.length ch.len ∧ (b ≠ [] → 0 < n) ∧ ch.err = none ∧
      w' = { w with fs := w.fs.append i (b.take n) (ch.ticks 0) }) ∨ ∃ e, r = .error e ∧ w' = w ∧ ch.err = some e := by
  simp only [Op.exec] at h
  split at h
  · rename_i e he; cases h; exact .inr ⟨e, rfl, rfl, he⟩
  · rename_i hn
    split at h
    · cases h
    · rename_i h0
      cases h
      refine .inl ⟨min b.length ch.len, rfl, rfl, fun hb => ?_, hn, ?_⟩
      · have : ch.len ≠ 0 := fun e => h0 ⟨e, hb⟩
        have : 0 < b.length := List.length_pos_iff.2 hb
        omega
      · have : b.take (min b.length ch.len) = b.take ch.len := by
          rcases Nat.le_total b.length ch.len with hl | hl
          · rw [Nat.min_eq_left hl, List.take_of_length_le hl, List.take_length]
          · rw [Nat.min_eq_right hl]
        rw [this]

/-- A `read` gives bytes from its offset on, and none only at the end of the file. -/
theorem exec_read {i : Ino} {off n : Nat} {r : Except Errno Bytes}
    (h : (Op.read (.file i) off n).exec ch w = some (r, w')) :
    (∃ b, r = .ok b ∧ b <+: (w.fs.inode i).data.drop off ∧ (b = [] → n ≠ 0 → (w.fs.inode i).data.drop off = [])) ∨
    ∃ e, r = .error e ∧ ch.err = some e := by
  simp only [Op.exec] at h
  split at h
  · cases h
  rename_i h0
  have hr := (Prod.mk.inj (Option.some.inj h)).1
  unfold Choice.inject at hr
  split at hr
  · rename_i e he
    exact .inr ⟨e, hr.symm, he⟩
  · rename_i he
    refine .inl ⟨_, hr.symm, List.take_prefix _ _, fun hb hn => ?_⟩
    by_contra hne
    have hlen : ch.len ≠ 0 := fun hl => h0 ⟨he, hl, hne, hn⟩
    rcases List.take_eq_nil_iff.1 hb with hm | hm
    · omega
    · exact hne hm

end Exec

/-! ## Clean runs -/

/-- A call of a clean run: it is not made to fail, a write takes all its bytes, and `statvfs` gives for a directory
that is there a block size from 1 to 2 ^ 31 - 1. -/
def Clean (w : World) (e : Ev) : Prop :=
  e.choice.err = none ∧ match e.call.op with
    | .write _ b => b.length ≤ e.choice.len
    | .statvfs p => ∀ l, w.fs.resolve p = .ok l → w.fs.node l ≠ none →
        0 < e.choice.vfs.f_bsize ∧ e.choice.vfs.f_bsize < 2147483648
    | _ => True

end OortAgent
