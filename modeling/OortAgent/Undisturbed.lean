import OortAgent.Remembered

/-!
# Requests that nothing disturbs

What `send_file`, `retrieve_file` and `meta` do in a clean run, said in terms of what is seen of the filesystem: a
request that is refused changes nothing that can be seen, and one that is not moves a file between its place and the
pair of an id.

* `run_sendFile_calm`, `run_retrieveFile_calm`, `run_metaRequest_calm`.
-/

namespace OortAgent

open Lib

/-! ## Metadata -/

section Write

variable {env : Env} {s : Site} {w w' : World} {tr : List Ev} {j : Ino} {t l : Loc} {x : Inode} {fs fs' : FS}

/-- What is seen after a new file was made. -/
theorem Added.look (h : Added fs fs' t x) :
    fs'.look l = if l = t then some (.file x.data x.readable) else fs.look l := by
  split
  · rename_i e
    rw [FS.look_file (i := fs.next) (by rw [h.node, if_pos e]), h.inode]
    simp
  · rename_i e
    refine FS.look_of_node (by rw [h.node, if_neg e]) fun i hi => ?_
    rw [h.inode, Function.update_of_ne]
    exact Nat.ne_of_lt (fs.bound _ _ hi)

/-- A file is made where its name is free. -/
theorem create_goes {p : Str} (now : Int) (hl : fs.resolve p = .ok l) (hfree : fs.node l = none)
    (hw : fs.writable l.tail = true) :
    ∃ fs', fs.create p now = .ok (fs.next, fs') ∧ Added fs fs' l ⟨[], true, now, now⟩ := by
  cases l with
  | nil =>
    obtain ⟨v, b, hr⟩ := fs.root
    cases hfree.symm.trans hr
  | cons n d =>
    obtain ⟨v, b, hd⟩ := FS.isDir_iff.1 (FS.isDir_of_writable hw)
    have hb : b = true := by
      rw [FS.writable, hd] at hw
      exact hw
    subst hb
    rw [List.tail_cons] at hd
    have hdir : fs.isDir d = true := FS.isDir_iff.2 ⟨v, true, hd⟩
    refine ⟨fs.putFile n d ⟨[], true, now, now⟩, ?_, hfree, FS.node_putFile hdir hfree, FS.inode_putFile hdir hfree,
      FS.cwd_putFile⟩
    rw [FS.create, hl]
    simp only [hfree, FS.mkfile, hd, if_true]

/-- Everything is written. -/
theorem calm_xwrite {text : Bytes} {o : Outcome Exn (Option Errno)} (h : Run Machine (xwrite s j text) w tr o w')
    (ha : Along Machine Clean w tr) : o = .ret none ∧ ∃ x, w' = { w with fs := w.fs.setInode j x } ∧
      x.data = (w.fs.inode j).data ++ text ∧ x.readable = (w.fs.inode j).readable := by
  -- a round with nothing left
  have hdone : ∀ {n : Nat} {w w' : World} {tr : List Ev} {o : Outcome Exn (Option Errno)},
      Run Machine (Proc.loop (n + 1) (xwriteRound s j) []) w tr o w' → o = .ret none ∧ w' = w := by
    intro n w w' tr o h
    rw [Proc.loop, xwriteRound, if_pos rfl] at h
    obtain ⟨-, rfl, rfl⟩ := run_ret.1 h
    exact ⟨rfl, rfl⟩
  by_cases ht : text = []
  · subst ht
    obtain ⟨rfl, rfl⟩ := hdone h
    exact ⟨rfl, w'.fs.inode j, by simp [FS.setInode], by simp, rfl⟩
  · rw [xwrite, Proc.loop, xwriteRound, if_neg ht] at h
    obtain ⟨ch, r, w₁, tr', he, hk, rfl⟩ := run_call.1 h
    obtain ⟨hclean, -⟩ := (along_cons he).1 ha
    obtain ⟨rfl, rfl⟩ := calm_write he hclean
    obtain ⟨n, hn⟩ : ∃ n, text.length = n + 1 :=
      Nat.exists_eq_succ_of_ne_zero (fun h0 => ht (List.length_eq_zero_iff.1 h0))
    have hk' : Run Machine (Proc.loop text.length (xwriteRound s j) (text.drop text.length))
      { w with fs := w.fs.append j text (ch.ticks 0) } tr' o w' := hk
    rw [List.drop_length, hn] at hk'
    obtain ⟨rfl, rfl⟩ := hdone hk'
    exact ⟨rfl, _, rfl, rfl, rfl⟩

/-- The stream writes what it has kept, and is closed. -/
theorem calm_closeStream {pending : Bytes} {o : Outcome Exn (Option Errno)}
    (h : Run Machine (closeStream j pending) w tr o w') (ha : Along Machine Clean w tr) :
    (∃ last, o = .ret last) ∧ ∃ x, w' = { w with fs := w.fs.setInode j x } ∧
      x.data = (w.fs.inode j).data ++ pending ∧ x.readable = (w.fs.inode j).readable := by
  obtain ⟨failed, w₁, tr₁, tr₂, h₁, ha₁, h₂, ha₂, rfl⟩ := h.bind_along ha fun h ha => ⟨_, (calm_xwrite h ha).1⟩
  obtain ⟨ho, x, rfl, hx, hr⟩ := calm_xwrite h₁ ha₁
  cases ho
  obtain ⟨ch₁, r₁, w₂, tr₃, e₁, k₁, rfl⟩ := run_call.1 h₂
  obtain ⟨ch₂, r₂, w₃, tr₄, e₂, k₂, rfl⟩ := run_call.1 k₁
  have hx₁ := exec_looks e₁ rfl
  have hx₂ := exec_looks e₂ rfl
  subst hx₁ hx₂
  obtain ⟨-, rfl, rfl⟩ := run_ret.1 k₂
  exact ⟨⟨_, rfl⟩, x, rfl, hx, hr⟩

/-- The stream writes the text at once, or keeps it. -/
theorem calm_insertText {text : Bytes} {o : Outcome Exn (Bytes × Option Errno)}
    (h : Run Machine (insertText env j text) w tr o w') (ha : Along Machine Clean w tr)
    (hnew : (w.fs.inode j).data = []) :
    ∃ pending x, o = .ret (pending, none) ∧ w' = { w with fs := w.fs.setInode j x } ∧ x.data ++ pending = text ∧
      x.readable = (w.fs.inode j).readable := by
  unfold insertText at h
  split at h
  · obtain ⟨failed, w₁, tr₁, tr₂, h₁, ha₁, h₂, -, rfl⟩ := h.bind_along ha fun h ha => ⟨_, (calm_xwrite h ha).1⟩
    obtain ⟨ho, x, rfl, hx, hr⟩ := calm_xwrite h₁ ha₁
    cases ho
    obtain ⟨-, rfl, rfl⟩ := run_ret.1 h₂
    exact ⟨[], x, rfl, rfl, by simp [hx, hnew], hr⟩
  · obtain ⟨-, rfl, rfl⟩ := run_ret.1 h
    exact ⟨text, w'.fs.inode j, rfl, by simp [FS.setInode], by simp [hnew], rfl⟩

/-- The metadata is written to a new file. -/
theorem calm_writeMeta {destmeta : Str} {text : Bytes} {o : Outcome Exn Unit}
    (h : Run Machine (writeMeta env destmeta text) w tr o w')
    (ha : Along Machine Clean w tr) (hl : w.fs.resolve destmeta = .ok l) (hfree : w.fs.node l = none)
    (hw : w.fs.writable l.tail = true) : o = .ret () ∧ OnlyFiles w w' ∧ ∃ x, Added w.fs w'.fs l x ∧ x.data = text ∧
      x.readable = true := by
  obtain ⟨ch, r, w₁, tr', he, hk, rfl⟩ := run_call.1 h
  obtain ⟨⟨herr, -⟩, ha'⟩ := (along_cons he).1 ha
  obtain ⟨fs₁, hcreate, hA⟩ := create_goes (ch.ticks 0) hl hfree hw
  simp only [Op.exec, inject_calm herr, hcreate] at he
  cases he
  dsimp only at hk
  have hnew : fs₁.inode w.fs.next = ⟨[], true, ch.ticks 0, ch.ticks 0⟩ := by simp [hA.inode]
  have hinsert : ∀ {tr : List Ev} {o : Outcome Exn (Bytes × Option Errno)} {w₂ : World},
      Run Machine (insertText env w.fs.next text) { w with fs := fs₁ } tr o w₂ →
      Along Machine Clean { w with fs := fs₁ } tr → _ := fun h ha => calm_insertText h ha (by rw [hnew])
  obtain ⟨⟨pending, failed⟩, w₂, tr₁, tr₂, h₁, ha₁, h₂, ha₂, rfl⟩ := hk.bind_along ha' fun h ha => by
    obtain ⟨_, _, ho, -⟩ := hinsert h ha
    exact ⟨_, ho⟩
  obtain ⟨pending', x, ho, rfl, hx, hr⟩ := hinsert h₁ ha₁
  cases ho
  obtain ⟨last, w₃, tr₃, tr₄, h₃, ha₃, h₄, -, rfl⟩ := h₂.bind_along ha₂ fun h ha => (calm_closeStream h ha).1
  obtain ⟨-, y, rfl, hy, hry⟩ := calm_closeStream h₃ ha₃
  obtain ⟨-, rfl, rfl⟩ := run_ret.1 h₄
  refine ⟨rfl, ⟨rfl, hA.cwd⟩, y, (hA.setInode x).setInode y, ?_, ?_⟩
  · simpa [hx] using hy
  · simpa [hr, hnew] using hry

end Write

/-! ## Sending a file -/

section Send

variable {env : Env} {req : SendFileRequest} {id : Str} {w w' : World} {tr : List Ev}

/-- Files that are read in the model: they may be read, and its loops come to their end. -/
def Legal (env : Env) (fs : FS) (l : Loc) : Prop :=
  ∀ k, fs.node l = some (.file k) → (fs.inode k).readable = true ∧ (fs.inode k).data.length < env.fuel

/-- The path leads to a file. -/
def Leads (fs : FS) (p : Str) (k : Ino) : Prop :=
  fs.resolve p = .ok (norm fs.cwd p) ∧ fs.node (norm fs.cwd p) = some (.file k)

/-- `fileInfo` finds a file, or there is none and it throws. -/
theorem calm_fileInfo_or {s : Site} {file : Str} {o : Outcome Exn FileInfo}
    (h : Run Machine (fileInfo env s file) w tr o w')
    (ha : Along Machine Clean w tr) (hf : Legal env w.fs (norm w.fs.cwd file)) : w' = w ∧
    (((∃ e, o = .throw e ∧ e.isRuntime = true) ∧ ∀ k, ¬ Leads w.fs file k) ∨
      ∃ k, Leads w.fs file k ∧ o = .ret (infoOf file (w.fs.inode k))) := by
  refine ⟨(Run.looks h (fileInfo_calls file)).1, ?_⟩
  by_cases hfound : ∃ k, Leads w.fs file k
  · obtain ⟨k, hl, hk⟩ := hfound
    exact .inr ⟨k, ⟨hl, hk⟩, (calm_fileInfo h ha hl hk (hf k hk).1 (hf k hk).2).1⟩
  refine .inl ⟨?_, not_exists.1 hfound⟩
  have hstat : ∀ {tr₁ : List Ev} {o₁ : Outcome Exn Stat} {w₁ : World}, Run Machine (fileStat env s file) w tr₁ o₁ w₁ →
      ∃ e, o₁ = .throw e ∧ e.isRuntime = true := by
    intro tr₁ o₁ w₁ h₁
    obtain ⟨ch, r, w₂, tr₂, he, hk, rfl⟩ := run_call.1 h₁
    cases r with
    | error e =>
      obtain ⟨-, rfl, -⟩ := run_throw.1 hk
      exact ⟨_, rfl, rfl⟩
    | ok st =>
      dsimp only at hk
      split at hk
      · rename_i hreg
        obtain ⟨i, hl, hi, -⟩ := FS.pathStat_reg (inject_ok (Prod.mk.inj (Option.some.inj he)).1).2 hreg
        exact absurd ⟨i, hl, hi⟩ hfound
      · obtain ⟨-, rfl, -⟩ := run_throw.1 hk
        exact ⟨_, rfl, rfl⟩
  rcases run_bind.1 h with ⟨st, w₁, tr₁, tr₂, h₁, h₂, rfl⟩ | ⟨e, h₁, rfl⟩ | ⟨x, h₁, rfl⟩
  · obtain ⟨e, he, -⟩ := hstat h₁
    cases he
  · obtain ⟨e', he, hr⟩ := hstat h₁
    cases he
    exact ⟨e, rfl, hr⟩
  · obtain ⟨e', he, -⟩ := hstat h₁
    cases he

/-- What a stored pair shows. -/
def sentLook (fs : FS) (a d m : Loc) (text : Bytes) (l : Loc) : Option Sight :=
  if l = d then fs.look a else if l = m then some (.file text true) else if l = a then none else fs.look l

/-- The first `try` block of `send_file`: the metadata is there, or the request is refused and nothing has changed. -/
theorem calm_startSend {destmeta : Str} {l : Loc} {o : Outcome Exn (Response FileInfo)}
    (h : Run Machine (startSend env req id destmeta) w tr o w') (ha : Along Machine Clean w tr)
    (hid : utf8 id = true) (hu : MetaSpeaks env req tr) (hf : Legal env w.fs (norm w.fs.cwd req.filepath))
    (hl : w.fs.resolve destmeta = .ok l) (hfree : w.fs.node l = none)
    (hw : w.fs.writable l.tail = true) :
    (∃ m, o = .ret (.Bad_Request m) ∧ (∀ k, ¬ Leads w.fs req.filepath k) ∧ w' = w) ∨
    ∃ k time x, Leads w.fs req.filepath k ∧
      (transferMeta env req { infoOf req.filepath (w.fs.inode k) with id := id } time).texts.all utf8 = true ∧
      o = .ret (.Ok { infoOf req.filepath (w.fs.inode k) with id := id }) ∧ OnlyFiles w w' ∧ Added w.fs w'.fs l x ∧
      x.data = env.codec.dump (transferMeta env req { infoOf req.filepath (w.fs.inode k) with id := id } time) ∧
      x.readable = true := by
  have hprepare : ∀ {tr : List Ev} {o : Outcome Exn FileInfo} {w' : World},
      Run Machine (prepareSend env req id destmeta) w tr o w' →
      Along Machine Clean w tr → MetaSpeaks env req tr →
      ((∃ e, o = .throw e ∧ e.isRuntime = true) ∧ (∀ k, ¬ Leads w.fs req.filepath k) ∧ w' = w) ∨
      ∃ k time x, Leads w.fs req.filepath k ∧
        (transferMeta env req { infoOf req.filepath (w.fs.inode k) with id := id } time).texts.all utf8 = true ∧
        o = .ret { infoOf req.filepath (w.fs.inode k) with id := id } ∧ OnlyFiles w w' ∧ Added w.fs w'.fs l x ∧
        x.data = env.codec.dump (transferMeta env req { infoOf req.filepath (w.fs.inode k) with id := id } time) ∧
        x.readable = true := by
    intro tr o w' h₁ ha₁ hu₁
    rcases run_bind.1 h₁ with ⟨fi, w₁, tr₁, tr₂, h₂, h₃, rfl⟩ | ⟨e, h₂, rfl⟩ | ⟨y, h₂, rfl⟩
    · obtain ⟨ha₂, ha₃⟩ := h₂.along.1 ha₁
      obtain ⟨rfl, ⟨⟨e, he, -⟩, -⟩ | ⟨k, hk, ho⟩⟩ := calm_fileInfo_or h₂ ha₂ hf
      · cases he
      cases ho
      obtain ⟨ch, time, w₂, tr₃, he, h₄, rfl⟩ := run_call.1 h₃
      have ha₄ := ((along_cons he).1 ha₃).2
      have hx := exec_looks he rfl
      subst hx
      have htexts :
          (transferMeta env req { infoOf req.filepath (w₂.fs.inode k) with id := id } time).texts.all utf8 = true :=
        (texts_transferMeta rfl rfl (utf8_hex8 _) hid).trans (hu₁ (by simp [Op.refused]))
      rw [writeTransferMeta, if_pos htexts] at h₄
      obtain ⟨_, w₃, tr₄, tr₅, h₅, ha₅, h₆, -, rfl⟩ := h₄.bind_along ha₄ fun h ha =>
        ⟨_, (calm_writeMeta h ha hl hfree hw).1⟩
      obtain ⟨-, hfiles, x, hA, hx, hr⟩ := calm_writeMeta h₅ ha₅ hl hfree hw
      obtain ⟨-, rfl, rfl⟩ := run_ret.1 h₆
      exact .inr ⟨k, time, x, hk, htexts, rfl, hfiles, hA, hx, hr⟩
    · obtain ⟨rfl, ⟨⟨e', he, hr⟩, hno⟩ | ⟨k, -, ho⟩⟩ := calm_fileInfo_or h₂ ha₁ hf
      · cases he
        exact .inl ⟨⟨e, rfl, hr⟩, hno, rfl⟩
      · cases ho
    · obtain ⟨-, ⟨⟨e', he, -⟩, -⟩ | ⟨k, -, ho⟩⟩ := calm_fileInfo_or h₂ ha₁ hf
      · cases he
      · cases ho
  rcases run_try.1 h with ⟨fi, h₁, rfl⟩ | ⟨x, h₁, rfl⟩ | ⟨e, w₁, tr₁, tr₂, h₁, h₂, rfl⟩
  · obtain ⟨⟨e, he, -⟩, -⟩ | ⟨k, time, x, hk, hall, ho, hrest⟩ := hprepare h₁ ha hu
    · cases he
    · cases ho
      exact .inr ⟨k, time, x, hk, hall, rfl, hrest⟩
  · obtain ⟨⟨e, he, -⟩, -⟩ | ⟨k, time, x', -, -, ho, -⟩ := hprepare h₁ ha hu
    · cases he
    · cases ho
  · obtain ⟨⟨e', he, hr⟩, hno, rfl⟩ | ⟨k, time, x, -, -, ho, -⟩ := hprepare h₁ (h₁.along.1 ha).1 hu.left
    · cases he
      rw [if_pos hr] at h₂
      obtain ⟨-, rfl, rfl⟩ := run_ret.1 h₂
      exact .inl ⟨_, rfl, hno, rfl⟩
    · cases ho

/-- Where everything looks the same, paths lead to the same places. -/
theorem resolve_look {fs fs' : FS} (h : fs'.look = fs.look) (hc : fs'.cwd = fs.cwd) {p : Str} {l : Loc}
    (hl : fs.resolve p = .ok l) : fs'.resolve p = .ok l :=
  FS.resolve_mono (fun k hk => by rw [FS.isDir_of_look (congrFun h k)]; exact hk) hc hl

theorem OnlyFiles.trans {w₁ w₂ : World} (h : OnlyFiles w w₁) (h' : OnlyFiles w₁ w₂) : OnlyFiles w w₂ := by
  obtain ⟨e, hc⟩ := h
  obtain ⟨e', hc'⟩ := h'
  refine ⟨?_, hc'.trans hc⟩
  rw [e'] at *
  rw [e]

/-- A file that is there can be removed. -/
theorem calm_unlink_look {s : Site} {p : Str} {l : Loc} {ch : Choice} {r : Except Errno Unit} {data : Bytes} {b : Bool}
    (he : (Op.unlink p).exec ch w = some (r, w')) (ha : Clean w ⟨⟨s, .unlink p⟩, ch, r⟩) (hl : w.fs.resolve p = .ok l)
    (hd : w.fs.look l = some (.file data b)) (hw : w.fs.writable l.tail = true) :
    r = .ok () ∧ OnlyFiles w w' ∧ ∀ k, w'.fs.look k = if k = l then none else w.fs.look k := by
  obtain ⟨i, hi, -⟩ := FS.look_eq_file.1 hd
  obtain ⟨fs', hu⟩ := FS.unlink_goes hi hw
  obtain ⟨rfl, rfl⟩ := calm_unlink he ha (by rw [FS.pathUnlink, hl]; exact hu)
  exact ⟨rfl, ⟨rfl, (FS.unlink_frame hu).2.2⟩, fun k => FS.look_unlink hu⟩

/-- A directory is none of the new files. -/
theorem Added.dir {fs fs' : FS} {t l : Loc} {x : Inode} (h : Added fs fs' t x) (hl : fs.isDir l = true) :
    fs'.node l = fs.node l := by
  rw [h.node, if_neg]
  rintro rfl
  simp [FS.isDir, h.free] at hl

/-- The rest of `send_file`: the pair is stored, or the metadata is removed and everything looks as before. -/
theorem calm_finishSend {dest destmeta : Str} {d m D : Loc} {k : Ino} {fi : FileInfo} {size : Int}
    {w₀ : World} {x : Inode}
    {o : Outcome Exn (Response Str)} (h : Run Machine (finishSend env req id dest destmeta fi) w tr o w')
    (ha : Along Machine Clean w tr) (hw : OnlyFiles w₀ w) (hA : Added w₀.fs w.fs m x)
    (hx : x.readable = true) (hk : Leads w₀.fs req.filepath k) (hf : Legal env w₀.fs (norm w₀.fs.cwd req.filepath))
    (hsw : w₀.fs.writable (norm w₀.fs.cwd req.filepath).tail = true)
    (hcrc : fi.crc32 = crcText (w₀.fs.inode k).data) (hs : Dirs req.filepath) (hd : Dirs dest)
    (hdest : w₀.fs.resolve dest = .ok d)
    (hfree : w₀.fs.node d = none) (hm : w₀.fs.resolve destmeta = .ok m) (hT : w₀.fs.writable D = true) (hdm : d ≠ m)
    (hdD : d.tail = D) (hmD : m.tail = D) (hsize : fi.size = size) :
    OnlyFiles w₀ w' ∧
    ((o = .ret (.Ok id) ∧
        (∀ vfs, DiskShows vfs tr → RoomFor env w₀.fs vfs size (norm w₀.fs.cwd req.filepath).tail D) ∧
        w'.fs.look = sentLook w₀.fs (norm w₀.fs.cwd req.filepath) d m x.data) ∨
      ((∃ text, o = .ret (.Bad_Request text)) ∧
        (∀ vfs, DiskShows vfs tr → ¬ RoomFor env w₀.fs vfs size (norm w₀.fs.cwd req.filepath).tail D) ∧
        w'.fs.look = w₀.fs.look)) := by
  obtain ⟨hres, hk⟩ := hk
  subst hsize
  rw [← hmD] at hT ⊢
  have htail : d.tail = m.tail := hdD.trans hmD.symm
  have hcwd : w.fs.cwd = w₀.fs.cwd := hw.2
  have hdir : ∀ l, w₀.fs.isDir l = true → w.fs.isDir l = true := fun l => hA.isDir
  have hne : norm w₀.fs.cwd req.filepath ≠ m := by
    intro e
    have := hA.free
    rw [← e, hk] at this
    cases this
  have hk' : w.fs.node (norm w.fs.cwd req.filepath) = some (.file k) := by rw [hcwd, hA.node, if_neg hne, hk]
  have hinode : w.fs.inode k = w₀.fs.inode k := by
    rw [hA.inode, Function.update_of_ne]
    exact Nat.ne_of_lt (w₀.fs.bound _ _ hk)
  -- whether it can be moved
  have hsw' : w.fs.writable (norm w.fs.cwd req.filepath).tail = true := by
    rw [hcwd, FS.writable, hA.dir (FS.isDir_of_writable hsw)]
    exact hsw
  have hmovable : ∀ {vfs : Vfs}, Movable env w.fs vfs fi.size (norm w.fs.cwd req.filepath) dest ↔
      RoomFor env w₀.fs vfs fi.size (norm w₀.fs.cwd req.filepath).tail m.tail := by
    intro vfs
    rw [← htail]
    have hdn := FS.resolve_norm hdest
    have hTd : w₀.fs.writable d.tail = true := htail ▸ hT
    have hdev : w.fs.dev (norm w.fs.cwd req.filepath).tail = w₀.fs.dev (norm w₀.fs.cwd req.filepath).tail ∧
        w.fs.dev (norm w.fs.cwd dest).tail = w₀.fs.dev d.tail := by
      simp only [hcwd, ← hdn, FS.dev, hA.dir (FS.isDir_of_writable hsw), hA.dir (FS.isDir_of_writable hTd), and_self]
    refine ⟨fun hM hne' => hM.room (by rwa [hdev.1, hdev.2]), fun hroom => ⟨?_, ?_, hsw', ?_, fun hne' => hroom ?_⟩⟩
    · rw [hcwd, ← hdn]
      exact FS.resolve_mono hdir hcwd hdest
    · rw [hcwd, ← hdn, hA.node, if_neg hdm, hfree]
    · rw [hcwd, ← hdn, FS.writable, hA.dir (FS.isDir_of_writable hTd)]
      exact hTd
    · rwa [hdev.1, hdev.2] at hne'
  have hmove : ∀ {tr : List Ev} {o : Outcome Exn Unit} {w' : World},
      Run Machine (moveFile env req.filepath dest fi) w tr o w' →
      Along Machine Clean w tr → OnlyFiles w w' ∧
      ((o = .ret () ∧
        (∀ vfs, DiskShows vfs tr → RoomFor env w₀.fs vfs fi.size (norm w₀.fs.cwd req.filepath).tail m.tail) ∧
          w'.fs.look = sentLook w₀.fs (norm w₀.fs.cwd req.filepath) d m x.data) ∨
        ((∃ e, o = .throw e ∧ e.isSystem = true) ∧
          (∀ vfs, DiskShows vfs tr → ¬ RoomFor env w₀.fs vfs fi.size (norm w₀.fs.cwd req.filepath).tail m.tail) ∧
          w'.fs.look = w.fs.look)) := by
    intro tr o w' h₁ ha₁
    obtain ⟨hof, ⟨ho, -, hM, hlook⟩ | ⟨hthrow, hM, hlook⟩ | ⟨-, hcrash⟩⟩ := run_moveFile_calm h₁ ha₁
      (by rw [hcwd]; exact FS.resolve_mono hdir hcwd hres) hk' (by rw [hinode]; exact (hf k hk).1)
      (by rw [hinode]; exact hcrc)
      (by rw [hinode]; exact (hf k hk).2) hs hd
    · rw [hcwd, ← FS.resolve_norm hdest] at hlook
      refine ⟨hof, .inl ⟨ho, fun vfs hv => hmovable.1 (hM vfs hv), funext fun l => ?_⟩⟩
      rw [hlook, FS.renamedLook, sentLook, hA.look, if_neg hne, hA.look, hx]
      by_cases hlm : l = m
      · have hla : l ≠ norm w₀.fs.cwd req.filepath := hlm ▸ hne.symm
        rw [if_pos hlm, if_pos hlm, if_neg hla]
      · rw [if_neg hlm, if_neg hlm]
    · exact ⟨hof, .inr ⟨hthrow, fun vfs hv hroom => hM vfs hv (hmovable.2 hroom), hlook⟩⟩
    · rw [hsw'] at hcrash
      cases hcrash
  rcases run_try.1 h with ⟨u, h₁, rfl⟩ | ⟨y, h₁, rfl⟩ | ⟨e, w₁, tr₁, tr₂, h₁, h₂, rfl⟩
  · obtain ⟨hof, ⟨-, hroom, hlook⟩ | ⟨⟨e, he, -⟩, -⟩⟩ := hmove h₁ ha
    · exact ⟨hw.trans hof, .inl ⟨rfl, hroom, hlook⟩⟩
    · cases he
  · obtain ⟨-, ⟨ho, -⟩ | ⟨⟨e, he, -⟩, -⟩⟩ := hmove h₁ ha
    · cases ho
    · cases he
  · obtain ⟨ha₁, ha₂⟩ := h₁.along.1 ha
    obtain ⟨hof, ⟨ho, -⟩ | ⟨⟨e', he, hsys⟩, hroom, hlook⟩⟩ := hmove h₁ ha₁
    · cases ho
    cases he
    rw [if_pos hsys] at h₂
    obtain ⟨ch, r, w₂, tr₃, he, h₄, rfl⟩ := run_call.1 h₂
    obtain ⟨hclean, -⟩ := (along_cons he).1 ha₂
    have hlook₀ : ∀ l, w₁.fs.look l = if l = m then some (.file x.data x.readable) else w₀.fs.look l := by
      intro l
      rw [hlook, hA.look]
    have hres₁ : w₁.fs.resolve destmeta = .ok m := resolve_look hlook hof.2 (FS.resolve_mono hdir hcwd hm)
    obtain ⟨v, b, hv⟩ := FS.isDir_iff.1 (FS.isDir_of_writable hT)
    have hb : b = true := by
      rw [FS.writable, hv] at hT
      exact hT
    have htail : w₁.fs.writable m.tail = true := by
      have htm : m.tail ≠ m := by
        intro e
        have := hA.free
        rw [← e, hv] at this
        cases this
      refine FS.writable_eq_look (v := v) ?_
      rw [hlook₀, if_neg htm, FS.look_eq_dir, hv, hb]
    obtain ⟨-, hof₂, hgone⟩ := calm_unlink_look he hclean hres₁ (by rw [hlook₀, if_pos rfl]) htail
    obtain ⟨-, rfl, rfl⟩ := run_ret.1 h₄
    refine ⟨(hw.trans hof).trans hof₂, .inr ⟨⟨_, rfl⟩, fun vfs hv => hroom vfs hv.left, funext fun l => ?_⟩⟩
    rw [hgone, hlook₀]
    split_ifs with hl
    · rw [hl, FS.look_eq_none.2 hA.free]
    · rfl

/-- A directory that `access` found: its path is not empty. -/
theorem ne_nil_of_access {fs : FS} {p : Str} {m : Mode} (h : fs.pathAccess p m = .ok ()) : p ≠ [] := by
  rintro rfl
  simp [FS.pathAccess, FS.resolve] at h

theorem transferDir_there (hT : (env.transfers w.fs.cwd).There w.fs) :
    w.fs.resolve env.transferDir = .ok (env.transfers w.fs.cwd).dir :=
  FS.resolve_of_ways transferDir_ne_nil hT

/-- A path in a directory of the agent has a directory part. -/
theorem dirs_child {d n : Str} (hd : d ≠ []) (hn : '/' ∉ n) : Dirs (d ++ '/' :: n) :=
  ⟨by simp, by rw [dirname_child hn]; exact hd⟩

/-- A directory part that can be changed. -/
theorem access_dirname {fs : FS} {p : Str} {k : Ino} (hp : Dirs p) (hk : Leads fs p k) :
    fs.pathAccess (dirname p) .W_OK = .ok () ↔ fs.writable (norm fs.cwd p).tail = true := by
  have hd : fs.isDir (norm fs.cwd p) = false := by rw [FS.isDir, hk.2]
  obtain ⟨hr, hdir⟩ := dirname_there hp hk.1 hd
  rw [norm_dirname hp hk.1 hd] at hr hdir
  obtain ⟨v, b, hv⟩ := FS.isDir_iff.1 hdir
  rw [FS.pathAccess, hr, FS.writable]
  cases b <;> simp [hv]

/-- A request to send a file that there is no reason to refuse: the path is absolute and not in the root directory,
the topic is allowed, the file can be taken away, and there is room for it in `transfers`. -/
structure Sendable (env : Env) (w : World) (vfs : Vfs) (req : SendFileRequest) : Prop where
  path : checkPath req.filepath = true
  topic : checkTopic w.topics req.topic = true
  dir : dirname req.filepath ≠ []
  source : w.fs.writable (norm w.fs.cwd req.filepath).tail = true
  file : ∃ k, Leads w.fs req.filepath k ∧
    RoomFor env w.fs vfs (wrap32 (w.fs.inode k).data.length) (norm w.fs.cwd req.filepath).tail
    (env.transfers w.fs.cwd).dir

/-- The id of a request. -/
theorem run_mkUUID {o : Outcome Exn Str} (h : Run Machine mkUUID w tr o w') : ∃ r, o = .ret (uuidText r) ∧
    w.unusedId (uuidText r) = true ∧ w' = { w with uuids := uuidText r :: w.uuids } := by
  obtain ⟨ch, r, w₂, t₀, e₁, hu, rfl⟩ := run_call.1 h
  obtain ⟨rfl, rfl, rfl⟩ := run_ret.1 hu
  obtain ⟨hun, rfl⟩ := exec_urandom e₁
  exact ⟨r, rfl, hun, rfl⟩

/-- The two `try` blocks of `send_file`, for a path whose directory part can be changed. -/
theorem calm_store {D : Loc} {o : Outcome Exn (Response Str)} (h : Run Machine (do
      match ← startSend env req id (env.transferDir ++ '/' :: (id ++ META_EXT)) with
      | .Bad_Request message => return .Bad_Request message
      | .Ok fi =>
        finishSend env req id (env.transferDir ++ '/' :: (id ++ DATA_EXT))
          (env.transferDir ++ '/' :: (id ++ META_EXT)) fi : Prog (Response Str)) w tr o w')
    (ha : Along Machine Clean w tr) (hid : '/' ∉ id) (hid8 : utf8 id = true) (hu : MetaSpeaks env req tr)
    (hD : w.fs.resolve env.transferDir = .ok D) (hw : w.fs.writable D = true)
    (hmeta : w.fs.node (metaAt D id) = none) (hdata : w.fs.node (dataAt D id) = none)
    (hf : Legal env w.fs (norm w.fs.cwd req.filepath)) (hs : Dirs req.filepath)
    (hacc : w.fs.pathAccess (dirname req.filepath) .W_OK = .ok ()) : OnlyFiles w w' ∧
    ((∃ k time, o = .ret (.Ok id) ∧ Leads w.fs req.filepath k ∧
        (transferMeta env req { infoOf req.filepath (w.fs.inode k) with id := id } time).texts.all utf8 = true ∧
        (∀ vfs, DiskShows vfs tr →
          RoomFor env w.fs vfs (wrap32 (w.fs.inode k).data.length) (norm w.fs.cwd req.filepath).tail D) ∧
        w'.fs.look = sentLook w.fs (norm w.fs.cwd req.filepath) (dataAt D id) (metaAt D id)
          (env.codec.dump (transferMeta env req { infoOf req.filepath (w.fs.inode k) with id := id } time))) ∨
      ((∃ text, o = .ret (.Bad_Request text)) ∧
        (∀ vfs, DiskShows vfs tr → ∀ k, Leads w.fs req.filepath k →
          ¬ RoomFor env w.fs vfs (wrap32 (w.fs.inode k).data.length) (norm w.fs.cwd req.filepath).tail D) ∧
        w'.fs.look = w.fs.look)) := by
  have hdir : w.fs.isDir D = true := FS.isDir_of_writable hw
  have hresm : w.fs.resolve (env.transferDir ++ '/' :: (id ++ META_EXT)) = .ok (metaAt D id) :=
    FS.resolve_child hD hdir (IsExt.plain (.inl rfl) hid)
  have hresd : w.fs.resolve (env.transferDir ++ '/' :: (id ++ DATA_EXT)) = .ok (dataAt D id) :=
    FS.resolve_child hD hdir (IsExt.plain (.inr rfl) hid)
  have hstart : ∀ {tr : List Ev} {o : Outcome Exn (Response FileInfo)} {w' : World},
      Run Machine (startSend env req id (env.transferDir ++ '/' :: (id ++ META_EXT))) w tr o w' →
      Along Machine Clean w tr →
        MetaSpeaks env req tr → _ :=
    fun h ha hu => calm_startSend h ha hid8 hu hf hresm hmeta hw
  rcases run_bind.1 h with ⟨res, w₅, t₅, t₆, h₅, h₆, rfl⟩ | ⟨e, h₅, rfl⟩ | ⟨x, h₅, rfl⟩
  · obtain ⟨ha₅, ha₆⟩ := h₅.along.1 ha
    obtain ⟨m, ho, hno, rfl⟩ | ⟨k, time, x, hk, hall, ho, hof, hA, hx, hrd⟩ := hstart h₅ ha₅ hu.left
    · cases ho
      obtain ⟨-, rfl, rfl⟩ := run_ret.1 h₆
      exact ⟨⟨rfl, rfl⟩, .inr ⟨⟨_, rfl⟩, fun vfs _ k hk => absurd hk (hno k), rfl⟩⟩
    · cases ho
      have hsize : ({ infoOf req.filepath (w.fs.inode k) with id := id } : FileInfo).size =
      wrap32 (w.fs.inode k).data.length := by
        simp only [infoOf]
      have hfinish := calm_finishSend h₆ ha₆ hof hA hrd hk hf ((access_dirname hs hk).1 hacc) rfl hs
        (dirs_child transferDir_ne_nil (IsExt.plain (.inr rfl) hid).2.2.2) hresd hdata hresm hw metaAt_ne_dataAt.symm
        (List.tail_cons ..) (List.tail_cons ..) hsize
      obtain ⟨hof', ⟨ho, hroom, hlook⟩ | ⟨ho, hroom, hlook⟩⟩ := hfinish
      · rw [hx] at hlook
        exact ⟨hof', .inl ⟨k, time, ho, hk, hall, fun vfs hv => hroom vfs hv.right, hlook⟩⟩
      · refine ⟨hof', .inr ⟨ho, fun vfs hv k' hk' => ?_, hlook⟩⟩
        obtain rfl : k = k' := by
          have := hk.2.symm.trans hk'.2
          cases this
          rfl
        exact hroom vfs hv.right
  · obtain ⟨m, ho, -⟩ | ⟨k, time, x, -, -, ho, -⟩ := hstart h₅ ha hu <;> cases ho
  · obtain ⟨m, ho, -⟩ | ⟨k, time, x, -, -, ho, -⟩ := hstart h₅ ha hu <;> cases ho

/-- **A calm `send_file`.** The file goes to the pair of a new id and its metadata describes it, if there is no
reason to refuse the request; otherwise it is refused and everything looks as before. -/
theorem run_sendFile_calm {o : Outcome Exn (Response Str)} (h : Run Machine (sendFile env req) w tr o w')
    (ha : Along Machine Clean w tr) (hT : (env.transfers w.fs.cwd).There w.fs)
    (hw : w.fs.writable (env.transfers w.fs.cwd).dir = true) (hf : Legal env w.fs (norm w.fs.cwd req.filepath))
    (hu : MetaSpeaks env req tr) :
    ∃ id, id ∉ w.uuids ∧ id ≠ [] ∧ '/' ∉ id ∧ '.' ∉ id ∧ OnlyFiles { w with uuids := id :: w.uuids } w' ∧
    ((∃ k time, o = .ret (.Ok id) ∧ (∀ vfs, DiskShows vfs tr → Sendable env w vfs req) ∧
        (transferMeta env req { infoOf req.filepath (w.fs.inode k) with id := id } time).texts.all utf8 = true ∧
        w.fs.node (norm w.fs.cwd req.filepath) = some (.file k) ∧
        w.fs.node (metaAt (env.transfers w.fs.cwd).dir id) = none ∧
        w.fs.node (dataAt (env.transfers w.fs.cwd).dir id) = none ∧
        w'.fs.look = sentLook w.fs (norm w.fs.cwd req.filepath) (dataAt (env.transfers w.fs.cwd).dir id)
          (metaAt (env.transfers w.fs.cwd).dir id)
          (env.codec.dump (transferMeta env req { infoOf req.filepath (w.fs.inode k) with id := id } time))) ∨
      ((∃ text, o = .ret (.Bad_Request text)) ∧ (∀ vfs, DiskShows vfs tr → ¬ Sendable env w vfs req) ∧
        w'.fs.look = w.fs.look)) := by
  obtain ⟨id₀, w₁, t₁, t₂, h₁, -, h₂, ha₂, rfl⟩ := h.bind_along ha fun h _ => by
    obtain ⟨r, ho, -⟩ := run_mkUUID h
    exact ⟨_, ho⟩
  obtain ⟨r, ho, hun, rfl⟩ := run_mkUUID h₁
  cases ho
  obtain ⟨hne, hslash, hdot⟩ := uuidText_plain r
  have hfresh : uuidText r ∉ w.uuids := of_decide_eq_true (Bool.and_eq_true_iff.1 hun).1
  have hmeta : w.fs.node (metaAt (env.transfers w.fs.cwd).dir (uuidText r)) = none := free_of_unused hun (.inl rfl)
  have hdata : w.fs.node (dataAt (env.transfers w.fs.cwd).dir (uuidText r)) = none := free_of_unused hun (.inr rfl)
  refine ⟨uuidText r, hfresh, hne, hslash, hdot, ?_⟩
  have hrefuse : ∀ {text : Str} {tr : List Ev} {tr' : List Ev},
      Run Machine (.ret (.Bad_Request text) : Prog (Response Str)) { w with uuids := uuidText r :: w.uuids } tr o w' →
      (∀ vfs, ¬ Sendable env w vfs req) → OnlyFiles { w with uuids := uuidText r :: w.uuids } w' ∧
      ((∃ text, o = .ret (.Bad_Request text)) ∧ (∀ vfs, DiskShows vfs tr' → ¬ Sendable env w vfs req) ∧
        w'.fs.look = w.fs.look) := by
    intro text tr tr' h hno
    obtain ⟨-, rfl, rfl⟩ := run_ret.1 h
    exact ⟨⟨rfl, rfl⟩, ⟨_, rfl⟩, fun vfs _ => hno vfs, rfl⟩
  dsimp only at h₂
  split at h₂
  · rename_i hpath
    obtain ⟨hof, hr⟩ := hrefuse h₂ fun vfs hS => hpath hS.path
    exact ⟨hof, .inr hr⟩
  rename_i hpath
  obtain ⟨ch', ts, w₃, t₃, e₃, h₃, rfl⟩ := run_call.1 h₂
  have ha₃ := ((along_cons e₃).1 ha₂).2
  obtain ⟨rfl, rfl⟩ : w.topics = ts ∧ { w with uuids := uuidText r :: w.uuids } = w₃ := by
    cases e₃
    exact ⟨rfl, rfl⟩
  split at h₃
  · rename_i htopic
    obtain ⟨hof, hr⟩ := hrefuse h₃ fun vfs hS => htopic hS.topic
    exact ⟨hof, .inr hr⟩
  rename_i htopic
  obtain ⟨ch'', r', w₄, t₄, e₄, h₄, rfl⟩ := run_call.1 h₃
  obtain ⟨⟨herr, -⟩, ha₄⟩ := (along_cons e₄).1 ha₃
  have hw₄ := exec_looks e₄ rfl
  subst hw₄
  have hacc : w.fs.pathAccess (dirname req.filepath) .W_OK = r' := by
    rw [← inject_calm herr (w.fs.pathAccess (dirname req.filepath) .W_OK)]
    exact (Prod.mk.inj (Option.some.inj e₄)).1
  have hslashed := slash_of_checkPath (not_not.1 hpath)
  cases r' with
  | error e =>
    obtain ⟨hof, hr⟩ := hrefuse h₄ fun vfs hS => by
      obtain ⟨k, hk, -⟩ := hS.file
      rw [(access_dirname ⟨hslashed, hS.dir⟩ hk).2 hS.source] at hacc
      cases hacc
    exact ⟨hof, .inr hr⟩
  | ok u =>
    have hdirs : Dirs req.filepath := ⟨hslashed, ne_nil_of_access hacc⟩
    obtain ⟨hof, ⟨k, time, ho, hk, hall, hroom, hlook⟩ | ⟨ho, hroom, hlook⟩⟩ :=
      calm_store h₄ ha₄ hslash (utf8_uuidText r) hu.right.tail.tail (transferDir_there hT) hw hmeta hdata hf hdirs hacc
    · refine ⟨hof, .inl ⟨k, time, ho, fun vfs hv => ?_, hall, hk.2, hmeta, hdata, hlook⟩⟩
      exact ⟨not_not.1 hpath, not_not.1 htopic, hdirs.2, (access_dirname hdirs hk).1 hacc, k, hk,
        hroom vfs hv.right.tail.tail⟩
    · refine ⟨hof, .inr ⟨ho, fun vfs hv hS => ?_, hlook⟩⟩
      obtain ⟨k, hk, hroom'⟩ := hS.file
      exact hroom vfs hv.right.tail.tail k hk hroom'

end Send

/-! ## Retrieving a file -/

section Retrieve

variable {env : Env} {w w' : World} {tr : List Ev} {id : Str} {tm : TransferMeta} {data : Bytes}

/-- What is seen after a pair was retrieved. -/
def retrievedLook (fs : FS) (D : Loc) (id : Str) (b l : Loc) : Option Sight :=
  if l = b then fs.look (dataAt D id) else if l = dataAt D id ∨ l = metaAt D id then none else fs.look l

/-- The `try` block of `retrieve_file`. -/
theorem calm_retrieveMove {src dest : Str} {d : Loc} {o : Outcome Exn (Response FileInfo)} (hid : '/' ∉ id)
    (h : Run Machine (retrieveMove env src (env.uploadDir ++ '/' :: (id ++ META_EXT)) dest) w tr o w')
    (ha : Along Machine Clean w tr) (hU : Open w.fs env.uploadDir) (hP : KnownPair env w env.uploadDir id tm data)
    (hsrc : w.fs.resolve src = .ok d) (hdata : w.fs.look d = some (.file data true)) (hfit : Fits env w.fs)
    (hs : Dirs src) (hd : Dirs dest) (hsw : w.fs.writable d.tail = true) : Learns (Current env w.fs) w w' ∧
    ((o = .ret (.Ok tm.fileInfo) ∧ w.fs.node (norm w.fs.cwd dest) = none ∧
        (∀ vfs, DiskShows vfs tr → Movable env w.fs vfs tm.fileInfo.size d dest) ∧
        w'.fs.look = w.fs.renamedLook d (norm w.fs.cwd dest)) ∨
      ((∃ text, o = .ret (.Bad_Request text)) ∧
        (∀ vfs, DiskShows vfs tr → ¬ Movable env w.fs vfs tm.fileInfo.size d dest) ∧
        w'.fs.look = w.fs.look)) := by
  have hdn := FS.resolve_norm hsrc
  subst hdn
  obtain ⟨k, hk, hkd, hkr⟩ := FS.look_eq_file.1 hdata
  have hbody : ∀ {tr : List Ev} {o : Outcome Exn (Response FileInfo)} {w' : World}, Run Machine (do
      let tm ← readTransferMetaCached env (env.uploadDir ++ '/' :: (id ++ META_EXT))
      moveFile env src dest tm.fileInfo
      return .Ok tm.fileInfo : Prog (Response FileInfo)) w tr o w' → Along Machine Clean w tr →
      Learns (Current env w.fs) w w' ∧ ((o = .ret (.Ok tm.fileInfo) ∧ w.fs.node (norm w.fs.cwd dest) = none ∧
          (∀ vfs, DiskShows vfs tr → Movable env w.fs vfs tm.fileInfo.size (norm w.fs.cwd src) dest) ∧
          w'.fs.look = w.fs.renamedLook (norm w.fs.cwd src) (norm w.fs.cwd dest)) ∨
        ((∃ e, o = .throw e ∧ e.isSystem = true) ∧
          (∀ vfs, DiskShows vfs tr → ¬ Movable env w.fs vfs tm.fileInfo.size (norm w.fs.cwd src) dest) ∧
          w'.fs.look = w.fs.look)) := by
    intro tr o w' h₁ ha₁
    obtain ⟨tm', w₁, tr₁, tr₂, h₂, ha₂, h₃, ha₃, rfl⟩ := h₁.bind_along ha₁ fun h ha =>
      ⟨_, (calm_readKnown (.inr rfl) hid h ha hU hP hfit).1⟩
    obtain ⟨ho, hfs, hL⟩ := calm_readKnown (.inr rfl) hid h₂ ha₂ hU hP hfit
    cases ho
    rw [← hfs] at hsrc hk hkd hkr hfit hsw
    have hmove : ∀ {tr : List Ev} {o : Outcome Exn Unit} {w' : World},
        Run Machine (moveFile env src dest tm.fileInfo) w₁ tr o w' →
        Along Machine Clean w₁ tr → _ := fun h ha =>
      run_moveFile_calm h ha hsrc hk hkr (by rw [hkd]; exact hP.sound.crc) (hfit _ _ hk) hs hd
    rcases run_bind.1 h₃ with ⟨u, w₂, tr₃, tr₄, h₄, h₅, rfl⟩ | ⟨e, h₄, rfl⟩ | ⟨y, h₄, rfl⟩
    · obtain ⟨hof, ⟨-, hfree, hM, hlook⟩ | ⟨⟨e, he, -⟩, -⟩ | ⟨he, -⟩⟩ := hmove h₄ (h₄.along.1 ha₃).1
      · obtain ⟨-, rfl, rfl⟩ := run_ret.1 h₅
        rw [hfs] at hfree hM hlook
        exact ⟨hL.trans hof.learns, .inl ⟨rfl, hfree, fun vfs hv => hM vfs hv.right.left, hlook⟩⟩
      · cases he
      · cases he
    · obtain ⟨hof, ⟨he, -⟩ | ⟨⟨e', he, hsys⟩, hM, hlook⟩ | ⟨he, -⟩⟩ := hmove h₄ ha₃
      · cases he
      · cases he
        rw [hfs] at hM hlook
        exact ⟨hL.trans hof.learns, .inr ⟨⟨e, rfl, hsys⟩, fun vfs hv => hM vfs hv.right, hlook⟩⟩
      · cases he
    · obtain ⟨-, ⟨he, -⟩ | ⟨⟨e', he, -⟩, -⟩ | ⟨-, hcrash⟩⟩ := hmove h₄ ha₃
      · cases he
      · cases he
      · rw [hsw] at hcrash
        cases hcrash
  rcases run_handle.1 h with ⟨a, h₁, rfl⟩ | ⟨y, h₁, rfl⟩ | ⟨e, w₁, tr₁, tr₂, h₁, h₂, rfl⟩
  · obtain ⟨hof, ⟨ho, hok⟩ | ⟨⟨e, he, -⟩, -⟩⟩ := hbody h₁ ha
    · cases ho
      exact ⟨hof, .inl ⟨rfl, hok⟩⟩
    · cases he
  · obtain ⟨-, ⟨ho, -⟩ | ⟨⟨e, he, -⟩, -⟩⟩ := hbody h₁ ha
    · cases ho
    · cases he
  · obtain ⟨hof, ⟨ho, -⟩ | ⟨⟨e', he, hsys⟩, hM, hlook⟩⟩ := hbody h₁ (h₁.along.1 ha).1
    · cases ho
    · cases he
      rw [retrieveCatch, if_pos hsys] at h₂
      obtain ⟨-, rfl, rfl⟩ := run_ret.1 h₂
      exact ⟨hof, .inr ⟨⟨_, rfl⟩, fun vfs hv => hM vfs hv.left, hlook⟩⟩

/-- A request to retrieve a file that there is no reason to refuse: the path is absolute, the pair is there, and its
file can be moved to the path. -/
def Retrievable (env : Env) (w : World) (vfs : Vfs) (req : RetrieveFileRequest) : Prop :=
  checkPath req.savePath = true ∧ ∃ tm data, SoundPair env w.fs (norm w.fs.cwd env.uploadDir) req.id tm data ∧
    Movable env w.fs vfs tm.fileInfo.size (dataAt (norm w.fs.cwd env.uploadDir) req.id) req.savePath

/-- **A calm `retrieve_file`.** If there is no reason to refuse the request, then the file of the pair goes to the
path, the pair is gone, and its information is returned; otherwise the request is refused and everything looks as
before. -/
theorem run_retrieveFile_calm {req : RetrieveFileRequest} {o : Outcome Exn (Response FileInfo)}
    (h : Run Machine (retrieveFile env req) w tr o w') (ha : Along Machine Clean w tr)
    (hU : Open w.fs env.uploadDir) (hid : '/' ∉ req.id)
    (hpair : w.fs.node (metaAt (norm w.fs.cwd env.uploadDir) req.id) ≠ none →
      ∃ tm data, KnownPair env w env.uploadDir req.id tm data)
    (hfit : Fits env w.fs) (hroot : dirname req.savePath ≠ []) : Learns (Current env w.fs) w w' ∧
    ((∃ tm data, o = .ret (.Ok tm.fileInfo) ∧ SoundPair env w.fs (norm w.fs.cwd env.uploadDir) req.id tm data ∧
        w.fs.node (norm w.fs.cwd req.savePath) = none ∧ (∀ vfs, DiskShows vfs tr → Retrievable env w vfs req) ∧
        w'.fs.look = retrievedLook w.fs (norm w.fs.cwd env.uploadDir) req.id (norm w.fs.cwd req.savePath)) ∨
      ((∃ text, o = .ret (.Bad_Request text)) ∧ (∀ vfs, DiskShows vfs tr → ¬ Retrievable env w vfs req) ∧
        w'.fs.look = w.fs.look)) := by
  have hUdir : w.fs.isDir (norm w.fs.cwd env.uploadDir) = true := FS.isDir_of_writable hU.writable
  have hm : w.fs.resolve (env.uploadDir ++ '/' :: (req.id ++ META_EXT)) =
      .ok (metaAt (norm w.fs.cwd env.uploadDir) req.id) :=
    FS.resolve_child hU.resolve hUdir (IsExt.plain (.inl rfl) hid)
  have hsrc : w.fs.resolve (env.uploadDir ++ '/' :: (req.id ++ DATA_EXT)) =
      .ok (dataAt (norm w.fs.cwd env.uploadDir) req.id) :=
    FS.resolve_child hU.resolve hUdir (IsExt.plain (.inr rfl) hid)
  unfold retrieveFile at h
  dsimp only at h
  split at h
  · rename_i hpath
    obtain ⟨-, rfl, rfl⟩ := run_ret.1 h
    exact ⟨.refl, .inr ⟨⟨_, rfl⟩, fun vfs _ hR => hpath hR.1, rfl⟩⟩
  rename_i hpath
  have hdirs : Dirs req.savePath := ⟨slash_of_checkPath (not_not.1 hpath), hroot⟩
  obtain ⟨ch, r, w₁, tr₁, e₁, h₁, rfl⟩ := run_call.1 h
  obtain ⟨⟨herr, -⟩, ha₁⟩ := (along_cons e₁).1 ha
  have hw₁ := exec_looks e₁ rfl
  subst hw₁
  cases r with
  | error e =>
    obtain ⟨-, rfl, rfl⟩ := run_ret.1 h₁
    refine ⟨.refl, .inr ⟨⟨_, rfl⟩, fun vfs _ hR => ?_, rfl⟩⟩
    -- the metadata of a sound pair can be read
    obtain ⟨-, tm, data, hP, -⟩ := hR
    obtain ⟨text, htext, -⟩ := hP.note
    obtain ⟨k, hk, -, hkr⟩ := FS.look_eq_file.1 htext
    have hacc := (Prod.mk.inj (Option.some.inj e₁)).1
    dsimp only at herr
    rw [inject_calm herr, FS.pathAccess, hm] at hacc
    simp [hk, hkr] at hacc
  | ok _ =>
    have hthere : w₁.fs.node (metaAt (norm w₁.fs.cwd env.uploadDir) req.id) ≠ none := by
      obtain ⟨n, hn⟩ := FS.pathAccess_ok (inject_ok (Prod.mk.inj (Option.some.inj e₁)).1).2
      rw [← FS.resolve_norm hm] at hn
      simp [hn]
    obtain ⟨tm, data, hK⟩ := hpair hthere
    have hP := hK.sound
    have hmove : ∀ {tr : List Ev} {o : Outcome Exn (Response FileInfo)} {w' : World},
        Run Machine (retrieveMove env (env.uploadDir ++ '/' :: (req.id ++ DATA_EXT))
          (env.uploadDir ++ '/' :: (req.id ++ META_EXT)) req.savePath) w₁ tr o w' →
        Along Machine Clean w₁ tr → _ := fun h ha =>
      calm_retrieveMove hid h ha hU hK hsrc hP.file hfit
        (dirs_child uploadDir_ne_nil (IsExt.plain (.inr rfl) hid).2.2.2) hdirs hU.writable
    have hiff : ∀ {vfs : Vfs}, Retrievable env w₁ vfs req ↔
        Movable env w₁.fs vfs tm.fileInfo.size (dataAt (norm w₁.fs.cwd env.uploadDir) req.id) req.savePath := by
      intro vfs
      refine ⟨fun hR => ?_, fun hM => ⟨not_not.1 hpath, tm, data, hP, hM⟩⟩
      obtain ⟨-, tm', data', hP', hM⟩ := hR
      obtain ⟨rfl, -⟩ := hP.unique hP'
      exact hM
    obtain ⟨res, w₂, tr₂, tr₃, h₂, ha₂, h₃, ha₃, rfl⟩ := h₁.bind_along ha₁ fun h ha => by
      obtain ⟨-, ⟨ho, -⟩ | ⟨⟨text, ho⟩, -⟩⟩ := hmove h ha
      · exact ⟨_, ho⟩
      · exact ⟨_, ho⟩
    obtain ⟨hL, ⟨ho, hfree, hM, hlook⟩ | ⟨⟨text, ho⟩, hM, hlook⟩⟩ := hmove h₂ ha₂
    · cases ho
      obtain ⟨ch', r', w₃, tr₄, e₄, h₄, rfl⟩ := run_call.1 h₃
      obtain ⟨hclean, -⟩ := (along_cons e₄).1 ha₃
      obtain ⟨-, rfl, rfl⟩ := run_ret.1 h₄
      obtain ⟨text, htext, -⟩ := hP.note
      obtain ⟨k, hk, -⟩ := FS.look_eq_file.1 hP.file
      -- the path was free, so it is none of the names of the pair
      have hb : ∀ {l : Loc}, w₁.fs.node l ≠ none → l ≠ norm w₁.fs.cwd req.savePath := by
        rintro l hl rfl
        exact hl hfree
      have hmd : metaAt (norm w₁.fs.cwd env.uploadDir) req.id ≠ dataAt (norm w₁.fs.cwd env.uploadDir) req.id :=
        metaAt_ne_dataAt
      have hmeta₂ : w₂.fs.look (metaAt (norm w₁.fs.cwd env.uploadDir) req.id) = some (.file text true) := by
        rw [hlook, FS.renamedLook, if_neg (hb hthere), if_neg hmd, htext]
      have hdir₂ : ∀ l, w₁.fs.isDir l = true → w₂.fs.look l = w₁.fs.look l := by
        intro l hl
        have hnode : w₁.fs.node l ≠ none := by
          intro e
          rw [FS.isDir, e] at hl
          cases hl
        have hld : l ≠ dataAt (norm w₁.fs.cwd env.uploadDir) req.id := by
          rintro rfl
          rw [FS.isDir, hk] at hl
          cases hl
        rw [hlook, FS.renamedLook, if_neg (hb hnode), if_neg hld]
      have hres₂ : w₂.fs.resolve (env.uploadDir ++ '/' :: (req.id ++ META_EXT)) =
          .ok (metaAt (norm w₁.fs.cwd env.uploadDir) req.id) :=
        FS.resolve_mono (fun l hl => by rw [FS.isDir_of_look (hdir₂ l hl)]; exact hl) hL.cwd hm
      obtain ⟨v, b, hv⟩ := FS.isDir_iff.1 hUdir
      have hw₂ : w₂.fs.writable (metaAt (norm w₁.fs.cwd env.uploadDir) req.id).tail = true := by
        have hbt : b = true := by
          have := hU.writable
          rw [FS.writable, hv] at this
          exact this
        refine FS.writable_eq_look (v := v) ?_
        rw [metaAt, List.tail_cons, hdir₂ _ hUdir, FS.look_eq_dir, hv, hbt]
      obtain ⟨-, hL₂, hgone⟩ := calm_unlink_look e₄ hclean hres₂ hmeta₂ hw₂
      refine ⟨hL.trans hL₂.learns,
        .inl ⟨tm, data, rfl, hP, hfree, fun vfs hv => hiff.2 (hM vfs hv.tail.left), funext fun l => ?_⟩⟩
      rw [hgone, hlook, retrievedLook, FS.renamedLook]
      by_cases hl : l = metaAt (norm w₁.fs.cwd env.uploadDir) req.id
      · rw [if_pos hl, if_neg (hl ▸ hb hthere), if_pos (.inr hl)]
      · simp only [hl, or_false, if_false]
    · cases ho
      obtain ⟨-, rfl, rfl⟩ := run_ret.1 h₃
      exact ⟨hL, .inr ⟨⟨_, rfl⟩, fun vfs hv hR => hM vfs hv.tail.left (hiff.1 hR), hlook⟩⟩

end Retrieve

/-! ## Asking for metadata -/

section Meta

variable {env : Env} {w w' : World} {tr : List Ev} {id : Str}

/-- **A calm `meta`.** The metadata of a pair that is there is returned. The request for one that is not there is
refused, unless the cache has metadata for it. No file changes. -/
theorem run_metaRequest_calm {o : Outcome Exn (Response TransferMeta)} (h : Run Machine (metaRequest env id) w tr o w')
    (ha : Along Machine Clean w tr) (hT : Open w.fs env.transferDir) (hid : '/' ∉ id) (hfit : Fits env w.fs)
    (hpair : WholePair env w env.transferDir id) :
    w'.fs = w.fs ∧ Learns (Current env w.fs) w w' ∧
    ((∃ tm data, o = .ret (.Ok tm) ∧ SoundPair env w.fs (norm w.fs.cwd env.transferDir) id tm data) ∨
      ((w.caches .metainfo).enabled = true ∧ ∃ tm, o = .ret (.Ok tm) ∧
        w.Holds .metainfo (env.transferDir ++ '/' :: (id ++ META_EXT)) tm) ∨
      ((∃ text, o = .ret (.Bad_Request text)) ∧ NoPair w.fs (norm w.fs.cwd env.transferDir) id)) := by
  have hread : ∀ {tr : List Ev} {o : Outcome Exn TransferMeta} {w' : World},
      Run Machine (readTransferMetaCached env (env.transferDir ++ '/' :: (id ++ META_EXT))) w tr o w' →
      Along Machine Clean w tr →
      w'.fs = w.fs ∧ Learns (Current env w.fs) w w' ∧
      ((∃ tm data, o = .ret tm ∧ SoundPair env w.fs (norm w.fs.cwd env.transferDir) id tm data) ∨
        ((w.caches .metainfo).enabled = true ∧ ∃ tm, o = .ret tm ∧
          w.Holds .metainfo (env.transferDir ++ '/' :: (id ++ META_EXT)) tm) ∨
        ((∃ e, o = .throw e ∧ e.isRuntime = true) ∧ NoPair w.fs (norm w.fs.cwd env.transferDir) id)) := by
    intro tr o w' h₁ ha₁
    obtain hno | ⟨tm, data, hP⟩ := hpair
    · obtain ⟨hfs, hL, he | hv⟩ := calm_readGone transferDir_ne_nil hid h₁ ha₁ hT hno
      · exact ⟨hfs, hL, .inr (.inr ⟨he, hno⟩)⟩
      · exact ⟨hfs, hL, .inr (.inl hv)⟩
    · obtain ⟨ho, hfs, hL⟩ := calm_readKnown (.inl rfl) hid h₁ ha₁ hT hP hfit
      exact ⟨hfs, hL, .inl ⟨tm, data, ho, hP.sound⟩⟩
  rcases run_try.1 h with ⟨tm', h₁, rfl⟩ | ⟨y, h₁, rfl⟩ | ⟨e, w₁, tr₁, tr₂, h₁, h₂, rfl⟩
  · obtain ⟨hfs, hL, ⟨tm, data, ho, hP⟩ | ⟨hen, tm, ho, hv⟩ | ⟨⟨e, he, -⟩, -⟩⟩ := hread h₁ ha
    · cases ho
      exact ⟨hfs, hL, .inl ⟨_, data, rfl, hP⟩⟩
    · cases ho
      exact ⟨hfs, hL, .inr (.inl ⟨hen, _, rfl, hv⟩)⟩
    · cases he
  · obtain ⟨-, -, ⟨_, _, ho, -⟩ | ⟨-, _, ho, -⟩ | ⟨⟨e, he, -⟩, -⟩⟩ := hread h₁ ha
    · cases ho
    · cases ho
    · cases he
  · obtain ⟨hfs, hL, ⟨_, _, ho, -⟩ | ⟨-, _, ho, -⟩ | ⟨⟨e', he, hr⟩, hnone⟩⟩ := hread h₁ (h₁.along.1 ha).1
    · cases ho
    · cases ho
    · cases he
      rw [if_pos hr] at h₂
      obtain ⟨-, rfl, rfl⟩ := run_ret.1 h₂
      exact ⟨hfs, hL, .inr (.inr ⟨⟨_, rfl⟩, hnone⟩)⟩

end Meta

end OortAgent
