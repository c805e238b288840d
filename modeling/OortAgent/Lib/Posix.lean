import OortAgent.Lib.FS

/-!
# System calls by path

The calls of `Lib.FS` with their path arguments resolved, and the calls that only look. Each is the outcome of a call
that nothing makes fail: what can go wrong is what the filesystem itself decides.

* `pathRename_ok`, `pathUnlink_ok`, `pathRmdir_ok`, `mkdtemp_ok`, `mkstemp_ok`, `create_ok`: what a call that succeeded
  did, at the locations its paths denote.
-/

namespace OortAgent.Lib

/-- The mode of an `access` check. -/
inductive Mode
  | F_OK
  | R_OK
  | W_OK
  deriving DecidableEq

/-- The part of a `struct stat` that is looked at. -/
structure Stat where
  isReg : Bool
  size : Nat
  mtime : Int
  ctime : Int
  deriving DecidableEq

/-- An open descriptor for reading. A directory can be opened but not read. -/
inductive Handle
  | file (i : Ino)
  | dir
  deriving DecidableEq

namespace FS

variable {fs fs' : FS} {p q : Str} {i : Ino}

/-- `access`. -/
def pathAccess (fs : FS) (p : Str) (m : Mode) : Except Errno Unit :=
  match fs.resolve p with
  | .error e => .error e
  | .ok l => match fs.node l with
    | none => .error .ENOENT
    | some (.dir _ w) => if m = .W_OK ∧ ¬ w then .error .EACCES else .ok ()
    | some (.file i) => if m = .R_OK ∧ ¬ (fs.inode i).readable then .error .EACCES else .ok ()

/-- `stat`. The times of directories are not part of the filesystem here: `touched` is the one that is shown. -/
def pathStat (fs : FS) (p : Str) (touched : Int) : Except Errno Stat :=
  match fs.resolve p with
  | .error e => .error e
  | .ok l => match fs.node l with
    | none => .error .ENOENT
    | some (.dir _ _) => .ok ⟨false, 0, touched, touched⟩
    | some (.file i) => .ok ⟨true, (fs.inode i).data.length, (fs.inode i).mtime, (fs.inode i).ctime⟩

/-- `open(p, O_RDONLY)`. -/
def pathOpen (fs : FS) (p : Str) : Except Errno Handle :=
  match fs.resolve p with
  | .error e => .error e
  | .ok l => match fs.node l with
    | none => .error .ENOENT
    | some (.dir _ _) => .ok .dir
    | some (.file i) => if (fs.inode i).readable then .ok (.file i) else .error .EACCES

/-- `open(p, O_WRONLY | O_CREAT | O_TRUNC)` at the time `now`. -/
def create (fs : FS) (p : Str) (now : Int) : Except Errno (Ino × FS) :=
  match fs.resolve p with
  | .error e => .error e
  | .ok l => match fs.node l with
    | some (.dir _ _) => .error .EISDIR
    | some (.file i) => .ok (i, fs.setInode i { fs.inode i with data := [], mtime := now, ctime := now })
    | none => match fs.mkfile l ⟨[], true, now, now⟩ with
      | .error e => .error e
      | .ok fs' => .ok (fs.next, fs')

/-- `rename`. -/
def pathRename (fs : FS) (p q : Str) : Except Errno FS :=
  match fs.resolve p, fs.resolve q with
  | .ok a, .ok b => fs.rename a b
  | .error e, _ => .error e
  | _, .error e => .error e

/-- `unlink`. -/
def pathUnlink (fs : FS) (p : Str) : Except Errno FS :=
  match fs.resolve p with
  | .error e => .error e
  | .ok l => fs.unlink l

/-- `rmdir`. -/
def pathRmdir (fs : FS) (p : Str) : Except Errno FS :=
  match fs.resolve p with
  | .error e => .error e
  | .ok l => fs.rmdir l

/-- The names that `readdir` gives for a directory, in some order. -/
def pathEntries (fs : FS) (p : Str) : Except Errno (List Name) :=
  match fs.resolve p with
  | .error e => .error e
  | .ok l => if fs.isDir l then .ok (['.'] :: ['.', '.'] :: fs.children l) else .error .ENOTDIR

/-- What may stand for the `XXXXXX` of a template. -/
def Pick (pick : Str) : Prop := pick.length = 6 ∧ pick.all Char.isAlphanum = true

instance (pick : Str) : Decidable (Pick pick) := inferInstanceAs (Decidable (_ ∧ _))

/-- The template with its `XXXXXX` replaced. -/
def fromTemplate (tmpl pick : Str) : Str := tmpl.take (tmpl.length - 6) ++ pick

/-- `mkdtemp` with the name it picks: `none` if it cannot pick that one. -/
def mkdtemp (fs : FS) (tmpl pick : Str) : Option (Except Errno (Str × FS)) :=
  if Pick pick then
    match fs.resolve (fromTemplate tmpl pick) with
    | .error e => some (.error e)
    | .ok l =>
      if fs.node l ≠ none then none
      else match fs.mkdir l with
        | .error e => some (.error e)
        | .ok fs' => some (.ok (fromTemplate tmpl pick, fs'))
  else none

/-- `mkstemp` with the name it picks. -/
def mkstemp (fs : FS) (tmpl pick : Str) (now : Int) : Option (Except Errno ((Str × Ino) × FS)) :=
  if Pick pick then
    match fs.resolve (fromTemplate tmpl pick) with
    | .error e => some (.error e)
    | .ok l =>
      if fs.node l ≠ none then none
      else match fs.mkfile l ⟨[], true, now, now⟩ with
        | .error e => some (.error e)
        | .ok fs' => some (.ok ((fromTemplate tmpl pick, fs.next), fs'))
  else none

/-- Bytes added at the end of a file. -/
def append (fs : FS) (i : Ino) (b : Bytes) (now : Int) : FS :=
  fs.setInode i { fs.inode i with data := (fs.inode i).data ++ b, mtime := now, ctime := now }

/-! ## What a call that succeeded did -/

theorem pathAccess_ok {m : Mode} (h : fs.pathAccess p m = .ok ()) : ∃ n, fs.node (norm fs.cwd p) = some n := by
  unfold pathAccess at h
  split at h
  · cases h
  · rename_i l hl
    have e := resolve_norm hl
    subst e
    split at h
    · cases h
    · rename_i hn
      exact ⟨_, hn⟩
    · rename_i hn
      exact ⟨_, hn⟩

theorem pathRename_ok (h : fs.pathRename p q = .ok fs') :
    fs.resolve p = .ok (norm fs.cwd p) ∧ fs.resolve q = .ok (norm fs.cwd q) ∧
    fs.rename (norm fs.cwd p) (norm fs.cwd q) = .ok fs' := by
  unfold pathRename at h
  split at h
  · rename_i a b ha hb
    have ea := resolve_norm ha
    have eb := resolve_norm hb
    subst ea eb
    exact ⟨ha, hb, h⟩
  · cases h
  · cases h

theorem pathRename_exdev (h : fs.pathRename p q = .error .EXDEV) :
    fs.resolve p = .ok (norm fs.cwd p) ∧ fs.resolve q = .ok (norm fs.cwd q) ∧
    norm fs.cwd p ≠ [] ∧ norm fs.cwd q ≠ [] ∧
    ∃ u v, fs.dev (norm fs.cwd p).tail = some u ∧ fs.dev (norm fs.cwd q).tail = some v ∧ u ≠ v := by
  unfold pathRename at h
  split at h
  · rename_i a b ha hb
    have ea := resolve_norm ha
    have eb := resolve_norm hb
    subst ea eb
    exact ⟨ha, hb, rename_exdev h⟩
  · rename_i e he; cases h; exact absurd he resolve_ne_exdev
  · rename_i e he _; cases h; exact absurd he resolve_ne_exdev

theorem pathUnlink_ok (h : fs.pathUnlink p = .ok fs') :
    fs.resolve p = .ok (norm fs.cwd p) ∧ fs.unlink (norm fs.cwd p) = .ok fs' := by
  unfold pathUnlink at h
  split at h
  · cases h
  · rename_i l hl
    have := resolve_norm hl
    subst this
    exact ⟨hl, h⟩

theorem pathRmdir_ok (h : fs.pathRmdir p = .ok fs') :
    fs.resolve p = .ok (norm fs.cwd p) ∧ fs.rmdir (norm fs.cwd p) = .ok fs' := by
  unfold pathRmdir at h
  split at h
  · cases h
  · rename_i l hl
    have := resolve_norm hl
    subst this
    exact ⟨hl, h⟩

theorem mkdtemp_ok {tmpl pick : Str} (h : fs.mkdtemp tmpl pick = some (.ok (p, fs'))) :
    Pick pick ∧ p = fromTemplate tmpl pick ∧ fs.resolve p = .ok (norm fs.cwd p) ∧ fs.node (norm fs.cwd p) = none ∧
    fs.mkdir (norm fs.cwd p) = .ok fs' := by
  unfold mkdtemp at h
  split at h
  · rename_i hp
    split at h
    · cases h
    · rename_i l hl
      split at h
      · cases h
      · rename_i hn
        split at h
        · cases h
        · rename_i fs₁ hm
          cases h
          have := resolve_norm hl
          subst this
          exact ⟨hp, rfl, hl, by simpa using hn, hm⟩
  · cases h

/-- The names after `mkdtemp`. -/
theorem node_mkdtemp {tmpl pick : Str} (h : fs.mkdtemp tmpl pick = some (.ok (p, fs'))) :
    ∃ v, (∀ l, fs'.node l = if l = norm fs.cwd p then some (.dir v true) else fs.node l) ∧
      fs'.inode = fs.inode ∧ fs'.next = fs.next ∧ fs'.cwd = fs.cwd := by
  obtain ⟨-, -, -, hfree, hm⟩ := mkdtemp_ok h
  obtain ⟨n, d, v, hl, hv, -, rfl⟩ := mkdir_ok hm
  rw [hl] at hfree ⊢
  exact ⟨v, node_putDir (isDir_iff.2 ⟨v, true, hv⟩) hfree, by simp⟩

theorem mkstemp_ok {tmpl pick : Str} {now : Int} (h : fs.mkstemp tmpl pick now = some (.ok ((p, i), fs'))) :
    Pick pick ∧ p = fromTemplate tmpl pick ∧ i = fs.next ∧ fs.resolve p = .ok (norm fs.cwd p) ∧
    fs.node (norm fs.cwd p) = none ∧ fs.mkfile (norm fs.cwd p) ⟨[], true, now, now⟩ = .ok fs' := by
  unfold mkstemp at h
  split at h
  · rename_i hp
    split at h
    · cases h
    · rename_i l hl
      split at h
      · cases h
      · rename_i hn
        split at h
        · cases h
        · rename_i fs₁ hm
          cases h
          have := resolve_norm hl
          subst this
          exact ⟨hp, rfl, rfl, hl, by simpa using hn, hm⟩
  · cases h

theorem next_mkstemp {tmpl pick : Str} {now : Int} (h : fs.mkstemp tmpl pick now = some (.ok ((p, i), fs'))) :
    fs'.next = fs.next + 1 := by
  obtain ⟨-, -, -, -, -, hm⟩ := mkstemp_ok h
  obtain ⟨n, d, hl, hw, hn, rfl⟩ := mkfile_ok hm
  rw [hl] at hn
  exact next_putFile (isDir_of_writable hw) hn

/-- A file opened for writing is an old one, now empty, or a new one. -/
theorem create_ok {now : Int} (h : fs.create p now = .ok (i, fs')) :
    fs.resolve p = .ok (norm fs.cwd p) ∧
    ((fs.node (norm fs.cwd p) = some (.file i) ∧
        fs' = fs.setInode i { fs.inode i with data := [], mtime := now, ctime := now }) ∨
      (fs.node (norm fs.cwd p) = none ∧ i = fs.next ∧ fs.mkfile (norm fs.cwd p) ⟨[], true, now, now⟩ = .ok fs')) := by
  unfold create at h
  split at h
  · cases h
  · rename_i l hl
    have := resolve_norm hl
    subst this
    refine ⟨hl, ?_⟩
    split at h
    · cases h
    · rename_i j hj; cases h; exact .inl ⟨hj, rfl⟩
    · rename_i hn
      split at h
      · cases h
      · rename_i fs₁ hm; cases h; exact .inr ⟨hn, rfl, hm⟩

/-- A regular file was found by `stat`. -/
theorem pathStat_reg {st : Stat} {touched : Int} (h : fs.pathStat p touched = .ok st) (hr : st.isReg = true) :
    ∃ i, fs.resolve p = .ok (norm fs.cwd p) ∧ fs.node (norm fs.cwd p) = some (.file i) ∧
      st = ⟨true, (fs.inode i).data.length, (fs.inode i).mtime, (fs.inode i).ctime⟩ := by
  unfold pathStat at h
  split at h
  · cases h
  · rename_i l hl
    have := resolve_norm hl
    subst this
    split at h
    · cases h
    · cases h; cases hr
    · rename_i i hi; cases h; exact ⟨i, hl, hi, rfl⟩

/-- A file was opened. -/
theorem pathOpen_file (h : fs.pathOpen p = .ok (.file i)) :
    fs.resolve p = .ok (norm fs.cwd p) ∧ fs.node (norm fs.cwd p) = some (.file i) ∧ (fs.inode i).readable = true := by
  unfold pathOpen at h
  split at h
  · cases h
  · rename_i l hl
    have := resolve_norm hl
    subst this
    split at h
    · cases h
    · cases h
    · rename_i j hj
      split at h
      · rename_i hr; cases h; exact ⟨hl, hj, hr⟩
      · cases h

/-- The descriptor of a file. -/
theorem pathOpen_handle {h : Handle} (ho : fs.pathOpen p = .ok h) (hi : fs.node (norm fs.cwd p) = some (.file i)) :
    h = .file i := by
  unfold pathOpen at ho
  split at ho
  · cases ho
  · rename_i l hl
    have := resolve_norm hl
    subst this
    rw [hi] at ho
    dsimp only at ho
    split at ho <;> cases ho
    rfl

end FS

end OortAgent.Lib
