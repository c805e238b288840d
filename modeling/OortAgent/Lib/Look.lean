import OortAgent.Lib.Posix

/-!
# What can be seen of a filesystem

The numbers and times of the files are nobody's business: what a name shows is a directory with its device and its
permission, or a file with its bytes and whether it may be read. Two filesystems that look the same answer the same.

* `look`: what a name shows; `look_rename`, `look_unlink`: after a call.
* `rename_goes`, `unlink_goes`, `rmdir_goes`: calls that succeed, because of what there is.
* `plain_of_resolve`: the last part of a path to something that is no directory is a plain name.
-/

namespace OortAgent.Lib

/-- What a name shows. -/
inductive Sight
  | dir (dev : Nat) (writable : Bool)
  | file (data : Bytes) (readable : Bool)
  deriving DecidableEq

/-- The bytes that can be read there. -/
def Sight.text : Sight → Option Bytes
  | .file data true => some data
  | _ => none

namespace FS

variable {fs fs' : FS} {l a b : Loc} {i : Ino}

/-- What a name shows. -/
def look (fs : FS) (l : Loc) : Option Sight := (fs.node l).map fun
  | .dir v w => .dir v w
  | .file i => .file (fs.inode i).data (fs.inode i).readable

/-- The bytes that can be read at a name. -/
def text (fs : FS) (l : Loc) : Option Bytes := (fs.look l).bind Sight.text

/-- What a name shows after the file at `a` was renamed to `b`. -/
def renamedLook (fs : FS) (a b l : Loc) : Option Sight := if l = b then fs.look a else if l = a then none else fs.look l

theorem look_file (h : fs.node l = some (.file i)) :
    fs.look l = some (.file (fs.inode i).data (fs.inode i).readable) := by
  simp [look, h]

theorem look_eq_none : fs.look l = none ↔ fs.node l = none := by
  simp [look]

theorem look_eq_dir {v : Nat} {w : Bool} : fs.look l = some (.dir v w) ↔ fs.node l = some (.dir v w) := by
  cases h : fs.node l with
  | none => simp [look, h]
  | some n => cases n <;> simp [look, h]

theorem look_eq_file {data : Bytes} {r : Bool} : fs.look l = some (.file data r) ↔
    ∃ i, fs.node l = some (.file i) ∧ (fs.inode i).data = data ∧ (fs.inode i).readable = r := by
  cases h : fs.node l with
  | none => simp [look, h]
  | some n => cases n <;> simp [look, h]

theorem text_eq_some {data : Bytes} : fs.text l = some data ↔ fs.look l = some (.file data true) := by
  cases h : fs.look l with
  | none => simp [text, h]
  | some s => cases s with
    | dir v w => simp [text, h, Sight.text]
    | file d r => cases r <;> simp [text, h, Sight.text]

theorem isDir_of_look (h : fs'.look l = fs.look l) : fs'.isDir l = fs.isDir l := by
  rw [Bool.eq_iff_iff, isDir_iff, isDir_iff]
  simp only [← look_eq_dir, h]

theorem writable_eq_look {w : Bool} {v : Nat} (h : fs.look l = some (.dir v w)) : fs.writable l = w := by
  rw [writable, look_eq_dir.1 h]

/-- A name bound to the same thing with the same content shows the same. -/
theorem look_of_node (hn : fs'.node l = fs.node l) (hi : ∀ j, fs.node l = some (.file j) → fs'.inode j = fs.inode j) :
    fs'.look l = fs.look l := by
  cases h : fs.node l with
  | none => simp [look, hn, h]
  | some n => cases n with
    | dir v w => simp [look, hn, h]
    | file j => simp [look, hn, h, hi j h]

theorem look_rename (h : fs.rename a b = .ok fs') (ha : fs.node a = some (.file i)) :
    fs'.look = fs.renamedLook a b := by
  obtain ⟨hn, hino, -⟩ := rename_file h ha
  funext l
  unfold renamedLook
  split
  · rename_i e
    subst e
    rw [look_file (by rw [hn, if_pos rfl]), hino, look_file ha]
  · rename_i hb
    split
    · rename_i e
      exact look_eq_none.2 (by rw [hn, if_neg hb, if_pos e])
    · rename_i hl
      exact look_of_node (by rw [hn, if_neg hb, if_neg hl]) fun j _ => by rw [hino]

theorem look_unlink (h : fs.unlink a = .ok fs') : fs'.look l = if l = a then none else fs.look l := by
  have hn := node_unlink h
  split
  · rename_i e
    exact look_eq_none.2 (by rw [hn, if_pos e])
  · rename_i e
    exact look_of_node (by rw [hn, if_neg e]) fun j _ => by rw [(unlink_frame h).1]

/-! ## Calls that succeed -/

/-- A file can be renamed between two writable directories of one device, over anything but a directory. -/
theorem rename_goes (hi : fs.node a = some (.file i)) (ha : fs.writable a.tail = true) (hb : fs.writable b.tail = true)
    (hdev : fs.dev a.tail = fs.dev b.tail) (hb0 : b ≠ []) (hd : fs.isDir b = false) :
    ∃ fs', fs.rename a b = .ok fs' := by
  obtain ⟨v, w, hv⟩ := isDir_iff.1 (isDir_of_writable hb)
  have ha0 : a ≠ [] := by
    rintro rfl
    obtain ⟨v, w, hr⟩ := fs.root
    cases hi.symm.trans hr
  have hbv : fs.dev b.tail = some v := by rw [dev, hv]
  rw [rename, if_neg (by simp [ha0, hb0])]
  simp only [hdev, hbv, ha, hb, hi, hd, ne_eq, not_true_eq_false, if_false, and_self, Bool.false_eq_true]
  split
  · exact ⟨_, rfl⟩
  · exact ⟨_, rfl⟩

/-- A free name of a directory can be bound if the directory can be changed, and only then. -/
theorem mkdir_goes_iff {n : Name} {d : Loc} (hd : fs.isDir d = true) (hn : fs.node (n :: d) = none) :
    (∃ fs', fs.mkdir (n :: d) = .ok fs') ↔ fs.writable d = true := by
  obtain ⟨v, w, hv⟩ := isDir_iff.1 hd
  cases w <;> simp [mkdir, writable, hv, hn]

theorem mkfile_goes_iff {n : Name} {d : Loc} {x : Inode} (hd : fs.isDir d = true) (hn : fs.node (n :: d) = none) :
    (∃ fs', fs.mkfile (n :: d) x = .ok fs') ↔ fs.writable d = true := by
  obtain ⟨v, w, hv⟩ := isDir_iff.1 hd
  cases w <;> simp [mkfile, writable, hv, hn]

theorem unlink_goes (hi : fs.node a = some (.file i)) (hw : fs.writable a.tail = true) :
    ∃ fs', fs.unlink a = .ok fs' := by
  rw [unlink, hi]
  exact ⟨_, if_pos hw⟩

theorem rmdir_goes (hd : fs.isDir a = true) (h0 : a ≠ []) (hc : ∀ n, fs.node (n :: a) = none)
    (hw : fs.writable a.tail = true) : ∃ fs', fs.rmdir a = .ok fs' := by
  have hchildren : fs.children a = [] := by
    rw [List.eq_nil_iff_forall_not_mem]
    exact fun n hn => mem_children.1 hn (hc n)
  obtain ⟨v, w, hv⟩ := isDir_iff.1 hd
  rw [rmdir, hv]
  refine ⟨fs.erase a, ?_⟩
  dsimp only
  rw [if_neg h0, if_neg (not_not.2 hchildren), if_pos hw]

/-- A path that goes on with one part and leads to no directory: the part is a plain name. -/
theorem plain_of_resolve {p : Str} {n : Name} (hs : '/' ∉ n) (h : fs.resolve (p ++ '/' :: n) = .ok l)
    (hl : fs.isDir l = false) : Plain n := by
  rw [resolve, if_neg (by simp), comps_append, reach_append, comps_plain hs] at h
  cases hr : fs.reach (start fs.cwd (p ++ '/' :: n)) (comps p) with
  | error e => rw [hr] at h; cases h
  | ok k =>
    rw [hr] at h
    simp only [Except.bind, reach] at h
    split at h
    · rename_i v w hk
      cases h
      have hdir : fs.isDir k = true := isDir_iff.2 ⟨v, w, hk⟩
      -- any other part stays in the directory or goes up to one
      refine ⟨?_, ?_, ?_, hs⟩
      · rintro rfl
        simp [enter, hdir] at hl
      · rintro rfl
        simp [enter, hdir] at hl
      · rintro rfl
        cases k with
        | nil => simp [enter, hdir] at hl
        | cons m k =>
          have : fs.isDir k = true := isDir_of_child (n := m) (by rw [hk]; simp)
          simp [enter, this] at hl
    · cases h
    · cases h

end FS

end OortAgent.Lib
