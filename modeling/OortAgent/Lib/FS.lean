import Mathlib.Data.List.AList
import OortAgent.Lib.Path

/-!
# A filesystem

Directories and regular files in one tree, each directory on a device and with a permission to change its entries.
There are no symbolic links, and no two names share a file (`single`): all that is proved is about filesystems
without links, and nothing here makes one. The contents are kept apart from the names, so that a file that is being
read or written stays the same file when it is renamed.

* `FS`: the names, the files, and the invariants of the tree as fields: an ill-formed tree cannot be built.
* `putFile`, `putDir`, `removeFile`, `removeDir`, `moveFile`, `moveTree`, `setInode`: the ways a tree changes, each with
  the equation of its names (`node_putFile` and so on).
* `view`: what every name shows, a directory or the bytes of a file.
* `resolve`: the location of a path, if every directory on the way is there (`resolve_norm`, `resolve_mono`).
* `rename`: the system call, with its error cases (`rename_cases`).
-/

namespace OortAgent.Lib

/-- Bytes of a file. -/
abbrev Bytes := List UInt8

/-- The number of a file. -/
abbrev Ino := Nat

/-- An error number. `other` stands for the numbers that nothing here is specific about. -/
inductive Errno
  | EACCES | EEXIST | EXDEV | ENOENT | ENOTDIR | EISDIR | EDQUOT | ENOTEMPTY | EINVAL | EBUSY | EMFILE | ENOSPC
  | other (n : Nat)
  deriving DecidableEq

/-- What a name is bound to: a directory on a device, writable or not, or a file. -/
inductive Node
  | dir (dev : Nat) (writable : Bool)
  | file (i : Ino)
  deriving DecidableEq

/-- A file: its bytes, whether it may be read, and its times. -/
structure Inode where
  data : Bytes
  readable : Bool
  mtime : Int
  ctime : Int
  deriving DecidableEq

/-- A filesystem. -/
structure FS where
  names : AList (fun _ : Loc => Node)
  inode : Ino → Inode
  next : Ino
  cwd : Loc
  root : ∃ d w, names.lookup [] = some (.dir d w)
  tree : ∀ n l, names.lookup (n :: l) ≠ none → ∃ d w, names.lookup l = some (.dir d w)
  bound : ∀ l i, names.lookup l = some (.file i) → i < next
  single : ∀ l l' i, names.lookup l = some (.file i) → names.lookup l' = some (.file i) → l = l'

namespace FS

variable {fs : FS}

/-- What the location is bound to. -/
def node (fs : FS) (l : Loc) : Option Node := fs.names.lookup l

/-- The location is a directory. -/
def isDir (fs : FS) (l : Loc) : Bool := match fs.node l with
  | some (.dir _ _) => true
  | _ => false

theorem isDir_iff {l : Loc} : fs.isDir l = true ↔ ∃ d w, fs.node l = some (.dir d w) := by
  unfold isDir
  split
  · rename_i d w h; simp [h]
  · rename_i h; simp only [Bool.false_eq_true, false_iff, not_exists]; exact h

theorem isDir_of_child {n : Name} {l : Loc} (h : fs.node (n :: l) ≠ none) : fs.isDir l = true :=
  isDir_iff.2 (fs.tree n l h)

/-- The names in a directory. -/
def children (fs : FS) (d : Loc) : List Name :=
  fs.names.keys.filterMap fun k => match k with
    | n :: l => if l = d then some n else none
    | [] => none

theorem mem_children {d : Loc} {n : Name} : n ∈ fs.children d ↔ fs.node (n :: d) ≠ none := by
  simp only [children, List.mem_filterMap, node, Ne, AList.lookup_eq_none, not_not, ← AList.mem_keys]
  constructor
  · rintro ⟨k, hk, h⟩
    cases k with
    | nil => simp at h
    | cons m l =>
      simp only [Option.ite_none_right_eq_some, Option.some.injEq] at h
      obtain ⟨rfl, rfl⟩ := h
      exact hk
  · intro h
    exact ⟨n :: d, h, by simp⟩

/-- A name is in a directory once. -/
theorem children_nodup (fs : FS) (d : Loc) : (fs.children d).Nodup := by
  refine List.Nodup.filterMap ?_ fs.names.keys_nodup
  intro a a' n ha ha'
  cases a with
  | nil => cases ha
  | cons m l =>
    cases a' with
    | nil => cases ha'
    | cons m' l' =>
      simp only at ha ha'
      split at ha <;> split at ha' <;> simp_all

/-- What a name shows. -/
inductive Shown
  | dir
  | file (data : Bytes)
  deriving DecidableEq

/-- What every name shows: the name-to-bytes map. -/
def view (fs : FS) (l : Loc) : Option Shown := (fs.node l).map fun
  | .dir _ _ => .dir
  | .file i => .file (fs.inode i).data

theorem view_file {l : Loc} {i : Ino} (h : fs.node l = some (.file i)) :
    fs.view l = some (.file (fs.inode i).data) := by
  simp [FS.view, h]

theorem view_none {l : Loc} (h : fs.node l = none) : fs.view l = none := by
  simp [FS.view, h]

/-- A name bound to the same file with the same content shows the same. -/
theorem view_eq_of_node {fs' : FS} {l : Loc} (hn : fs'.node l = fs.node l)
    (hi : ∀ j, fs.node l = some (.file j) → fs'.inode j = fs.inode j) : fs'.view l = fs.view l := by
  cases h : fs.node l with
  | none => simp [FS.view, hn, h]
  | some n => cases n with
    | dir v w => simp [FS.view, hn, h]
    | file j => simp [FS.view, hn, h, hi j h]

theorem lookup_rootOnly (dev : Nat) {l : Loc} {x : Node}
    (h : ((∅ : AList fun _ : Loc => Node).insert [] (.dir dev true)).lookup l = some x) : x = .dir dev true := by
  by_cases e : l = []
  · subst e
    rw [AList.lookup_insert] at h
    exact (Option.some.inj h).symm
  · rw [AList.lookup_insert_ne e, AList.lookup_empty] at h
    cases h

/-- A filesystem with nothing but a root directory. -/
def base (dev : Nat) : FS where
  names := (∅ : AList fun _ : Loc => Node).insert [] (.dir dev true)
  inode := fun _ => ⟨[], true, 0, 0⟩
  next := 0
  cwd := []
  root := ⟨dev, true, AList.lookup_insert _⟩
  tree := by
    intro n l h
    rw [AList.lookup_insert_ne (by simp), AList.lookup_empty] at h
    exact absurd rfl h
  bound := fun l i h => by cases lookup_rootOnly dev h
  single := fun l l' i h _ => by cases lookup_rootOnly dev h

/-! ## The ways a tree changes -/

/-- A new file. -/
def putFile (fs : FS) (n : Name) (d : Loc) (x : Inode) : FS :=
  if h : fs.isDir d = true ∧ fs.node (n :: d) = none then
    { fs with
      names := fs.names.insert (n :: d) (.file fs.next)
      inode := Function.update fs.inode fs.next x
      next := fs.next + 1
      root := by rw [AList.lookup_insert_ne (by simp)]; exact fs.root
      tree := by
        intro m l hm
        have hl : fs.isDir l = true := by
          by_cases e : m :: l = n :: d
          · cases e; exact h.1
          · rw [AList.lookup_insert_ne e] at hm; exact isDir_of_child hm
        have hne : l ≠ n :: d := by
          rintro rfl
          rw [isDir_iff] at hl
          simp [h.2] at hl
        rw [AList.lookup_insert_ne hne]
        exact isDir_iff.1 hl
      bound := by
        intro l i hl
        by_cases e : l = n :: d
        · subst e; rw [AList.lookup_insert] at hl; cases hl; exact Nat.lt_succ_self _
        · rw [AList.lookup_insert_ne e] at hl; exact Nat.lt_succ_of_lt (fs.bound l i hl)
      single := by
        intro l l' i hl hl'
        by_cases e : l = n :: d <;> by_cases e' : l' = n :: d
        · rw [e, e']
        · subst e; rw [AList.lookup_insert] at hl; cases hl
          rw [AList.lookup_insert_ne e'] at hl'; exact absurd (fs.bound _ _ hl') (Nat.lt_irrefl _)
        · subst e'; rw [AList.lookup_insert] at hl'; cases hl'
          rw [AList.lookup_insert_ne e] at hl; exact absurd (fs.bound _ _ hl) (Nat.lt_irrefl _)
        · rw [AList.lookup_insert_ne e] at hl; rw [AList.lookup_insert_ne e'] at hl'
          exact fs.single l l' i hl hl' }
  else fs

/-- A new directory on a device. -/
def putDir (fs : FS) (n : Name) (d : Loc) (dev : Nat) (w : Bool) : FS :=
  if h : fs.isDir d = true ∧ fs.node (n :: d) = none then
    { fs with
      names := fs.names.insert (n :: d) (.dir dev w)
      root := by rw [AList.lookup_insert_ne (by simp)]; exact fs.root
      tree := by
        intro m l hm
        by_cases hl : l = n :: d
        · subst hl; exact ⟨_, _, AList.lookup_insert _⟩
        · rw [AList.lookup_insert_ne hl]
          by_cases e : m :: l = n :: d
          · cases e; exact isDir_iff.1 h.1
          · rw [AList.lookup_insert_ne e] at hm; exact fs.tree m l hm
      bound := by
        intro l i hl
        by_cases e : l = n :: d
        · subst e; rw [AList.lookup_insert] at hl; cases hl
        · rw [AList.lookup_insert_ne e] at hl; exact fs.bound l i hl
      single := by
        intro l l' i hl hl'
        by_cases e : l = n :: d
        · subst e; rw [AList.lookup_insert] at hl; cases hl
        by_cases e' : l' = n :: d
        · subst e'; rw [AList.lookup_insert] at hl'; cases hl'
        rw [AList.lookup_insert_ne e] at hl; rw [AList.lookup_insert_ne e'] at hl'
        exact fs.single l l' i hl hl' }
  else fs

/-- Take a name away, if it is not the root and nothing is below it. -/
def erase (fs : FS) (l : Loc) : FS :=
  if h : l ≠ [] ∧ fs.children l = [] then
    { fs with
      names := fs.names.erase l
      root := by rw [AList.lookup_erase_ne (Ne.symm h.1)]; exact fs.root
      tree := by
        intro m k hm
        have hk : k ≠ l := by
          rintro rfl
          by_cases e : m :: k = k
          · simp at e
          · rw [AList.lookup_erase_ne e] at hm
            have : m ∈ fs.children k := mem_children.2 hm
            simp [h.2] at this
        have hmk : m :: k ≠ l := by rintro rfl; rw [AList.lookup_erase] at hm; exact hm rfl
        rw [AList.lookup_erase_ne hk]
        rw [AList.lookup_erase_ne hmk] at hm
        exact fs.tree m k hm
      bound := by
        intro k i hk
        have hkl : k ≠ l := by rintro rfl; simp [AList.lookup_erase] at hk
        rw [AList.lookup_erase_ne hkl] at hk; exact fs.bound k i hk
      single := by
        intro k k' i hk hk'
        have hkl : k ≠ l := by rintro rfl; simp [AList.lookup_erase] at hk
        have hkl' : k' ≠ l := by rintro rfl; simp [AList.lookup_erase] at hk'
        rw [AList.lookup_erase_ne hkl] at hk; rw [AList.lookup_erase_ne hkl'] at hk'
        exact fs.single k k' i hk hk' }
  else fs

/-- A file under another name; what the new name was bound to before is gone. -/
def moveFile (fs : FS) (a b : Loc) : FS :=
  match fs.node a with
  | some (.file i) =>
    if h : a ≠ b ∧ fs.isDir b.tail = true ∧ b ≠ [] ∧ fs.isDir b = false ∧ fs.node a = some (.file i) then
      { fs with
        names := (fs.names.erase a).insert b (.file i)
        root := by
          have ha : ([] : Loc) ≠ a := by
            rintro rfl; obtain ⟨d, w, hr⟩ := fs.root; have := h.2.2.2.2; simp [node, hr] at this
          rw [AList.lookup_insert_ne (Ne.symm h.2.2.1), AList.lookup_erase_ne ha]
          exact fs.root
        tree := by
          intro m l hm
          have hl : fs.isDir l = true := by
            by_cases e : m :: l = b
            · subst e; exact h.2.1
            · rw [AList.lookup_insert_ne e] at hm
              have e' : m :: l ≠ a := by rintro rfl; simp [AList.lookup_erase] at hm
              rw [AList.lookup_erase_ne e'] at hm
              exact isDir_of_child hm
          have hlb : l ≠ b := by rintro rfl; simp [h.2.2.2.1] at hl
          have hla : l ≠ a := by rintro rfl; simp [isDir, h.2.2.2.2] at hl
          rw [AList.lookup_insert_ne hlb, AList.lookup_erase_ne hla]
          exact isDir_iff.1 hl
        bound := by
          intro l j hl
          by_cases e : l = b
          · subst e; rw [AList.lookup_insert] at hl; cases hl; exact fs.bound a i h.2.2.2.2
          · rw [AList.lookup_insert_ne e] at hl
            have e' : l ≠ a := by rintro rfl; simp [AList.lookup_erase] at hl
            rw [AList.lookup_erase_ne e'] at hl
            exact fs.bound l j hl
        single := by
          have key : ∀ l j, ((fs.names.erase a).insert b (.file i)).lookup l = some (.file j) →
              (l = b ∧ j = i) ∨ (l ≠ a ∧ fs.names.lookup l = some (.file j)) := by
            intro l j hl
            by_cases e : l = b
            · subst e; rw [AList.lookup_insert] at hl; cases hl; exact .inl ⟨rfl, rfl⟩
            · rw [AList.lookup_insert_ne e] at hl
              have e' : l ≠ a := by rintro rfl; simp [AList.lookup_erase] at hl
              rw [AList.lookup_erase_ne e'] at hl
              exact .inr ⟨e', hl⟩
          intro l l' j hl hl'
          rcases key l j hl with ⟨e, hj⟩ | ⟨ha, hk⟩ <;> rcases key l' j hl' with ⟨e', hj'⟩ | ⟨ha', hk'⟩
          · rw [e, e']
          · subst hj; exact absurd (fs.single _ _ _ hk' h.2.2.2.2) ha'
          · subst hj'; exact absurd (fs.single _ _ _ hk h.2.2.2.2) ha
          · exact fs.single l l' j hk hk' }
    else fs
  | _ => fs

/-- Exchange the subtrees below two locations. -/
def swapTree (a b : Loc) (l : Loc) : Loc :=
  if a <:+ l then l.take (l.length - a.length) ++ b
  else if b <:+ l then l.take (l.length - b.length) ++ a else l

section SwapTree

variable {a b : Loc}

theorem swapTree_left (s : Loc) : swapTree a b (s ++ a) = s ++ b := by
  simp [swapTree]

theorem swapTree_right (hab : ¬ a <:+ b) (hba : ¬ b <:+ a) (s : Loc) : swapTree a b (s ++ b) = s ++ a := by
  have h : ¬ a <:+ s ++ b := by
    intro h
    rcases List.suffix_or_suffix_of_suffix h (List.suffix_append s b) with h | h
    · exact hab h
    · exact hba h
  simp [swapTree, h]

theorem swapTree_other {l : Loc} (ha : ¬ a <:+ l) (hb : ¬ b <:+ l) : swapTree a b l = l := by
  simp [swapTree, ha, hb]

theorem swapTree_swapTree (hab : ¬ a <:+ b) (hba : ¬ b <:+ a) (l : Loc) : swapTree a b (swapTree a b l) = l := by
  by_cases ha : a <:+ l
  · obtain ⟨s, rfl⟩ := ha
    rw [swapTree_left, swapTree_right hab hba]
  · by_cases hb : b <:+ l
    · obtain ⟨s, rfl⟩ := hb
      rw [swapTree_right hab hba, swapTree_left]
    · rw [swapTree_other ha hb, swapTree_other ha hb]

theorem swapTree_injective (hab : ¬ a <:+ b) (hba : ¬ b <:+ a) : Function.Injective (swapTree a b) := fun x y h => by
  rw [← swapTree_swapTree hab hba x, h, swapTree_swapTree hab hba]

/-- Below neither location, or strictly below one of them, the exchange goes name by name. -/
theorem swapTree_cons (hab : ¬ a <:+ b) (hba : ¬ b <:+ a) {n : Name} {l : Loc} (ha : n :: l ≠ a) (hb : n :: l ≠ b) :
    swapTree a b (n :: l) = n :: swapTree a b l := by
  have suf : ∀ {c : Loc}, n :: l ≠ c → (c <:+ n :: l ↔ c <:+ l) := fun hc => by
    rw [List.suffix_cons_iff]
    exact ⟨fun h => h.resolve_left (fun e => hc e.symm), .inr⟩
  by_cases h₁ : a <:+ l
  · obtain ⟨s, rfl⟩ := h₁
    rw [swapTree_left, ← List.cons_append, swapTree_left]; rfl
  · by_cases h₂ : b <:+ l
    · obtain ⟨s, rfl⟩ := h₂
      rw [swapTree_right hab hba, ← List.cons_append, swapTree_right hab hba]; rfl
    · rw [swapTree_other h₁ h₂, swapTree_other ((suf ha).not.2 h₁) ((suf hb).not.2 h₂)]

end SwapTree

/-- The names with the subtrees of two locations exchanged. -/
def swapNames (names : AList (fun _ : Loc => Node)) (a b : Loc) : AList (fun _ : Loc => Node) :=
  (names.entries.map (Sigma.map (swapTree a b) fun _ => id)).toAList

theorem lookup_swapNames {names : AList (fun _ : Loc => Node)} {a b : Loc} (hab : ¬ a <:+ b) (hba : ¬ b <:+ a)
    (l : Loc) : (swapNames names a b).lookup l = names.lookup (swapTree a b l) := by
  have h := List.dlookup_map₁ names.entries (swapTree_injective hab hba) (swapTree a b l)
  rw [swapTree_swapTree hab hba] at h
  rw [swapNames, AList.lookup_to_alist]
  exact h

/-- A directory with everything below it under another name, where nothing is below the new name. -/
def moveTree (fs : FS) (a b : Loc) : FS :=
  if h : (¬ a <:+ b ∧ ¬ b <:+ a) ∧ b ≠ [] ∧ fs.children b = [] ∧ fs.isDir b.tail = true then
    let fs' := fs.erase b
    { fs' with
      names := swapNames fs'.names a b
      root := by
        have ha : ¬ a <:+ [] := fun e => h.1.1 (by rw [List.suffix_nil.1 e]; exact List.nil_suffix)
        have hb : ¬ b <:+ [] := fun e => h.1.2 (by rw [List.suffix_nil.1 e]; exact List.nil_suffix)
        rw [lookup_swapNames h.1.1 h.1.2, swapTree_other ha hb]
        exact fs'.root
      tree := by
        have hb : fs'.node b = none := by simp [fs', erase, h.2.1, h.2.2.1, node, AList.lookup_erase]
        intro n l
        rw [lookup_swapNames h.1.1 h.1.2, lookup_swapNames h.1.1 h.1.2]
        intro hn
        by_cases ea : n :: l = a
        · rw [ea] at hn
          have := swapTree_left (a := a) (b := b) []
          simp only [List.nil_append] at this
          rw [this] at hn
          exact absurd hb hn
        by_cases eb : n :: l = b
        · -- the new name: its parent is where it was
          subst eb
          obtain ⟨d, w, hd⟩ := isDir_iff.1 h.2.2.2
          have hla : ¬ a <:+ l := fun e => h.1.1 (e.trans (List.suffix_cons n l))
          have hlb : ¬ n :: l <:+ l := fun e => by have := e.length_le; rw [List.length_cons] at this; omega
          rw [swapTree_other hla hlb]
          refine ⟨d, w, ?_⟩
          have : l ≠ n :: l := by simp
          simpa [fs', erase, h.2.2.1, node, AList.lookup_erase_ne this] using hd
        · rw [swapTree_cons h.1.1 h.1.2 ea eb] at hn
          exact fs'.tree _ _ hn
      bound := by
        intro l i
        rw [lookup_swapNames h.1.1 h.1.2]
        exact fs'.bound _ _
      single := by
        intro l l' i
        rw [lookup_swapNames h.1.1 h.1.2, lookup_swapNames h.1.1 h.1.2]
        intro hl hl'
        exact swapTree_injective h.1.1 h.1.2 (fs'.single _ _ _ hl hl') }
  else fs

/-- Another content for a file. -/
def setInode (fs : FS) (i : Ino) (x : Inode) : FS := { fs with inode := Function.update fs.inode i x }

/-! ## The names after a change -/

section Names

variable {l : Loc} {n : Name} {d a b : Loc} {x : Inode} {i : Ino}

theorem children_eq_nil (hl : fs.isDir l = false) : fs.children l = [] := by
  rw [List.eq_nil_iff_forall_not_mem]
  intro m hm
  rw [isDir_of_child (mem_children.1 hm)] at hl
  cases hl

theorem node_putFile (hd : fs.isDir d = true) (hn : fs.node (n :: d) = none) (l : Loc) :
    (fs.putFile n d x).node l = if l = n :: d then some (.file fs.next) else fs.node l := by
  rw [putFile, dif_pos ⟨hd, hn⟩]
  split
  · rename_i h; subst h; exact AList.lookup_insert _
  · rename_i h; exact AList.lookup_insert_ne h

theorem inode_putFile (hd : fs.isDir d = true) (hn : fs.node (n :: d) = none) :
    (fs.putFile n d x).inode = Function.update fs.inode fs.next x := by
  rw [putFile, dif_pos ⟨hd, hn⟩]

theorem next_putFile (hd : fs.isDir d = true) (hn : fs.node (n :: d) = none) :
    (fs.putFile n d x).next = fs.next + 1 := by
  rw [putFile, dif_pos ⟨hd, hn⟩]

@[simp] theorem cwd_putFile : (fs.putFile n d x).cwd = fs.cwd := by
  unfold putFile; split <;> rfl

theorem node_putDir {v : Nat} {w : Bool} (hd : fs.isDir d = true) (hn : fs.node (n :: d) = none) (l : Loc) :
    (fs.putDir n d v w).node l = if l = n :: d then some (.dir v w) else fs.node l := by
  rw [putDir, dif_pos ⟨hd, hn⟩]
  split
  · rename_i h; subst h; exact AList.lookup_insert _
  · rename_i h; exact AList.lookup_insert_ne h

@[simp] theorem inode_putDir {v : Nat} {w : Bool} : (fs.putDir n d v w).inode = fs.inode := by
  unfold putDir; split <;> rfl

@[simp] theorem next_putDir {v : Nat} {w : Bool} : (fs.putDir n d v w).next = fs.next := by
  unfold putDir; split <;> rfl

@[simp] theorem cwd_putDir {v : Nat} {w : Bool} : (fs.putDir n d v w).cwd = fs.cwd := by
  unfold putDir; split <;> rfl

theorem node_erase (hl : l ≠ []) (hc : fs.children l = []) (k : Loc) :
    (fs.erase l).node k = if k = l then none else fs.node k := by
  rw [erase, dif_pos ⟨hl, hc⟩]
  split
  · rename_i h; subst h; exact AList.lookup_erase _ _
  · rename_i h; exact AList.lookup_erase_ne h

@[simp] theorem inode_erase : (fs.erase l).inode = fs.inode := by unfold erase; split <;> rfl

@[simp] theorem next_erase : (fs.erase l).next = fs.next := by unfold erase; split <;> rfl

@[simp] theorem cwd_erase : (fs.erase l).cwd = fs.cwd := by unfold erase; split <;> rfl

theorem node_moveFile (ha : fs.node a = some (.file i)) (hab : a ≠ b) (hp : fs.isDir b.tail = true) (hb0 : b ≠ [])
    (hb : fs.isDir b = false) (l : Loc) :
    (fs.moveFile a b).node l = if l = b then some (.file i) else if l = a then none else fs.node l := by
  unfold moveFile
  split
  · rename_i j hj
    cases ha.symm.trans hj
    rw [dif_pos ⟨hab, hp, hb0, hb, ha⟩]
    by_cases hlb : l = b
    · subst hlb
      rw [if_pos rfl]
      exact AList.lookup_insert _
    · rw [if_neg hlb]
      by_cases hla : l = a
      · rw [if_pos hla]
        exact (AList.lookup_insert_ne hlb).trans (by rw [hla]; exact AList.lookup_erase _ _)
      · rw [if_neg hla]
        exact (AList.lookup_insert_ne hlb).trans (AList.lookup_erase_ne hla)
  · rename_i hne; exact absurd ha (hne i)

@[simp] theorem inode_moveFile : (fs.moveFile a b).inode = fs.inode := by
  unfold moveFile
  split
  · split <;> rfl
  · rfl

@[simp] theorem next_moveFile : (fs.moveFile a b).next = fs.next := by
  unfold moveFile
  split
  · split <;> rfl
  · rfl

@[simp] theorem cwd_moveFile : (fs.moveFile a b).cwd = fs.cwd := by
  unfold moveFile
  split
  · split <;> rfl
  · rfl

theorem node_moveTree (hab : ¬ a <:+ b) (hba : ¬ b <:+ a) (hb : b ≠ []) (hc : fs.children b = [])
    (hp : fs.isDir b.tail = true) (l : Loc) :
    (fs.moveTree a b).node l = if swapTree a b l = b then none else fs.node (swapTree a b l) := by
  rw [moveTree, dif_pos ⟨⟨hab, hba⟩, hb, hc, hp⟩]
  exact (lookup_swapNames hab hba l).trans (node_erase hb hc _)

@[simp] theorem inode_moveTree : (fs.moveTree a b).inode = fs.inode := by
  unfold moveTree
  split
  · exact inode_erase
  · rfl

@[simp] theorem next_moveTree : (fs.moveTree a b).next = fs.next := by
  unfold moveTree
  split
  · exact next_erase
  · rfl

@[simp] theorem cwd_moveTree : (fs.moveTree a b).cwd = fs.cwd := by
  unfold moveTree
  split
  · exact cwd_erase
  · rfl

@[simp] theorem node_setInode : (fs.setInode i x).node l = fs.node l := rfl

@[simp] theorem inode_setInode : (fs.setInode i x).inode = Function.update fs.inode i x := rfl

@[simp] theorem next_setInode : (fs.setInode i x).next = fs.next := rfl

@[simp] theorem cwd_setInode : (fs.setInode i x).cwd = fs.cwd := rfl

end Names

/-! ## Resolving a path -/

/-- Walk the parts of a path; every directory on the way has to be there. -/
def reach (fs : FS) : Loc → List Name → Except Errno Loc
  | cur, [] => .ok cur
  | cur, n :: ns => match fs.node cur with
    | some (.dir _ _) => reach fs (enter cur n) ns
    | some (.file _) => .error .ENOTDIR
    | none => .error .ENOENT

/-- The location of a path. -/
def resolve (fs : FS) (p : Str) : Except Errno Loc :=
  if p = [] then .error .ENOENT else fs.reach (start fs.cwd p) (comps p)

theorem reach_walk {cur l : Loc} {ns : List Name} (h : fs.reach cur ns = .ok l) : l = walk cur ns := by
  induction ns generalizing cur with
  | nil => cases h; rfl
  | cons n ns ih =>
    unfold reach at h
    split at h
    · exact ih h
    · cases h
    · cases h

/-- The location does not depend on the filesystem. -/
theorem resolve_norm {p : Str} {l : Loc} (h : fs.resolve p = .ok l) : l = norm fs.cwd p := by
  unfold resolve at h
  split at h
  · cases h
  · exact reach_walk h

theorem reach_mono {fs' : FS} (hd : ∀ l, fs.isDir l = true → fs'.isDir l = true) {cur l : Loc} {ns : List Name}
    (h : fs.reach cur ns = .ok l) : fs'.reach cur ns = .ok l := by
  induction ns generalizing cur with
  | nil => exact h
  | cons n ns ih =>
    unfold reach at h
    split at h
    case h_1 d w hc =>
      obtain ⟨d', w', hc'⟩ := isDir_iff.1 (hd cur (isDir_iff.2 ⟨d, w, hc⟩))
      unfold reach
      rw [hc']
      exact ih h
    all_goals cases h

/-- A path that resolves goes on resolving while the directories stay. -/
theorem resolve_mono {fs' : FS} (hd : ∀ l, fs.isDir l = true → fs'.isDir l = true) (hc : fs'.cwd = fs.cwd) {p : Str}
    {l : Loc} (h : fs.resolve p = .ok l) : fs'.resolve p = .ok l := by
  unfold resolve at h ⊢
  split at h
  · cases h
  · rename_i hp
    rw [if_neg hp, hc]
    exact reach_mono hd h

theorem reach_append {cur : Loc} {a b : List Name} :
    fs.reach cur (a ++ b) = (fs.reach cur a).bind fun l => fs.reach l b := by
  induction a generalizing cur with
  | nil => rfl
  | cons n ns ih =>
    simp only [List.cons_append, reach]
    split
    · exact ih
    · rfl
    · rfl

/-- The entry `n` of a directory that is there. -/
theorem resolve_child {p : Str} {n : Name} {l : Loc} (h : fs.resolve p = .ok l) (hl : fs.isDir l = true)
    (hn : Plain n) : fs.resolve (p ++ '/' :: n) = .ok (n :: l) := by
  unfold resolve at h
  split at h
  · cases h
  · rename_i hp
    obtain ⟨d, w, hd⟩ := isDir_iff.1 hl
    have : fs.reach l [n] = .ok (n :: l) := by simp [reach, hd, hn.enter]
    rw [resolve, if_neg (by simp), start_append hp, comps_append, reach_append, h, comps_plain hn.2.2.2]
    exact this

/-- The directory of an entry that resolves is there. -/
theorem isDir_of_resolve_child {p : Str} {n : Name} {l : Loc} (hp : p ≠ []) (hn : Plain n)
    (h : fs.resolve (p ++ '/' :: n) = .ok l) : fs.resolve p = .ok (norm fs.cwd p) ∧
      fs.isDir (norm fs.cwd p) = true := by
  rw [resolve, if_neg (by simp), start_append hp, comps_append, reach_append, comps_plain hn.2.2.2] at h
  cases hr : fs.reach (start fs.cwd p) (comps p) with
  | error e => rw [hr] at h; cases h
  | ok l' =>
    have hl' : l' = norm fs.cwd p := reach_walk hr
    subst hl'
    refine ⟨by rw [resolve, if_neg hp]; exact hr, ?_⟩
    rw [hr] at h
    simp only [Except.bind, reach] at h
    split at h
    · rename_i d w hd; exact isDir_iff.2 ⟨d, w, hd⟩
    · cases h
    · cases h

/-- The location of a path that is there. -/
def locate (fs : FS) (p : Str) : Option Loc := match fs.resolve p with
  | .error _ => none
  | .ok l => if fs.node l = none then none else some l

theorem locate_eq_some {p : Str} {l : Loc} : fs.locate p = some l ↔ fs.resolve p = .ok l ∧ fs.node l ≠ none := by
  unfold locate
  split
  · rename_i e he
    simp [he]
  · rename_i k hk
    rw [hk]
    split
    · rename_i hn
      constructor
      · intro h
        cases h
      · rintro ⟨h, hl⟩
        cases h
        exact absurd hn hl
    · rename_i hn
      constructor
      · intro h
        cases h
        exact ⟨rfl, hn⟩
      · rintro ⟨h, -⟩
        cases h
        rfl

/-- Where an entry of a directory resolves, so does every other one. -/
theorem resolve_sibling {d : Str} {n m : Name} {l : Loc} (hn : Plain n) (hm : Plain m)
    (h : fs.resolve (d ++ '/' :: n) = .ok l) : fs.resolve (d ++ '/' :: m) = .ok (m :: l.tail) := by
  rw [resolve, if_neg (by simp), start_entry, comps_append, reach_append, comps_plain hn.2.2.2] at h
  rw [resolve, if_neg (by simp), start_entry, comps_append, reach_append, comps_plain hm.2.2.2]
  cases hr : fs.reach (start fs.cwd (d ++ ['/'])) (comps d) with
  | error e =>
    rw [hr] at h
    cases h
  | ok k =>
    rw [hr] at h
    simp only [Except.bind, reach] at h ⊢
    split at h
    · cases h
      rw [hn.enter, hm.enter, List.tail_cons]
    · cases h
    · cases h

/-- A path resolves if everything on its way is a directory. -/
theorem resolve_of_ways {p : Str} (hp : p ≠ []) (h : ∀ k ∈ ways (start fs.cwd p) (comps p), fs.isDir k = true) :
    fs.resolve p = .ok (norm fs.cwd p) := by
  have hreach : ∀ (ns : List Name) (cur : Loc), (∀ k ∈ ways cur ns, fs.isDir k = true) →
      fs.reach cur ns = .ok (walk cur ns) := by
    intro ns
    induction ns with
    | nil =>
      intro cur _
      rfl
    | cons n ns ih =>
      intro cur hk
      obtain ⟨d, w, hd⟩ := isDir_iff.1 (hk cur List.mem_cons_self)
      rw [reach, hd]
      exact ih _ fun k hm => hk k (List.mem_cons_of_mem _ hm)
  rw [resolve, if_neg hp]
  exact hreach _ _ h

/-- Everything on the way of a path that leads to a directory is a directory. -/
theorem isDir_ways {p : Str} {l : Loc} (h : fs.resolve p = .ok l) (hl : fs.isDir l = true) :
    ∀ k ∈ ways (start fs.cwd p) (comps p), fs.isDir k = true := by
  have hreach : ∀ (ns : List Name) (cur : Loc), fs.reach cur ns = .ok l → ∀ k ∈ ways cur ns, fs.isDir k = true := by
    intro ns
    induction ns with
    | nil =>
      intro cur hr k hk
      cases hr
      obtain rfl := List.mem_singleton.1 hk
      exact hl
    | cons n ns ih =>
      intro cur hr k hk
      rw [reach] at hr
      split at hr
      · rename_i d w hd
        rcases List.mem_cons.1 hk with rfl | hk
        · exact isDir_iff.2 ⟨d, w, hd⟩
        · exact ih _ hr k hk
      · cases hr
      · cases hr
  rw [resolve] at h
  split at h
  · cases h
  · exact hreach _ _ h

/-- A path that goes on with one part and leads to a file: the part is a plain name. -/
theorem plain_of_resolve_file {p : Str} {n : Name} {l : Loc} {i : Ino} (hs : '/' ∉ n)
    (h : fs.resolve (p ++ '/' :: n) = .ok l) (hl : fs.node l = some (.file i)) : Plain n := by
  rw [resolve, if_neg (by simp), comps_append, reach_append, comps_plain hs] at h
  cases hr : fs.reach (start fs.cwd (p ++ '/' :: n)) (comps p) with
  | error e => rw [hr] at h; cases h
  | ok l' =>
    rw [hr] at h
    simp only [Except.bind, reach] at h
    split at h
    · rename_i v w hd
      cases h
      -- any other part stays in a directory or goes up to one
      have hdir : ∀ k, fs.node k = some (.dir v w) → fs.node k.tail ≠ some (.file i) := by
        intro k hk
        cases k with
        | nil => rw [List.tail_nil, hk]; simp
        | cons m k =>
          obtain ⟨v', w', h'⟩ := isDir_iff.1 (isDir_of_child (n := m) (l := k) (by rw [hk]; simp))
          rw [List.tail_cons, h']
          simp
      refine ⟨?_, ?_, ?_, hs⟩
      · rintro rfl; simp [enter, hd] at hl
      · rintro rfl; simp [enter, hd] at hl
      · rintro rfl; exact hdir l' hd (by simpa [enter] using hl)
    · cases h
    · cases h

theorem reach_ne_exdev {cur : Loc} {ns : List Name} : fs.reach cur ns ≠ .error .EXDEV := by
  induction ns generalizing cur with
  | nil => simp [reach]
  | cons n ns ih =>
    unfold reach
    split
    · exact ih
    · simp
    · simp

/-- A path never leads to another device by itself. -/
theorem resolve_ne_exdev {p : Str} : fs.resolve p ≠ .error .EXDEV := by
  unfold resolve
  split
  · simp
  · exact reach_ne_exdev

/-! ## Calls that change the names -/

/-- Bind a free name of a writable directory to a new file. -/
def mkfile (fs : FS) (l : Loc) (x : Inode) : Except Errno FS :=
  match l with
  | [] => .error .EEXIST
  | n :: d => match fs.node d with
    | some (.dir _ w) =>
      if w then if fs.node (n :: d) = none then .ok (fs.putFile n d x) else .error .EEXIST else .error .EACCES
    | some (.file _) => .error .ENOTDIR
    | none => .error .ENOENT

/-- Bind a free name of a writable directory to a new directory, on the same device. -/
def mkdir (fs : FS) (l : Loc) : Except Errno FS :=
  match l with
  | [] => .error .EEXIST
  | n :: d => match fs.node d with
    | some (.dir v w) =>
      if w then if fs.node (n :: d) = none then .ok (fs.putDir n d v true) else .error .EEXIST else .error .EACCES
    | some (.file _) => .error .ENOTDIR
    | none => .error .ENOENT

/-- The entries of a directory may be changed. -/
def writable (fs : FS) (d : Loc) : Bool := match fs.node d with
  | some (.dir _ w) => w
  | _ => false

/-- The device of a directory. -/
def dev (fs : FS) (d : Loc) : Option Nat := match fs.node d with
  | some (.dir v _) => some v
  | _ => none

/-- Remove a file. -/
def unlink (fs : FS) (l : Loc) : Except Errno FS :=
  match fs.node l with
  | none => .error .ENOENT
  | some (.dir _ _) => .error .EISDIR
  | some (.file _) => if fs.writable l.tail then .ok (fs.erase l) else .error .EACCES

/-- Remove an empty directory. -/
def rmdir (fs : FS) (l : Loc) : Except Errno FS :=
  match fs.node l with
  | none => .error .ENOENT
  | some (.file _) => .error .ENOTDIR
  | some (.dir _ _) =>
    if l = [] then .error .EBUSY
    else if fs.children l ≠ [] then .error .ENOTEMPTY
    else if fs.writable l.tail then .ok (fs.erase l) else .error .EACCES

/-- Rename, replacing what the new name was bound to. The devices are compared before the names are looked at. -/
def rename (fs : FS) (a b : Loc) : Except Errno FS :=
  if a = [] ∨ b = [] then .error .EBUSY
  else match fs.dev a.tail, fs.dev b.tail with
    | some u, some v =>
      if u ≠ v then .error .EXDEV
      else match fs.node a with
        | none => .error .ENOENT
        | some n =>
          if ¬ (fs.writable a.tail ∧ fs.writable b.tail) then .error .EACCES
          else if a = b then .ok fs
          else match n with
            | .file _ => if fs.isDir b then .error .EISDIR else .ok (fs.moveFile a b)
            | .dir _ _ =>
              if a <:+ b ∨ b <:+ a then .error .EINVAL
              else match fs.node b with
                | some (.file _) => .error .ENOTDIR
                | _ => if fs.children b ≠ [] then .error .ENOTEMPTY else .ok (fs.moveTree a b)
    | _, _ => .error .ENOENT

section Calls

variable {fs' : FS} {l a b : Loc} {x : Inode}

theorem isDir_of_writable {d : Loc} (h : fs.writable d = true) : fs.isDir d = true := by
  unfold writable at h
  split at h
  · rename_i v w hd; exact isDir_iff.2 ⟨v, w, hd⟩
  · cases h

theorem isDir_of_dev {d : Loc} {v : Nat} (h : fs.dev d = some v) : fs.isDir d = true := by
  unfold dev at h
  split at h
  · rename_i v w hd; exact isDir_iff.2 ⟨v, w, hd⟩
  · cases h

theorem mkfile_ok (h : fs.mkfile l x = .ok fs') :
    ∃ n d, l = n :: d ∧ fs.writable d = true ∧ fs.node l = none ∧ fs' = fs.putFile n d x := by
  unfold mkfile at h
  split at h
  · cases h
  · rename_i n d
    split at h
    · rename_i v w hd
      split at h
      · rename_i hw
        split at h
        · rename_i hn; cases h; exact ⟨n, d, rfl, by simp [writable, hd, hw], hn, rfl⟩
        · cases h
      · cases h
    · cases h
    · cases h

theorem mkdir_ok (h : fs.mkdir l = .ok fs') :
    ∃ n d v, l = n :: d ∧ fs.node d = some (.dir v true) ∧ fs.node l = none ∧ fs' = fs.putDir n d v true := by
  unfold mkdir at h
  split at h
  · cases h
  · rename_i n d
    split at h
    · rename_i v w hd
      split at h
      · rename_i hw
        split at h
        · rename_i hn; cases h; exact ⟨n, d, v, rfl, by rw [hd, hw], hn, rfl⟩
        · cases h
      · cases h
    · cases h
    · cases h

theorem unlink_ok (h : fs.unlink l = .ok fs') :
    ∃ i, fs.node l = some (.file i) ∧ fs.writable l.tail = true ∧ fs' = fs.erase l := by
  unfold unlink at h
  split at h
  · cases h
  · cases h
  · rename_i i hi
    split at h
    · rename_i hw; cases h; exact ⟨i, hi, hw, rfl⟩
    · cases h

theorem rmdir_ok (h : fs.rmdir l = .ok fs') :
    fs.isDir l = true ∧ l ≠ [] ∧ fs.children l = [] ∧ fs.writable l.tail = true ∧ fs' = fs.erase l := by
  unfold rmdir at h
  split at h
  · cases h
  · cases h
  · rename_i v w hl
    split at h
    · cases h
    · rename_i h0
      split at h
      · cases h
      · rename_i hc
        split at h
        · rename_i hw; cases h; exact ⟨isDir_iff.2 ⟨v, w, hl⟩, h0, by simpa using hc, hw, rfl⟩
        · cases h

/-- What a `rename` that succeeded did: nothing, move a file, or move a directory. -/
theorem rename_cases (h : fs.rename a b = .ok fs') :
    fs.writable a.tail = true ∧ fs.writable b.tail = true ∧ fs.dev a.tail = fs.dev b.tail ∧ a ≠ [] ∧ b ≠ [] ∧
    ((a = b ∧ fs' = fs ∧ fs.node a ≠ none) ∨
      (∃ i, fs.node a = some (.file i) ∧ a ≠ b ∧ fs.isDir b = false ∧ fs' = fs.moveFile a b) ∨
      (fs.isDir a = true ∧ ¬ a <:+ b ∧ ¬ b <:+ a ∧ fs.children b = [] ∧ fs' = fs.moveTree a b)) := by
  unfold rename at h
  split at h
  · cases h
  rename_i h0
  simp only [not_or] at h0
  split at h
  case h_2 => cases h
  rename_i u v hu hv
  split at h
  · cases h
  rename_i huv
  simp only [ne_eq, not_not] at huv
  split at h
  · cases h
  rename_i n hn
  split at h
  · cases h
  rename_i hw
  simp only [not_not] at hw
  refine ⟨hw.1, hw.2, by rw [hu, hv, huv], h0.1, h0.2, ?_⟩
  split at h
  · rename_i hab; cases h; exact .inl ⟨hab, rfl, by simp [hn]⟩
  rename_i hab
  cases n with
  | file i =>
    simp only at h
    split at h
    · cases h
    · rename_i hb; cases h; exact .inr (.inl ⟨i, hn, hab, by simpa using hb, rfl⟩)
  | dir v w =>
    simp only at h
    split at h
    · cases h
    rename_i hs
    simp only [not_or] at hs
    split at h
    · cases h
    split at h
    · cases h
    · rename_i hc; cases h
      exact .inr (.inr ⟨isDir_iff.2 ⟨v, w, hn⟩, hs.1, hs.2, by simpa using hc, rfl⟩)

/-- `EXDEV`: the two directories are on different devices. -/
theorem rename_exdev (h : fs.rename a b = .error .EXDEV) :
    a ≠ [] ∧ b ≠ [] ∧ ∃ u v, fs.dev a.tail = some u ∧ fs.dev b.tail = some v ∧ u ≠ v := by
  unfold rename at h
  split at h
  · cases h
  rename_i h0
  simp only [not_or] at h0
  split at h
  case h_2 => cases h
  rename_i u v hu hv
  refine ⟨h0.1, h0.2, u, v, hu, hv, fun huv => ?_⟩
  rw [if_neg (not_not.2 huv)] at h
  split at h
  · cases h
  split at h
  · cases h
  split at h
  · cases h
  split at h
  · split at h <;> cases h
  · split at h
    · cases h
    split at h
    · cases h
    · split at h <;> cases h

/-- The names after a file was renamed. -/
theorem rename_file {i : Ino} (h : fs.rename a b = .ok fs') (ha : fs.node a = some (.file i)) :
    (∀ l, fs'.node l = if l = b then some (.file i) else if l = a then none else fs.node l) ∧ fs'.inode = fs.inode ∧
    fs'.next = fs.next ∧ fs'.cwd = fs.cwd := by
  obtain ⟨-, hw, -, -, hb0, ⟨rfl, rfl, -⟩ | ⟨j, hj, hab, hb, rfl⟩ | ⟨hd, -⟩⟩ := rename_cases h
  · refine ⟨fun l => ?_, rfl, rfl, rfl⟩
    split
    · rename_i e; rw [e, ha]
    · simp
  · exact ⟨node_moveFile ha hab (isDir_of_writable hw) hb0 hb, by simp, by simp, by simp⟩
  · obtain ⟨v, w, hd⟩ := isDir_iff.1 hd
    cases ha.symm.trans hd

/-- A `rename` that succeeded had something to rename. -/
theorem rename_src (h : fs.rename a b = .ok fs') : fs.node a ≠ none := by
  obtain ⟨-, -, -, -, -, ⟨-, -, h⟩ | ⟨i, h, -⟩ | ⟨h, -⟩⟩ := rename_cases h
  · exact h
  · simp [h]
  · obtain ⟨v, w, h⟩ := isDir_iff.1 h
    simp [h]

theorem node_unlink (h : fs.unlink l = .ok fs') (k : Loc) : fs'.node k = if k = l then none else fs.node k := by
  obtain ⟨i, hi, -, rfl⟩ := unlink_ok h
  have hl : l ≠ [] := by
    rintro rfl
    obtain ⟨d, w, hr⟩ := fs.root
    cases hi.symm.trans hr
  exact node_erase hl (children_eq_nil (by simp [isDir, hi])) k

theorem node_rmdir (h : fs.rmdir l = .ok fs') (k : Loc) : fs'.node k = if k = l then none else fs.node k := by
  obtain ⟨-, h0, hc, -, rfl⟩ := rmdir_ok h
  exact node_erase h0 hc k

/-- Everything above a name that is there is a directory. -/
theorem isDir_of_suffix {s d : Loc} (h : fs.node (s ++ d) ≠ none) (hs : s ≠ []) : fs.isDir d = true := by
  induction s with
  | nil => exact absurd rfl hs
  | cons n s ih =>
    have hd : fs.isDir (s ++ d) = true := isDir_of_child h
    by_cases hs' : s = []
    · subst hs'
      exact hd
    · obtain ⟨v, w, hv⟩ := isDir_iff.1 hd
      exact ih (by rw [hv]; simp) hs'

/-- Below an empty directory there is nothing. -/
theorem node_below_empty {s d : Loc} (hc : fs.children d = []) (hs : s ≠ []) : fs.node (s ++ d) = none := by
  by_contra hn
  obtain ⟨s', n, rfl⟩ : ∃ s' n, s = s' ++ [n] := ⟨s.dropLast, s.getLast hs, (List.dropLast_append_getLast hs).symm⟩
  rw [List.append_assoc, List.singleton_append] at hn
  have : fs.node (n :: d) ≠ none := by
    by_cases hs' : s' = []
    · subst hs'
      exact hn
    · obtain ⟨v, w, hv⟩ := isDir_iff.1 (isDir_of_suffix hn hs')
      rw [hv]; simp
  have := mem_children.2 this
  rw [hc] at this
  cases this

/-- A `rename` leaves a directory where it is, unless it moves it or something above it. -/
theorem isDir_rename {d : Loc} (h : fs.rename a b = .ok fs') (hd : fs.isDir d = true) (ha : ¬ a <:+ d) (hb : b ≠ d) :
    fs'.isDir d = true := by
  have had : d ≠ a := fun e => ha (e ▸ List.suffix_refl d)
  obtain ⟨-, hw, -, -, hb0, ⟨-, rfl, -⟩ | ⟨i, hi, hab, hbd, rfl⟩ | ⟨-, hab, hba, hc, rfl⟩⟩ := rename_cases h
  · exact hd
  · have := node_moveFile hi hab (isDir_of_writable hw) hb0 hbd d
    rw [if_neg (Ne.symm hb), if_neg had] at this
    rw [isDir, this]
    exact hd
  · have hbs : ¬ b <:+ d := by
      rintro ⟨s, rfl⟩
      have hs : s ≠ [] := by rintro rfl; exact hb rfl
      have := node_below_empty hc hs
      simp [isDir, this] at hd
    have := node_moveTree hab hba hb0 hc (isDir_of_writable hw) d
    rw [swapTree_other ha hbs, if_neg (Ne.symm hb)] at this
    rw [isDir, this]
    exact hd

/-- A `rename` binds no free name but its target and what comes below it. -/
theorem free_rename {l : Loc} (h : fs.rename a b = .ok fs') (hl : fs.node l = none) (hb : l ≠ b)
    (hs : fs.isDir a = true → ¬ b <:+ a → fs.children b = [] → ¬ b <:+ l) : fs'.node l = none := by
  have hal : l ≠ a := fun e => rename_src h (e ▸ hl)
  obtain ⟨-, hw, -, -, hb0, ⟨-, rfl, -⟩ | ⟨i, hi, hab, hbd, rfl⟩ | ⟨had, hab, hba, hc, rfl⟩⟩ := rename_cases h
  · exact hl
  · rw [node_moveFile hi hab (isDir_of_writable hw) hb0 hbd, if_neg hb, if_neg hal, hl]
  · rw [node_moveTree hab hba hb0 hc (isDir_of_writable hw)]
    split
    · rfl
    by_cases ha : a <:+ l
    · obtain ⟨s, rfl⟩ := ha
      rw [swapTree_left]
      exact node_below_empty hc (by rintro rfl; exact hal rfl)
    · rw [swapTree_other ha (hs had hba hc), hl]

/-- After a `rename` to another name the old one is free. -/
theorem rename_frees (h : fs.rename a b = .ok fs') (hab : a ≠ b) : fs'.node a = none := by
  obtain ⟨-, hw, -, -, hb0, ⟨e, -⟩ | ⟨i, hi, -, hbd, rfl⟩ | ⟨-, hab', hba, hc, rfl⟩⟩ := rename_cases h
  · exact absurd e hab
  · rw [node_moveFile hi hab (isDir_of_writable hw) hb0 hbd, if_neg hab, if_pos rfl]
  · rw [node_moveTree hab' hba hb0 hc (isDir_of_writable hw), if_pos]
    simpa using swapTree_left (a := a) (b := b) []

/-- A `rename` touches no file, -/
theorem rename_frame (h : fs.rename a b = .ok fs') : fs'.inode = fs.inode ∧ fs'.next = fs.next ∧ fs'.cwd = fs.cwd := by
  obtain ⟨-, -, -, -, -, ⟨-, rfl, -⟩ | ⟨i, -, -, -, rfl⟩ | ⟨-, -, -, -, rfl⟩⟩ := rename_cases h <;> simp

theorem rename_cwd (h : fs.rename a b = .ok fs') : fs'.cwd = fs.cwd := (rename_frame h).2.2

/-- and no name that is neither at nor below one of its two. -/
theorem node_rename_frame {l : Loc} (h : fs.rename a b = .ok fs') (ha : ¬ a <:+ l) (hb : ¬ b <:+ l) :
    fs'.node l = fs.node l := by
  have hla : l ≠ a := fun e => ha (e ▸ List.suffix_refl l)
  have hlb : l ≠ b := fun e => hb (e ▸ List.suffix_refl l)
  obtain ⟨-, hw, -, -, hb0, ⟨-, rfl, -⟩ | ⟨i, hi, hab, hbd, rfl⟩ | ⟨-, hab, hba, hc, rfl⟩⟩ := rename_cases h
  · rfl
  · rw [node_moveFile hi hab (isDir_of_writable hw) hb0 hbd, if_neg hlb, if_neg hla]
  · rw [node_moveTree hab hba hb0 hc (isDir_of_writable hw), swapTree_other ha hb, if_neg hlb]

/-- The names after a rename of something with nothing below it. -/
theorem node_rename_leaf (h : fs.rename a b = .ok fs') (hab : a ≠ b) (hc : fs.children a = []) (l : Loc) :
    fs'.node l = if l = b then fs.node a else if l = a then none else fs.node l := by
  obtain ⟨-, hw, -, -, hb0, ⟨e, -⟩ | ⟨i, hi, -, hbd, rfl⟩ | ⟨-, hab', hba, hcb, rfl⟩⟩ := rename_cases h
  · exact absurd e hab
  · rw [node_moveFile hi hab (isDir_of_writable hw) hb0 hbd, hi]
  · rw [node_moveTree hab' hba hb0 hcb (isDir_of_writable hw)]
    by_cases hla : a <:+ l
    · obtain ⟨s, rfl⟩ := hla
      rw [swapTree_left]
      by_cases hs : s = []
      · subst hs
        rw [List.nil_append, List.nil_append, if_pos rfl, if_neg hab, if_pos rfl]
      · -- below either name there is nothing
        have ha : s ++ a ≠ a := by simpa using hs
        have hb : s ++ b ≠ b := by simpa using hs
        have hsb : s ++ a ≠ b := fun e => hab' (e ▸ List.suffix_append s a)
        rw [if_neg hb, if_neg hsb, if_neg ha, node_below_empty hcb hs, node_below_empty hc hs]
    · by_cases hlb : b <:+ l
      · obtain ⟨s, rfl⟩ := hlb
        rw [swapTree_right hab' hba]
        by_cases hs : s = []
        · subst hs
          rw [List.nil_append, List.nil_append, if_neg hab, if_pos rfl]
        · have hb : s ++ b ≠ b := by simpa using hs
          have hsa : s ++ b ≠ a := fun e => hba (e ▸ List.suffix_append s b)
          have hsb : s ++ a ≠ b := fun e => hab' (e ▸ List.suffix_append s a)
          rw [if_neg hb, if_neg hsa, if_neg hsb, node_below_empty hcb hs, node_below_empty hc hs]
      · have ha : l ≠ a := fun e => hla (e ▸ List.suffix_refl l)
        have hb : l ≠ b := fun e => hlb (e ▸ List.suffix_refl l)
        rw [swapTree_other hla hlb, if_neg hb, if_neg hb, if_neg ha]

/-- A rename puts at its target what was at its source. -/
theorem rename_target (h : fs.rename a b = .ok fs') : fs'.node b = fs.node a ∧ fs.node a ≠ none := by
  obtain ⟨-, hw, -, -, hb0, ⟨rfl, rfl, ha⟩ | ⟨i, hi, hab, hbd, rfl⟩ | ⟨hd, hab, hba, hc, rfl⟩⟩ := rename_cases h
  · exact ⟨rfl, ha⟩
  · rw [node_moveFile hi hab (isDir_of_writable hw) hb0 hbd, if_pos rfl, hi]
    exact ⟨rfl, by simp⟩
  · have hne : a ≠ b := fun e => hab (e ▸ List.suffix_refl a)
    have hb : swapTree a b b = a := swapTree_right hab hba []
    rw [node_moveTree hab hba hb0 hc (isDir_of_writable hw), hb, if_neg hne]
    obtain ⟨v, x, hv⟩ := isDir_iff.1 hd
    exact ⟨rfl, by simp [hv]⟩

/-- Within a writable directory a file can be renamed to any name that is no directory. -/
theorem rename_within {n m : Name} {d : Loc} {i : Ino} (hw : fs.writable d = true)
    (hn : fs.node (n :: d) = some (.file i))
    (hm : fs.isDir (m :: d) = false) : ∃ fs', fs.rename (n :: d) (m :: d) = .ok fs' := by
  obtain ⟨v, b, hd⟩ := isDir_iff.1 (isDir_of_writable hw)
  have hdev : fs.dev d = some v := by rw [dev, hd]
  rw [rename, if_neg (by simp)]
  simp only [List.tail_cons, hdev, hw, hn, ne_eq, not_true_eq_false, if_false, and_self]
  split
  · exact ⟨_, rfl⟩
  · rw [if_neg (by simp [hm])]
    exact ⟨_, rfl⟩

/-- Removing a name touches no file. -/
theorem unlink_frame (h : fs.unlink l = .ok fs') : fs'.inode = fs.inode ∧ fs'.next = fs.next ∧ fs'.cwd = fs.cwd := by
  obtain ⟨-, -, -, rfl⟩ := unlink_ok h
  simp

theorem rmdir_frame (h : fs.rmdir l = .ok fs') : fs'.inode = fs.inode ∧ fs'.next = fs.next ∧ fs'.cwd = fs.cwd := by
  obtain ⟨-, -, -, -, rfl⟩ := rmdir_ok h
  simp

end Calls

end FS

end OortAgent.Lib
