import OortAgent.MoveRun
import OortAgent.Pair

/-!
# Where the files of concurrent requests are

Requests for files in `uploads` run side by side. Each has a `Stage`: what it holds of its data file, and the
temporary directory it made. `Custody` says what that means for the tree: every data file is where it was or gone
from there, what a request parked is in its own directory, and what it copied is in a file of its own.

* `Custody.step`: a change of some names, with a new stage for the request that made it.
* `Custody.park`, `Custody.copy`, `Custody.write`, `Custody.undo` and so on: the steps of a retrieval.
-/

namespace OortAgent

open Lib

/-- What a request holds of its data file: nothing, the parked file, also a copy of some bytes of it at a location,
or the file is delivered. -/
inductive Hold
  | idle
  | parked
  | copying (c : Loc) (k : Ino) (b : Bytes)
  | done

/-- The file is parked. -/
def Hold.has : Hold → Bool
  | .parked => true
  | .copying _ _ _ => true
  | _ => false

/-- What a request holds, and the entry of its temporary directory. -/
structure Stage where
  hold : Hold := .idle
  tmp : Option Name := none

/-- An entry of `uploads`, in the working directory `H`. -/
def entry (H : Loc) (n : Name) : Loc := n :: "uploads".toList :: H

/-- The part of the tree that belongs to a request for the data file `n`. -/
structure Mine (fs₀ : FS) (H : Loc) (n : Name) (fs : FS) (s : Stage) : Prop where
  parked : s.hold.has = true → ∃ t k, s.tmp = some t ∧ fs₀.node (entry H n) = some (.file k) ∧
    fs.node (parkedEntry :: entry H t) = some (.file k)
  copy : ∀ c k b, s.hold = .copying c k b → fs.node c = some (.file k) ∧ fs₀.next ≤ k ∧ (fs.inode k).data = b ∧
    (fs.inode k).readable = true ∧ ¬ H <:+ c
  tmp : ∀ t, s.tmp = some t → fs.isDir (entry H t) = true ∧ '.' ∉ t

/-- The files of all requests; `x i` is the data file that request `i` asks for. -/
structure Custody {ι : Type} (fs₀ : FS) (H : Loc) (x : ι → Name) (fs : FS) (G : ι → Stage) : Prop where
  cwd : fs.cwd = fs₀.cwd
  next : fs₀.next ≤ fs.next
  old : ∀ k, k < fs₀.next → fs.inode k = fs₀.inode k
  data : ∀ i, fs.node (entry H (x i)) ≠ none → fs.node (entry H (x i)) = fs₀.node (entry H (x i))
  mine : ∀ i, Mine fs₀ H (x i) fs (G i)
  copies : ∀ i j c c' k b b', (G i).hold = .copying c k b → (G j).hold = .copying c' k b' → i = j
  tmps : ∀ i j t, (G i).tmp = some t → (G j).tmp = some t → i = j

/-- The locations in `S` are not those of a request in the stage `s`. -/
def Away (H : Loc) (S : Loc → Prop) (s : Stage) : Prop :=
  (∀ t, s.tmp = some t → ¬ S (entry H t) ∧ ¬ S (parkedEntry :: entry H t)) ∧
    ∀ c k b, s.hold = .copying c k b → ¬ S c

section Steps

variable {ι : Type} {fs₀ fs fs' : FS} {H : Loc} {x : ι → Name} {G : ι → Stage} {n : Name} {s : Stage} {S : Loc → Prop}

/-- A request keeps its files when others change other names. -/
theorem Mine.frame (h : Mine fs₀ H n fs s) (hino : ∀ k, k < fs.next → fs'.inode k = fs.inode k)
    (hS : ∀ l, ¬ S l → fs'.node l = fs.node l) (ha : Away H S s) : Mine fs₀ H n fs' s := by
  refine ⟨fun hp => ?_, fun c k b hc => ?_, fun t ht => ?_⟩
  · obtain ⟨t, k, ht, h₀, hk⟩ := h.parked hp
    exact ⟨t, k, ht, h₀, by rw [hS _ (ha.1 t ht).2, hk]⟩
  · obtain ⟨hn, h₀, hd, hr, ho⟩ := h.copy c k b hc
    rw [hS _ (ha.2 c k b hc), hino k (fs.bound c k hn)]
    exact ⟨hn, h₀, hd, hr, ho⟩
  · obtain ⟨hd, hdot⟩ := h.tmp t ht
    rw [FS.isDir, hS _ (ha.1 t ht).1]
    exact ⟨hd, hdot⟩

/-- The data files keep their contents: they are old files. -/
theorem Custody.content (h : Custody fs₀ H x fs G) {l : Loc} {k : Ino} (hk : fs₀.node l = some (.file k)) :
    fs.inode k = fs₀.inode k := h.old k (fs₀.bound l k hk)

/-- A step that changes the names in `S` and no file that is there. -/
theorem Custody.step [DecidableEq ι] {i : ι} {g : Stage} (h : Custody fs₀ H x fs G) (hcwd : fs'.cwd = fs.cwd)
    (hnext : fs.next ≤ fs'.next) (hino : ∀ k, k < fs.next → fs'.inode k = fs.inode k)
    (hS : ∀ l, ¬ S l → fs'.node l = fs.node l)
    (hdata : ∀ j, S (entry H (x j)) → fs'.node (entry H (x j)) ≠ none →
      fs'.node (entry H (x j)) = fs₀.node (entry H (x j)))
    (haway : ∀ j, j ≠ i → Away H S (G j)) (hown : Mine fs₀ H (x i) fs' g)
    (hcopies : ∀ j c c' k b b', g.hold = .copying c k b → (G j).hold = .copying c' k b' → i = j)
    (htmps : ∀ j t, g.tmp = some t → (G j).tmp = some t → i = j) :
    Custody fs₀ H x fs' (Function.update G i g) := by
  have hother : ∀ j, j ≠ i → Function.update G i g j = G j := fun j hj => Function.update_of_ne hj _ _
  have hself : Function.update G i g i = g := Function.update_self _ _ _
  refine ⟨hcwd.trans h.cwd, h.next.trans hnext, fun k hk => ?_, fun j hj => ?_, fun j => ?_, ?_, ?_⟩
  · rw [hino k (lt_of_lt_of_le hk h.next), h.old k hk]
  · by_cases hs : S (entry H (x j))
    · exact hdata j hs hj
    · rw [hS _ hs] at hj ⊢
      exact h.data j hj
  · by_cases hj : j = i
    · subst hj
      rw [hself]
      exact hown
    · rw [hother j hj]
      exact (h.mine j).frame hino hS (haway j hj)
  · intro j j' c c' k b b' hj hj'
    by_cases e : j = i <;> by_cases e' : j' = i
    · rw [e, e']
    · subst e
      rw [hself] at hj
      rw [hother _ e'] at hj'
      exact hcopies j' c c' k b b' hj hj'
    · subst e'
      rw [hself] at hj'
      rw [hother _ e] at hj
      exact (hcopies j c' c k b' b hj' hj).symm
    · rw [hother _ e] at hj
      rw [hother _ e'] at hj'
      exact h.copies j j' c c' k b b' hj hj'
  · intro j j' t hj hj'
    by_cases e : j = i <;> by_cases e' : j' = i
    · rw [e, e']
    · subst e
      rw [hself] at hj
      rw [hother _ e'] at hj'
      exact htmps j' t hj hj'
    · subst e'
      rw [hself] at hj'
      rw [hother _ e] at hj
      exact (htmps j t hj' hj).symm
    · rw [hother _ e] at hj
      rw [hother _ e'] at hj'
      exact h.tmps j j' t hj hj'

/-! ### Entries of `uploads` -/

theorem home_suffix_entry (n : Name) : H <:+ entry H n :=
  (List.suffix_cons _ _).trans (List.suffix_cons _ _)

theorem entry_inj {n m : Name} : entry H n = entry H m ↔ n = m := by
  simp [entry]

theorem parked_inj {n m : Name} : parkedEntry :: entry H n = parkedEntry :: entry H m ↔ n = m := by
  simp [entry]

theorem parked_ne_entry {n m : Name} : parkedEntry :: entry H m ≠ entry H n := by
  intro e
  have := congrArg List.length e
  simp [entry] at this

/-- A location outside the working directory is no entry, -/
theorem entry_ne {c : Loc} (h : ¬ H <:+ c) (n : Name) : c ≠ entry H n := by
  rintro rfl
  exact h (home_suffix_entry n)

/-- and nothing below one. -/
theorem parked_ne {c : Loc} (h : ¬ H <:+ c) (n : Name) : c ≠ parkedEntry :: entry H n := by
  rintro rfl
  exact h ((home_suffix_entry n).trans (List.suffix_cons _ _))

theorem suffix_entry {n m : Name} : entry H n <:+ entry H m ↔ n = m := by
  constructor
  · intro h
    exact entry_inj.1 (h.eq_of_length rfl)
  · rintro rfl
    exact List.suffix_refl _

theorem suffix_parked {n m : Name} : entry H n <:+ parkedEntry :: entry H m ↔ n = m := by
  rw [List.suffix_cons_iff, suffix_entry]
  exact or_iff_right (Ne.symm parked_ne_entry)

theorem dead_not_suffix_entry (n m : Name) : ¬ n :: "dead".toList :: H <:+ entry H m := by
  intro h
  have := h.eq_of_length rfl
  simp [entry] at this

theorem dead_not_suffix_parked (n m : Name) : ¬ n :: "dead".toList :: H <:+ parkedEntry :: entry H m := by
  rw [List.suffix_cons_iff]
  rintro (e | h)
  · have := congrArg List.length e
    simp [entry] at this
  · exact dead_not_suffix_entry n m h

/-- A file of a pair is an entry of `uploads`, if the id has no slash. -/
theorem norm_entry {env : Env} {cwd : Loc} {id ext : Str} (hid : '/' ∉ id) (hx : IsExt ext) :
    norm cwd (env.uploadDir ++ '/' :: (id ++ ext)) = entry (env.home cwd) (id ++ ext) := by
  rw [norm_child uploadDir_ne_nil (hx.plain hid), norm_uploadDir, entry]

theorem IsExt.dot {ext : Str} (hx : IsExt ext) (id : Str) : '.' ∈ id ++ ext := by
  refine List.mem_append.2 (.inr ?_)
  rcases hx with rfl | rfl <;> decide

theorem picked_dot {pick : Str} (hp : FS.Pick pick) : '.' ∉ "file_move_".toList ++ pick := by
  intro h
  rcases List.mem_append.1 h with hm | hm
  · revert hm
    decide
  · have := List.all_eq_true.1 hp.2 _ hm
    revert this
    decide

/-! ### The place of a copy -/

/-- The directory that a path is in, as the part of it before the last slash says. -/
def parentLoc (cwd : Loc) (p : Str) : Loc := if dirname p = [] then [] else norm cwd (dirname p)

theorem norm_parent_child {cwd : Loc} {p : Str} {m : Name} (hm : Plain m) :
    norm cwd (dirname p ++ '/' :: m) = m :: parentLoc cwd p := by
  unfold parentLoc
  split
  · rename_i hd
    rw [hd, List.nil_append, norm_root_child hm]
  · rename_i hd
    exact norm_child hd hm

theorem norm_of_parent {cwd : Loc} {p : Str} (hs : '/' ∈ p) : norm cwd p = enter (parentLoc cwd p) (tailname p) := by
  have hp := dirname_tailname hs
  have ht := comps_plain (slash_notMem_tailname p)
  unfold parentLoc
  split
  · rename_i hd
    conv_lhs => rw [hp, hd, List.nil_append, Lib.norm]
    have hc : comps ('/' :: tailname p) = [[], tailname p] := by
      rw [comps, if_pos rfl, ht]
    rw [hc]
    simp [start, walk, enter]
  · rename_i hd
    conv_lhs => rw [hp, Lib.norm, start_append hd, comps_append, walk_append, ht]
    rfl

/-- The parent of a name that a path leads to is a directory. -/
theorem isDir_parent {p : Str} {m : Name} {l : Loc} (hm : Plain m) (h : fs.resolve (dirname p ++ '/' :: m) = .ok l) :
    fs.isDir (parentLoc fs.cwd p) = true := by
  unfold parentLoc
  split
  · exact FS.isDir_iff.2 fs.root
  · rename_i hd
    exact (FS.isDir_of_resolve_child hd hm h).2

/-- A copy beside a save path outside the working directory is outside of it too. -/
theorem copy_outside {p q pick : Str} {now : Int} {j : Ino} (hs : '/' ∈ p) (hL : ¬ H <:+ norm fs.cwd p)
    (hplain : fs.isDir (norm fs.cwd p) = false) (hH : fs.isDir H = true)
    (hm : fs.mkstemp (moveTemplate (dirname p)) pick now = some (.ok ((q, j), fs'))) : ¬ H <:+ norm fs.cwd q := by
  obtain ⟨hpick, rfl, -, hres, hfree, -⟩ := FS.mkstemp_ok hm
  rw [fromTemplate_moveTemplate] at hres hfree ⊢
  have hdir := isDir_parent (picked_plain hpick) hres
  rw [norm_parent_child (picked_plain hpick)] at hfree ⊢
  rw [norm_of_parent hs] at hL hplain
  intro h
  rcases List.suffix_cons_iff.1 h with e | h
  · -- the working directory is there, the copy was not
    rw [e, FS.isDir, hfree] at hH
    cases hH
  -- the save path is an entry of the same directory, for otherwise it would be a directory
  unfold enter at hL hplain
  split at hL
  · rename_i ht
    rw [if_pos ht, hdir] at hplain
    cases hplain
  split at hL
  · rename_i ht ht'
    rw [if_neg ht, if_pos ht'] at hplain
    cases hp : parentLoc fs.cwd p with
    | nil =>
      rw [hp] at hplain hdir
      rw [List.tail_nil, hdir] at hplain
      cases hplain
    | cons m d =>
      obtain ⟨v, b, hv⟩ := FS.isDir_iff.1 hdir
      rw [hp] at hv hplain
      have hne : fs.node (m :: d) ≠ none := by
        rw [hv]
        simp
      have := FS.isDir_of_child hne
      rw [List.tail_cons, this] at hplain
      cases hplain
  · exact hL (h.trans (List.suffix_cons _ _))

/-! ### Steps that leave every request as it is -/

/-- The names that a request can take away with a file of a pair. -/
def Taken (H : Loc) (n : Name) (l : Loc) : Prop := entry H n <:+ l ∨ n :: "dead".toList :: H <:+ l

theorem Mine.away_taken (h : Mine fs₀ H n fs s) {m : Name} (hm : '.' ∈ m) : Away H (Taken H m) s := by
  refine ⟨fun t ht => ?_, fun c k b hc => ?_⟩
  · have hne : m ≠ t := by
      rintro rfl
      exact (h.tmp m ht).2 hm
    exact ⟨not_or.2 ⟨mt suffix_entry.1 hne, dead_not_suffix_entry _ _⟩,
      not_or.2 ⟨mt suffix_parked.1 hne, dead_not_suffix_parked _ _⟩⟩
  · have hout := (h.copy c k b hc).2.2.2.2
    rintro (hs | hs)
    · exact hout ((home_suffix_entry m).trans hs)
    · exact hout (((List.suffix_cons _ _).trans (List.suffix_cons _ _)).trans hs)

/-- A file of a pair is taken out of `uploads`. -/
theorem Custody.taken (h : Custody fs₀ H x fs G) {m : Name} (hm : '.' ∈ m) (hcwd : fs'.cwd = fs.cwd)
    (hnext : fs'.next = fs.next) (hino : fs'.inode = fs.inode) (hS : ∀ l, ¬ Taken H m l → fs'.node l = fs.node l)
    (hfree : fs'.node (entry H m) = none) : Custody fs₀ H x fs' G := by
  refine ⟨hcwd.trans h.cwd, hnext ▸ h.next, fun k hk => by rw [hino, h.old k hk], fun j hj => ?_,
    fun j => (h.mine j).frame (fun k _ => by rw [hino]) hS ((h.mine j).away_taken hm), h.copies, h.tmps⟩
  by_cases e : m = x j
  · subst e
    exact absurd hfree hj
  · rw [hS _ (not_or.2 ⟨mt suffix_entry.1 e, dead_not_suffix_entry _ _⟩)] at hj ⊢
    exact h.data j hj

/-- A file of a pair goes to the dead-letter directory. -/
theorem Custody.quarantine (h : Custody fs₀ H x fs G) {m : Name} (hm : '.' ∈ m)
    (hr : fs.rename (entry H m) (m :: "dead".toList :: H) = .ok fs') : Custody fs₀ H x fs' G := by
  obtain ⟨hino, hnext, hcwd⟩ := FS.rename_frame hr
  refine h.taken hm hcwd hnext hino (fun l hl => FS.node_rename_frame hr (fun hs => hl (.inl hs)) fun hs =>
    hl (.inr hs))
    (FS.rename_frees hr ?_)
  simp [entry]

/-- A file of a pair is removed. -/
theorem Custody.remove (h : Custody fs₀ H x fs G) {m : Name} (hm : '.' ∈ m) (hr : fs.unlink (entry H m) = .ok fs') :
    Custody fs₀ H x fs' G := by
  obtain ⟨hino, hnext, hcwd⟩ := FS.unlink_frame hr
  have hn := FS.node_unlink hr
  refine h.taken hm hcwd hnext hino (fun l hl => ?_) (by rw [hn, if_pos rfl])
  rw [hn, if_neg]
  rintro rfl
  exact hl (.inl (List.suffix_refl _))

/-! ### Steps of a retrieval -/

/-- The names that a request changes in `uploads`. -/
def Own (H : Loc) (n t : Name) (l : Loc) : Prop := l = entry H n ∨ l = entry H t ∨ l = parkedEntry :: entry H t

theorem Custody.away_own (h : Custody fs₀ H x fs G) {i j : ι} {t : Name} (hx : '.' ∈ x i) (ht : (G i).tmp = some t)
    (hj : j ≠ i) : Away H (Own H (x i) t) (G j) := by
  refine ⟨fun t' ht' => ?_, fun c k b hc => ?_⟩
  · have hxt : t' ≠ x i := by
      rintro rfl
      exact ((h.mine j).tmp _ ht').2 hx
    have htt : t' ≠ t := by
      rintro rfl
      exact hj (h.tmps j i t' ht' ht)
    exact ⟨not_or.2 ⟨mt entry_inj.1 hxt, not_or.2 ⟨mt entry_inj.1 htt, Ne.symm parked_ne_entry⟩⟩,
      not_or.2 ⟨parked_ne_entry, not_or.2 ⟨parked_ne_entry, mt parked_inj.1 htt⟩⟩⟩
  · have hout := ((h.mine j).copy c k b hc).2.2.2.2
    exact not_or.2 ⟨entry_ne hout _, not_or.2 ⟨entry_ne hout _, parked_ne hout _⟩⟩

variable [DecidableEq ι] {i : ι} {t : Name}

/-- A request gives up some of what it has. -/
theorem Custody.drop (h : Custody fs₀ H x fs G) {g : Stage} (hh : g.hold.has = false)
    (ht : ∀ t, g.tmp = some t → (G i).tmp = some t) : Custody fs₀ H x fs (Function.update G i g) := by
  refine h.step (S := fun _ => False) rfl le_rfl (fun _ _ => rfl) (fun _ _ => rfl) (fun _ hf => hf.elim)
    (fun j _ => ⟨fun _ _ => ⟨id, id⟩, fun _ _ _ _ => id⟩) ⟨fun hp => ?_, fun c k b hc => ?_, fun t hg => ?_⟩
    (fun j c c' k b b' hc => ?_) (fun j t hg hj => h.tmps i j t (ht t hg) hj)
  · rw [hh] at hp
    cases hp
  · rw [hc] at hh
    cases hh
  · exact (h.mine i).tmp t (ht t hg)
  · rw [hc] at hh
    cases hh

/-- A temporary directory is made. -/
theorem Custody.mkdtemp (h : Custody fs₀ H x fs G) (hx : ∀ j, '.' ∈ x j) {v : Nat} (ht : '.' ∉ t)
    (hfree : fs.node (entry H t) = none)
    (hn : ∀ l, fs'.node l = if l = entry H t then some (.dir v true) else fs.node l) (hino : fs'.inode = fs.inode)
    (hnext : fs'.next = fs.next) (hcwd : fs'.cwd = fs.cwd) :
    Custody fs₀ H x fs' (Function.update G i ⟨.idle, some t⟩) := by
  refine h.step (S := fun l => l = entry H t) hcwd hnext.ge (fun k _ => by rw [hino])
    (fun l hl => by rw [hn, if_neg hl])
    (fun j hj => ?_) (fun j _ => ⟨fun t' ht' => ⟨?_, parked_ne_entry⟩, fun c k b hc => ?_⟩)
    ⟨fun hp => (by cases hp), fun c k b hc => (by cases hc), fun t' ht' => ?_⟩ (fun j c c' k b b' hc => by cases hc)
    fun j t' ht' hj => ?_
  · have := hx j
    rw [entry_inj.1 hj] at this
    exact absurd this ht
  · rintro e
    have := ((h.mine j).tmp t' ht').1
    rw [e, FS.isDir, hfree] at this
    cases this
  · exact entry_ne ((h.mine j).copy c k b hc).2.2.2.2 _
  · cases ht'
    exact ⟨by rw [FS.isDir, hn, if_pos rfl], ht⟩
  · cases ht'
    have := ((h.mine j).tmp t hj).1
    rw [FS.isDir, hfree] at this
    cases this

/-- The data file is parked. -/
theorem Custody.park (h : Custody fs₀ H x fs G) (hx : ∀ j, '.' ∈ x j) (ht : (G i).tmp = some t) {k : Ino}
    (hk : fs₀.node (entry H (x i)) = some (.file k))
    (hr : fs.rename (entry H (x i)) (parkedEntry :: entry H t) = .ok fs') :
    Custody fs₀ H x fs' (Function.update G i ⟨.parked, some t⟩) := by
  obtain ⟨hd, hdot⟩ := (h.mine i).tmp t ht
  have hsrc : fs.node (entry H (x i)) = some (.file k) := by rw [h.data i (FS.rename_src hr), hk]
  obtain ⟨hn, hino, hnext, hcwd⟩ := FS.rename_file hr hsrc
  refine h.step (S := Own H (x i) t) hcwd hnext.ge (fun k _ => by rw [hino]) (fun l hl => ?_) (fun j hj => ?_)
    (fun j hj => h.away_own (hx i) ht hj) ⟨fun _ => ⟨t, k, rfl, hk, ?_⟩, fun c k b hc => (by cases hc),
      fun t' ht' => ?_⟩
    (fun j c c' k b b' hc => by cases hc) fun j t' ht' hj => h.tmps i j t' (by cases ht'; exact ht) hj
  · obtain ⟨h₁, -, h₃⟩ := not_or.1 hl |>.imp_right not_or.1
    rw [hn, if_neg h₃, if_neg h₁]
  · rcases hj with e | e | e
    · rw [e, hn, if_neg (Ne.symm parked_ne_entry), if_pos rfl]
      exact fun h => absurd rfl h
    · have := hx j
      rw [entry_inj.1 e] at this
      exact absurd this hdot
    · exact absurd e.symm parked_ne_entry
  · rw [hn, if_pos rfl]
  · cases ht'
    refine ⟨?_, hdot⟩
    rw [FS.isDir, hn, if_neg (Ne.symm parked_ne_entry), if_neg]
    · exact hd
    · intro e
      have := hx i
      rw [← entry_inj.1 e] at this
      exact hdot this

/-- The parked file is put back. -/
theorem Custody.undo (h : Custody fs₀ H x fs G) (hx : ∀ j, '.' ∈ x j) (hp : (G i).hold.has = true)
    (ht : (G i).tmp = some t) (hr : fs.rename (parkedEntry :: entry H t) (entry H (x i)) = .ok fs') :
    Custody fs₀ H x fs' (Function.update G i ⟨.idle, some t⟩) ∧
      fs'.node (entry H (x i)) = fs₀.node (entry H (x i)) := by
  obtain ⟨hd, hdot⟩ := (h.mine i).tmp t ht
  obtain ⟨t', k, ht', hk, hpk⟩ := (h.mine i).parked hp
  rw [ht] at ht'
  cases ht'
  obtain ⟨hn, hino, hnext, hcwd⟩ := FS.rename_file hr hpk
  have hback : fs'.node (entry H (x i)) = fs₀.node (entry H (x i)) := by rw [hn, if_pos rfl, hk]
  refine ⟨h.step (S := Own H (x i) t) hcwd hnext.ge (fun k _ => by rw [hino]) (fun l hl => ?_) (fun j hj => ?_)
    (fun j hj => h.away_own (hx i) ht hj)
    ⟨fun hp => (by cases hp), fun c k b hc => (by cases hc), fun t' ht' => ?_⟩
    (fun j c c' k b b' hc => by cases hc) (fun j t' ht' hj => h.tmps i j t' (by cases ht'; exact ht) hj), hback⟩
  · obtain ⟨h₁, -, h₃⟩ := not_or.1 hl |>.imp_right not_or.1
    rw [hn, if_neg h₁, if_neg h₃]
  · intro _
    rcases hj with e | e | e
    · rw [e, hback]
    · have := hx j
      rw [entry_inj.1 e] at this
      exact absurd this hdot
    · exact absurd e.symm parked_ne_entry
  · cases ht'
    refine ⟨?_, hdot⟩
    rw [FS.isDir, hn, if_neg, if_neg (Ne.symm parked_ne_entry)]
    · exact hd
    · intro e
      have := hx i
      rw [← entry_inj.1 e] at this
      exact hdot this

/-- The parked file is removed, or the temporary directory. -/
theorem Custody.clear (h : Custody fs₀ H x fs G) (hx : ∀ j, '.' ∈ x j) (hp : (G i).hold.has = false)
    (ht : (G i).tmp = some t) {l : Loc} (hl : l = entry H t ∨ l = parkedEntry :: entry H t)
    (hn : ∀ m, fs'.node m = if m = l then none else fs.node m) (hino : fs'.inode = fs.inode)
    (hnext : fs'.next = fs.next) (hcwd : fs'.cwd = fs.cwd) {o : Option Name}
    (ho : o = none ∨ (o = some t ∧ l ≠ entry H t)) :
    Custody fs₀ H x fs' (Function.update G i ⟨(G i).hold, o⟩) := by
  obtain ⟨hd, hdot⟩ := (h.mine i).tmp t ht
  have hcopy : ∀ c k b, (G i).hold ≠ .copying c k b := fun c k b hc => by
    rw [hc] at hp
    cases hp
  refine h.step (S := Own H (x i) t) hcwd hnext.ge (fun k _ => by rw [hino]) (fun m hm => ?_) (fun j hj => ?_)
    (fun j hj => h.away_own (hx i) ht hj) ⟨fun h' => ?_, fun c k b hc => absurd hc (hcopy c k b), fun t' ht' => ?_⟩
    (fun j c c' k b b' hc => absurd hc (hcopy c k b)) fun j t' ht' hj => ?_
  · obtain ⟨-, h₂, h₃⟩ := not_or.1 hm |>.imp_right not_or.1
    rw [hn, if_neg]
    rintro rfl
    rcases hl with e | e
    · exact h₂ e
    · exact h₃ e
  · rw [hn]
    split
    · exact fun h => absurd rfl h
    · exact fun h' => h.data j h'
  · rw [hp] at h'
    cases h'
  · rcases ho with rfl | ⟨rfl, hne⟩
    · cases ht'
    · cases ht'
      rw [FS.isDir, hn, if_neg (Ne.symm hne)]
      exact ⟨hd, hdot⟩
  · rcases ho with rfl | ⟨rfl, -⟩
    · cases ht'
    · cases ht'
      exact h.tmps i j t ht hj

/-- A copy is begun. -/
theorem Custody.copy (h : Custody fs₀ H x fs G) (hp : (G i).hold = .parked) {c : Loc} {y : Inode}
    (hc : ¬ H <:+ c) (ha : Added fs fs' c y) (hy : y.data = []) (hr : y.readable = true)
    (hnext : fs'.next = fs.next + 1) :
    Custody fs₀ H x fs' (Function.update G i ⟨.copying c fs.next [], (G i).tmp⟩) := by
  have hino : ∀ k, k < fs.next → fs'.inode k = fs.inode k := fun k hk => by
    rw [ha.inode, Function.update_of_ne (Nat.ne_of_lt hk)]
  have hnode : ∀ l, ¬ l = c → fs'.node l = fs.node l := fun l hl => by rw [ha.node, if_neg hl]
  -- a copy is outside the working directory, where everything else is, and new
  have haway : ∀ j, Away H (fun l => l = c) (G j) := by
    refine fun j => ⟨fun t _ => ⟨fun e => hc (e ▸ home_suffix_entry t), fun e => ?_⟩, fun c' k b hj e => ?_⟩
    · exact hc (e ▸ (home_suffix_entry t).trans (List.suffix_cons _ _))
    · have := ((h.mine j).copy c' k b hj).1
      rw [e, ha.free] at this
      cases this
  have hown := (h.mine i).frame hino hnode (haway i)
  refine h.step (S := fun l => l = c) ha.cwd (hnext ▸ Nat.le_succ _) hino hnode
    (fun j hj => absurd hj.symm (entry_ne hc _))
    (fun j _ => haway j) ⟨fun _ => hown.parked (by rw [hp]; rfl), fun c' k b hk => ?_, hown.tmp⟩
    (fun j c₁ c₂ k b b' hk hj => ?_) fun j t ht hj => h.tmps i j t ht hj
  · cases hk
    rw [ha.node, if_pos rfl, ha.inode, Function.update_self]
    exact ⟨rfl, h.next, hy, hr, hc⟩
  · cases hk
    exact absurd (fs.bound _ _ ((h.mine j).copy c₂ _ b' hj).1) (Nat.lt_irrefl _)

/-- Bytes are added to a copy. -/
theorem Custody.write (h : Custody fs₀ H x fs G) {c : Loc} {k : Ino} {b b' : Bytes} {now : Int}
    (hp : (G i).hold = .copying c k b) :
    Custody fs₀ H x (fs.append k b' now) (Function.update G i ⟨.copying c k (b ++ b'), (G i).tmp⟩) := by
  obtain ⟨hn, h₀, hd, hr, hout⟩ := (h.mine i).copy c k b hp
  have hino : ∀ k', k' ≠ k → (fs.append k b' now).inode k' = fs.inode k' := fun k' hk => by
    rw [FS.append, FS.inode_setInode, Function.update_of_ne hk]
  have hother : ∀ j, j ≠ i → Function.update G i ⟨.copying c k (b ++ b'), (G i).tmp⟩ j = G j := fun j hj =>
    Function.update_of_ne hj _ _
  refine ⟨h.cwd, h.next, fun k' hk' => ?_, h.data, fun j => ?_, fun j j' c₁ c₂ k' b₁ b₂ hj hj' => ?_,
    fun j j' t hj hj' => ?_⟩
  · rw [hino k' (Nat.ne_of_lt (lt_of_lt_of_le hk' h₀)), h.old k' hk']
  · by_cases hj : j = i
    · subst hj
      rw [Function.update_self]
      refine ⟨fun _ => (h.mine j).parked (by rw [hp]; rfl), fun c' k' b'' hk => ?_, (h.mine j).tmp⟩
      cases hk
      refine ⟨hn, h₀, ?_, ?_, hout⟩
      · rw [FS.append, FS.inode_setInode, Function.update_self, hd]
      · rw [FS.append, FS.inode_setInode, Function.update_self, hr]
    · rw [hother j hj]
      refine ⟨(h.mine j).parked, fun c' k' b'' hk => ?_, (h.mine j).tmp⟩
      have hne : k' ≠ k := by
        rintro rfl
        exact hj (h.copies j i c' c k' b'' b hk hp)
      rw [hino k' hne]
      exact (h.mine j).copy c' k' b'' hk
  · have key : ∀ m c' b'', (Function.update G i ⟨.copying c k (b ++ b'), (G i).tmp⟩ m).hold = .copying c' k' b'' →
        ∃ b₃ c₃, (G m).hold = .copying c₃ k' b₃ := by
      intro m c' b'' hm
      by_cases e : m = i
      · subst e
        rw [Function.update_self] at hm
        cases hm
        exact ⟨b, c, hp⟩
      · rw [hother m e] at hm
        exact ⟨_, _, hm⟩
    obtain ⟨b₃, c₃, h₃⟩ := key j c₁ b₁ hj
    obtain ⟨b₄, c₄, h₄⟩ := key j' c₂ b₂ hj'
    exact h.copies j j' c₃ c₄ k' b₃ b₄ h₃ h₄
  · have key : ∀ m, (Function.update G i ⟨.copying c k (b ++ b'), (G i).tmp⟩ m).tmp = (G m).tmp := by
      intro m
      by_cases e : m = i
      · subst e
        rw [Function.update_self]
      · rw [hother m e]
    rw [key] at hj hj'
    exact h.tmps j j' t hj hj'

/-- The data file is renamed to the save path `L`. -/
theorem Custody.deliver (h : Custody fs₀ H x fs G) (hx : ∀ j, '.' ∈ x j) {L : Loc} (hL : ¬ H <:+ L) {k : Ino}
    (hk : fs₀.node (entry H (x i)) = some (.file k))
    (hfree : ∀ j c k b, (G j).hold = .copying c k b → c ≠ L) (hr : fs.rename (entry H (x i)) L = .ok fs') :
    Custody fs₀ H x fs' (Function.update G i ⟨.done, none⟩) ∧ fs'.node L = some (.file k) := by
  have hsrc : fs.node (entry H (x i)) = some (.file k) := by rw [h.data i (FS.rename_src hr), hk]
  obtain ⟨hn, hino, hnext, hcwd⟩ := FS.rename_file hr hsrc
  refine ⟨h.step (S := fun l => l = entry H (x i) ∨ l = L) hcwd hnext.ge (fun k _ => by rw [hino]) (fun l hl => ?_)
    (fun j hj => ?_) (fun j _ => ⟨fun t ht => ⟨not_or.2 ⟨?_, ?_⟩, not_or.2 ⟨parked_ne_entry, ?_⟩⟩, fun c k b hc => ?_⟩)
    ⟨fun hp => (by cases hp), fun c k b hc => (by cases hc), fun t' ht' => (by cases ht')⟩
    (fun j c c' k b b' hc => by cases hc) (fun j t' ht' => by cases ht'), by rw [hn, if_pos rfl]⟩
  · rw [hn, if_neg (not_or.1 hl).2, if_neg (not_or.1 hl).1]
  · rcases hj with e | e
    · rw [e, hn, if_neg (Ne.symm (entry_ne hL _)), if_pos rfl]
      exact fun h => absurd rfl h
    · exact absurd e.symm (entry_ne hL _)
  · intro e
    have := ((h.mine j).tmp t ht).2
    rw [entry_inj.1 e] at this
    exact this (hx i)
  · exact Ne.symm (entry_ne hL t)
  · exact Ne.symm (parked_ne hL t)
  · exact not_or.2 ⟨entry_ne ((h.mine j).copy c k b hc).2.2.2.2 _, hfree j c k b hc⟩

/-- A copy is renamed to the save path `L`. -/
theorem Custody.publish (h : Custody fs₀ H x fs G) {L c : Loc} (hL : ¬ H <:+ L) {k : Ino} {b : Bytes}
    (hp : (G i).hold = .copying c k b) (hfree : ∀ j c k b, j ≠ i → (G j).hold = .copying c k b → c ≠ L)
    (hr : fs.rename c L = .ok fs') :
    Custody fs₀ H x fs' (Function.update G i ⟨.done, (G i).tmp⟩) ∧ fs'.node L = some (.file k) ∧
      fs'.inode = fs.inode := by
  obtain ⟨hc, -, -, -, hout⟩ := (h.mine i).copy c k b hp
  obtain ⟨hn, hino, hnext, hcwd⟩ := FS.rename_file hr hc
  have hout' : ∀ l, H <:+ l → fs'.node l = fs.node l := fun l hl => by
    have h₁ : l ≠ L := fun e => hL (e ▸ hl)
    have h₂ : l ≠ c := fun e => hout (e ▸ hl)
    rw [hn, if_neg h₁, if_neg h₂]
  refine ⟨h.step (S := fun l => l = c ∨ l = L) hcwd hnext.ge (fun k _ => by rw [hino]) (fun l hl => ?_) (fun j hj => ?_)
    (fun j hj => ⟨fun t ht => ⟨?_, ?_⟩, fun c' k' b' hc' => not_or.2 ⟨?_, hfree j c' k' b' hj hc'⟩⟩)
    ⟨fun hp => (by cases hp), fun c k b hc => (by cases hc), fun t' ht' => ?_⟩
    (fun j c c' k b b' hc => by cases hc) (fun j t' ht' hj => h.tmps i j t' ht' hj), by rw [hn, if_pos rfl], hino⟩
  · rw [hn, if_neg (not_or.1 hl).2, if_neg (not_or.1 hl).1]
  · rcases hj with e | e
    · exact absurd e.symm (entry_ne hout _)
    · exact absurd e.symm (entry_ne hL _)
  · exact not_or.2 ⟨Ne.symm (entry_ne hout t), Ne.symm (entry_ne hL t)⟩
  · exact not_or.2 ⟨Ne.symm (parked_ne hout t), Ne.symm (parked_ne hL t)⟩
  · rintro rfl
    have hk := ((h.mine j).copy c' k' b' hc').1
    rw [hc] at hk
    cases hk
    exact hj (h.copies j i c' c' k b' b hc' hp)
  · obtain ⟨hd, hdot⟩ := (h.mine i).tmp t' ht'
    rw [FS.isDir, hout' _ (home_suffix_entry t')]
    exact ⟨hd, hdot⟩

end Steps

end OortAgent
