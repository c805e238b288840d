import OortAgent.Cleanup
import OortAgent.Ownership
import OortAgent.Quarantine
import OortAgent.SendRule

/-!
# The temporary files of moves

A move across devices makes a temporary directory beside its source and a temporary file beside its destination.
Those that are in a working directory of the agent stay there if they are not removed by the move itself: a cleanup
does not know their names.

- `Reclaims`: a step does not leave one behind;
- `follows_moves`, `follows_sends`, `follows_retrieves`: a request whose steps do not has none at its end;
- `temporaries_reclaimed`: any number of requests, in any interleaving, and a cleanup after them.
-/

namespace OortAgent

open Lib

/-! ## Temporary names -/

/-- The names of the working directories. -/
def boxNames : List Name := ["transfers".toList, "uploads".toList, "upgrades".toList, "dead".toList]

/-- The location is an entry of a working directory. -/
def Env.InBox (env : Env) (cwd l : Loc) : Prop := ∃ d ∈ env.allDirs, ∃ n, l = n :: norm cwd d

theorem inBox_iff {env : Env} {cwd l : Loc} : env.InBox cwd l ↔ ∃ x ∈ boxNames, ∃ n, l = n :: x :: env.home cwd := by
  unfold Env.InBox Env.allDirs boxNames
  simp only [List.mem_cons, List.not_mem_nil, or_false, exists_eq_or_imp, exists_eq_left, norm_transferDir,
    norm_uploadDir,
    norm_deadletterDir, norm_upgradeDir]

instance (env : Env) (cwd l : Loc) : Decidable (env.InBox cwd l) :=
  decidable_of_iff (∃ x ∈ boxNames, l.tail = x :: env.home cwd ∧ l ≠ []) (by
    rw [inBox_iff]
    refine exists_congr fun x => and_congr_right fun _ => ⟨fun h => ?_, ?_⟩
    · obtain ⟨n, d, rfl⟩ := List.exists_cons_of_ne_nil h.2
      exact ⟨n, by rw [← h.1, List.tail_cons]⟩
    · rintro ⟨n, rfl⟩
      exact ⟨rfl, by simp⟩)

/-- The location of a path, if it is in a working directory. -/
def Env.ours (env : Env) (cwd : Loc) (p : Str) : Option Loc :=
  if env.InBox cwd (norm cwd p) then some (norm cwd p) else none

theorem ours_eq_some {env : Env} {cwd l : Loc} {p : Str} : env.ours cwd p = some l ↔ l = norm cwd p ∧
    env.InBox cwd l := by
  unfold Env.ours
  split
  · rename_i h
    exact ⟨fun he => ⟨(Option.some.inj he).symm, Option.some.inj he ▸ h⟩, fun he => by rw [he.1]⟩
  · rename_i h
    exact ⟨fun he => (by cases he), fun he => absurd (he.1 ▸ he.2) h⟩

/-- A name that `mkstemp` or `mkdtemp` picks for a move. -/
def TempName (n : Name) : Prop := ∃ pick, FS.Pick pick ∧ n = "file_move_".toList ++ pick

/-- Such a name in a working directory, where `H` has these. -/
def Temp (H l : Loc) : Prop := ∃ n, ∃ x ∈ boxNames, TempName n ∧ l = n :: x :: H

/-- The location is the working directory, one of the four directories in it, or a temporary name in one of these. -/
def Reserved (H b : Loc) : Prop := b = H ∨ (∃ x ∈ boxNames, b = x :: H) ∨ Temp H b

section Names

variable {H b T : Loc} {n x : Name}

theorem mem_boxNames (h : x ∈ boxNames) : x = "transfers".toList ∨ x = "uploads".toList ∨ x = "upgrades".toList ∨
    x = "dead".toList := by
  simpa [boxNames] using h

theorem TempName.ne_box (h : TempName n) (hx : x ∈ boxNames) : n ≠ x := by
  obtain ⟨pick, -, rfl⟩ := h
  rcases mem_boxNames hx with rfl | rfl | rfl | rfl <;> simp

theorem TempName.ne_ext {t ext : Str} (h : TempName n) (hx : IsExt ext) : t ++ ext ≠ n := by
  obtain ⟨pick, hp, rfl⟩ := h
  exact (picked_ne_ext hp hx).symm

theorem exists_temp (H : Loc) : ∃ l, Temp H l :=
  ⟨_, _, "dead".toList, by simp [boxNames], ⟨"aaaaaa".toList, by decide, rfl⟩, rfl⟩

theorem Temp.below {l : Loc} (h : Temp H l) : H <:+ l := by
  obtain ⟨n, x, -, -, rfl⟩ := h
  exact (List.suffix_cons _ _).trans (List.suffix_cons _ _)

/-- A temporary name that is in a working directory. -/
theorem temp_of_inBox {env : Env} {cwd d : Loc} (hn : TempName n) (h : env.InBox cwd (n :: d)) :
    Temp (env.home cwd) (n :: d) := by
  obtain ⟨x, hx, m, hm⟩ := inBox_iff.1 h
  rw [(List.cons.inj hm).2]
  exact ⟨n, x, hx, hn, rfl⟩

/-- What is above a temporary name, but not reserved, is above the working directory. -/
theorem above_home {l : Loc} (hb : ¬ Reserved H b) (hl : Temp H l) (h : b <:+ l) : b <:+ H := by
  have hl' := hl
  obtain ⟨n, x, hx, -, rfl⟩ := hl'
  rcases List.suffix_cons_iff.1 h with rfl | h
  · exact absurd (.inr (.inr hl)) hb
  rcases List.suffix_cons_iff.1 h with rfl | h
  · exact absurd (.inr (.inl ⟨x, hx, rfl⟩)) hb
  · exact h

/-- A name with an extension is not reserved, unless it is the working directory. -/
theorem not_reserved_ext {t ext : Str} {d : Loc} (hx : IsExt ext) (h : (t ++ ext) :: d ≠ H) :
    ¬ Reserved H ((t ++ ext) :: d) := by
  rintro (he | ⟨y, hy, he⟩ | ⟨n, y, -, hn, he⟩)
  · exact h he
  · have hdot : '.' ∈ t ++ ext := by
      rcases hx with rfl | rfl
      · exact List.mem_append_right _ (by decide)
      · exact List.mem_append_right _ (by decide)
    rw [(List.cons.inj he).1] at hdot
    rcases mem_boxNames hy with rfl | rfl | rfl | rfl
    all_goals exact absurd hdot (by decide)
  · exact hn.ne_ext hx (List.cons.inj he).1

/-- A file of a pair in a directory of the agent. -/
theorem not_reserved_pair {t ext : Str} (hx : IsExt ext) : ¬ Reserved H ((t ++ ext) :: x :: H) :=
  not_reserved_ext hx fun he => by
    have hlen := congrArg List.length he
    simp only [List.length_cons] at hlen
    omega

/-- The place of the source in a temporary directory. -/
theorem not_reserved_parked {d : Loc} (hn : TempName n) (hT : T = n :: d) (habove : ¬ T <:+ H) :
    ¬ Reserved H (parkedEntry :: T) := by
  have hbox : ∀ {y : Name}, y ∈ boxNames → parkedEntry ≠ y := by
    intro y hy
    rcases mem_boxNames hy with rfl | rfl | rfl | rfl
    all_goals decide
  rintro (he | ⟨y, hy, he⟩ | ⟨m, y, hy, -, he⟩)
  · exact habove (he ▸ List.suffix_cons _ _)
  · exact hbox hy (List.cons.inj he).1
  · rw [hT] at he
    exact hn.ne_box hy (List.cons.inj (List.cons.inj he).2).1

end Names

/-! ## The steps of requests -/

/-- The temporary directory and the temporary file of a request that are in a working directory. -/
structure Temps where
  dir : Option Loc := none
  file : Option Loc := none

section Protocol

variable {ι : Type}

/-- The location was made by `mkstemp` or `mkdtemp`. -/
def Made (cwd : Loc) (tr : History Calls Choice ι) (l : Loc) : Prop :=
  ∃ x ∈ tr, ∃ p, x.2.call.op.made x.2.res = some p ∧ norm cwd p = l

/-- The step leaves no temporary file or directory of its request behind in a working directory: there, the rename
that parks a source, the rename that publishes a copy and the removal of the temporary directory do not fail, and
the handler does not run once there is a copy. -/
structure Reclaims (env : Env) (cwd : Loc) (tr : History Calls Choice ι) (i : ι) (e : Ev) : Prop where
  park : ∀ p q, e.call = ⟨.park, .rename p q⟩ → env.InBox cwd (norm cwd q).tail → e.refused = false
  publish : ∀ p q, e.call = ⟨.publish, .rename p q⟩ → env.InBox cwd (norm cwd p) → e.refused = false
  rmdir : ∀ s p, s = .rmdirParked ∨ s = .rmdirUndo → e.call = ⟨s, .rmdir p⟩ → env.InBox cwd (norm cwd p) →
    e.refused = false
  undo : e.call.site = .undo → ∀ x ∈ tr, x.1 = i → x.2.call.site = .mkstemp → ∀ p, x.2.call.op.made x.2.res = some p →
    ¬ env.InBox cwd (norm cwd p)

/-- Every temporary name in a working directory is free or the request that made it still has it. -/
structure Tracked (env : Env) (cwd : Loc) (tr : History Calls Choice ι) (w : World) (G : ι → Temps) : Prop where
  here : w.fs.cwd = cwd
  home : w.fs.isDir (env.home cwd) = true
  owned : ∀ l, Made cwd tr l → env.InBox cwd l →
    Temp (env.home cwd) l ∧ (w.fs.node l = none ∨ ∃ i, (G i).dir = some l ∨ (G i).file = some l)
  file : ∀ i l, (G i).file = some l → env.InBox cwd l ∧
    ∃ x ∈ tr, x.1 = i ∧ x.2.call.site = .mkstemp ∧ ∃ p, x.2.call.op.made x.2.res = some p ∧ norm cwd p = l
  fresh : ∀ i, (∀ e, (i, e) ∉ tr) → G i = {}

/-- The protocol of the requests. -/
def reclaimProto (ι : Type) (env : Env) (cwd : Loc) : Proto Calls World Choice ι Temps where
  sem := Machine
  ok tr _ x := Reclaims env cwd tr x.1 x.2
  inv := Tracked env cwd

variable {env : Env} {cwd : Loc} {tr : History Calls Choice ι} {w w' : World} {G : ι → Temps} {i : ι}
  {e : Ev} {g : Temps}

theorem made_snoc {l : Loc} : Made cwd (tr ++ [(i, e)]) l ↔ Made cwd tr l ∨ ∃ p, e.call.op.made e.res = some p ∧
    norm cwd p = l := by
  simp only [Made, List.mem_append, List.mem_singleton, or_and_right, exists_or, exists_eq_left]

/-- One step, with what the request has after it. -/
theorem Tracked.step [DecidableEq ι] (h : Tracked env cwd tr w G) (hcwd : w'.fs.cwd = cwd)
    (hhome : w'.fs.isDir (env.home cwd) = true)
    (hfree : ∀ l, Temp (env.home cwd) l → w.fs.node l = none →
      (∃ p, e.call.op.made e.res = some p ∧ norm cwd p = l) ∨ w'.fs.node l = none)
    (hmade : ∀ p, e.call.op.made e.res = some p → env.InBox cwd (norm cwd p) →
      Temp (env.home cwd) (norm cwd p) ∧ (g.dir = some (norm cwd p) ∨ g.file = some (norm cwd p)))
    (hdir : ∀ l, (G i).dir = some l → g.dir = some l ∨ w'.fs.node l = none)
    (hfile : ∀ l, (G i).file = some l → g.file = some l ∨ w'.fs.node l = none)
    (hown : ∀ l, g.file = some l → (G i).file = some l ∨
      env.InBox cwd l ∧ e.call.site = .mkstemp ∧ ∃ p, e.call.op.made e.res = some p ∧ norm cwd p = l) :
    Tracked env cwd (tr ++ [(i, e)]) w' (Function.update G i g) := by
  have hself : Function.update G i g i = g := Function.update_self _ _ _
  have hother : ∀ j, j ≠ i → Function.update G i g j = G j := fun j hj => Function.update_of_ne hj _ _
  have hnew : ∀ l, (∃ p, e.call.op.made e.res = some p ∧ norm cwd p = l) → env.InBox cwd l →
      Temp (env.home cwd) l ∧ (w'.fs.node l = none ∨
        ∃ j, (Function.update G i g j).dir = some l ∨ (Function.update G i g j).file = some l) := by
    rintro l ⟨p, hp, rfl⟩ hin
    obtain ⟨ht, hg⟩ := hmade p hp hin
    exact ⟨ht, .inr ⟨i, by rw [hself]; exact hg⟩⟩
  refine ⟨hcwd, hhome, fun l hl hin => ?_, fun j l hj => ?_, fun j hj => ?_⟩
  · rcases made_snoc.1 hl with hl | hl
    · obtain ⟨ht, hnone | ⟨j, hj⟩⟩ := h.owned l hl hin
      · rcases hfree l ht hnone with hp | hnone'
        · exact hnew l hp hin
        · exact ⟨ht, .inl hnone'⟩
      · refine ⟨ht, ?_⟩
        by_cases hji : j = i
        · subst hji
          have hkeep : (g.dir = some l ∨ g.file = some l) ∨ w'.fs.node l = none := by
            rcases hj with hj | hj
            · exact (hdir l hj).imp .inl id
            · exact (hfile l hj).imp .inr id
          rcases hkeep with hk | hk
          · exact .inr ⟨j, by rw [hself]; exact hk⟩
          · exact .inl hk
        · exact .inr ⟨j, by rw [hother j hji]; exact hj⟩
    · exact hnew l hl hin
  · by_cases hji : j = i
    · subst hji
      rw [hself] at hj
      rcases hown l hj with hold | ⟨hin, hs, hp⟩
      · obtain ⟨hin, x, hx, hxs⟩ := h.file j l hold
        exact ⟨hin, x, List.mem_append_left _ hx, hxs⟩
      · exact ⟨hin, (j, e), by simp, rfl, hs, hp⟩
    · rw [hother j hji] at hj
      obtain ⟨hin, x, hx, hxs⟩ := h.file j l hj
      exact ⟨hin, x, List.mem_append_left _ hx, hxs⟩
  · have hji : j ≠ i := by
      rintro rfl
      exact hj e (by simp)
    rw [hother j hji]
    exact h.fresh j fun e' he' => hj e' (List.mem_append_left _ he')

/-- A step that makes nothing and is tame for all temporary names. -/
theorem Tracked.tame [DecidableEq ι] (h : Tracked env cwd tr w G)
    (ht : ∀ l, Temp (env.home cwd) l → Tame (env.home cwd) l w.fs w'.fs)
    (hcwd : w'.fs.cwd = w.fs.cwd) (hhome : w'.fs.isDir (env.home cwd) = true) (hm : e.call.op.made e.res = none)
    (hdir : ∀ l, (G i).dir = some l → g.dir = some l ∨ w'.fs.node l = none)
    (hfile : ∀ l, (G i).file = some l → g.file = some l ∨ w'.fs.node l = none)
    (hown : ∀ l, g.file = some l → (G i).file = some l) :
    Tracked env cwd (tr ++ [(i, e)]) w' (Function.update G i g) := by
  refine h.step (hcwd.trans h.here) hhome (fun l hl hnone => .inr ((ht l hl).free h.home hnone))
    (fun p hp => ?_) hdir hfile
    fun l hl => .inl (hown l hl)
  rw [hm] at hp
  cases hp

/-- The working directory is there, so a free name is not above it. -/
theorem Tracked.not_above {l : Loc} (h : Tracked env cwd tr w G)
    (hl : w.fs.node l = none) : ¬ l <:+ env.home cwd := by
  intro hs
  have hd := isDir_above h.home hs
  rw [FS.isDir, hl] at hd
  cases hd

/-- A step that makes a temporary name. -/
theorem Tracked.make [DecidableEq ι] {p : Str} {n : Name} {d : Loc} (h : Tracked env cwd tr w G)
    (hm : e.call.op.made e.res = some p) (hn : TempName n) (hp : norm cwd p = n :: d)
    (ht : ∀ l, norm cwd p ≠ l → Tame (env.home cwd) l w.fs w'.fs) (hdir : ∀ l, (G i).dir = some l → g.dir = some l)
    (hfile : ∀ l, (G i).file ≠ some l) (hnew : env.ours cwd p = g.dir ∨ env.ours cwd p = g.file)
    (hown : ∀ l, g.file = some l → e.call.site = .mkstemp ∧ env.ours cwd p = some l) :
    Tracked env cwd (tr ++ [(i, e)]) w' (Function.update G i g) := by
  have hother := ht ([] :: norm cwd p) fun he => by
    have := congrArg List.length he
    simp at this
  refine h.step (hother.cwd.trans h.here) (hother.dir h.home) (fun l _ hnone => ?_) (fun q hq hin => ?_)
    (fun l hl => .inl (hdir l hl)) (fun l hl => absurd hl (hfile l)) fun l hl => .inr ?_
  · by_cases hpl : norm cwd p = l
    · exact .inl ⟨p, hm, hpl⟩
    · exact .inr ((ht l hpl).free h.home hnone)
  · obtain rfl := Option.some.inj (hm.symm.trans hq)
    have hk := ours_eq_some.2 ⟨rfl, hin⟩
    rw [hk] at hnew
    rw [hp] at hin ⊢
    refine ⟨temp_of_inBox hn hin, ?_⟩
    rw [← hp]
    exact hnew.imp Eq.symm Eq.symm
  · obtain ⟨hs, hk⟩ := hown l hl
    obtain ⟨rfl, hin⟩ := ours_eq_some.1 hk
    exact ⟨hin, hs, p, hm, rfl⟩

end Protocol

/-! ## Calls that do not matter -/

/-- A call that makes no temporary name, and binds none in a working directory. -/
def DullCall (env : Env) (cwd : Loc) (c : Call) : Prop :=
  (∀ r, c.op.made r = none) ∧ ∀ ch w r w', c.op.exec ch w = some (r, w') → w.fs.cwd = cwd →
    w.fs.isDir (env.home cwd) = true → ∀ l, Temp (env.home cwd) l → Tame (env.home cwd) l w.fs w'.fs

section Dull

variable {env : Env} {cwd : Loc} {s : Site}

theorem dull_quiet {op : Op} (h : op.quiet = true) : DullCall env cwd ⟨s, op⟩ := by
  refine ⟨fun r => ?_, fun ch w r w' he hcwd _ _ _ => tameCall_quiet (c := ⟨s, op⟩) h ch w r w' he hcwd⟩
  cases op <;> first | rfl | cases h

theorem dull_unlink {p : Str} : DullCall env cwd ⟨s, .unlink p⟩ := by
  refine ⟨fun _ => rfl, fun ch w r w' he _ _ l _ => ?_⟩
  obtain ⟨fs, -, hr, rfl⟩ | ⟨e, -, rfl, -⟩ := exec_unlink he
  · exact tame_unlink hr
  · exact .refl

theorem dull_write {j : Ino} {b : Bytes} : DullCall env cwd ⟨s, .write j b⟩ :=
  ⟨fun _ => rfl, fun ch w r w' he hcwd _ _ _ => tameCall_write (s := s) ch w r w' he hcwd⟩

/-- A file that is opened for writing at a name that is not reserved. -/
theorem dull_openWrite {p : Str} (hp : ¬ Reserved (env.home cwd) (norm cwd p)) :
    DullCall env cwd ⟨s, .openWrite p⟩ := by
  refine ⟨fun _ => rfl, fun ch w r w' he hcwd _ l hl => ?_⟩
  obtain ⟨j, fs, -, hc, rfl⟩ | ⟨e, -, rfl⟩ := exec_openWrite he
  swap
  · exact .refl
  by_cases hfree : w.fs.node (norm w.fs.cwd p) = none
  · obtain ⟨-, hadd, -⟩ := added_of_create hc hfree
    refine tame_added hadd ?_
    rw [hcwd]
    rintro rfl
    exact hp (.inr (.inr hl))
  · obtain ⟨-, ⟨-, rfl⟩ | ⟨hnone, -⟩⟩ := FS.create_ok hc
    · exact tame_node rfl fun _ => rfl
    · exact absurd hnone hfree

/-- The step that renames something to a name that is not reserved. -/
theorem tame_move {fs fs' : FS} {H l : Loc} {p q : Str} (h : fs.pathRename p q = .ok fs') (hp : ¬ norm fs.cwd p <:+ H)
    (hq : ¬ Reserved H (norm fs.cwd q)) (hl : Temp H l) : Tame H l fs fs' :=
  tame_rename h hp (fun he => hq (.inl he)) (fun he => hq (.inr (.inr (he ▸ hl)))) fun hs => .inr (above_home hq hl hs)

theorem dull_rename {p q : Str} (hp : ¬ norm cwd p <:+ env.home cwd) (hq : ¬ Reserved (env.home cwd) (norm cwd q)) :
    DullCall env cwd ⟨s, .rename p q⟩ := by
  refine ⟨fun _ => rfl, fun ch w r w' he hcwd _ l hl => ?_⟩
  obtain ⟨fs, -, -, hr, rfl⟩ | ⟨e, -, rfl, -⟩ := exec_rename he
  · exact tame_move hr (by rw [hcwd]; exact hp) (by rw [hcwd]; exact hq) hl
  · exact .refl

/-- Nothing at or above a directory can be renamed to a name below it. -/
theorem rename_below {fs fs' : FS} {H a b : Loc} (h : fs.rename a b = .ok fs') (hdir : fs.isDir H = true) (hb : H <:+ b)
    (hne : b ≠ H) : ¬ a <:+ H := by
  intro hs
  have ha : fs.isDir a = true := isDir_above hdir hs
  obtain ⟨-, -, -, -, -, ⟨rfl, -, -⟩ | ⟨i, hi, -⟩ | ⟨-, hab, -⟩⟩ := FS.rename_cases h
  · exact hne (hs.eq_of_length (le_antisymm hs.length_le hb.length_le))
  · rw [FS.isDir, hi] at ha
    cases ha
  · exact hab (hs.trans hb)

/-- The quarantine of a file of a pair. -/
theorem dull_endeaden {d t ext : Str} (ht : '/' ∉ t) (hx : IsExt ext) :
    (endeaden env (d ++ '/' :: t ++ ext)).Calls (DullCall env cwd) := by
  refine endeaden_calls hx fun site e he => ⟨fun _ => rfl, fun ch w r w' hex hcwd hdir l hl => ?_⟩
  have hpl : Plain (t ++ e) := he.plain ht
  have hq : norm cwd (env.deadletterDir ++ '/' :: tailname (d ++ '/' :: t ++ e)) = (t ++ e) :: "dead".toList ::
      env.home cwd := by
    rw [List.append_assoc, List.cons_append, tailname_child hpl.2.2.2, norm_child deadletterDir_ne_nil hpl,
      norm_deadletterDir]
  have hres : ¬ Reserved (env.home cwd) ((t ++ e) :: "dead".toList :: env.home cwd) := not_reserved_pair he
  obtain ⟨fs, -, -, hr, rfl⟩ | ⟨e, -, rfl, -⟩ := exec_rename hex
  swap
  · exact .refl
  have hr' := (FS.pathRename_ok hr).2.2
  rw [hcwd, hq] at hr'
  have habove := rename_below hr' hdir ((List.suffix_cons _ _).trans (List.suffix_cons _ _)) fun he' => hres (.inl he')
  exact tame_move hr (by rw [hcwd]; exact habove) (by rw [hcwd, hq]; exact hres) hl

/-- Reading metadata. -/
theorem dull_readMeta {d t : Str} (ht : '/' ∉ t) :
    (readTransferMetaCached env (d ++ '/' :: t ++ META_EXT)).Calls (DullCall env cwd) :=
  cacheGet_calls (fun _ h => dull_quiet h) (readTransferMeta_calls (dull_quiet rfl) (fun _ _ _ => dull_quiet rfl)
    (dull_endeaden ht (.inl rfl)))

/-- The first `try` block of a request to send. -/
theorem dull_startSend {req : SendFileRequest} {id destmeta : Str}
    (hp : ¬ Reserved (env.home cwd) (norm cwd destmeta)) :
    (startSend env req id destmeta).Calls (DullCall env cwd) := by
  refine Proc.Calls.handle
    (((((fileInfo_calls _).mono fun c hc => ?_).bind fun fi => calls_call.2 ⟨dull_quiet rfl, fun _ => ?_⟩)).bind
    fun _ => trivial) fun e => ?_
  · exact dull_quiet (quiet_of_looks hc.2)
  · exact (writeTransferMeta_calls (fun _ _ _ _ => dull_write) (fun _ _ _ hl => dull_quiet (quiet_of_looks hl))
      (dull_openWrite hp)
      dull_unlink).bind fun _ => trivial
  · split <;> trivial

end Dull

/-! ## The rules -/

section Rules

variable {ι : Type} [DecidableEq ι] {env : Env} {cwd : Loc} {i : ι} {α : Type} {s : Site}

/-- A dull call changes nothing of what its request has. -/
theorem Tracked.dull {tr : History Calls Choice ι} {w w' : World} {G : ι → Temps} {op : Op} {ch : Choice} {r : op.Res}
    (h : Tracked env cwd tr w G) (hc : DullCall env cwd ⟨s, op⟩) (he : op.exec ch w = some (r, w')) :
    Tracked env cwd (tr ++ [(i, ⟨⟨s, op⟩, ch, r⟩)]) w' G := by
  have htame := hc.2 ch w r w' he h.here h.home
  obtain ⟨l, hl⟩ := exists_temp (env.home cwd)
  have := h.tame (i := i) (g := G i) (e := ⟨⟨s, op⟩, ch, r⟩) htame (htame l hl).cwd ((htame l hl).dir h.home) (hc.1 r)
    (fun _ hd => .inl hd) (fun _ hf => .inl hf) fun _ hf => hf
  rwa [Function.update_eq_self] at this

theorem follows_dull {p : Prog α} {g : Temps} (hp : p.Calls (DullCall env cwd)) :
    Follows (reclaimProto ι env cwd) i p g (fun g' _ => g' = g) :=
  Follows.quiet (fun _ _ _ _ _ _ _ hc hI he _ => Tracked.dull hI hc he) hp

theorem follows_dull_call {op : Op} {k : op.Res → Prog α} {g : Temps} {Q : Temps → Outcome Exn α → Prop}
    (hc : DullCall env cwd ⟨s, op⟩) (hk : ∀ r, Follows (reclaimProto ι env cwd) i (k r) g Q) :
    Follows (reclaimProto ι env cwd) i ((sys s op).bind k) g Q := by
  refine follows_call.2 fun tr w G ch r w' hI hg he _ => ⟨g, ?_, hk r⟩
  rw [← hg, Function.update_eq_self]
  exact Tracked.dull hI hc he

/-- What a request has is at most the location of the path, and that in a working directory. -/
def Of (env : Env) (cwd : Loc) (p : Str) (x : Option Loc) : Prop := ∀ l, x = some l → l = norm cwd p ∧ env.InBox cwd l

variable {src dest tmpdir dtname : Str} {fi : FileInfo} {D F : Option Loc} {g : Temps}

/-- A source that passes the first check is a regular file, so that the working directory is not in it. -/
theorem reclaim_precheck {p : Str} : Follows (reclaimProto ι env cwd) i (fileInfo env s p) g
    (fun g' o => g' = g ∧ ∀ fi, o = .ret fi → ¬ norm cwd p <:+ env.home cwd) := by
  unfold fileInfo fileStat
  refine Follows.bind (follows_call.2 fun tr w G ch r w' hI hg he _ => ⟨g, ?_, ?_⟩)
  · rw [← hg, Function.update_eq_self]
    exact Tracked.dull hI (dull_quiet rfl) he
  cases r with
  | error e => exact ⟨rfl, fun fi h => by cases h⟩
  | ok st =>
    dsimp only
    by_cases hreg : st.isReg = true
    swap
    · rw [if_neg hreg]
      exact ⟨rfl, fun fi h => by cases h⟩
    rw [if_pos hreg]
    have hst : ch.inject (w.fs.pathStat p (ch.ticks 0)) = .ok st := (Prod.mk.inj (Option.some.inj he)).1
    obtain ⟨k, -, hk, -⟩ := FS.pathStat_reg (inject_ok hst).2 hreg
    rw [hI.here] at hk
    have habove : ¬ norm cwd p <:+ env.home cwd := by
      intro hs
      have hd := isDir_above hI.home hs
      rw [FS.isDir, hk] at hd
      cases hd
    refine Follows.bind ((follows_dull ((getCrc_calls _).mono fun c hc => dull_quiet (quiet_of_looks hc.1.2))).mono
      fun g' o hg' => ?_)
    cases o with
    | ret crc => exact ⟨hg', fun _ _ => habove⟩
    | throw e => exact ⟨hg', fun fi h => by cases h⟩
    | stop x => trivial

/-- The temporary directory is removed, if it is in a working directory. -/
theorem reclaim_rmdir {q : Prog α} {Q : Temps → Outcome Exn α → Prop} (hs : s = .rmdirParked ∨ s = .rmdirUndo)
    (hD : Of env cwd tmpdir D) (htmp : norm cwd tmpdir ≠ env.home cwd)
    (hq : Follows (reclaimProto ι env cwd) i q {} Q) :
    Follows (reclaimProto ι env cwd) i ((sys s (.rmdir tmpdir)).bind fun _ => q) ⟨D, none⟩ Q := by
  refine follows_call.2 fun tr w G ch r w' hI hg he hok => ⟨{}, ?_, hq⟩
  have hI' : Tracked env cwd tr w G := hI
  have hfile : (G i).file = none := by rw [hg]
  have hdir : ∀ l, (G i).dir = some l → l = norm cwd tmpdir ∧ env.InBox cwd l := by rw [hg]; exact hD
  obtain ⟨fs, rfl, hr, rfl⟩ | ⟨e, rfl, rfl⟩ := exec_rmdir he
  · have htame : ∀ l, Tame (env.home cwd) l w.fs fs := fun l => tame_rmdir hr (by rw [hI'.here]; exact htmp)
    refine hI'.tame (fun l _ => htame l) (htame []).cwd ((htame []).dir hI'.home) rfl (fun l hl => .inr ?_)
      (fun l hl => by rw [hfile] at hl; cases hl) fun l hl => by cases hl
    rw [FS.node_rmdir (FS.pathRmdir_ok hr).2, if_pos]
    rw [(hdir l hl).1, hI'.here]
  · -- the call failed, so the directory is not in a working directory
    have hnone : ∀ l, (G i).dir ≠ some l := by
      intro l hl
      obtain ⟨rfl, hin⟩ := hdir l hl
      exact absurd (hok.rmdir s tmpdir hs rfl hin) (by simp [Op.refused])
    exact hI'.tame (fun l _ => .refl) rfl hI'.home rfl (fun l hl => absurd hl (hnone l))
      (fun l hl => by rw [hfile] at hl; cases hl) fun l hl => by cases hl

/-- The end of a copy: the temporary file is gone, and then the directory. -/
theorem reclaim_publishCopy (hD : Of env cwd tmpdir D) (hF : Of env cwd dtname F)
    (htmp : norm cwd tmpdir ≠ env.home cwd)
    (hdt : ¬ norm cwd dtname <:+ env.home cwd) (hdest : ¬ Reserved (env.home cwd) (norm cwd dest)) :
    Follows (reclaimProto ι env cwd) i (publishCopy tmpdir dest dtname) ⟨D, F⟩ (fun g o => o = .ret () ∧ g = {}) := by
  refine follows_call.2 fun tr w G ch r w' hI hg he hok => ⟨⟨D, none⟩, ?_, follows_dull_call dull_unlink fun _ =>
    reclaim_rmdir (.inl rfl) hD htmp ⟨rfl, rfl⟩⟩
  have hI' : Tracked env cwd tr w G := hI
  have hdir : ∀ l, (G i).dir = some l → D = some l := by rw [hg]; exact fun _ h => h
  have hfile : ∀ l, (G i).file = some l → l = norm cwd dtname ∧ env.InBox cwd l := by rw [hg]; exact hF
  obtain ⟨fs, rfl, -, hr, rfl⟩ | ⟨e, rfl, rfl, -⟩ := exec_rename he
  · have htame : ∀ l, Temp (env.home cwd) l → Tame (env.home cwd) l w.fs fs := fun l hl =>
      tame_move hr (by rw [hI'.here]; exact hdt) (by rw [hI'.here]; exact hdest) hl
    obtain ⟨l₀, hl₀⟩ := exists_temp (env.home cwd)
    refine hI'.tame htame (htame l₀ hl₀).cwd ((htame l₀ hl₀).dir hI'.home) rfl (fun l hl => .inl (hdir l hl))
      (fun l hl => .inr ?_) fun l hl => by cases hl
    have hr' := (FS.pathRename_ok hr).2.2
    obtain ⟨hlt, -⟩ := hfile l hl
    rw [hI'.here, ← hlt] at hr'
    refine FS.rename_frees hr' fun he' => hdest (.inr (.inr ?_))
    obtain ⟨hin, x, hx, -, -, p, hp, hpl⟩ := hI'.file i l hl
    rw [← he']
    exact (hI'.owned l ⟨x, hx, p, hp, hpl⟩ hin).1
  · have hnone : ∀ l, (G i).file ≠ some l := by
      intro l hl
      obtain ⟨rfl, hin⟩ := hfile l hl
      exact absurd (hok.publish dtname dest rfl hin) (by simp [Op.refused])
    exact hI'.tame (fun l _ => .refl) rfl hI'.home rfl (fun l hl => .inl (hdir l hl)) (fun l hl => absurd hl (hnone l))
      fun l hl => by cases hl

/-- The `try` block after the making of the copy. -/
theorem reclaim_copyInto {blksize : Int} {j : Ino} (hD : Of env cwd tmpdir D) (hF : Of env cwd dtname F)
    (htmp : norm cwd tmpdir ≠ env.home cwd) (hdt : ¬ norm cwd dtname <:+ env.home cwd)
    (hdest : ¬ Reserved (env.home cwd) (norm cwd dest)) :
    Follows (reclaimProto ι env cwd) i (copyInto env tmpdir dest fi blksize dtname j) ⟨D, F⟩ (fun g o => match o with
      | .ret _ => g = {}
      | .throw _ => g = ⟨D, F⟩
      | .stop _ => True) := by
  refine follows_dull_call (dull_quiet rfl) fun r => ?_
  cases r with
  | error e => rfl
  | ok h =>
    dsimp only
    split
    · rfl
    have hcopy : (copyBlocks env h j blksize.toNat).Calls (DullCall env cwd) :=
      Proc.Calls.loop (fun off => copyRound_calls (fun _ _ hq => dull_quiet hq) fun _ => dull_write) _ _
    refine Follows.bind ((follows_dull hcopy).mono fun g o hg => ?_)
    subst hg
    cases o with
    | throw e => rfl
    | stop x => trivial
    | ret u =>
      refine follows_dull_call (dull_quiet rfl) fun _ => follows_dull_call (dull_quiet rfl) fun _ =>
        follows_dull_call (dull_quiet rfl) fun _ =>
          Follows.bind ((follows_dull ((fileInfo_calls dtname).mono fun c hc =>
          dull_quiet (quiet_of_looks hc.2))).mono fun g o hg => ?_)
      subst hg
      cases o with
      | throw e => rfl
      | stop x => trivial
      | ret destfi =>
        dsimp only
        split
        · rfl
        · refine (reclaim_publishCopy hD hF htmp hdt hdest).mono fun g o hg => ?_
          obtain ⟨rfl, hg⟩ := hg
          exact hg

/-- The body of the `try` block. -/
theorem reclaim_copyParked {blksize : Int} (hD : Of env cwd tmpdir D) (htmp : norm cwd tmpdir ≠ env.home cwd)
    (hdest : ¬ Reserved (env.home cwd) (norm cwd dest)) :
    Follows (reclaimProto ι env cwd) i (copyParked env tmpdir dest fi blksize) ⟨D, none⟩ (fun g o => match o with
      | .ret _ => g = {}
      | .throw _ => g.dir = D
      | .stop _ => True) := by
  refine follows_call.2 fun tr w G ch r w' hI hg he hok => ?_
  have hI' : Tracked env cwd tr w G := hI
  have hnofile : ∀ l, (G i).file ≠ some l := by
    rw [hg]
    exact fun l hl => by cases hl
  have hdir : ∀ l, (G i).dir = some l → D = some l := by rw [hg]; exact fun _ h => h
  obtain ⟨dtname, j, fs, rfl, hm, rfl⟩ | ⟨e, rfl, rfl⟩ := exec_mkstemp he
  swap
  · refine ⟨⟨D, none⟩, hI'.tame (fun l _ => .refl) rfl hI'.home rfl (fun l hl => .inl (hdir l hl))
      (fun l hl => absurd hl (hnofile l)) (fun l hl => by cases hl), rfl⟩
  obtain ⟨hpick, hname, -⟩ := FS.mkstemp_ok hm
  obtain ⟨-, hadd⟩ := added_of_mkstemp hm
  rw [hI'.here] at hadd
  obtain ⟨d, hd⟩ := norm_picked cwd (dirname dest) hpick
  rw [← hname] at hd
  refine ⟨⟨D, env.ours cwd dtname⟩, hI'.make rfl ⟨ch.pick, hpick, rfl⟩ hd (fun l hl => tame_added hadd hl) hdir hnofile
    (.inr rfl) fun l hl => ⟨rfl, hl⟩, ?_⟩
  refine (reclaim_copyInto hD (fun l hl => ours_eq_some.1 hl) htmp (hI'.not_above hadd.free) hdest).mono
    fun g o hg' => ?_
  cases o with
  | ret u => exact hg'
  | throw e => rw [show g = _ from hg']
  | stop x => trivial

/-- The handler of the `try` block runs only if there is no temporary file in a working directory. -/
theorem reclaim_undoPark {e : Exn} (hD : Of env cwd tmpdir g.dir) (htmp : norm cwd tmpdir ≠ env.home cwd)
    (hpark : ¬ norm cwd (parkedName tmpdir) <:+ env.home cwd) (hsrc : ¬ Reserved (env.home cwd) (norm cwd src)) :
    Follows (reclaimProto ι env cwd) i (undoPark src tmpdir e) g (fun g o => o = .throw e ∧ g = {}) := by
  refine follows_call.2 fun tr w G ch r w' hI hg he hok =>
    ⟨⟨g.dir, none⟩, ?_, reclaim_rmdir (.inr rfl) hD htmp ⟨rfl, rfl⟩⟩
  have hI' : Tracked env cwd tr w G := hI
  have hnone : ∀ l, (G i).file ≠ some l := by
    intro l hl
    obtain ⟨hin, x, hx, hxi, hs, p, hp, hpl⟩ := hI'.file i l hl
    exact hok.undo rfl x hx hxi hs p hp (hpl ▸ hin)
  have hstep : ∀ fs' : FS, (∀ l, Temp (env.home cwd) l → Tame (env.home cwd) l w.fs fs') →
      Tracked env cwd (tr ++ [(i, ⟨⟨.undo, .rename (parkedName tmpdir) src⟩, ch, r⟩)]) { w with fs := fs' }
        (Function.update G i ⟨g.dir, none⟩) := by
    intro fs' htame
    obtain ⟨l, hl⟩ := exists_temp (env.home cwd)
    exact hI'.tame htame (htame l hl).cwd ((htame l hl).dir hI'.home) rfl (fun l hl => .inl (hg ▸ hl))
      (fun l hl => absurd hl (hnone l)) fun l hl => by cases hl
  obtain ⟨fs, -, -, hr, rfl⟩ | ⟨e, -, rfl, -⟩ := exec_rename he
  · exact hstep fs fun l hl => tame_move hr (by rw [hI'.here]; exact hpark) (by rw [hI'.here]; exact hsrc) hl
  · exact hstep _ fun l _ => .refl

/-- The branch for different devices, once there is a temporary directory. -/
theorem reclaim_parkAndCopy {blksize : Int} {n : Name} {d : Loc} (hne : tmpdir ≠ []) (hn : TempName n)
    (hd : norm cwd tmpdir = n :: d) (habove : ¬ norm cwd tmpdir <:+ env.home cwd)
    (hup : ¬ norm cwd src <:+ env.home cwd)
    (hsrc : ¬ Reserved (env.home cwd) (norm cwd src)) (hdest : ¬ Reserved (env.home cwd) (norm cwd dest)) :
    Follows (reclaimProto ι env cwd) i (parkAndCopy env src dest fi blksize tmpdir) ⟨env.ours cwd tmpdir, none⟩
      (fun g _ => g = {}) := by
  have htmp : norm cwd tmpdir ≠ env.home cwd := fun he => habove (he ▸ List.suffix_refl _)
  have hparked : norm cwd (parkedName tmpdir) = parkedEntry :: norm cwd tmpdir := norm_parkedName hne
  have hD : Of env cwd tmpdir (env.ours cwd tmpdir) := fun l hl => ours_eq_some.1 hl
  refine follows_call.2 fun tr w G ch r w' hI hg he hok => ?_
  have hI' : Tracked env cwd tr w G := hI
  have hfile : ∀ l, (G i).file ≠ some l := by
    rw [hg]
    exact fun l hl => by cases hl
  obtain ⟨fs, rfl, -, hr, rfl⟩ | ⟨e, rfl, rfl, -⟩ := exec_rename he
  · refine ⟨⟨env.ours cwd tmpdir, none⟩, ?_, ?_⟩
    · have htame : ∀ l, Temp (env.home cwd) l → Tame (env.home cwd) l w.fs fs := fun l hl => by
        refine tame_move hr (by rw [hI'.here]; exact hup) ?_ hl
        rw [hI'.here, hparked]
        exact not_reserved_parked hn hd habove
      obtain ⟨l₀, hl₀⟩ := exists_temp (env.home cwd)
      exact hI'.tame htame (htame l₀ hl₀).cwd ((htame l₀ hl₀).dir hI'.home) rfl
        (fun l hl => .inl (by rw [← hg]; exact hl))
        (fun l hl => absurd hl (hfile l)) fun l hl => by cases hl
    · refine Follows.handle ((reclaim_copyParked hD htmp hdest).mono fun g o hg' => ?_)
      cases o with
      | ret u => exact hg'
      | throw e =>
        refine (reclaim_undoPark (by rw [show g.dir = _ from hg']; exact hD) htmp ?_ hsrc).mono fun g o ho => ho.2
        rw [hparked]
        exact fun hs => habove ((List.suffix_cons _ _).trans hs)
      | stop x => trivial
  · -- the source was not parked, so the directory is not in a working directory
    have hnone : ∀ l, (G i).dir ≠ some l := by
      intro l hl
      rw [hg] at hl
      have hin := (ours_eq_some.1 hl).2
      rw [(ours_eq_some.1 hl).1] at hin
      have := hok.park src (parkedName tmpdir) rfl (by rw [hparked]; exact hin)
      simp [Op.refused] at this
    refine ⟨{}, ?_, rfl⟩
    exact hI'.tame (fun l _ => .refl) rfl hI'.home rfl (fun l hl => absurd hl (hnone l))
      (fun l hl => absurd hl (hfile l))
      fun l hl => by cases hl

theorem reclaim_copyAcross (hup : ¬ norm cwd src <:+ env.home cwd) (hsrc : ¬ Reserved (env.home cwd) (norm cwd src))
    (hdest : ¬ Reserved (env.home cwd) (norm cwd dest)) :
    Follows (reclaimProto ι env cwd) i (copyAcross env src dest fi) {} (fun g _ => g = {}) := by
  unfold copyAcross
  refine follows_dull_call (dull_quiet rfl) fun srcvfs => follows_dull_call (dull_quiet rfl) fun destvfs => ?_
  generalize checkDiskFree env fi.size destvfs.2 = space
  cases space with
  | false => rfl
  | true =>
    refine follows_call.2 fun tr w G ch r w' hI hg he _ => ?_
    have hI' : Tracked env cwd tr w G := hI
    obtain ⟨tmpdir, fs, rfl, hm, rfl⟩ | ⟨e, rfl, rfl⟩ := exec_mkdtemp he
    swap
    · refine ⟨{}, ?_, trivial⟩
      exact hI'.tame (fun l _ => .refl) rfl hI'.home rfl (fun l hl => .inl (by rw [← hg]; exact hl))
        (fun l hl => .inl (by rw [← hg]; exact hl)) fun l hl => by cases hl
    obtain ⟨hpick, hname, -, hfree, -⟩ := FS.mkdtemp_ok hm
    obtain ⟨d, hd⟩ := norm_picked cwd (dirname src) hpick
    rw [← hname] at hd
    rw [hI'.here] at hfree
    have hn : TempName ("file_move_".toList ++ ch.pick) := ⟨ch.pick, hpick, rfl⟩
    refine ⟨⟨env.ours cwd tmpdir, none⟩, ?_, reclaim_parkAndCopy (hname ▸ fromTemplate_ne_nil) hn hd
      (hI'.not_above hfree)
      hup hsrc hdest⟩
    exact hI'.make rfl hn hd (fun l hl => tame_mkdtemp hm (by rw [hI'.here]; exact hl))
      (fun l hl => by rw [hg] at hl; cases hl) (fun l hl => by rw [hg] at hl; cases hl) (.inl rfl) fun l hl =>
        by cases hl

/-- A `moveFile` whose steps leave nothing behind has no temporary file or directory in a working directory at its
end. -/
theorem follows_moves (hsrc : norm cwd src ≠ env.home cwd → ¬ Reserved (env.home cwd) (norm cwd src))
    (hdest : ¬ Reserved (env.home cwd) (norm cwd dest)) :
    Follows (reclaimProto ι env cwd) i (moveFile env src dest fi) {} (fun g _ => g = {}) := by
  refine follows_dull_call (dull_quiet rfl) fun r => ?_
  cases r with
  | ok _ => rfl
  | error e =>
    refine Follows.bind (reclaim_precheck.mono fun g o hg => ?_)
    obtain ⟨rfl, hup⟩ := hg
    cases o with
    | throw e => rfl
    | stop x => trivial
    | ret pre =>
      have hup' := hup pre rfl
      dsimp only
      split
      · rfl
      refine follows_dull_call (dull_rename hup' hdest) fun r => ?_
      split
      · rfl
      · exact reclaim_copyAcross hup' (hsrc fun he => hup' (he ▸ List.suffix_refl _)) hdest
      · rfl

/-- A `sendFile`, for a source that is not reserved. -/
theorem follows_sends {req : SendFileRequest} (hsrc : ¬ Reserved (env.home cwd) (norm cwd req.filepath)) :
    Follows (reclaimProto ι env cwd) i (sendFile env req) {} (fun g _ => g = {}) := by
  refine follows_dull_call (dull_quiet rfl) fun rand => ?_
  have hid := (uuidText_plain rand).2.1
  have hpair : ∀ {ext : Str}, IsExt ext →
      ¬ Reserved (env.home cwd) (norm cwd (env.transferDir ++ '/' :: (uuidText rand ++ ext))) := by
    intro ext hx
    rw [norm_child transferDir_ne_nil (hx.plain hid), norm_transferDir]
    exact not_reserved_pair hx
  dsimp only [Proc.pure_eq, Proc.ret_bind]
  split
  · rfl
  refine follows_dull_call (dull_quiet rfl) fun allowed => ?_
  split
  · rfl
  refine follows_dull_call (dull_quiet rfl) fun r => ?_
  cases r with
  | error e => rfl
  | ok _ =>
    refine Follows.bind ((follows_dull (dull_startSend (hpair (.inl rfl)))).mono fun g o hg => ?_)
    subst hg
    cases o with
    | throw e => rfl
    | stop x => trivial
    | ret r =>
      cases r with
      | Bad_Request message => rfl
      | Ok fi =>
        refine Follows.handle (Follows.bind ((follows_moves (fun _ => hsrc) (hpair (.inr rfl))).mono fun g o hg => ?_))
        subst hg
        cases o with
        | ret u => rfl
        | stop x => trivial
        | throw e =>
          dsimp only
          split
          · exact follows_dull_call dull_unlink fun _ => rfl
          · rfl

/-- A `retrieveFile`, for a save path that is not reserved. -/
theorem follows_retrieves {req : RetrieveFileRequest} (hdest : ¬ Reserved (env.home cwd) (norm cwd req.savePath)) :
    Follows (reclaimProto ι env cwd) i (retrieveFile env req) {} (fun g _ => g = {}) := by
  obtain ⟨dir, t, hd, ht, hpath⟩ := pair_path env req.id
  have hpath' : ∀ ext, env.uploadDir ++ '/' :: (req.id ++ ext) = dir ++ '/' :: t ++ ext := fun ext => by
    rw [hpath, List.append_assoc, List.cons_append]
  have hcatch : ∀ e, Follows (reclaimProto ι env cwd) i (retrieveCatch env (dir ++ '/' :: t ++ DATA_EXT) e) {}
      (Ended (fun g => g = {}) fun g => g = {}) := fun e =>
    follows_retrieveCatch rfl fun _ _ => follows_dull (dull_endeaden ht (.inr rfl))
  have hend : Follows (reclaimProto ι env cwd) i (retrieveFile env req) {}
      (Ended (fun g => g = {}) fun g => g = {}) := by
    refine follows_retrieve (T := fun _ => True) (hpath' _).symm (hpath' _).symm rfl
      (follows_dull ⟨dull_quiet rfl, fun _ => trivial⟩) ((follows_dull (dull_readMeta ht)).mono fun g o hg => ?_)
      (fun tm _ _ => ((follows_moves (fun hne => ?_) hdest).mono fun g o hg => ?_)) fun g hg => ?_
    · subst hg
      cases o with
      | ret tm => exact ⟨rfl, trivial⟩
      | throw e => exact hcatch e
      | stop x => trivial
    · rw [List.append_assoc, List.cons_append, norm_child hd (IsExt.plain (.inr rfl) ht)] at hne ⊢
      exact not_reserved_ext (.inr rfl) hne
    · subst hg
      cases o with
      | ret u => rfl
      | throw e => exact hcatch e
      | stop x => trivial
    · subst hg
      exact follows_dull ⟨dull_unlink, fun _ => trivial⟩
  refine hend.mono fun g o hg => ?_
  cases o with
  | ret r => cases r <;> exact hg
  | throw e => exact hg
  | stop x => exact hg

end Rules

/-! ## Requests and a cleanup -/

/-- The path that a request to send or retrieve a file names. -/
def Request.path? : Request → Option Str
  | .send req => some req.filepath
  | .retrieve req => some req.savePath
  | _ => none

section Cleanup

variable {env : Env} {cwd : Loc} {maxAge : Int}

/-- A free name stays free in a cleanup. -/
theorem run_doCleanup_free {l : Loc} {w w' : World} {tr : List Ev} {o : Outcome Exn Unit}
    (h : Run Machine (doCleanup env maxAge) w tr o w') (hl : w.fs.node l = none) : w'.fs.node l = none := by
  refine Run.keeps (C := fun c : Call => ∀ ch w r w', c.op.exec ch w = some (r, w') → w.fs.node l = none →
    w'.fs.node l = none)
    (I := fun w => w.fs.node l = none) (fun c ch w r w' hc he => hc ch w r w' he) h
    (doCleanup_calls (fun s op hq ch w r w' he hl => ?_) fun s p ch w r w' he hl => ?_) hl
  · rw [exec_quiet hq he]
    exact hl
  · obtain ⟨fs, -, hr, rfl⟩ | ⟨e, -, rfl, -⟩ := exec_unlink he
    · rw [FS.node_unlink (FS.pathUnlink_ok hr).2, hl, ite_self]
    · exact hl

end Cleanup

/-- **Temporary files are reclaimed.** Requests to send or retrieve files, interleaved in any way and with any calls
failing, none of which names a reserved path, and that all come to an end: if their steps leave nothing behind, then
after any cleanup no name that `mkstemp` or `mkdtemp` made in a working directory is left there. -/
theorem temporaries_reclaimed {ι : Type} [DecidableEq ι] {env : Env} {maxAge : Int} {req : ι → Request} {w w' : World}
    {tr : History Calls Choice ι} {P' : Pool Calls World Exn Reply ι} {tr' : List Ev} {o : Outcome Exn Unit}
    (hx : Exec Machine (fun tr _ x => Reclaims env w.fs.cwd tr x.1 x.2) ⟨w, fun i => serve env (req i)⟩ tr P')
    (hhome : w.fs.isDir (env.home w.fs.cwd) = true)
    (hreq : ∀ i, ∃ p, (req i).path? = some p ∧ ¬ Reserved (env.home w.fs.cwd) (norm w.fs.cwd p))
    (hend : ∀ i, (P'.procs i).Finished ∨ ∀ e, (i, e) ∉ tr)
    (hclean : Run Machine (doCleanup env maxAge) P'.state tr' o w') :
    ∀ l, Made w.fs.cwd tr l → env.InBox w.fs.cwd l → w'.fs.node l = none := by
  have hfollows : ∀ i, Follows (reclaimProto ι env w.fs.cwd) i (serve env (req i)) {} (fun g _ => g = {}) := by
    intro i
    obtain ⟨p, hp, hres⟩ := hreq i
    have hreply : ∀ {α : Type} {prog : Prog α} {f : α → Reply},
        Follows (reclaimProto ι env w.fs.cwd) i prog {} (fun g _ => g = {}) →
        Follows (reclaimProto ι env w.fs.cwd) i (prog.bind fun a => .ret (f a)) {} (fun g _ => g = {}) := by
      intro α prog f hprog
      refine Follows.bind (hprog.mono fun g o hg => ?_)
      cases o with
      | ret a => exact hg
      | throw e => exact hg
      | stop x => trivial
    cases hr : req i with
    | send r =>
      rw [hr] at hp
      cases hp
      exact hreply (follows_sends hres)
    | retrieve r =>
      rw [hr] at hp
      cases hp
      exact hreply (follows_retrieves hres)
    | query topic => rw [hr] at hp; cases hp
    | info r => rw [hr] at hp; cases hp
    | metainfo uuid => rw [hr] at hp; cases hp
  obtain ⟨G, hI, hF⟩ := Exec.follows (R := reclaimProto ι env w.fs.cwd) (G := fun _ => {}) (Q := fun _ g _ => g = {}) hx
    ⟨rfl, hhome, fun l hl _ => absurd hl (by simp [Made]), fun _ _ h => (by cases h), fun _ _ => rfl⟩ hfollows
  have hI' : Tracked env w.fs.cwd tr P'.state G := hI
  -- a request that has come to an end, or not begun, has no temporary name
  have hnone : ∀ i, G i = {} := by
    intro i
    rcases hend i with (⟨a, ha⟩ | ⟨e, he⟩) | hnot
    · have := hF i
      rwa [ha] at this
    · have := hF i
      rwa [he] at this
    · exact hI'.fresh i hnot
  intro l hl hin
  obtain ⟨-, hfree | ⟨i, hi⟩⟩ := hI'.owned l hl hin
  · exact run_doCleanup_free hclean hfree
  · rw [hnone i] at hi
    rcases hi with hi | hi <;> cases hi

namespace Sample

/-- The file to send is on the other device. -/
def farFs : FS := fs.putFile "x".toList ["b".toList] ⟨[104, 105], true, 0, 0⟩

def far : World := { world with fs := farFs }

/-- A request to send it. -/
def sendFar : Pool Calls World Exn Reply Unit where
  state := far
  procs _ := serve (env noCodec) (.send ⟨[], "/b/x".toList, "t".toList, {}⟩)

/-- What the environment decides up to the opening of the copy: the names are those of the temporary directory and
file. -/
def sendChoices : List (Unit × Choice) :=
  [((), { rand := List.replicate 16 0 })] ++ List.replicate 16 ((), calm) ++
    [((), { pick := "aaaaaa".toList }), ((), calm), ((), { pick := "bbbbbb".toList })]

/-- A call of a request that leaves nothing behind. -/
def reclaimTest (e : Ev) : Bool :=
  decide (e.site ≠ .undo) && (!e.refused || (decide (e.site ≠ .park) && decide (e.site ≠ .publish) &&
    decide (e.site ≠ .rmdirParked) && decide (e.site ≠ .rmdirUndo)))

theorem reclaimTest_sound {env : Env} {cwd : Loc} {tr : History Calls Choice Unit} {i : Unit} {e : Ev}
    (h : reclaimTest e = true) : Reclaims env cwd tr i e := by
  simp only [reclaimTest, Bool.and_eq_true, Bool.or_eq_true, Bool.not_eq_true', decide_eq_true_eq] at h
  obtain ⟨hundo, hother⟩ := h
  have hsite : ∀ {s op}, e.call = ⟨s, op⟩ → e.site = s := fun hc => congrArg Call.site hc
  refine ⟨fun p q hc _ => ?_, fun p q hc _ => ?_, fun s p hs hc _ => ?_, fun hs => absurd hs hundo⟩
  · exact hother.resolve_right fun h => h.1.1.1 (hsite hc)
  · exact hother.resolve_right fun h => h.1.1.2 (hsite hc)
  · rcases hs with rfl | rfl
    · exact hother.resolve_right fun h => h.1.2 (hsite hc)
    · exact hother.resolve_right fun h => h.2 (hsite hc)

/-- The request has returned. -/
def returned (P : Pool Calls World Exn Reply Unit) : Bool := match P.procs () with
  | .ret _ => true
  | _ => false

theorem returned_sound {P : Pool Calls World Exn Reply Unit} (h : returned P = true) (i : Unit) :
    (P.procs i).Finished := by
  unfold returned at h
  split at h
  · rename_i r hr
    exact .inl ⟨r, hr⟩
  · cases h

/-- What the environment decides in a cleanup much later, with `n` calls about the entries of `transfers`. -/
def cleanupChoices (n : Nat) (w : World) : List Choice :=
  let later : Choice := { ticks := fun _ => 1000 }
  let list (d : String) : Choice := { later with order := [['.'], ['.', '.']] ++ w.fs.children [d.toList, "w".toList] }
  [later, list "transfers"] ++ List.replicate n later ++
    [later, list "uploads", later, list "upgrades", later, list "dead"]

/-- The temporary file of the copy. -/
def tempFile : Str := "/w/transfers/file_move_bbbbbb".toList

/-- It was made in `transfers`. -/
theorem made_tempFile {tr : History Calls Choice Unit}
    (h : (tr.any fun x => decide (x.2.call.op.made x.2.res = some tempFile)) = true) :
    Made far.fs.cwd tr (norm far.fs.cwd tempFile) ∧ (env noCodec).InBox far.fs.cwd (norm far.fs.cwd tempFile) := by
  obtain ⟨x, hx, hm⟩ := List.any_eq_true.1 h
  exact ⟨⟨x, hx, tempFile, of_decide_eq_true hm, rfl⟩, by decide +kernel⟩

end Sample

/-- The file is sent, and its temporary file, which was in `transfers`, is gone. -/
theorem temporaries_reclaimed_sample : ∃ tr P' tr' w',
    Exec Machine (fun tr _ x => Reclaims (Sample.env Sample.noCodec) Sample.far.fs.cwd tr x.1 x.2)
      Sample.sendFar tr P' ∧
    Run Machine (doCleanup (Sample.env Sample.noCodec) 100) P'.state tr' (.ret ()) w' ∧
    Made Sample.far.fs.cwd tr (norm Sample.far.fs.cwd Sample.tempFile) ∧
    w'.fs.node (norm Sample.far.fs.cwd Sample.tempFile) = none := by
  have h : (Pool.exec? Machine (fun _ x => Sample.reclaimTest x.2) Sample.sendFar
        (Sample.sendChoices ++ List.replicate 13 ((), Sample.calm))).map (fun x => Sample.returned x.2 &&
          (x.1.any fun y => decide (y.2.call.op.made y.2.res = some Sample.tempFile)) &&
          match exec? Machine (doCleanup (Sample.env Sample.noCodec) 100)
          (Sample.cleanupChoices 5 x.2.state) x.2.state with
            | some y => decide (y.2.1 = .ret ())
            | none => false) = some true := by decide +kernel
  obtain ⟨⟨tr, P'⟩, hx, he⟩ := Option.map_eq_some_iff.1 h
  simp only [Bool.and_eq_true] at he
  obtain ⟨⟨hret, hmade⟩, hclean⟩ := he
  split at hclean
  swap
  · cases hclean
  rename_i y hy
  have hrun := exec?_sound hy
  rw [of_decide_eq_true hclean] at hrun
  obtain ⟨hm, hin⟩ := Sample.made_tempFile hmade
  have hexec :
      Exec Machine (fun tr _ x => Reclaims (Sample.env Sample.noCodec) Sample.far.fs.cwd tr x.1 x.2) Sample.sendFar
      tr P' := (Pool.exec?_sound (fun _ _ hc => hc) hx).mono fun _ _ _ hc => Sample.reclaimTest_sound hc
  have hreserved :
      ¬ Reserved ((Sample.env Sample.noCodec).home Sample.far.fs.cwd) (norm Sample.far.fs.cwd "/b/x".toList) := by
    have hout : ¬ (Sample.env Sample.noCodec).home Sample.far.fs.cwd <:+ norm Sample.far.fs.cwd "/b/x".toList := by
      decide +kernel
    rintro (he | ⟨x, -, he⟩ | ht)
    · exact hout (he ▸ List.suffix_refl _)
    · exact hout (he ▸ List.suffix_cons _ _)
    · exact hout ht.below
  refine ⟨tr, P', _, _, hexec, hrun, hm, ?_⟩
  exact temporaries_reclaimed hexec (by decide +kernel)
    (fun _ => ⟨_, rfl, hreserved⟩) (fun i => .inl (Sample.returned_sound hret i)) hrun _ hm hin

/-- After the copy could not be opened for lack of descriptors its temporary file stays in `transfers`, also when a
cleanup without failing calls comes long after. -/
theorem temporaries_stay : ∃ tr P' tr' w',
    Exec Machine (fun _ _ _ => True) Sample.sendFar tr P' ∧ (P'.procs ()).Finished ∧
    Run Machine (doCleanup (Sample.env Sample.noCodec) 100) P'.state tr' (.ret ()) w' ∧
    (∀ y ∈ tr', Ev.refused y = false) ∧
    (∀ x ∈ tr, ∀ y ∈ tr', x.2.choice.ticks 0 + 100 < y.choice.ticks 0) ∧
    ∃ l, Made Sample.far.fs.cwd tr l ∧ (Sample.env Sample.noCodec).InBox Sample.far.fs.cwd l ∧ w'.fs.node l ≠ none := by
  have h : (Pool.exec? Machine (fun _ _ => true) Sample.sendFar (Sample.sendChoices ++ ((), { err := some .EMFILE }) ::
        List.replicate 3 ((), Sample.calm))).map (fun x => Sample.returned x.2 &&
          (x.1.any fun y => decide (y.2.call.op.made y.2.res = some Sample.tempFile)) &&
          match exec? Machine (doCleanup (Sample.env Sample.noCodec) 100)
          (Sample.cleanupChoices 1 x.2.state) x.2.state with
            | some y => decide (y.2.1 = .ret ()) && (y.1.all fun e => !Ev.refused e) &&
                (x.1.all fun e => y.1.all fun e' => decide (e.2.choice.ticks 0 + 100 < e'.choice.ticks 0)) &&
                decide (y.2.2.fs.node (norm Sample.far.fs.cwd Sample.tempFile) ≠ none)
            | none => false) = some true := by decide +kernel
  obtain ⟨⟨tr, P'⟩, hx, he⟩ := Option.map_eq_some_iff.1 h
  simp only [Bool.and_eq_true] at he
  obtain ⟨⟨hret, hmade⟩, hclean⟩ := he
  split at hclean
  swap
  · cases hclean
  rename_i y hy
  simp only [Bool.and_eq_true, List.all_eq_true, decide_eq_true_eq, Bool.not_eq_true'] at hclean
  obtain ⟨⟨⟨ho, hcalm⟩, hlater⟩, hstays⟩ := hclean
  have hrun := exec?_sound hy
  rw [ho] at hrun
  obtain ⟨hm, hin⟩ := Sample.made_tempFile hmade
  exact ⟨tr, P', _, _, Pool.exec?_sound (fun _ _ _ => trivial) hx, Sample.returned_sound hret (), hrun,
    hcalm, hlater, _, hm, hin,
    hstays⟩

end OortAgent
