import OortAgent.MoveRun
import OortAgent.Pair

/-!
# At most one client gets a file

Any number of `retrieve_file` requests for one id, in any interleaving and with any of their calls failing. Whoever
renames the data file away, to its save path or to a parking place, owns it until the handler puts it back; the
invariant is that there is at most one owner, and that while there is one the name of the data file is free.

* `Tame`: a call that neither binds that name nor takes the working directory away.
* `follows_moveFile`: a `moveFile` that returns owns the file.
* `retrieve_at_most_one`: at most one request returns `Ok`.
-/

namespace OortAgent

open Lib

/-- A step of the filesystem that leaves the directory `d` and the free name `a` alone. -/
structure Tame (d a : Loc) (fs fs' : FS) : Prop where
  cwd : fs'.cwd = fs.cwd
  dir : fs.isDir d = true → fs'.isDir d = true
  free : fs.isDir d = true → fs.node a = none → fs'.node a = none

section Tame

variable {d a : Loc} {fs fs' : FS} {p q : Str}

theorem Tame.refl : Tame d a fs fs := ⟨rfl, id, fun _ h => h⟩

theorem tame_unlink (h : fs.pathUnlink p = .ok fs') : Tame d a fs fs' := by
  obtain ⟨-, h⟩ := FS.pathUnlink_ok h
  obtain ⟨-, -, hcwd⟩ := FS.unlink_frame h
  have hn := FS.node_unlink h
  obtain ⟨i, hi, -⟩ := FS.unlink_ok h
  refine ⟨hcwd, fun hd => ?_, fun _ ha => by rw [hn]; split <;> simp [ha]⟩
  have : d ≠ norm fs.cwd p := by rintro rfl; simp [FS.isDir, hi] at hd
  rw [FS.isDir, hn, if_neg this]
  exact hd

theorem tame_rmdir (h : fs.pathRmdir p = .ok fs') (hp : norm fs.cwd p ≠ d) : Tame d a fs fs' := by
  obtain ⟨-, h⟩ := FS.pathRmdir_ok h
  obtain ⟨-, -, hcwd⟩ := FS.rmdir_frame h
  have hn := FS.node_rmdir h
  refine ⟨hcwd, fun hd => ?_, fun _ ha => by rw [hn]; split <;> simp [ha]⟩
  rw [FS.isDir, hn, if_neg (Ne.symm hp)]
  exact hd

theorem tame_mkdtemp {tmpl pick : Str} (h : fs.mkdtemp tmpl pick = some (.ok (p, fs'))) (hp : norm fs.cwd p ≠ a) :
    Tame d a fs fs' := by
  obtain ⟨-, -, -, hfree, hm⟩ := FS.mkdtemp_ok h
  obtain ⟨n, l, v, hl, hv, -, rfl⟩ := FS.mkdir_ok hm
  rw [hl] at hfree hp
  have hn := FS.node_putDir (w := true) (v := v) (FS.isDir_iff.2 ⟨v, true, hv⟩) hfree
  refine ⟨by simp, fun hd => ?_, fun _ ha => by rw [hn, if_neg (Ne.symm hp), ha]⟩
  have : d ≠ n :: l := by rintro rfl; simp [FS.isDir, hfree] at hd
  rw [FS.isDir, hn, if_neg this]
  exact hd

theorem tame_added {t : Loc} {x : Inode} (h : Added fs fs' t x) (ht : t ≠ a) : Tame d a fs fs' := by
  refine ⟨h.cwd, fun hd => ?_, fun _ ha => by rw [h.node, if_neg (Ne.symm ht), ha]⟩
  have : d ≠ t := by rintro rfl; simp [FS.isDir, h.free] at hd
  rw [FS.isDir, h.node, if_neg this]
  exact hd

/-- A rename to a name that is not at or above `a` unless it is above `d`. -/
theorem tame_rename (h : fs.pathRename p q = .ok fs') (hp : ¬ norm fs.cwd p <:+ d) (hqd : norm fs.cwd q ≠ d)
    (hqa : norm fs.cwd q ≠ a) (hs : norm fs.cwd q <:+ a → norm fs.cwd q <:+ norm fs.cwd p ∨ norm fs.cwd q <:+ d) :
    Tame d a fs fs' := by
  obtain ⟨-, -, h⟩ := FS.pathRename_ok h
  refine ⟨FS.rename_cwd h, fun hd => FS.isDir_rename h hd hp hqd, fun hd ha => ?_⟩
  refine FS.free_rename h ha (Ne.symm hqa) fun _ hba hc hqa' => ?_
  rcases hs hqa' with hs | ⟨s, hs⟩
  · exact hba hs
  · -- the directory `d` is below the target, which is therefore not empty
    have hs0 : s ≠ [] := by rintro rfl; exact hqd hs
    have := FS.node_below_empty hc hs0
    rw [hs] at this
    simp [FS.isDir, this] at hd

/-- A call that changes no name. -/
theorem tame_node (hcwd : fs'.cwd = fs.cwd) (hn : ∀ l, fs'.node l = fs.node l) : Tame d a fs fs' :=
  ⟨hcwd, fun hd => by rw [FS.isDir, hn]; exact hd, fun _ ha => by rw [hn, ha]⟩

end Tame

/-! ## The protocol -/

/-- At most one process has the file, and while one has it the name `a` is free. -/
def tokenProto (ι : Type) (cwd d a : Loc) : Proto Calls World Choice ι Bool where
  sem := Machine
  ok _ _ _ := True
  inv _ w G := w.fs.cwd = cwd ∧ w.fs.isDir d = true ∧ (∀ i j, G i = true → G j = true → i = j) ∧
    ∀ i, G i = true → w.fs.node a = none

/-- A call that is tame in every world. -/
def TameCall (cwd d a : Loc) (c : Call) : Prop :=
  ∀ ch w r w', c.op.exec ch w = some (r, w') → w.fs.cwd = cwd → Tame d a w.fs w'.fs

section Rules

variable {ι : Type} {cwd d a : Loc} {i : ι} {α : Type}

theorem tokenProto_tame {tr tr' : History Calls Choice ι} {w w' : World} {G : ι → Bool}
    (h : (tokenProto ι cwd d a).inv tr w G) (ht : Tame d a w.fs w'.fs) : (tokenProto ι cwd d a).inv tr' w' G :=
  ⟨ht.cwd.trans h.1, ht.dir h.2.1, h.2.2.1, fun i hi => ht.free h.2.1 (h.2.2.2 i hi)⟩

variable [DecidableEq ι]

/-- A program of tame calls keeps what it has. -/
theorem follows_tame {p : Prog α} {g : Bool} (hp : p.Calls (TameCall cwd d a)) :
    Follows (tokenProto ι cwd d a) i p g (fun g' _ => g' = g) :=
  Follows.quiet (fun _ _ _ _ _ _ _ hc hI he _ => tokenProto_tame hI (hc _ _ _ _ he hI.1)) hp

/-- One tame call. -/
theorem follows_tame_call {s : Site} {op : Op} {k : op.Res → Prog α} {g : Bool} {Q : Bool → Outcome Exn α → Prop}
    (hc : TameCall cwd d a ⟨s, op⟩) (hk : ∀ r, Follows (tokenProto ι cwd d a) i (k r) g Q) :
    Follows (tokenProto ι cwd d a) i ((sys s op).bind k) g Q := by
  refine follows_call.2 fun tr w G ch r w' hI hg he _ => ⟨g, ?_, hk r⟩
  rw [← hg, Function.update_eq_self]
  exact tokenProto_tame hI (hc _ _ _ _ he hI.1)

theorem tameCall_quiet {c : Call} (h : c.op.quiet = true) : TameCall cwd d a c := fun _ _ _ _ he _ =>
  tame_node (by rw [exec_quiet h he]) fun l => by rw [exec_quiet h he]

end Rules

/-! ## The calls of a request

The two files of the pair are the entries `t.data.oort` and `t.meta.oort` of the directory `dir`, somewhere below
`uploads`. -/

section Pair

variable {env : Env} {cwd : Loc} {dir t dest : Str}

/-- The location of the data file. -/
def dataLoc (cwd : Loc) (dir t : Str) : Loc := (t ++ DATA_EXT) :: norm cwd dir

theorem suffix_length {l k : Loc} (h : k.length < l.length) : ¬ l <:+ k := fun hs => by
  have := hs.length_le
  omega

/-- The directory of the pair is below the working directory. -/
theorem home_length (hin : "uploads".toList :: env.home cwd <:+ norm cwd dir) :
    (env.home cwd).length < (norm cwd dir).length := by
  have := hin.length_le
  simp at this
  omega

/-- The quarantine renames are tame. -/
theorem tameCall_endeaden (hd : dir ≠ []) (ht : '/' ∉ t) (hin : "uploads".toList :: env.home cwd <:+ norm cwd dir)
    {site : Site} {ext : Str} (hx : IsExt ext) :
    TameCall cwd (env.home cwd) (dataLoc cwd dir t)
      ⟨site, .rename (dir ++ '/' :: t ++ ext) (env.deadletterDir ++ '/' :: tailname (dir ++ '/' :: t ++ ext))⟩ := by
  intro ch w r w' he hcwd
  have hpl := hx.plain ht
  have hlen := home_length hin
  have hp : norm cwd (dir ++ '/' :: t ++ ext) = (t ++ ext) :: norm cwd dir := by
    rw [List.append_assoc, List.cons_append, norm_child hd hpl]
  have hq : norm cwd (env.deadletterDir ++ '/' :: tailname (dir ++ '/' :: t ++ ext)) =
      (t ++ ext) :: "dead".toList :: env.home cwd := by
    rw [List.append_assoc, List.cons_append, tailname_child hpl.2.2.2, norm_child deadletterDir_ne_nil hpl,
      norm_deadletterDir]
  have hqa : (t ++ ext) :: "dead".toList :: env.home cwd ≠ dataLoc cwd dir t := by
    intro e
    have h₁ : "dead".toList :: env.home cwd = norm cwd dir := (List.cons.inj e).2
    rw [← h₁] at hin
    have := hin.eq_of_length rfl
    simp at this
  obtain ⟨fs, -, -, hr, rfl⟩ | ⟨e, -, rfl, -⟩ := exec_rename he
  swap
  · exact .refl
  refine tame_rename hr ?_ ?_ ?_ ?_ <;> rw [hcwd]
  · rw [hp]
    exact suffix_length (by simp; omega)
  · rw [hq]
    intro e
    have := congrArg List.length e
    simp at this
    omega
  · rw [hq]
    exact hqa
  · rw [hp, hq]
    intro hs
    rcases List.suffix_cons_iff.1 hs with e | hs
    · exact absurd e hqa
    · exact .inl (hs.trans (List.suffix_cons _ _))

theorem endeaden_tame (hd : dir ≠ []) (ht : '/' ∉ t) (hin : "uploads".toList :: env.home cwd <:+ norm cwd dir)
    {ext : Str} (hx : IsExt ext) :
    (endeaden env (dir ++ '/' :: t ++ ext)).Calls (TameCall cwd (env.home cwd) (dataLoc cwd dir t)) :=
  endeaden_calls hx fun _ _ he => tameCall_endeaden hd ht hin he

/-- Reading the metadata is tame. -/
theorem readTransferMetaCached_tame (hd : dir ≠ []) (ht : '/' ∉ t)
    (hin : "uploads".toList :: env.home cwd <:+ norm cwd dir) :
    (readTransferMetaCached env (dir ++ '/' :: t ++ META_EXT)).Calls
      (TameCall cwd (env.home cwd) (dataLoc cwd dir t)) :=
  cacheGet_calls (fun _ h => tameCall_quiet h) (readTransferMeta_calls (tameCall_quiet rfl)
    (fun _ _ _ => tameCall_quiet rfl) (endeaden_tame hd ht hin (.inl rfl)))

/-- The end of a copy is tame, if the copy is not above the working directory. -/
theorem publishCopy_tame {tmpdir dtname : Str} (hin : "uploads".toList :: env.home cwd <:+ norm cwd dir)
    (hout : Outside env cwd dest) (hdt : ¬ norm cwd dtname <:+ env.home cwd) (htmp : norm cwd tmpdir ≠ env.home cwd) :
    (publishCopy tmpdir dest dtname).Calls (TameCall cwd (env.home cwd) (dataLoc cwd dir t)) := by
  have hhome : env.home cwd <:+ dataLoc cwd dir t :=
    (List.suffix_cons _ _).trans (hin.trans (List.suffix_cons _ _))
  refine calls_call.2 ⟨?_, fun _ => calls_call.2 ⟨?_, fun _ => calls_call.2 ⟨?_, fun _ => trivial⟩⟩⟩
  · intro ch w r w' he hcwd
    obtain ⟨fs, -, -, hr, rfl⟩ | ⟨e, -, rfl, -⟩ := exec_rename he
    · refine tame_rename hr ?_ ?_ ?_ ?_ <;> rw [hcwd]
      · exact hdt
      · intro e
        exact hout (e ▸ List.suffix_refl _)
      · intro e
        exact hout (e ▸ hhome)
      · intro hs
        exact .inr ((List.suffix_or_suffix_of_suffix hs hhome).resolve_right hout)
    · exact .refl
  · intro ch w r w' he _
    obtain ⟨fs, -, hr, rfl⟩ | ⟨e, -, rfl, -⟩ := exec_unlink he
    · exact tame_unlink hr
    · exact .refl
  · intro ch w r w' he hcwd
    obtain ⟨fs, -, hr, rfl⟩ | ⟨e, -, rfl⟩ := exec_rmdir he
    · exact tame_rmdir hr (by rw [hcwd]; exact htmp)
    · exact .refl

theorem tameCall_write {s : Site} {j : Ino} {b : Bytes} {d a : Loc} : TameCall cwd d a ⟨s, .write j b⟩ := by
  intro ch w r w' he _
  obtain ⟨n, -, -, -, -, rfl⟩ | ⟨e, -, rfl, -⟩ := exec_write he
  · exact tame_node rfl fun _ => rfl
  · exact .refl

end Pair

/-! ## Owning the file -/

section Follows

variable {ι : Type} [DecidableEq ι] {i : ι} {env : Env} {cwd : Loc} {dir t dest tmpdir : Str} {fi : FileInfo}

/-- The `try` block keeps the file. -/
theorem follows_copyParked {blksize : Int} (hin : "uploads".toList :: env.home cwd <:+ norm cwd dir)
    (hout : Outside env cwd dest) (htmp : norm cwd tmpdir ≠ env.home cwd) :
    Follows (tokenProto ι cwd (env.home cwd) (dataLoc cwd dir t)) i (copyParked env tmpdir dest fi blksize) true
      (fun g _ => g = true) := by
  refine follows_call.2 fun tr w G ch r w' hI hg he _ => ⟨true, ?_⟩
  have hG : Function.update G i true = G := by rw [← hg, Function.update_eq_self]
  rw [hG]
  obtain ⟨dtname, j, fs, rfl, hm, rfl⟩ | ⟨e, rfl, rfl⟩ := exec_mkstemp he
  swap
  · exact ⟨hI, rfl⟩
  obtain ⟨hpick, rfl, -⟩ := FS.mkstemp_ok hm
  obtain ⟨-, hadd⟩ := added_of_mkstemp hm
  rw [hI.1] at hadd
  obtain ⟨l, hl⟩ := norm_picked cwd (dirname dest) hpick
  refine ⟨tokenProto_tame hI (tame_added hadd ?_), ?_⟩
  · rw [hl]
    intro e
    exact picked_ne_ext hpick (.inr rfl) (List.cons.inj e).1
  · refine follows_tame (copyInto_calls (fun s op h => tameCall_quiet h) (fun _ => tameCall_write)
      (publishCopy_tame hin hout ?_ htmp))
    -- the working directory is there, so its name and those above it were not free
    rintro ⟨s, hs⟩
    have hfree := hadd.free
    by_cases hs0 : s = []
    · have := hI.2.1
      rw [← hs, hs0, List.nil_append, FS.isDir, hfree] at this
      cases this
    · obtain ⟨v, x, hv⟩ := FS.isDir_iff.1 hI.2.1
      have := FS.isDir_of_suffix (d := norm cwd _) (by rw [hs, hv]; simp) hs0
      rw [FS.isDir, hfree] at this
      cases this

/-- Putting the file back gives it up. -/
theorem follows_undoPark {e : Exn} (hd : dir ≠ []) (ht : '/' ∉ t)
    (hin : "uploads".toList :: env.home cwd <:+ norm cwd dir)
    (htmp : ∃ n, norm cwd (parkedName tmpdir) = parkedEntry :: n :: norm cwd dir ∧
      norm cwd tmpdir = n :: norm cwd dir) :
    Follows (tokenProto ι cwd (env.home cwd) (dataLoc cwd dir t)) i
      (undoPark (dir ++ '/' :: t ++ DATA_EXT) tmpdir e) true (fun _ o => o = .throw e) := by
  obtain ⟨n, hpk, htm⟩ := htmp
  have hlen := home_length hin
  have hsrc : norm cwd (dir ++ '/' :: t ++ DATA_EXT) = dataLoc cwd dir t := by
    rw [List.append_assoc, List.cons_append, norm_child hd (IsExt.plain (.inr rfl) ht), dataLoc]
  refine follows_call.2 fun tr w G ch r w' hI hg he _ => ⟨false, ?_, ?_⟩
  · -- nobody else had it
    have hnone : ∀ j, Function.update G i false j ≠ true := by
      intro j hj
      by_cases hji : j = i
      · rw [hji, Function.update_self] at hj
        cases hj
      · rw [Function.update_of_ne hji] at hj
        exact hji (hI.2.2.1 j i hj hg)
    obtain ⟨fs, -, -, hr, rfl⟩ | ⟨e, -, rfl, -⟩ := exec_rename he
    · obtain ⟨-, -, hr⟩ := FS.pathRename_ok hr
      rw [hI.1, hpk, hsrc] at hr
      refine ⟨(FS.rename_cwd hr).trans hI.1, FS.isDir_rename hr hI.2.1 (suffix_length (by simp; omega)) ?_,
        fun j _ hj => absurd hj (hnone j), fun j hj => absurd hj (hnone j)⟩
      intro e
      have := congrArg List.length e
      simp [dataLoc] at this
      omega
    · exact ⟨hI.1, hI.2.1, fun j _ hj => absurd hj (hnone j), fun j hj => absurd hj (hnone j)⟩
  · refine follows_tame_call (fun ch w r w' he hcwd => ?_) fun _ => rfl
    obtain ⟨fs, -, hr, rfl⟩ | ⟨e, -, rfl⟩ := exec_rmdir he
    · refine tame_rmdir hr ?_
      rw [hcwd, htm]
      intro e
      have := congrArg List.length e
      simp at this
      omega
    · exact .refl

/-- Taking the file: a rename of it that succeeds makes its process the owner. -/
theorem tokenProto_take {tr tr' : History Calls Choice ι} {w : World} {G : ι → Bool} {fs : FS} {b : Loc}
    (hin : "uploads".toList :: env.home cwd <:+ norm cwd dir)
    (hI : (tokenProto ι cwd (env.home cwd) (dataLoc cwd dir t)).inv tr w G)
    (hr : w.fs.rename (dataLoc cwd dir t) b = .ok fs) (hb : b ≠ env.home cwd) (hab : dataLoc cwd dir t ≠ b) :
    (tokenProto ι cwd (env.home cwd) (dataLoc cwd dir t)).inv tr' { w with fs } (Function.update G i true) := by
  have hlen := home_length hin
  -- the file was there, so nobody had it
  have hnone : ∀ j, G j ≠ true := fun j hj => FS.rename_src hr (hI.2.2.2 j hj)
  refine ⟨(FS.rename_cwd hr).trans hI.1, FS.isDir_rename hr hI.2.1 (suffix_length (by simp [dataLoc]; omega)) hb,
    fun j k hj hk => ?_, fun _ _ => FS.rename_frees hr hab⟩
  have : ∀ j, Function.update G i true j = true → j = i := fun j hj => by
    by_contra hji
    rw [Function.update_of_ne hji] at hj
    exact hnone j hj
  rw [this j hj, this k hk]

/-- A copy that returns has the file. -/
theorem follows_parkAndCopy {blksize : Int} (hd : dir ≠ []) (ht : '/' ∉ t)
    (hin : "uploads".toList :: env.home cwd <:+ norm cwd dir) (hout : Outside env cwd dest)
    (htmp : ∃ n, norm cwd (parkedName tmpdir) = parkedEntry :: n :: norm cwd dir ∧
      norm cwd tmpdir = n :: norm cwd dir) :
    Follows (tokenProto ι cwd (env.home cwd) (dataLoc cwd dir t)) i
      (parkAndCopy env (dir ++ '/' :: t ++ DATA_EXT) dest fi blksize tmpdir) false
      (fun g o => ∀ u, o = .ret u → g = true) := by
  have hlen := home_length hin
  have hsrc : norm cwd (dir ++ '/' :: t ++ DATA_EXT) = dataLoc cwd dir t := by
    rw [List.append_assoc, List.cons_append, norm_child hd (IsExt.plain (.inr rfl) ht), dataLoc]
  obtain ⟨n, hpk, htm⟩ := htmp
  have hhome : ∀ l : Loc, (env.home cwd).length < l.length → l ≠ env.home cwd := by
    rintro l hl rfl
    exact lt_irrefl _ hl
  refine follows_call.2 fun tr w G ch r w' hI hg he _ => ?_
  obtain ⟨fs, rfl, -, hr, rfl⟩ | ⟨e, rfl, rfl, -⟩ := exec_rename he
  swap
  · refine ⟨false, ?_, fun u hu => by cases hu⟩
    rwa [← hg, Function.update_eq_self]
  obtain ⟨-, -, hr⟩ := FS.pathRename_ok hr
  rw [hI.1, hpk, hsrc] at hr
  refine ⟨true, tokenProto_take hin hI hr (hhome _ (by simp; omega)) ?_, ?_⟩
  · intro e
    have := congrArg List.length e
    simp [dataLoc] at this
  · refine Follows.handle ((follows_copyParked hin hout (hhome _ (by rw [htm]; simp; omega))).mono fun g o hg' => ?_)
    subst hg'
    cases o with
    | ret u => exact fun _ _ => rfl
    | throw e => exact (follows_undoPark hd ht hin ⟨n, hpk, htm⟩).mono fun g o ho u hu => by rw [ho] at hu; cases hu
    | stop x => trivial

theorem follows_copyAcross (hd : dir ≠ []) (ht : '/' ∉ t) (hin : "uploads".toList :: env.home cwd <:+ norm cwd dir)
    (hout : Outside env cwd dest) :
    Follows (tokenProto ι cwd (env.home cwd) (dataLoc cwd dir t)) i
      (copyAcross env (dir ++ '/' :: t ++ DATA_EXT) dest fi) false (fun g o => ∀ u, o = .ret u → g = true) := by
  have hpl : Plain (t ++ DATA_EXT) := IsExt.plain (.inr rfl) ht
  have hdir : dirname (dir ++ '/' :: t ++ DATA_EXT) = dir := by
    rw [List.append_assoc, List.cons_append, dirname_child hpl.2.2.2]
  unfold copyAcross
  refine follows_tame_call (tameCall_quiet rfl) fun srcvfs => ?_
  refine follows_tame_call (tameCall_quiet rfl) fun destvfs => ?_
  generalize checkDiskFree env fi.size destvfs.2 = space
  cases space with
  | false => exact fun u hu => by cases hu
  | true =>
    refine follows_call.2 fun tr w G ch r w' hI hg he _ => ⟨false, ?_⟩
    have hG : Function.update G i false = G := by rw [← hg, Function.update_eq_self]
    rw [hG]
    obtain ⟨tmpdir, fs, rfl, hm, rfl⟩ | ⟨e, rfl, rfl⟩ := exec_mkdtemp he
    swap
    · exact ⟨hI, trivial⟩
    obtain ⟨hpick, htmp, -⟩ := FS.mkdtemp_ok hm
    have hloc : norm cwd tmpdir = ("file_move_".toList ++ ch.pick) :: norm cwd dir := by
      rw [htmp, fromTemplate_moveTemplate, hdir, norm_child hd (picked_plain hpick)]
    refine ⟨tokenProto_tame hI (tame_mkdtemp hm ?_), follows_parkAndCopy hd ht hin hout ⟨_, ?_, hloc⟩⟩
    · rw [hI.1, hloc]
      intro e
      exact picked_ne_ext hpick (.inr rfl) (List.cons.inj e).1
    · rw [norm_parkedName (htmp ▸ fromTemplate_ne_nil), hloc]

/-- A `moveFile` of the data file that returns has the file. -/
theorem follows_moveFile (hd : dir ≠ []) (ht : '/' ∉ t) (hin : "uploads".toList :: env.home cwd <:+ norm cwd dir)
    (hout : Outside env cwd dest) :
    Follows (tokenProto ι cwd (env.home cwd) (dataLoc cwd dir t)) i
      (moveFile env (dir ++ '/' :: t ++ DATA_EXT) dest fi) false (fun g o => ∀ u, o = .ret u → g = true) := by
  have hsrc : norm cwd (dir ++ '/' :: t ++ DATA_EXT) = dataLoc cwd dir t := by
    rw [List.append_assoc, List.cons_append, norm_child hd (IsExt.plain (.inr rfl) ht), dataLoc]
  have hhome : env.home cwd <:+ dataLoc cwd dir t :=
    (List.suffix_cons _ _).trans (hin.trans (List.suffix_cons _ _))
  refine follows_tame_call (tameCall_quiet rfl) fun r => ?_
  cases r with
  | ok _ => exact fun u hu => by cases hu
  | error e =>
    refine Follows.bind ((follows_tame ((fileInfo_calls _).mono fun c hc =>
      tameCall_quiet (quiet_of_looks hc.2))).mono fun g o hg => ?_)
    subst hg
    cases o with
    | throw e => exact fun u hu => by cases hu
    | stop x => trivial
    | ret pre =>
      dsimp only
      split
      · exact fun u hu => by cases hu
      refine follows_call.2 fun tr w G ch r w' hI hg he _ => ?_
      obtain ⟨fs, rfl, -, hr, rfl⟩ | ⟨e, rfl, rfl, -⟩ := exec_rename he
      · obtain ⟨-, -, hr⟩ := FS.pathRename_ok hr
        rw [hI.1, hsrc] at hr
        refine ⟨true, tokenProto_take hin hI hr ?_ ?_, fun _ _ => rfl⟩
        · intro e
          exact hout (e ▸ List.suffix_refl _)
        · intro e
          exact hout (e ▸ hhome)
      · refine ⟨false, by rwa [← hg, Function.update_eq_self], ?_⟩
        split
        · exact fun _ _ => by contradiction
        · exact follows_copyAcross hd ht hin hout
        · exact fun u hu => by cases hu

/-- The `try` block of a request: if it gives an `Ok`, the file is taken. -/
theorem follows_retrieveMove (hd : dir ≠ []) (ht : '/' ∉ t) (hin : "uploads".toList :: env.home cwd <:+ norm cwd dir)
    (hout : Outside env cwd dest) :
    Follows (tokenProto ι cwd (env.home cwd) (dataLoc cwd dir t)) i
      (retrieveMove env (dir ++ '/' :: t ++ DATA_EXT) (dir ++ '/' :: t ++ META_EXT) dest) false
      (fun g o => ∀ fi, o = .ret (.Ok fi) → g = true) := by
  -- the handlers never give an `Ok`
  have hcatch : ∀ (e : Exn) (g : Bool), Follows (tokenProto ι cwd (env.home cwd) (dataLoc cwd dir t)) i
      (retrieveCatch env (dir ++ '/' :: t ++ DATA_EXT) e) g (fun g o => ∀ fi, o = .ret (.Ok fi) → g = true) := by
    intro e g
    unfold retrieveCatch
    split
    · exact fun _ h => by cases h
    split
    · refine Follows.bind ((follows_tame (endeaden_tame hd ht hin (.inr rfl))).mono fun g o _ => ?_)
      cases o with
      | ret u => exact fun _ h => by cases h
      | throw e => exact fun _ h => by cases h
      | stop x => trivial
    · exact fun _ h => by cases h
  refine Follows.handle (Follows.bind ((follows_tame (readTransferMetaCached_tame hd ht hin)).mono fun g o hg => ?_))
  subst hg
  cases o with
  | throw e => exact hcatch e _
  | stop x => trivial
  | ret tm =>
    refine Follows.bind ((follows_moveFile hd ht hin hout).mono fun g o hg => ?_)
    cases o with
    | ret u => exact fun _ _ => hg u rfl
    | throw e => exact hcatch e _
    | stop x => trivial

/-- A request that returns `Ok` has the file. -/
theorem follows_retrieveFile {id : Str} (hd : dir ≠ []) (ht : '/' ∉ t)
    (hin : "uploads".toList :: env.home cwd <:+ norm cwd dir) (hout : Outside env cwd dest)
    (hpath : ∀ ext, env.uploadDir ++ '/' :: (id ++ ext) = dir ++ '/' :: (t ++ ext)) :
    Follows (tokenProto ι cwd (env.home cwd) (dataLoc cwd dir t)) i (retrieveFile env ⟨id, dest⟩) false
      (fun g o => ∀ fi, o = .ret (.Ok fi) → g = true) := by
  have hpath' : ∀ ext, env.uploadDir ++ '/' :: (id ++ ext) = dir ++ '/' :: t ++ ext := fun ext => by
    rw [hpath, List.append_assoc, List.cons_append]
  unfold retrieveFile
  simp only [hpath']
  split
  · exact fun _ h => by cases h
  refine follows_tame_call (tameCall_quiet rfl) fun r => ?_
  cases r with
  | error e => exact fun _ h => by cases h
  | ok _ =>
    refine Follows.bind ((follows_retrieveMove hd ht hin hout).mono fun g o hg => ?_)
    cases o with
    | throw e => exact fun _ h => by cases h
    | stop x => trivial
    | ret r => cases r with
      | Bad_Request message => exact fun _ h => by cases h
      | Ok fi =>
        refine follows_tame_call (fun ch w r w' he _ => ?_) fun _ _ _ => hg fi rfl
        obtain ⟨fs, -, hr, rfl⟩ | ⟨e, -, rfl, -⟩ := exec_unlink he
        · exact tame_unlink hr
        · exact .refl

end Follows

/-- **At most one client gets a file.** Any requests for one id whose data file is in `uploads`, with save paths outside
the working directory, interleaved in any way and with any calls failing: at most one of them returns `Ok`. -/
theorem retrieve_at_most_one {ι : Type} [DecidableEq ι] {env : Env} {id : Str} {savePath : ι → Str} {w : World}
    {tr : History Calls Choice ι} {P' : Pool Calls World Exn (Response FileInfo) ι}
    (hx : Exec Machine (fun _ _ _ => True) ⟨w, fun i => retrieveFile env ⟨id, savePath i⟩⟩ tr P')
    (hin : norm w.fs.cwd env.uploadDir <:+ norm w.fs.cwd (env.uploadDir ++ '/' :: (id ++ DATA_EXT)))
    (hdata : w.fs.node (norm w.fs.cwd (env.uploadDir ++ '/' :: (id ++ DATA_EXT))) ≠ none)
    (hout : ∀ i, Outside env w.fs.cwd (savePath i)) {i j : ι} {fi fj : FileInfo}
    (hi : P'.procs i = .ret (.Ok fi)) (hj : P'.procs j = .ret (.Ok fj)) : i = j := by
  obtain ⟨dir, t, hd, ht, hpath⟩ := pair_path env id
  have hloc : norm w.fs.cwd (env.uploadDir ++ '/' :: (id ++ DATA_EXT)) = dataLoc w.fs.cwd dir t := by
    rw [hpath, norm_child hd (IsExt.plain (.inr rfl) ht), dataLoc]
  rw [hloc] at hdata hin
  rw [norm_uploadDir] at hin
  have hin' : "uploads".toList :: env.home w.fs.cwd <:+ norm w.fs.cwd dir := by
    rcases List.suffix_cons_iff.1 hin with e | h
    · have hdot : '.' ∈ t ++ DATA_EXT := List.mem_append.2 (.inr (by decide))
      rw [← (List.cons.inj e).1] at hdot
      exact absurd hdot (by decide)
    · exact h
  have hhome : w.fs.isDir (env.home w.fs.cwd) = true := by
    obtain ⟨s, hs⟩ := (List.suffix_cons _ _).trans hin
    refine FS.isDir_of_suffix (s := s) (by rw [hs]; exact hdata) ?_
    rintro rfl
    have := home_length hin'
    rw [List.nil_append] at hs
    rw [hs] at this
    simp only [dataLoc, List.length_cons] at this
    omega
  obtain ⟨G, hI, hF⟩ := Exec.follows (R := tokenProto ι w.fs.cwd (env.home w.fs.cwd) (dataLoc w.fs.cwd dir t))
    (G := fun _ => false) (Q := fun _ g o => ∀ fi, o = .ret (.Ok fi) → g = true) hx
    ⟨rfl, hhome, fun _ _ h _ => Bool.noConfusion h, fun _ h => Bool.noConfusion h⟩
    fun k => follows_retrieveFile hd ht hin' (hout k) hpath
  have hGi := hF i
  have hGj := hF j
  rw [hi] at hGi
  rw [hj] at hGj
  exact hI.2.2.1 i j (hGi fi rfl) (hGj fj rfl)

/-- Two requests for the file of the sample pair. -/
def Sample.twoRequests : Pool Calls World Exn (Response FileInfo) Bool where
  state := Sample.uploads
  procs i := retrieveFile (Sample.env Sample.codec) ⟨"f".toList, if i then "/a/y".toList else "/b/y".toList⟩

/-- One of them runs to its end: only that one can have an `Ok`, whatever the other does. -/
theorem retrieve_at_most_one_sample : ∃ tr P', Exec Machine (fun _ _ _ => True) Sample.twoRequests tr P' ∧
    P'.procs true = .ret (.Ok Sample.tm.fileInfo) ∧ ∀ j fi, P'.procs j = .ret (.Ok fi) → j = true := by
  have h : (Pool.exec? Machine (fun _ _ => true) Sample.twoRequests (List.replicate 10 (true, Sample.calm) ++
        [(false, Sample.calm)])).map (fun x => (x.2.procs true).outcome?) =
      some (some (.ret (.Ok Sample.tm.fileInfo))) := by
    rw [Sample.twoRequests, Sample.uploads, Sample.pairFs, Sample.codec, Sample.metaText_eq]
    decide +kernel
  obtain ⟨⟨tr, P'⟩, hx, he⟩ := Option.map_eq_some_iff.1 h
  have hP := Proc.outcome?_ret.1 he
  have hrun : Exec Machine (fun _ _ _ => True) Sample.twoRequests tr P' := Pool.exec?_sound (fun _ _ _ => trivial) hx
  refine ⟨tr, P', hrun, hP, fun j fi hj => ?_⟩
  refine retrieve_at_most_one hrun ?_ ?_ ?_ hj hP
  · exact List.suffix_iff_eq_drop.2 (by decide +kernel)
  · decide +kernel
  · intro i hs
    cases i
    · exact absurd (List.suffix_iff_eq_drop.1 hs) (by decide +kernel)
    · exact absurd (List.suffix_iff_eq_drop.1 hs) (by decide +kernel)

end OortAgent
