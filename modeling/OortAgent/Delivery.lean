import OortAgent.Custody

/-!
# Deliveries to one save path

Requests for different files that name the same save path `L`. `move_file` looks for the path with `access` and
renames onto it later, so that in some interleavings a delivery replaces an earlier one. `Careful` is the condition
under which that does not happen: every rename to `L` finds it free, and a copy is complete and renamed. Then at
most one request returns `Ok`, and its file is at `L` (`retrieve_delivers`).

* `Saved`: the invariant: what a request delivered is at `L` with its own bytes, and only one has delivered.
* `retrieve_overwrites`: two requests that both return `Ok`.
-/

namespace OortAgent

open Lib

/-- A step that does not replace a file at `L`, does not cut a copy short and does not lose one. -/
structure Careful (L : Loc) (w : World) (e : Ev) : Prop where
  free : ∀ p q, e.call.op = .rename p q → norm w.fs.cwd q = L → w.fs.node L = none
  publish : e.site = .publish → e.refused = false
  read : e.site = .copyRead → e.refused = false
  write : ∀ j b, e.site = .copyWrite → e.call.op = .write j b → e.call.op.written e.res = b
  figures : ∀ v, e.call.op.figures e.res = some v → 0 < v.f_bsize ∧ v.f_bsize < 2147483648

/-- What was delivered to `L`. -/
structure Saved {ι : Type} (fs₀ : FS) (H : Loc) (x : ι → Name) (L : Loc) (fs : FS) (G : ι → Stage) : Prop where
  plain : fs.isDir L = false
  done : ∀ i, (G i).hold = .done → ∃ k, fs.node L = some (.file k) ∧
    fs₀.view (entry H (x i)) = some (.file (fs.inode k).data) ∧ ∀ j c k' b, (G j).hold = .copying c k' b → k' ≠ k
  one : ∀ i j, (G i).hold = .done → (G j).hold = .done → i = j

section Saved

variable {ι : Type} [DecidableEq ι] {fs₀ fs fs' : FS} {H L : Loc} {x : ι → Name} {G : ι → Stage} {i : ι} {g : Stage}

/-- A step elsewhere. -/
theorem Saved.step (h : Saved fs₀ H x L fs G) (hn : fs'.node L = fs.node L)
    (hino : ∀ k, k < fs.next → (∀ c b, (G i).hold ≠ .copying c k b) → fs'.inode k = fs.inode k)
    (hdone : g.hold = .done → (G i).hold = .done)
    (hcopy : ∀ c k b, g.hold = .copying c k b → (∃ c' b', (G i).hold = .copying c' k b') ∨ fs.next ≤ k) :
    Saved fs₀ H x L fs' (Function.update G i g) := by
  have hback : ∀ j, (Function.update G i g j).hold = .done → (G j).hold = .done := by
    intro j hj
    by_cases e : j = i
    · subst e
      rw [Function.update_self] at hj
      exact hdone hj
    · rwa [Function.update_of_ne e] at hj
  refine ⟨by rw [FS.isDir, hn]; exact h.plain, fun j hj => ?_, fun j j' hj hj' =>
    h.one j j' (hback j hj) (hback j' hj')⟩
  obtain ⟨k, hk, hv, hne⟩ := h.done j (hback j hj)
  have hlt := fs.bound L k hk
  refine ⟨k, by rw [hn, hk], ?_, fun j' c k' b hc => ?_⟩
  · rw [hino k hlt fun c b hc => hne i c k b hc rfl]
    exact hv
  · by_cases e : j' = i
    · subst e
      rw [Function.update_self] at hc
      rcases hcopy c k' b hc with ⟨c', b', hc'⟩ | hle
      · exact hne j' c' k' b' hc'
      · exact Nat.ne_of_gt (lt_of_lt_of_le hlt hle)
    · rw [Function.update_of_ne e] at hc
      exact hne j' c k' b hc

omit [DecidableEq ι] in
/-- A step that changes neither `L` nor a file nor a stage. -/
theorem Saved.frame (h : Saved fs₀ H x L fs G) (hn : fs'.node L = fs.node L) (hino : fs'.inode = fs.inode) :
    Saved fs₀ H x L fs' G :=
  ⟨by rw [FS.isDir, hn]; exact h.plain, fun j hj => by rw [hn, hino]; exact h.done j hj, h.one⟩

/-- A delivery to `L`, which was free. -/
theorem Saved.deliver (h : Saved fs₀ H x L fs G) (hfree : fs.node L = none) {k : Ino} (hn : fs'.node L = some (.file k))
    (hg : g.hold = .done) (hv : fs₀.view (entry H (x i)) = some (.file (fs'.inode k).data))
    (hne : ∀ j c k' b, j ≠ i → (G j).hold = .copying c k' b → k' ≠ k) :
    Saved fs₀ H x L fs' (Function.update G i g) := by
  -- nobody had delivered
  have hnone : ∀ j, (Function.update G i g j).hold = .done → j = i := by
    intro j hj
    by_contra e
    rw [Function.update_of_ne e] at hj
    obtain ⟨k', hk', -⟩ := h.done j hj
    rw [hfree] at hk'
    cases hk'
  refine ⟨by rw [FS.isDir, hn], fun j hj => ?_, fun j j' hj hj' => by rw [hnone j hj, hnone j' hj']⟩
  rw [hnone j hj]
  refine ⟨k, hn, hv, fun j' c k' b hc => ?_⟩
  by_cases e : j' = i
  · subst e
    rw [Function.update_self, hg] at hc
    cases hc
  · rw [Function.update_of_ne e] at hc
    exact hne j' c k' b e hc

end Saved

/-- The invariant of the requests. -/
def deliveryProto (ι : Type) (fs₀ : FS) (H : Loc) (x : ι → Name) (L : Loc) : Proto Calls World Choice ι Stage where
  sem := Machine
  ok _ w e := Careful L w e.2
  inv _ w G := Custody fs₀ H x w.fs G ∧ Saved fs₀ H x L w.fs G

/-- A call that leaves every request as it is. -/
def KeepsAll (ι : Type) (fs₀ : FS) (H : Loc) (x : ι → Name) (L : Loc) (c : Call) : Prop :=
  ∀ ch w r w' (G : ι → Stage), c.op.exec ch w = some (r, w') → Custody fs₀ H x w.fs G → Saved fs₀ H x L w.fs G →
    Custody fs₀ H x w'.fs G ∧ Saved fs₀ H x L w'.fs G

section Rules

variable {ι : Type} {fs₀ : FS} {H L : Loc} {x : ι → Name} {α : Type}

theorem keepsAll_quiet {c : Call} (h : c.op.quiet = true) : KeepsAll ι fs₀ H x L c := by
  intro ch w r w' G he hC hS
  rw [exec_quiet h he]
  exact ⟨hC, hS⟩

variable [DecidableEq ι] {i : ι} {g : Stage}

theorem follows_keeps {p : Prog α} (hp : p.Calls (KeepsAll ι fs₀ H x L)) :
    Follows (deliveryProto ι fs₀ H x L) i p g (fun g' _ => g' = g) :=
  Follows.quiet (fun _ _ _ _ _ _ _ hc hI he _ => hc _ _ _ _ _ he hI.1 hI.2) hp

theorem follows_keeps_sys {s : Site} {op : Op} (hc : KeepsAll ι fs₀ H x L ⟨s, op⟩) :
    Follows (deliveryProto ι fs₀ H x L) i (sys s op) g (fun g' _ => g' = g) :=
  follows_keeps (p := sys s op) ⟨hc, fun _ => trivial⟩

theorem follows_keeps_call {s : Site} {op : Op} {k : op.Res → Prog α} {Q : Stage → Outcome Exn α → Prop}
    (hc : KeepsAll ι fs₀ H x L ⟨s, op⟩) (hk : ∀ r, Follows (deliveryProto ι fs₀ H x L) i (k r) g Q) :
    Follows (deliveryProto ι fs₀ H x L) i ((sys s op).bind k) g Q := by
  refine follows_call.2 fun tr w G ch r w' hI hg he _ => ⟨g, ?_, hk r⟩
  rw [← hg, Function.update_eq_self]
  exact hc _ _ _ _ _ he hI.1 hI.2

end Rules

/-- The protocol of requests for the files of the given ids that name the save path `p`. -/
abbrev Delivery (ι : Type) (env : Env) (fs₀ : FS) (id : ι → Str) (p : Str) : Proto Calls World Choice ι Stage :=
  deliveryProto ι fs₀ (env.home fs₀.cwd) (fun i => id i ++ DATA_EXT) (norm fs₀.cwd p)

section Requests

variable {ι : Type} {env : Env} {fs₀ : FS} {id : ι → Str} {p : Str} {i : ι}

/-- The data file of a request. -/
def Env.dataPath (env : Env) (id : Str) : Str := env.uploadDir ++ '/' :: (id ++ DATA_EXT)

/-- Its metadata file. -/
def Env.metaPath (env : Env) (id : Str) : Str := env.uploadDir ++ '/' :: (id ++ META_EXT)

theorem keepsAll_endeaden (hid : '/' ∉ id i) (hout : Outside env fs₀.cwd p) {site : Site} {ext : Str} (hx : IsExt ext) :
    KeepsAll ι fs₀ (env.home fs₀.cwd) (fun i => id i ++ DATA_EXT) (norm fs₀.cwd p)
      ⟨site, .rename (env.uploadDir ++ '/' :: id i ++ ext)
        (env.deadletterDir ++ '/' :: tailname (env.uploadDir ++ '/' :: id i ++ ext))⟩ := by
  intro ch w r w' G he hC hS
  obtain ⟨fs, -, -, hr, rfl⟩ | ⟨e, -, rfl, -⟩ := exec_rename he
  swap
  · exact ⟨hC, hS⟩
  obtain ⟨-, -, hr⟩ := FS.pathRename_ok hr
  have hpl := hx.plain hid
  rw [hC.cwd, List.append_assoc, List.cons_append, norm_entry hid hx, tailname_child hpl.2.2.2,
    norm_child deadletterDir_ne_nil hpl, norm_deadletterDir] at hr
  refine ⟨hC.quarantine (hx.dot _) hr, hS.frame (FS.node_rename_frame hr ?_ ?_) (FS.rename_frame hr).1⟩
  · exact fun h => hout ((home_suffix_entry _).trans h)
  · exact fun h => hout (((List.suffix_cons _ _).trans (List.suffix_cons _ _)).trans h)

theorem keepsAll_removeMeta (hid : '/' ∉ id i) (hout : Outside env fs₀.cwd p) :
    KeepsAll ι fs₀ (env.home fs₀.cwd) (fun i => id i ++ DATA_EXT) (norm fs₀.cwd p)
      ⟨.removeMeta, .unlink (env.metaPath (id i))⟩ := by
  intro ch w r w' G he hC hS
  obtain ⟨fs, -, hr, rfl⟩ | ⟨e, -, rfl, -⟩ := exec_unlink he
  swap
  · exact ⟨hC, hS⟩
  obtain ⟨-, hr⟩ := FS.pathUnlink_ok hr
  rw [hC.cwd, Env.metaPath, norm_entry hid (.inl rfl)] at hr
  refine ⟨hC.remove (IsExt.dot (.inl rfl) _) hr, hS.frame ?_ (FS.unlink_frame hr).1⟩
  rw [FS.node_unlink hr, if_neg (entry_ne hout _)]

theorem keepsAll_readMeta (hid : '/' ∉ id i) (hout : Outside env fs₀.cwd p) :
    (readTransferMetaCached env (env.metaPath (id i))).Calls
      (KeepsAll ι fs₀ (env.home fs₀.cwd) (fun i => id i ++ DATA_EXT) (norm fs₀.cwd p)) := by
  rw [Env.metaPath, ← List.cons_append, ← List.append_assoc]
  exact cacheGet_calls (fun _ h => keepsAll_quiet h) (readTransferMeta_calls (keepsAll_quiet rfl)
    (fun _ _ _ => keepsAll_quiet rfl) (endeaden_calls (.inl rfl) fun _ _ hx => keepsAll_endeaden hid hout hx))

variable [DecidableEq ι] {g : Stage}

/-- A data file that passes the first check is a regular file, as it was at the start. -/
theorem delivery_precheck (hid : '/' ∉ id i) :
    Follows (Delivery ι env fs₀ id p) i (fileInfo env .precheck (env.dataPath (id i))) g
      (fun g' o => g' = g ∧ ∀ fi, o = .ret fi → ∃ k, fs₀.node (entry (env.home fs₀.cwd) (id i ++ DATA_EXT)) =
        some (.file k)) := by
  unfold fileInfo fileStat
  refine Follows.bind (follows_look rfl (fun _ _ _ _ h => h) rfl fun tr w G ch r hI hg he _ => ?_)
  cases r with
  | error e => exact ⟨rfl, fun fi h => by cases h⟩
  | ok st =>
    dsimp only
    by_cases hreg : st.isReg = true
    swap
    · rw [if_neg hreg]
      exact ⟨rfl, fun fi h => by cases h⟩
    · rw [if_pos hreg]
      have hst : ch.inject (w.fs.pathStat (env.dataPath (id i)) (ch.ticks 0)) = .ok st :=
        (Prod.mk.inj (Option.some.inj he)).1
      obtain ⟨k, -, hk, -⟩ := FS.pathStat_reg (inject_ok hst).2 hreg
      rw [hI.1.cwd, Env.dataPath, norm_entry hid (.inr rfl)] at hk
      have h₀ := hI.1.data i (by rw [hk]; simp)
      rw [hk] at h₀
      refine Follows.bind ((follows_keeps ((getCrc_calls _).mono fun c hc => keepsAll_quiet
        (quiet_of_looks hc.1.2))).mono fun g' o hg' => ?_)
      cases o with
      | ret crc => exact ⟨hg', fun _ _ => ⟨k, h₀.symm⟩⟩
      | throw e => exact ⟨hg', fun fi h => by cases h⟩
      | stop x => trivial

/-! ### The copy -/

variable {c : Loc} {j k : Ino} {t : Name}

/-- A copy without failing reads and short writes is complete. -/
theorem delivery_copyBlocks (hk : fs₀.node (entry (env.home fs₀.cwd) (id i ++ DATA_EXT)) = some (.file k)) {blk : Nat}
    (hblk : 0 < blk) : Follows (Delivery ι env fs₀ id p) i (copyBlocks env (.file k) j blk) ⟨.copying c j [], some t⟩
      (fun g o => (∃ u, o = .ret u) ∧ g = ⟨.copying c j (fs₀.inode k).data, some t⟩) := by
  -- before each round the copy has the bytes before the offset
  refine Follows.loop (J := fun off g => g = ⟨.copying c j ((fs₀.inode k).data.take off), some t⟩) ?_ _ _ _ (by simp)
  rintro off g rfl
  refine follows_look rfl (fun _ _ _ _ h => h) rfl fun tr w G ch r hI hg he hok => ?_
  have hread := hok.read rfl
  rcases exec_read he with ⟨b, rfl, hpre, hend⟩ | ⟨e, rfl, -⟩
  swap
  · cases hread
  rw [hI.1.content hk] at hpre hend
  cases b with
  | nil =>
    have hall := hend rfl (Nat.ne_of_gt hblk)
    refine ⟨⟨(), rfl⟩, ?_⟩
    rw [List.take_of_length_le (List.drop_eq_nil_iff.1 hall)]
  | cons b bs =>
    refine follows_call.2 fun tr w G ch r w' hI hg he hok =>
      ⟨⟨.copying c j ((fs₀.inode k).data.take off ++ (b :: bs)), some t⟩, ?_, ?_⟩
    · have hall : (b :: bs).take (b :: bs).length = b :: bs := List.take_length
      have hw := hok.write j (b :: bs) rfl rfl
      have hhold : (G i).hold = .copying c j ((fs₀.inode k).data.take off) := by rw [hg]
      have htmp : (G i).tmp = some t := by rw [hg]
      obtain ⟨n, rfl, -, -, -, rfl⟩ | ⟨e, rfl, -⟩ := exec_write he
      swap
      · cases hw
      have hw' : (b :: bs).take n = b :: bs := hw
      rw [hw', ← htmp]
      refine ⟨hI.1.write hhold, hI.2.step rfl (fun k' _ hne => ?_) (fun h => by cases h) fun c' k' b' h => ?_⟩
      · have : k' ≠ j := by
          rintro rfl
          exact hne _ _ hhold
        show (w.fs.append j _ _).inode k' = _
        rw [FS.append, FS.inode_setInode, Function.update_of_ne this]
      · cases h
        exact .inl ⟨c, _, hhold⟩
    · have hpre' : b :: bs = ((fs₀.inode k).data.drop off).take (b :: bs).length := List.prefix_iff_eq_take.1 hpre
      show Stage.mk _ _ = Stage.mk _ _
      rw [List.take_add, ← hpre']

/-- The temporary directory of a request. -/
def IsTmp (env : Env) (cwd : Loc) (tmpdir : Str) (t : Name) : Prop :=
  tmpdir ≠ [] ∧ norm cwd tmpdir = entry (env.home cwd) t

variable {tmpdir dtname : Str} {fi : FileInfo}

theorem IsTmp.parked (h : IsTmp env fs₀.cwd tmpdir t) :
    norm fs₀.cwd (parkedName tmpdir) = parkedEntry :: entry (env.home fs₀.cwd) t := by
  rw [norm_parkedName h.1, h.2]

/-- The temporary directory is taken away, if that is possible. -/
theorem delivery_rmdir {α : Type} {s : Site} {q : Prog α} {h : Hold} {Q : Stage → Outcome Exn α → Prop}
    (hout : Outside env fs₀.cwd p) (htmp : IsTmp env fs₀.cwd tmpdir t) (hh : h.has = false)
    (hq : Follows (Delivery ι env fs₀ id p) i q ⟨h, none⟩ Q) :
    Follows (Delivery ι env fs₀ id p) i ((sys s (.rmdir tmpdir)).bind fun _ => q) ⟨h, some t⟩ Q := by
  refine follows_call.2 fun tr w G ch r w' hI hg he _ => ⟨⟨h, none⟩, ?_, hq⟩
  have hh' : (G i).hold = h := by rw [hg]
  have ht' : (G i).tmp = some t := by rw [hg]
  have hcopy : ∀ c k b, (Stage.mk h none).hold = .copying c k b → (∃ c' b', (G i).hold = .copying c' k b') ∨
      w.fs.next ≤ k := fun c k b hc => .inl ⟨c, b, by rw [hh']; exact hc⟩
  obtain ⟨fs, -, hr, rfl⟩ | ⟨e, -, rfl⟩ := exec_rmdir he
  · obtain ⟨-, hr⟩ := FS.pathRmdir_ok hr
    rw [hI.1.cwd, htmp.2] at hr
    obtain ⟨hino, hnext, hcwd⟩ := FS.rmdir_frame hr
    refine ⟨?_, hI.2.step ?_ (fun k _ _ => by rw [hino]) (fun h' => by rw [hh']; exact h') hcopy⟩
    · subst hh'
      exact hI.1.clear (fun j => IsExt.dot (.inr rfl) _) hh ht' (.inl rfl) (FS.node_rmdir hr) hino hnext hcwd (.inl rfl)
    · rw [FS.node_rmdir hr, if_neg (entry_ne hout _)]
  · exact ⟨hI.1.drop hh (fun t ht => by cases ht),
      hI.2.step rfl (fun _ _ _ => rfl) (fun h' => by rw [hh']; exact h') hcopy⟩

/-- The end of a complete copy: the file is delivered. -/
theorem delivery_publishCopy (hout : Outside env fs₀.cwd p) (htmp : IsTmp env fs₀.cwd tmpdir t)
    (hk : fs₀.node (entry (env.home fs₀.cwd) (id i ++ DATA_EXT)) = some (.file k)) (hc : norm fs₀.cwd dtname = c) :
    Follows (Delivery ι env fs₀ id p) i (publishCopy tmpdir p dtname) ⟨.copying c j (fs₀.inode k).data, some t⟩
      (fun g o => (∃ u, o = .ret u) ∧ g.hold = .done) := by
  refine follows_call.2 fun tr w G ch r w' hI hg he hok => ⟨⟨.done, some t⟩, ?_, ?_⟩
  · have hhold : (G i).hold = .copying c j (fs₀.inode k).data := by rw [hg]
    have hpub := hok.publish rfl
    have hfree := hok.free dtname p rfl (by rw [hI.1.cwd])
    obtain ⟨fs, rfl, -, hr, rfl⟩ | ⟨e, rfl, -⟩ := exec_rename he
    swap
    · cases hpub
    obtain ⟨-, -, hr⟩ := FS.pathRename_ok hr
    rw [hI.1.cwd, hc] at hr
    have hne : ∀ j' c' k' b', j' ≠ i → (G j').hold = .copying c' k' b' → c' ≠ norm fs₀.cwd p := by
      rintro j' c' k' b' - hj rfl
      have := ((hI.1.mine j').copy _ k' b' hj).1
      rw [hfree] at this
      cases this
    obtain ⟨hC, hL, hino⟩ := hI.1.publish hout hhold hne hr
    rw [hg] at hC
    refine ⟨hC, hI.2.deliver hfree hL rfl ?_ fun j' c' k' b' hj hj' e => ?_⟩
    · rw [FS.view_file hk, hino, ((hI.1.mine i).copy c j _ hhold).2.2.1]
    · subst e
      exact hj (hI.1.copies j' i c' c k' b' _ hj' hhold)
  · refine follows_call.2 fun tr w G ch r w' hI hg he hok => ⟨⟨.done, some t⟩, ?_, ?_⟩
    · have hsame : Function.update G i ⟨.done, some t⟩ = G := by rw [← hg, Function.update_eq_self]
      obtain ⟨fs, -, hr, rfl⟩ | ⟨e, -, rfl, -⟩ := exec_unlink he
      swap
      · rw [hsame]
        exact hI
      obtain ⟨-, hr⟩ := FS.pathUnlink_ok hr
      rw [hI.1.cwd, htmp.parked] at hr
      obtain ⟨hino, hnext, hcwd⟩ := FS.unlink_frame hr
      have hC := hI.1.clear (fun j => IsExt.dot (.inr rfl) _) (by rw [hg]; rfl) (by rw [hg]) (.inr rfl)
        (FS.node_unlink hr) hino hnext hcwd (.inr ⟨rfl, parked_ne_entry⟩)
      have hL : fs.node (norm fs₀.cwd p) = w.fs.node (norm fs₀.cwd p) := by
        rw [FS.node_unlink hr, if_neg (parked_ne hout _)]
      have hS := hI.2.frame hL hino
      rw [hg, hsame] at hC
      rw [hsame]
      exact ⟨hC, hS⟩
    · exact delivery_rmdir hout htmp rfl ⟨⟨(), rfl⟩, rfl⟩

/-- The `try` block after the making of the copy. -/
theorem delivery_copyInto (hout : Outside env fs₀.cwd p) (htmp : IsTmp env fs₀.cwd tmpdir t)
    (hk : fs₀.node (entry (env.home fs₀.cwd) (id i ++ DATA_EXT)) = some (.file k)) (hc : norm fs₀.cwd dtname = c)
    {blksize : Int} (hblk : 0 < blksize) :
    Follows (Delivery ι env fs₀ id p) i (copyInto env tmpdir p fi blksize dtname j) ⟨.copying c j [], some t⟩
      (fun g o => match o with
        | .ret _ => g.hold = .done
        | .throw _ => g.hold.has = true ∧ g.tmp = some t
        | .stop _ => True) := by
  refine follows_look rfl (fun _ _ _ _ h => h) rfl fun tr w G ch r hI hg he _ => ?_
  cases r with
  | error e => exact ⟨rfl, rfl⟩
  | ok srcfd =>
    -- the parked file is the data file
    have hsrc : srcfd = .file k := by
      have ho : ch.inject (w.fs.pathOpen (parkedName tmpdir)) = .ok srcfd := (Prod.mk.inj (Option.some.inj he)).1
      obtain ⟨t', k', ht', hk', hpk⟩ := (hI.1.mine i).parked (by rw [hg]; rfl)
      rw [hg] at ht'
      cases ht'
      rw [hk] at hk'
      cases hk'
      exact FS.pathOpen_handle (inject_ok ho).2 (by rw [hI.1.cwd, htmp.parked]; exact hpk)
    subst hsrc
    dsimp only
    rw [if_neg (by omega)]
    refine Follows.bind ((delivery_copyBlocks hk (by omega)).mono fun g o ho => ?_)
    obtain ⟨⟨u, rfl⟩, rfl⟩ := ho
    refine follows_keeps_call (keepsAll_quiet rfl) fun _ => follows_keeps_call (keepsAll_quiet rfl) fun _ =>
      follows_keeps_call (keepsAll_quiet rfl) fun _ => Follows.bind ((follows_keeps ((fileInfo_calls _).mono fun c hc =>
        keepsAll_quiet (quiet_of_looks hc.2))).mono fun g o hg' => ?_)
    subst hg'
    cases o with
    | throw e => exact ⟨rfl, rfl⟩
    | stop x => trivial
    | ret destfi =>
      dsimp only
      split
      · exact ⟨rfl, rfl⟩
      · refine (delivery_publishCopy hout htmp hk hc).mono fun g o ho => ?_
        obtain ⟨⟨u, rfl⟩, hd⟩ := ho
        exact hd

/-- The body of the `try` block. -/
theorem delivery_copyParked (hs : '/' ∈ p) (hout : Outside env fs₀.cwd p) (htmp : IsTmp env fs₀.cwd tmpdir t)
    (hk : fs₀.node (entry (env.home fs₀.cwd) (id i ++ DATA_EXT)) = some (.file k)) {blksize : Int}
    (hblk : 0 < blksize) :
    Follows (Delivery ι env fs₀ id p) i (copyParked env tmpdir p fi blksize) ⟨.parked, some t⟩
      (fun g o => match o with
        | .ret _ => g.hold = .done
        | .throw _ => g.hold.has = true ∧ g.tmp = some t
        | .stop _ => True) := by
  refine follows_call.2 fun tr w G ch r w' hI hg he _ => ?_
  have hhold : (G i).hold = .parked := by rw [hg]
  obtain ⟨dtname, j, fs, rfl, hm, rfl⟩ | ⟨e, rfl, rfl⟩ := exec_mkstemp he
  swap
  · refine ⟨⟨.parked, some t⟩, ?_, rfl, rfl⟩
    rw [← hg, Function.update_eq_self]
    exact hI
  obtain ⟨rfl, hadd⟩ := added_of_mkstemp hm
  have hH : w.fs.isDir (env.home fs₀.cwd) = true := by
    obtain ⟨t', k', -, -, hpk⟩ := (hI.1.mine i).parked (by rw [hhold]; rfl)
    exact FS.isDir_of_suffix (s := [parkedEntry, t', "uploads".toList]) (by
      show w.fs.node (parkedEntry :: entry (env.home fs₀.cwd) t') ≠ none
      rw [hpk]
      simp) (by simp)
  have hcout : ¬ env.home fs₀.cwd <:+ norm w.fs.cwd dtname := by
    refine copy_outside hs ?_ ?_ hH hm
    · rw [hI.1.cwd]
      exact hout
    · rw [hI.1.cwd]
      exact hI.2.plain
  have hC := hI.1.copy hhold hcout hadd rfl rfl (FS.next_mkstemp hm)
  rw [hg] at hC
  refine ⟨⟨.copying (norm w.fs.cwd dtname) w.fs.next [], some t⟩, ⟨hC, ?_⟩,
    delivery_copyInto hout htmp hk (by rw [hI.1.cwd]) hblk⟩
  by_cases hL : norm w.fs.cwd dtname = norm fs₀.cwd p
  · -- the copy is at the save path: nothing was delivered there
    have hnone : ∀ l, (G l).hold ≠ .done := by
      intro l hl
      obtain ⟨k', hk', -⟩ := hI.2.done l hl
      rw [← hL, hadd.free] at hk'
      cases hk'
    have hnone' : ∀ l, (Function.update G i ⟨.copying (norm w.fs.cwd dtname) w.fs.next [], some t⟩ l).hold ≠ .done := by
      intro l hl
      by_cases e : l = i
      · subst e
        rw [Function.update_self] at hl
        cases hl
      · rw [Function.update_of_ne e] at hl
        exact hnone l hl
    exact ⟨by rw [← hL, FS.isDir, hadd.node, if_pos rfl], fun l hl => absurd hl (hnone' l),
      fun l _ hl => absurd hl (hnone' l)⟩
  · refine hI.2.step (by rw [hadd.node, if_neg (Ne.symm hL)]) (fun k' hk' _ => ?_) (fun h => by cases h)
      fun c k' b h => ?_
    · rw [hadd.inode, Function.update_of_ne (Nat.ne_of_lt hk')]
    · cases h
      exact .inr le_rfl

/-- The handler of the `try` block. -/
theorem delivery_undoPark (hid : '/' ∉ id i) (hout : Outside env fs₀.cwd p)
    (htmp : IsTmp env fs₀.cwd tmpdir t) {e : Exn}
    (hh : g.hold.has = true) (ht : g.tmp = some t) :
    Follows (Delivery ι env fs₀ id p) i (undoPark (env.dataPath (id i)) tmpdir e) g (fun _ o => o = .throw e) := by
  refine follows_call.2 fun tr w G ch r w' hI hg he _ => ⟨⟨.idle, some t⟩, ?_, delivery_rmdir hout htmp rfl rfl⟩
  have hdone : (Stage.mk .idle (some t)).hold = .done → (G i).hold = .done := fun h => by cases h
  have hcopy : ∀ c k b, (Stage.mk .idle (some t)).hold = .copying c k b → (∃ c' b', (G i).hold = .copying c' k b') ∨
      w.fs.next ≤ k := fun c k b h => by cases h
  subst hg
  obtain ⟨fs, -, -, hr, rfl⟩ | ⟨e, -, rfl, -⟩ := exec_rename he
  swap
  · refine ⟨hI.1.drop rfl fun t' ht' => ?_, hI.2.step rfl (fun _ _ _ => rfl) hdone hcopy⟩
    cases ht'
    exact ht
  obtain ⟨-, -, hr⟩ := FS.pathRename_ok hr
  rw [hI.1.cwd, htmp.parked, Env.dataPath, norm_entry hid (.inr rfl)] at hr
  refine ⟨(hI.1.undo (fun j => IsExt.dot (.inr rfl) _) hh ht hr).1, hI.2.step (FS.node_rename_frame hr ?_ ?_)
    (fun k _ _ => by rw [(FS.rename_frame hr).1]) hdone hcopy⟩
  · exact fun h => hout (((home_suffix_entry _).trans (List.suffix_cons _ _)).trans h)
  · exact fun h => hout ((home_suffix_entry _).trans h)

/-- What a move does to the stage of its request: it delivers the file, or holds nothing. -/
def Moved (g : Stage) (o : Outcome Exn Unit) : Prop := match o with
  | .ret _ => g.hold = .done
  | _ => True

theorem delivery_parkAndCopy (hid : '/' ∉ id i) (hs : '/' ∈ p) (hout : Outside env fs₀.cwd p)
    (htmp : IsTmp env fs₀.cwd tmpdir t)
    (hk : fs₀.node (entry (env.home fs₀.cwd) (id i ++ DATA_EXT)) = some (.file k)) {blksize : Int}
    (hblk : 0 < blksize) :
    Follows (Delivery ι env fs₀ id p) i (parkAndCopy env (env.dataPath (id i)) p fi blksize tmpdir) ⟨.idle, some t⟩
      Moved := by
  refine follows_call.2 fun tr w G ch r w' hI hg he _ => ?_
  obtain ⟨fs, rfl, -, hr, rfl⟩ | ⟨e, rfl, rfl, -⟩ := exec_rename he
  swap
  · refine ⟨⟨.idle, some t⟩, ?_, trivial⟩
    rw [← hg, Function.update_eq_self]
    exact hI
  obtain ⟨-, -, hr⟩ := FS.pathRename_ok hr
  rw [hI.1.cwd, htmp.parked, Env.dataPath, norm_entry hid (.inr rfl)] at hr
  have ht : (G i).tmp = some t := by rw [hg]
  refine ⟨⟨.parked, some t⟩, ⟨hI.1.park (fun j => IsExt.dot (.inr rfl) _) ht hk hr,
    hI.2.step (FS.node_rename_frame hr ?_ ?_) (fun k _ _ => by rw [(FS.rename_frame hr).1]) (fun h => by cases h)
      fun c k b h => by cases h⟩, ?_⟩
  · exact fun h => hout ((home_suffix_entry _).trans h)
  · exact fun h => hout (((home_suffix_entry _).trans (List.suffix_cons _ _)).trans h)
  · refine Follows.handle ((delivery_copyParked hs hout htmp hk hblk).mono fun g o ho => ?_)
    cases o with
    | ret u => exact ho
    | throw e => exact (delivery_undoPark hid hout htmp ho.1 ho.2).mono fun g o ho => by rw [ho]; trivial
    | stop x => trivial

/-- The smaller of two usable block sizes. -/
theorem blockSize_pos {u v : Vfs} (hu : 0 < u.f_bsize ∧ u.f_bsize < 2147483648)
    (hv : 0 < v.f_bsize ∧ v.f_bsize < 2147483648) : 0 < blockSize u v := by
  have hw : wrap32 (min (u.f_bsize : Int) v.f_bsize) = min (u.f_bsize : Int) v.f_bsize :=
    Int.bmod_eq_of_le (by omega) (by omega)
  rw [blockSize, hw]
  omega

theorem delivery_copyAcross (hid : '/' ∉ id i) (hs : '/' ∈ p) (hout : Outside env fs₀.cwd p)
    (hk : fs₀.node (entry (env.home fs₀.cwd) (id i ++ DATA_EXT)) = some (.file k)) :
    Follows (Delivery ι env fs₀ id p) i (copyAcross env (env.dataPath (id i)) p fi) {} Moved := by
  have hdir : dirname (env.dataPath (id i)) = env.uploadDir := by
    rw [Env.dataPath, dirname_child (IsExt.plain (.inr rfl) hid).2.2.2]
  unfold copyAcross
  refine follows_look rfl (fun _ _ _ _ h => h) rfl fun tr w G ch srcvfs _ _ _ hok => ?_
  have hu := hok.figures srcvfs.2 rfl
  refine follows_look rfl (fun _ _ _ _ h => h) rfl fun tr w G ch destvfs _ _ _ hok => ?_
  have hv := hok.figures destvfs.2 rfl
  generalize checkDiskFree env fi.size destvfs.2 = space
  cases space with
  | false => trivial
  | true =>
    refine follows_call.2 fun tr w G ch r w' hI hg he _ => ?_
    obtain ⟨tmpdir, fs, rfl, hm, rfl⟩ | ⟨e, rfl, rfl⟩ := exec_mkdtemp he
    swap
    · refine ⟨{}, ?_, trivial⟩
      rw [← hg, Function.update_eq_self]
      exact hI
    obtain ⟨hpick, htmp, -, hfree, -⟩ := FS.mkdtemp_ok hm
    obtain ⟨v, hn, hino, hnext, hcwd⟩ := FS.node_mkdtemp hm
    have hT : IsTmp env fs₀.cwd tmpdir ("file_move_".toList ++ ch.pick) := by
      refine ⟨htmp ▸ fromTemplate_ne_nil, ?_⟩
      rw [htmp, fromTemplate_moveTemplate, hdir, norm_child uploadDir_ne_nil (picked_plain hpick),
        norm_uploadDir, entry]
    rw [hI.1.cwd, hT.2] at hn hfree
    refine ⟨⟨.idle, some ("file_move_".toList ++ ch.pick)⟩,
      ⟨hI.1.mkdtemp (fun j => IsExt.dot (.inr rfl) _) (picked_dot hpick) hfree hn hino hnext hcwd,
        hI.2.step (by rw [hn, if_neg (entry_ne hout _)]) (fun k _ _ => by rw [hino]) (fun h => by cases h)
          fun c k b h => by cases h⟩,
      delivery_parkAndCopy hid hs hout hT hk (blockSize_pos hu hv)⟩

/-- A careful `moveFile` that returns has delivered the file. -/
theorem delivery_moveFile (hid : '/' ∉ id i) (hs : '/' ∈ p) (hout : Outside env fs₀.cwd p) :
    Follows (Delivery ι env fs₀ id p) i (moveFile env (env.dataPath (id i)) p fi) {} Moved := by
  refine follows_keeps_call (keepsAll_quiet rfl) fun r => ?_
  cases r with
  | ok _ => trivial
  | error e =>
    refine Follows.bind ((delivery_precheck hid).mono fun g o ho => ?_)
    obtain ⟨rfl, hreg⟩ := ho
    cases o with
    | throw e => trivial
    | stop x => trivial
    | ret pre =>
      obtain ⟨k, hk⟩ := hreg pre rfl
      dsimp only
      split
      · trivial
      refine follows_call.2 fun tr w G ch r w' hI hg he hok => ?_
      have hfree := hok.free _ p rfl (by rw [hI.1.cwd])
      obtain ⟨fs, rfl, -, hr, rfl⟩ | ⟨e, rfl, rfl, -⟩ := exec_rename he
      · obtain ⟨-, -, hr⟩ := FS.pathRename_ok hr
        rw [hI.1.cwd, Env.dataPath, norm_entry hid (.inr rfl)] at hr
        have hne : ∀ j c k b, (G j).hold = .copying c k b → c ≠ norm fs₀.cwd p := by
          rintro j c k b hj rfl
          have := ((hI.1.mine j).copy _ k b hj).1
          rw [hfree] at this
          cases this
        obtain ⟨hC, hL⟩ := hI.1.deliver (fun j => IsExt.dot (.inr rfl) _) hout hk hne hr
        refine ⟨⟨.done, none⟩, ⟨hC, hI.2.deliver hfree hL rfl ?_ fun j c k' b _ hj e => ?_⟩, rfl⟩
        · rw [FS.view_file hk, (FS.rename_frame hr).1, hI.1.content hk]
        · -- the data file is an old one
          subst e
          exact absurd (fs₀.bound _ _ hk) (Nat.not_lt.2 ((hI.1.mine j).copy c k' b hj).2.1)
      · refine ⟨{}, ?_, ?_⟩
        · rw [← hg, Function.update_eq_self]
          exact hI
        · split
          · contradiction
          · exact delivery_copyAcross hid hs hout hk
          · trivial

/-- A request that returns `Ok` has delivered its file. -/
theorem delivery_retrieveFile (hid : '/' ∉ id i) (hout : Outside env fs₀.cwd p) :
    Follows (Delivery ι env fs₀ id p) i (retrieveFile env ⟨id i, p⟩) {}
      (Ended (fun g => g.hold = .done) fun _ => True) := by
  have hquar : (endeaden env (env.dataPath (id i))).Calls (KeepsAll ι fs₀ (env.home fs₀.cwd)
      (fun i => id i ++ DATA_EXT) (norm fs₀.cwd p)) := by
    rw [Env.dataPath, ← List.cons_append, ← List.append_assoc]
    exact endeaden_calls (.inr rfl) fun _ _ hx => keepsAll_endeaden hid hout hx
  have hcatch : ∀ e g, Follows (Delivery ι env fs₀ id p) i (retrieveCatch env (env.dataPath (id i)) e) g
      (Ended (fun g => g.hold = .done) fun _ => True) := fun e g =>
    follows_retrieveCatch trivial fun _ _ => (follows_keeps hquar).mono fun _ _ _ => trivial
  refine follows_retrieve (T := fun _ => True) rfl (rfl : env.metaPath (id i) = _) trivial
    (follows_keeps_sys (keepsAll_quiet rfl)) ((follows_keeps (keepsAll_readMeta hid hout)).mono
      fun g o hg => ?_)
    (fun tm hs _ => (delivery_moveFile hid hs hout).mono fun g o hg => ?_) fun g hg =>
    (follows_keeps_sys (keepsAll_removeMeta hid hout)).mono fun g' _ h => h ▸ hg
  · cases o with
    | ret tm => exact ⟨hg, trivial⟩
    | throw e => exact hcatch e g
    | stop x => trivial
  · cases o with
    | ret u => exact hg
    | throw e => exact hcatch e g
    | stop x => trivial

end Requests

/-- **Careful deliveries do not overwrite one another.** Requests for files in `uploads` that name one save path
outside the working directory, where nothing was: in every interleaving of careful steps at most one returns `Ok`,
and the file that it asked for is at the save path with its own bytes. -/
theorem retrieve_delivers {ι : Type} [DecidableEq ι] {env : Env} {id : ι → Str} {p : Str} {w : World}
    {tr : History Calls Choice ι} {P' : Pool Calls World Exn (Response FileInfo) ι}
    (hx : Exec Machine (fun _ w' e => Careful (norm w.fs.cwd p) w' e.2) ⟨w, fun i => retrieveFile env ⟨id i, p⟩⟩ tr P')
    (hid : ∀ i, '/' ∉ id i) (hout : Outside env w.fs.cwd p) (hfree : w.fs.node (norm w.fs.cwd p) = none) :
    (∀ i j fi fj, P'.procs i = .ret (.Ok fi) → P'.procs j = .ret (.Ok fj) → i = j) ∧
    ∀ i fi, P'.procs i = .ret (.Ok fi) → ∃ data,
      w.fs.view (norm w.fs.cwd (env.dataPath (id i))) = some (.file data) ∧
      P'.state.fs.view (norm w.fs.cwd p) = some (.file data) := by
  obtain ⟨G, ⟨hC, hS⟩, hF⟩ := Exec.follows (R := Delivery ι env w.fs id p) (G := fun _ => {})
    (Q := fun _ => Ended (fun g => g.hold = .done) fun _ => True) hx
    ⟨⟨rfl, le_rfl, fun _ _ => rfl, fun _ _ => rfl,
        fun _ => ⟨fun h => (by cases h), fun _ _ _ h => (by cases h), fun _ h => (by cases h)⟩,
        fun _ _ _ _ _ _ _ h => (by cases h), fun _ _ _ h => (by cases h)⟩,
      ⟨by rw [FS.isDir, hfree], fun _ h => (by cases h), fun _ _ h => (by cases h)⟩⟩
    fun i => delivery_retrieveFile (hid i) hout
  have hdone : ∀ i fi, P'.procs i = .ret (.Ok fi) → (G i).hold = .done := fun i fi hi => by
    have := hF i
    rw [hi] at this
    exact this
  refine ⟨fun i j fi fj hi hj => hS.one i j (hdone i fi hi) (hdone j fj hj), fun i fi hi => ?_⟩
  obtain ⟨k, hk, hv, -⟩ := hS.done i (hdone i fi hi)
  refine ⟨(P'.state.fs.inode k).data, ?_, FS.view_file hk⟩
  rw [Env.dataPath, norm_entry (hid i) (.inr rfl)]
  exact hv

namespace Sample

/-- The metadata of a second file. -/
def second : TransferMeta :=
  { tm with fileInfo := { info with id := "g".toList, path := "/a/z".toList, crc32 := "6229ac89".toList } }

/-- Its text. -/
def secondText : Bytes :=
  ("\x7b\"destination\":\"\",\"file_info\":\x7b\"crc32\":\"6229ac89\",\"created\":0,\"id\":\"g\",\"modified\":0," ++
    "\"path\":\"/a/z\",\"size\":2\x7d,\"meta_version\":\"\",\"node\":\"\",\"send_options\":\x7b\"TTLParams\":\x7b" ++
    "\"bulk\":43200,\"surplus\":172800,\"urgent\":9000\x7d,\"reliable\":true\x7d,\"time\":0," ++
    "\"topic\":\"t\"\x7d").toUTF8.toList

/-- Its bytes. -/
theorem secondText_eq : secondText =
    [123, 34, 100, 101, 115, 116, 105, 110, 97, 116, 105, 111, 110, 34, 58, 34, 34, 44, 34, 102, 105, 108, 101, 95,
      105, 110, 102, 111, 34, 58, 123, 34, 99, 114, 99, 51, 50, 34, 58, 34, 54, 50, 50, 57, 97, 99, 56, 57, 34, 44,
      34, 99, 114, 101, 97, 116, 101, 100, 34, 58, 48, 44, 34, 105, 100, 34, 58, 34, 103, 34, 44, 34, 109, 111, 100,
      105, 102, 105, 101, 100, 34, 58, 48, 44, 34, 112, 97, 116, 104, 34, 58, 34, 47, 97, 47, 122, 34, 44, 34, 115,
      105, 122, 101, 34, 58, 50, 125, 44, 34, 109, 101, 116, 97, 95, 118, 101, 114, 115, 105, 111, 110, 34, 58, 34,
      34, 44, 34, 110, 111, 100, 101, 34, 58, 34, 34, 44, 34, 115, 101, 110, 100, 95, 111, 112, 116, 105, 111, 110,
      115, 34, 58, 123, 34, 84, 84, 76, 80, 97, 114, 97, 109, 115, 34, 58, 123, 34, 98, 117, 108, 107, 34, 58, 52,
      51, 50, 48, 48, 44, 34, 115, 117, 114, 112, 108, 117, 115, 34, 58, 49, 55, 50, 56, 48, 48, 44, 34, 117, 114,
      103, 101, 110, 116, 34, 58, 57, 48, 48, 48, 125, 44, 34, 114, 101, 108, 105, 97, 98, 108, 101, 34, 58, 116,
      114, 117, 101, 125, 44, 34, 116, 105, 109, 101, 34, 58, 48, 44, 34, 116, 111, 112, 105, 99, 34, 58, 34, 116,
      34, 125] := by
  rw [secondText, toList_toUTF8]
  rw [String.toByteArray_append, String.toByteArray_append, String.toByteArray_append,
    ByteArray.toList_data_append, ByteArray.toList_data_append, ByteArray.toList_data_append]
  decide +kernel

/-- A codec for runs in which only the two metadata files are read. -/
def bothCodec : Codec where
  dump x := if x = second then secondText else metaText
  parse b := if b = metaText then some tm else if b = secondText then some second else none

/-- The filesystem with the pairs of the ids `f` (the bytes `hi`) and `g` (the bytes `yo`) in `uploads`. -/
def bothFs : FS :=
  (pairFs.putFile "g.data.oort".toList ["uploads".toList, "w".toList] ⟨[121, 111], true, 0, 0⟩).putFile
    "g.meta.oort".toList ["uploads".toList, "w".toList] ⟨secondText, true, 0, 0⟩

/-- The world with both pairs. -/
def bothPairs : World := { world with fs := bothFs }

/-- Requests for the two files with one save path. -/
def sameSavePath : Pool Calls World Exn (Response FileInfo) Bool where
  state := bothPairs
  procs i := retrieveFile (env bothCodec) ⟨if i then "f".toList else "g".toList, "/a/y".toList⟩

/-- A test for careful steps other than those of a copy. -/
def careful (L : Loc) (w : World) (e : Ev) : Bool :=
  !(([.publish, .copyRead, .copyWrite] : List Site).contains e.site) && match e.call.op with
    | .rename _ q => decide (norm w.fs.cwd q ≠ L) || decide (w.fs.node L = none)
    | .statvfs _ => false
    | _ => true

theorem careful_sound {L : Loc} {w : World} {e : Ev} (h : careful L w e = true) : Careful L w e := by
  obtain ⟨⟨s, op⟩, ch, r⟩ := e
  simp only [careful, Bool.and_eq_true, Bool.not_eq_true', List.contains_eq_mem, decide_eq_false_iff_not,
    List.mem_cons, not_or, List.not_mem_nil, not_false_eq_true, and_true, Ev.site_mk] at h
  obtain ⟨⟨h₁, h₂, h₃⟩, h⟩ := h
  refine ⟨fun p q hop hq => ?_, fun hs => absurd hs h₁, fun hs => absurd hs h₂, fun _ _ hs => absurd hs h₃,
    fun v hv => ?_⟩
  · dsimp only at hop
    subst hop
    simpa [hq] using h
  · cases op
    case statvfs => cases h
    all_goals cases hv

/-- A test for steps without an injected fault, other than those of a copy. -/
def faultless (e : Ev) : Bool := decide (e.choice.err = none) && match e.call.op with
  | .write _ _ => false
  | .statvfs _ => false
  | _ => true

theorem faultless_sound {w : World} {e : Ev} (h : faultless e = true) : Clean w e := by
  obtain ⟨⟨s, op⟩, ch, r⟩ := e
  simp only [faultless, Bool.and_eq_true, decide_eq_true_eq] at h
  refine ⟨h.1, ?_⟩
  cases op <;> first | trivial | cases h.2

end Sample

/-- One request runs to its end before the other has moved: the steps are careful, and its file is at the save path. -/
theorem retrieve_delivers_sample : ∃ tr P', Exec Machine (fun _ w e => Careful ["y".toList, "a".toList] w e.2)
      Sample.sameSavePath tr P' ∧ P'.procs true = .ret (.Ok Sample.tm.fileInfo) ∧
      (∀ j fj, P'.procs j = .ret (.Ok fj) → true = j) ∧
      ∃ data, P'.state.fs.view ["y".toList, "a".toList] = some (.file data) := by
  have h : (Pool.exec? Machine (fun w e => Sample.careful ["y".toList, "a".toList] w e.2) Sample.sameSavePath
        (List.replicate 10 (true, Sample.calm) ++ [(false, Sample.calm)])).map (fun x => (x.2.procs true).outcome?) =
      some (some (.ret (.Ok Sample.tm.fileInfo))) := by
    rw [Sample.sameSavePath, Sample.bothPairs, Sample.bothFs, Sample.pairFs, Sample.bothCodec, Sample.metaText_eq,
      Sample.secondText_eq]
    decide +kernel
  obtain ⟨⟨tr, P'⟩, hx, he⟩ := Option.map_eq_some_iff.1 h
  have hP := Proc.outcome?_ret.1 he
  have hrun : Exec Machine (fun _ w e => Careful ["y".toList, "a".toList] w e.2) Sample.sameSavePath tr P' :=
    Pool.exec?_sound (fun _ _ hc => Sample.careful_sound hc) hx
  have hd := retrieve_delivers (p := "/a/y".toList) hrun (by intro i; cases i <;> decide)
    (fun hs => absurd (List.suffix_iff_eq_drop.1 hs) (by decide +kernel)) (by decide +kernel)
  obtain ⟨data, -, hv⟩ := hd.2 true _ hP
  exact ⟨tr, P', hrun, hP, fun j fj hj => hd.1 true j _ fj hP hj, data, hv⟩

/-- **A delivery overwrites another.** Nothing is made to fail and nothing was at the save path `/a/y`; both
requests find it free, both return `Ok`, and at the end only the bytes of the second file are there. -/
theorem retrieve_overwrites : ∃ tr P', Exec Machine (fun _ w e => Clean w e.2) Sample.sameSavePath tr P' ∧
    Sample.bothPairs.fs.node ["y".toList, "a".toList] = none ∧
    P'.procs true = .ret (.Ok Sample.tm.fileInfo) ∧ P'.procs false = .ret (.Ok Sample.second.fileInfo) ∧
    P'.state.fs.view ["y".toList, "a".toList] = some (.file [121, 111]) := by
  have h : (Pool.exec? Machine (fun _ e => Sample.faultless e.2) Sample.sameSavePath
        (List.replicate 8 (true, Sample.calm) ++ List.replicate 8 (false, Sample.calm) ++
          [(true, Sample.calm), (false, Sample.calm), (true, Sample.calm), (false, Sample.calm)])).map (fun x =>
        ((x.2.procs true).outcome?, (x.2.procs false).outcome?, x.2.state.fs.view ["y".toList, "a".toList])) =
      some (some (.ret (.Ok Sample.tm.fileInfo)), some (.ret (.Ok Sample.second.fileInfo)),
        some (.file [121, 111])) := by
    rw [Sample.sameSavePath, Sample.bothPairs, Sample.bothFs, Sample.pairFs, Sample.bothCodec, Sample.metaText_eq,
      Sample.secondText_eq]
    decide +kernel
  obtain ⟨⟨tr, P'⟩, hx, he⟩ := Option.map_eq_some_iff.1 h
  obtain ⟨h₁, h₂⟩ := Prod.mk.inj he
  obtain ⟨h₂, h₃⟩ := Prod.mk.inj h₂
  exact ⟨tr, P', Pool.exec?_sound (fun _ _ hc => Sample.faultless_sound hc) hx, by decide +kernel,
    Proc.outcome?_ret.1 h₁, Proc.outcome?_ret.1 h₂, h₃⟩

end OortAgent
