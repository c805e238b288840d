import OortAgent.Custody
import OortAgent.SendRun

/-!
# What a `send_file` does to `transfers`

The pairs of `transfers` are all that matters about the filesystem to the requests of the collector and to the
cleanup, so the steps of a `send_file` are said once, in terms of these names: a step leaves all pairs alone but
that of the request's own id (`Frame`), and what it does to its own pair is one of a few things (`SendEffect`).

* `Sending`: what holds of the requests at any time: different ids, and nobody else writes to their metadata.
* `Sending.effect`, `Sending.harmless`: it is kept by these steps, and by steps of others that only take names of
  pairs away.
-/

namespace OortAgent

open Lib

/-! ## Names of pairs -/

/-- The metadata file of an id in the directory `T`. -/
def metaAt (T : Loc) (t : Str) : Loc := (t ++ META_EXT) :: T

/-- The data file of an id. -/
def dataAt (T : Loc) (t : Str) : Loc := (t ++ DATA_EXT) :: T

/-- A directory, and the directories that its path leads through. -/
structure Area where
  dir : Loc
  ways : List Loc
  mem : dir ∈ ways

/-- All of them are there. -/
def Area.There (A : Area) (fs : FS) : Prop := ∀ k ∈ A.ways, fs.isDir k = true

instance (A : Area) (fs : FS) : Decidable (A.There fs) := inferInstanceAs (Decidable (∀ k ∈ A.ways, fs.isDir k = true))

/-- The location is on no way to the area. -/
def Area.Misses (A : Area) (l : Loc) : Prop := ∀ k ∈ A.ways, ¬ l <:+ k

/-- A location that is not on the way to the area and no entry of it, other than the temporary entry `c`. -/
structure Off (A : Area) (c : Option Name) (l : Loc) : Prop where
  above : A.Misses l
  entry : ∀ n, l = n :: A.dir → '.' ∉ n ∧ c = some n

section Off

variable {A : Area} {T l : Loc} {fs fs' : FS} {c : Option Name}

/-- What has a dot, or is not the temporary entry, is left alone. -/
theorem Off.not_suffix (h : Off A c l) {n : Name} (hn : '.' ∈ n ∨ c ≠ some n) : ¬ l <:+ n :: A.dir := by
  intro hs
  rcases List.suffix_cons_iff.1 hs with e | hs
  · rcases hn with hn | hn
    · exact (h.entry n e).1 hn
    · exact hn (h.entry n e).2
  · exact h.above _ A.mem hs

theorem Off.ne (h : Off A c l) {k : Loc} (hk : k ∈ A.ways) : k ≠ l := fun e => h.above k hk (e ▸ List.suffix_refl k)

/-- Everything above a directory is a directory. -/
theorem isDir_above (hT : fs.isDir T = true) (h : l <:+ T) : fs.isDir l = true := by
  obtain ⟨s, hs⟩ := h
  cases s with
  | nil =>
    rw [List.nil_append] at hs
    rwa [hs]
  | cons x s =>
    refine FS.isDir_of_suffix (s := x :: s) ?_ (by simp)
    rw [hs]
    obtain ⟨d, v, hd⟩ := FS.isDir_iff.1 hT
    simp [hd]

/-- What is no directory is on no way. -/
theorem Area.There.above (hA : A.There fs) (h : fs.isDir l = false) : A.Misses l := by
  intro k hk hs
  rw [isDir_above (hA k hk) hs] at h
  cases h

theorem Area.There.dir (hA : A.There fs) : fs.isDir A.dir = true := hA _ A.mem

theorem metaAt_ne_dataAt {t u : Str} : metaAt T t ≠ dataAt T u := fun e => ext_ne (List.cons.inj e).1

theorem dataAt_inj {t u : Str} (h : dataAt T t = dataAt T u) : t = u := List.append_cancel_right (List.cons.inj h).1

end Off

/-! ## Frames -/

/-- The pairs of the area are left alone, but for that of `x`, and its temporary files, but for `c`. -/
structure Frame (A : Area) (x : Option Str) (c : Option Name) (fs fs' : FS) : Prop where
  cwd : fs'.cwd = fs.cwd
  dir : A.There fs → A.There fs'
  top : fs'.node A.dir = fs.node A.dir
  next : fs.next ≤ fs'.next
  node : ∀ t ext, IsExt ext → x ≠ some t → fs'.node ((t ++ ext) :: A.dir) = fs.node ((t ++ ext) :: A.dir)
  temp : ∀ n, '.' ∉ n → c ≠ some n → fs.node (n :: A.dir) ≠ none → fs'.node (n :: A.dir) = fs.node (n :: A.dir)
  inode : ∀ t i, x ≠ some t → fs.node (metaAt A.dir t) = some (.file i) → fs'.inode i = fs.inode i

section Frame

variable {A : Area} {fs fs' : FS} {a b : Loc} {x : Option Str} {c : Option Name}

theorem Frame.refl : Frame A x c fs fs :=
  ⟨rfl, id, rfl, le_rfl, fun _ _ _ _ => rfl, fun _ _ _ _ => rfl, fun _ _ _ _ => rfl⟩

theorem Frame.meta (h : Frame A x c fs fs') {t : Str} (ht : x ≠ some t) :
    fs'.node (metaAt A.dir t) = fs.node (metaAt A.dir t) := h.node t META_EXT (.inl rfl) ht

theorem Frame.data (h : Frame A x c fs fs') {t : Str} (ht : x ≠ some t) :
    fs'.node (dataAt A.dir t) = fs.node (dataAt A.dir t) := h.node t DATA_EXT (.inr rfl) ht

theorem frame_rename (hr : fs.rename a b = .ok fs') (ha : Off A none a) (hb : Off A none b) :
    Frame A none none fs fs' := by
  obtain ⟨hino, hnext, hcwd⟩ := FS.rename_frame hr
  refine ⟨hcwd, fun hA k hk => FS.isDir_rename hr (hA k hk) (ha.above k hk) (Ne.symm (hb.ne hk)),
    FS.node_rename_frame hr (ha.above _ A.mem) (hb.above _ A.mem), hnext ▸ le_rfl,
    fun t ext hx _ => FS.node_rename_frame hr (ha.not_suffix (.inl (hx.dot t))) (hb.not_suffix (.inl (hx.dot t))),
    fun n _ hn _ => FS.node_rename_frame hr (ha.not_suffix (.inr hn)) (hb.not_suffix (.inr hn)), fun _ _ _ _ =>
      by rw [hino]⟩

/-- A step that frees one name elsewhere, or binds it. -/
theorem frame_single (ha : Off A none a) (hn : ∀ l, l ≠ a → fs'.node l = fs.node l) (hcwd : fs'.cwd = fs.cwd)
    (hnext : fs'.next = fs.next) (hino : fs'.inode = fs.inode) : Frame A none none fs fs' := by
  refine ⟨hcwd, fun hA k hk => ?_, hn _ (ha.ne A.mem), hnext ▸ le_rfl, fun t ext hx _ => hn _ fun e => ?_,
    fun n _ hc _ => hn _ fun e => ?_, fun _ _ _ _ => by rw [hino]⟩
  · rw [FS.isDir, hn k (ha.ne hk)]
    exact hA k hk
  · exact (ha.entry _ e.symm).1 (hx.dot t)
  · exact hc (ha.entry _ e.symm).2

theorem frame_unlink (hu : fs.unlink a = .ok fs') (ha : Off A none a) : Frame A none none fs fs' := by
  obtain ⟨hino, hnext, hcwd⟩ := FS.unlink_frame hu
  exact frame_single ha (fun l hl => by rw [FS.node_unlink hu, if_neg hl]) hcwd hnext hino

theorem frame_rmdir (hr : fs.rmdir a = .ok fs') (ha : Off A none a) : Frame A none none fs fs' := by
  obtain ⟨hino, hnext, hcwd⟩ := FS.rmdir_frame hr
  exact frame_single ha (fun l hl => by rw [FS.node_rmdir hr, if_neg hl]) hcwd hnext hino

theorem frame_mkdtemp {tmpl pick p : Str} (hm : fs.mkdtemp tmpl pick = some (.ok (p, fs')))
    (ha : Off A none (norm fs.cwd p)) :
    Frame A none none fs fs' := by
  obtain ⟨v, hn, hino, hnext, hcwd⟩ := FS.node_mkdtemp hm
  exact frame_single ha (fun l hl => by rw [hn, if_neg hl]) hcwd hnext hino

/-- A new file that is none of a pair. -/
theorem frame_added {y : Inode} (h : Added fs fs' a y) (hnext : fs.next ≤ fs'.next) (ha : Off A c a) :
    Frame A none none fs fs' := by
  refine ⟨h.cwd, fun hA k hk => ?_, ?_, hnext, fun t ext hx _ => ?_, fun n _ _ hn => ?_, fun t i _ hi => ?_⟩
  · rw [FS.isDir, h.node, if_neg (ha.ne hk)]
    exact hA k hk
  · rw [h.node, if_neg (ha.ne A.mem)]
  · rw [h.node, if_neg fun e => (ha.entry _ e.symm).1 (hx.dot t)]
  · rw [h.node, if_neg]
    rintro rfl
    exact hn h.free
  · rw [h.inode, Function.update_of_ne (Nat.ne_of_lt (fs.bound _ _ hi))]

/-- Bytes for a file that is no metadata. -/
theorem frame_append {j : Ino} {bs : Bytes} {now : Int} (hj : ∀ t, fs.node (metaAt A.dir t) ≠ some (.file j)) :
    Frame A none none fs (fs.append j bs now) := by
  refine ⟨rfl, id, rfl, le_rfl, fun _ _ _ _ => rfl, fun _ _ _ _ => rfl, fun t i _ hi => ?_⟩
  have : i ≠ j := fun e => hj t (e ▸ hi)
  rw [FS.append, FS.inode_setInode, Function.update_of_ne this]

/-- The names of pairs tell the ids apart. -/
theorem pair_inj {t u ext ext' : Str} (hx : IsExt ext) (hx' : IsExt ext') (h : t ++ ext = u ++ ext') :
    t = u ∧ ext = ext' := by
  rcases hx with rfl | rfl
  · rcases hx' with rfl | rfl
    · exact ⟨List.append_cancel_right h, rfl⟩
    · exact absurd h ext_ne
  · rcases hx' with rfl | rfl
    · exact absurd h.symm ext_ne
    · exact ⟨List.append_cancel_right h, rfl⟩

theorem slot_not_above {T : Loc} {n : Name} : ¬ n :: T <:+ T := by
  intro h
  have := h.length_le
  rw [List.length_cons] at this
  omega

theorem pair_ne_temp {T : Loc} {t ext n : Str} (hx : IsExt ext) (hn : '.' ∉ n) : n :: T ≠ (t ++ ext) :: T := by
  intro e
  rw [(List.cons.inj e).1] at hn
  exact hn (hx.dot t)

/-- A file of the pair of `id` is removed. -/
theorem frame_own_unlink {id ext : Str} (hx : IsExt ext) (hu : fs.unlink ((id ++ ext) :: A.dir) = .ok fs') :
    Frame A (some id) none fs fs' := by
  obtain ⟨hino, hnext, hcwd⟩ := FS.unlink_frame hu
  obtain ⟨i, hi, -⟩ := FS.unlink_ok hu
  have hn := FS.node_unlink hu
  refine ⟨hcwd, fun hA k hk => ?_, ?_, hnext ▸ le_rfl, fun t ext' hx' ht => ?_, fun n hd _ _ => ?_, fun _ _ _ _ =>
    by rw [hino]⟩
  · rw [FS.isDir, hn, if_neg]
    · exact hA k hk
    · rintro rfl
      have := hA _ hk
      rw [FS.isDir, hi] at this
      cases this
  · rw [hn, if_neg (Ne.symm (List.cons_ne_self _ _))]
  · rw [hn, if_neg]
    intro e
    exact ht (congrArg some (pair_inj hx' hx (List.cons.inj e).1).1.symm)
  · rw [hn, if_neg (pair_ne_temp hx hd)]

/-- Something is renamed to the data file of `id`, which is not there. -/
theorem frame_own_rename {id : Str} (hr : fs.rename a (dataAt A.dir id) = .ok fs') (ha : Off A c a)
    (hfree : fs.node (dataAt A.dir id) = none) :
    Frame A (some id) c fs fs' ∧ fs'.node (metaAt A.dir id) = fs.node (metaAt A.dir id) := by
  obtain ⟨hino, hnext, hcwd⟩ := FS.rename_frame hr
  have hb : ∀ n, n ≠ id ++ DATA_EXT → ¬ dataAt A.dir id <:+ n :: A.dir := by
    intro n hn hs
    rcases List.suffix_cons_iff.1 hs with e | hs
    · exact hn (List.cons.inj e).1.symm
    · exact slot_not_above hs
  refine ⟨⟨hcwd, fun hA k hk => FS.isDir_rename hr (hA k hk) (ha.above k hk) ?_,
    FS.node_rename_frame hr (ha.above _ A.mem) slot_not_above, hnext ▸ le_rfl,
    fun t ext hx ht => FS.node_rename_frame hr (ha.not_suffix (.inl (hx.dot t))) (hb _ ?_),
    fun n hn hc _ => FS.node_rename_frame hr (ha.not_suffix (.inr hc)) (hb _ ?_), fun _ _ _ _ => by rw [hino]⟩,
    FS.node_rename_frame hr (ha.not_suffix (.inl (IsExt.dot (.inl rfl) id))) (hb _ ext_ne)⟩
  · rintro rfl
    have := hA _ hk
    rw [FS.isDir, hfree] at this
    cases this
  · intro e
    exact ht (congrArg some (pair_inj hx (.inr rfl) e).1.symm)
  · rintro rfl
    exact hn (IsExt.dot (.inr rfl) id)

/-- New metadata for `id`. -/
theorem frame_own_added {id : Str} {y : Inode} (h : Added fs fs' (metaAt A.dir id) y) (hnext : fs.next ≤ fs'.next) :
    Frame A (some id) none fs fs' ∧ fs'.node (dataAt A.dir id) = fs.node (dataAt A.dir id) := by
  refine ⟨⟨h.cwd, fun hA k hk => ?_, ?_, hnext, fun t ext hx ht => ?_, fun n hn _ _ => ?_, fun t i _ hi => ?_⟩, ?_⟩
  · rw [FS.isDir, h.node, if_neg]
    · exact hA k hk
    · rintro rfl
      have := hA _ hk
      rw [FS.isDir, h.free] at this
      cases this
  · rw [h.node, metaAt, if_neg (Ne.symm (List.cons_ne_self _ _))]
  · rw [h.node, metaAt, if_neg fun e => ht (congrArg some (pair_inj hx (.inl rfl) (List.cons.inj e).1).1.symm)]
  · rw [h.node, metaAt, if_neg (pair_ne_temp (.inl rfl) hn)]
  · rw [h.inode, Function.update_of_ne (Nat.ne_of_lt (fs.bound _ _ hi))]
  · rw [h.node, if_neg (Ne.symm metaAt_ne_dataAt)]

end Frame

/-! ## Requests -/

/-- The metadata of a request: its file, the text, and the bytes written so far. -/
structure Draft where
  id : Str
  fd : Ino
  text : Bytes
  done : Bytes

/-- How far a `send_file` has come: it has an id; it writes its metadata; the metadata is closed and the data not moved
yet, perhaps with a copy of it under a temporary name; the data is moved; the metadata is removed again. -/
inductive SendStage
  | idle
  | named (id : Str)
  | writing (d : Draft)
  | ready (d : Draft) (copy : Option (Name × Ino))
  | sent (d : Draft)
  | failed (id : Str)

namespace SendStage

/-- The id of a request. -/
def id? : SendStage → Option Str
  | idle => none
  | named id => some id
  | writing d => some d.id
  | ready d _ => some d.id
  | sent d => some d.id
  | failed id => some id

/-- Its metadata. -/
def draft? : SendStage → Option Draft
  | writing d => some d
  | ready d _ => some d
  | sent d => some d
  | _ => none

/-- The temporary name of its copy. -/
def temp? : SendStage → Option Name
  | ready _ (some (n, _)) => some n
  | _ => none

/-- The data is moved. -/
def isSent : SendStage → Bool
  | sent _ => true
  | _ => false

theorem id_of_draft {s : SendStage} {d : Draft} (h : s.draft? = some d) : s.id? = some d.id := by
  cases s <;> cases h <;> rfl

end SendStage

/-- Bytes of metadata were written. -/
def Ev.metaWrite (e : Ev) : Bool :=
  !e.refused && (decide (e.site = .insertMeta) || decide (e.site = .flushMeta) || decide (e.site = .flushClose))

/-- Metadata was made or written. -/
def Ev.metaTouch (e : Ev) : Bool := (!e.refused && decide (e.site = .openMeta)) || e.metaWrite

/-- The id that was drawn. -/
def Op.drawn : (op : Op) → op.Res → Option Str
  | .urandom, r => some (uuidText r)
  | _, _ => none

/-- The id that a request drew. -/
def Ev.drawn (e : Ev) : Option Str := e.call.op.drawn e.res

/-- An event that neither touches metadata nor draws an id. -/
def Ev.Plain (e : Ev) : Prop := e.metaTouch = false ∧ e.drawn = none

/-- What a step of a `send_file` does. In a `clean` run the metadata is complete when it is closed, and stays. -/
inductive SendEffect (A : Area) (codec : Codec) (clean : Prop) (w : World) (e : Ev) (w' : World) : SendStage →
    SendStage → Prop
  | keep {s : SendStage} : Frame A none none w.fs w'.fs → w'.uuids = w.uuids → e.Plain →
    SendEffect A codec clean w e w' s s
  | name {id : Str} : w.unusedId id = true → w'.fs = w.fs → w'.uuids = id :: w.uuids → e.metaTouch = false →
    e.drawn = some id →
    SendEffect A codec clean w e w' .idle (.named id)
  | create {id : Str} {tm : TransferMeta} : tm.texts.all utf8 = true → Frame A (some id) none w.fs w'.fs →
    w'.uuids = w.uuids → w.fs.next < w'.fs.next →
    w'.fs.node (metaAt A.dir id) = some (.file w.fs.next) → w'.fs.node (dataAt A.dir id) = w.fs.node (dataAt A.dir id) →
    w'.fs.inode w.fs.next = ⟨[], true, e.choice.ticks 0, e.choice.ticks 0⟩ → e.drawn = none →
    SendEffect A codec clean w e w' (.named id) (.writing ⟨id, w.fs.next, codec.dump tm, []⟩)
  | drop {s : SendStage} {id : Str} : s.id? = some id → s.isSent = false → (clean → s = .named id) →
    Frame A (some id) none w.fs w'.fs → w'.uuids = w.uuids → w'.fs.node (metaAt A.dir id) = none →
    w'.fs.node (dataAt A.dir id) = w.fs.node (dataAt A.dir id) → e.Plain → SendEffect A codec clean w e w' s s
  | write {d : Draft} {b : Bytes} : w'.fs = w.fs.append d.fd b (e.choice.ticks 0) → w'.uuids = w.uuids →
    (clean → d.done ++ b <+: d.text) → e.metaWrite = true → e.drawn = none →
    SendEffect A codec clean w e w' (.writing d) (.writing { d with done := d.done ++ b })
  | close {d : Draft} : w'.fs = w.fs → w'.uuids = w.uuids → (clean → d.done = d.text) → e.Plain →
    SendEffect A codec clean w e w' (.writing d) (.ready d none)
  | copy {d : Draft} {n : Name} {j : Ino} : Frame A none none w.fs w'.fs → w'.uuids = w.uuids → '.' ∉ n →
    w.fs.node (n :: A.dir) = none → w'.fs.node (n :: A.dir) = some (.file j) → w'.fs.writable A.dir = true →
    (∀ t, w'.fs.node (metaAt A.dir t) ≠ some (.file j)) → e.Plain →
    SendEffect A codec clean w e w' (.ready d none) (.ready d (some (n, j)))
  | send {d : Draft} {cp : Option (Name × Ino)} : Frame A (some d.id) (SendStage.ready d cp).temp? w.fs w'.fs →
    w'.uuids = w.uuids → w'.fs.node (metaAt A.dir d.id) = w.fs.node (metaAt A.dir d.id) → w'.fs.inode = w.fs.inode →
    w'.fs.node (dataAt A.dir d.id) ≠ none → e.Plain → SendEffect A codec clean w e w' (.ready d cp) (.sent d)
  | fail {d : Draft} {cp : Option (Name × Ino)} : Frame A (some d.id) none w.fs w'.fs → w'.uuids = w.uuids →
    w'.fs.node (metaAt A.dir d.id) = none → w'.fs.node (dataAt A.dir d.id) = w.fs.node (dataAt A.dir d.id) →
    e.Plain → SendEffect A codec clean w e w' (.ready d cp) (.failed d.id)

/-- What is the request's own: its id, its names while they are free, the files that it writes to. -/
structure Owns (A : Area) (w : World) (s : SendStage) : Prop where
  ids : ∀ id, s.id? = some id → id ∈ w.uuids
  named : ∀ id, s = .named id → w.fs.node (metaAt A.dir id) = none
  unsent : ∀ id, s.id? = some id → s.isSent = false → w.fs.node (dataAt A.dir id) = none
  draft : ∀ d, s.draft? = some d → d.fd < w.fs.next ∧ (∀ t, w.fs.node (metaAt A.dir t) = some (.file d.fd) → t = d.id) ∧
    ∀ m, w.fs.node (metaAt A.dir d.id) = some (.file m) →
      m = d.fd ∧ (w.fs.inode m).data = d.done ∧ (w.fs.inode m).readable = true
  copies : ∀ d n j, s = .ready d (some (n, j)) → '.' ∉ n ∧ w.fs.node (n :: A.dir) = some (.file j) ∧
    w.fs.writable A.dir = true ∧ ∀ t, w.fs.node (metaAt A.dir t) ≠ some (.file j)

/-- The pairs but that of `x` are left alone or lose a name; `x` may get new metadata. Temporary files but `c` stay. -/
structure Harmless (A : Area) (x : Option Str) (c : Option Name) (w w' : World) : Prop where
  cwd : w'.fs.cwd = w.fs.cwd
  dir : A.There w.fs → A.There w'.fs
  top : w'.fs.node A.dir = w.fs.node A.dir
  next : w.fs.next ≤ w'.fs.next
  uuids : ∀ id ∈ w.uuids, id ∈ w'.uuids
  node : ∀ t ext, IsExt ext → x ≠ some t → w'.fs.node ((t ++ ext) :: A.dir) = w.fs.node ((t ++ ext) :: A.dir) ∨
    w'.fs.node ((t ++ ext) :: A.dir) = none
  temp : ∀ n, '.' ∉ n → c ≠ some n → w.fs.node (n :: A.dir) ≠ none → w'.fs.node (n :: A.dir) = w.fs.node (n :: A.dir)
  inode : ∀ t i, x ≠ some t → w'.fs.node (metaAt A.dir t) = some (.file i) → w'.fs.inode i = w.fs.inode i
  fresh : ∀ id i, x = some id → w'.fs.node (metaAt A.dir id) = some (.file i) →
    w.fs.node (metaAt A.dir id) = some (.file i) ∨ w.fs.next ≤ i

section Owns

variable {A : Area} {w w' : World} {s : SendStage} {x : Option Str} {c : Option Name} {codec : Codec}
  {clean : Prop} {e : Ev}

theorem Frame.harmless (h : Frame A x c w.fs w'.fs) (hu : ∀ id ∈ w.uuids, id ∈ w'.uuids)
    (hx : ∀ id i, x = some id → w'.fs.node (metaAt A.dir id) = some (.file i) →
      w.fs.node (metaAt A.dir id) = some (.file i) ∨ w.fs.next ≤ i) : Harmless A x c w w' where
  cwd := h.cwd
  dir := h.dir
  top := h.top
  next := h.next
  uuids := hu
  node t ext hext ht := .inl (h.node t ext hext ht)
  temp := h.temp
  inode t i ht hi := h.inode t i ht (by rwa [h.meta ht] at hi)
  fresh := hx

/-- Where a file of metadata is after a harmless step, it was before, or it is new. -/
theorem Harmless.meta (h : Harmless A x c w w') {t : Str} {i : Ino}
    (hi : w'.fs.node (metaAt A.dir t) = some (.file i)) :
    w.fs.node (metaAt A.dir t) = some (.file i) ∨ w.fs.next ≤ i := by
  by_cases ht : x = some t
  · exact h.fresh t i ht hi
  · rcases h.node t META_EXT (.inl rfl) ht with e | e
    · exact .inl (e ▸ hi)
    · exact absurd (e.symm.trans hi) (by simp)

/-- What is free stays free, for the other ids. -/
theorem Harmless.free (h : Harmless A x c w w') {t ext : Str} (hx : IsExt ext) (ht : x ≠ some t)
    (hf : w.fs.node ((t ++ ext) :: A.dir) = none) : w'.fs.node ((t ++ ext) :: A.dir) = none := by
  rcases h.node t ext hx ht with e | e
  · rw [e, hf]
  · exact e

theorem Harmless.writable (h : Harmless A x c w w') (hw : w.fs.writable A.dir = true) :
    w'.fs.writable A.dir = true := by
  rw [FS.writable, h.top]
  exact hw

/-- A request keeps what is its own in a harmless step of another. -/
theorem Owns.harmless (h : Owns A w s) (hh : Harmless A x c w w') (hx : ∀ id, s.id? = some id → x ≠ some id)
    (hc : ∀ n, s.temp? = some n → c ≠ some n) : Owns A w' s where
  ids id hid := hh.uuids id (h.ids id hid)
  named id hs := hh.free (.inl rfl) (hx id (by rw [hs]; rfl)) (h.named id hs)
  unsent id hid hs := hh.free (.inr rfl) (hx id hid) (h.unsent id hid hs)
  draft d hd := by
    obtain ⟨hlt, hown, htext⟩ := h.draft d hd
    have hxd := hx d.id (SendStage.id_of_draft hd)
    refine ⟨Nat.lt_of_lt_of_le hlt hh.next, fun t ht => ?_, fun m hm => ?_⟩
    · rcases hh.meta ht with h' | h'
      · exact hown t h'
      · exact absurd hlt (Nat.not_lt.2 h')
    · have hm' : w.fs.node (metaAt A.dir d.id) = some (.file m) := by
        rcases hh.node d.id META_EXT (.inl rfl) hxd with e | e
        · exact e ▸ hm
        · exact absurd (e.symm.trans hm) (by simp)
      rw [hh.inode d.id m hxd hm]
      exact htext m hm'
  copies d n j hs := by
    obtain ⟨hn, hj, hw, hown⟩ := h.copies d n j hs
    refine ⟨hn, ?_, hh.writable hw, fun t ht => ?_⟩
    · rw [hh.temp n hn (hc n (by rw [hs]; rfl)) (by simp [hj]), hj]
    · rcases hh.meta ht with h' | h'
      · exact hown t h'
      · exact absurd (w.fs.bound _ _ hj) (Nat.not_lt.2 h')

/-- The frame of a step: it leaves all pairs and temporary files alone but those of the request, and gives it no
metadata but a new file. -/
theorem SendEffect.frame {s' : SendStage} (he : SendEffect A codec clean w e w' s s') (h : Owns A w s) :
    ∃ x c, (∀ id, x = some id → s.id? = some id) ∧ (∀ n, c = some n → s.temp? = some n) ∧ Frame A x c w.fs w'.fs ∧
      ∀ id i, x = some id → w'.fs.node (metaAt A.dir id) = some (.file i) →
        w.fs.node (metaAt A.dir id) = some (.file i) ∨ w.fs.next ≤ i := by
  cases he with
  | keep hf _ _ => exact ⟨none, none, by simp, by simp, hf, by simp⟩
  | name _ hf _ _ _ => exact ⟨none, none, by simp, by simp, hf ▸ Frame.refl, by simp⟩
  | @create id tm _ hf _ _ hn _ _ _ =>
    refine ⟨some id, none, fun _ h => h, by simp, hf, fun id' i hid hi => ?_⟩
    cases hid
    rw [hn] at hi
    cases hi
    exact .inr le_rfl
  | @drop _ id hid _ _ hf _ hn _ _ =>
    refine ⟨some id, none, fun _ h => h ▸ hid, by simp, hf, fun id' i hid hi => ?_⟩
    cases hid
    rw [hn] at hi
    cases hi
  | @write d b hf _ _ _ _ =>
    refine ⟨some d.id, none, fun _ h => h, by simp, ?_, fun id i _ hi => .inl (by rw [hf] at hi; exact hi)⟩
    rw [hf]
    refine ⟨rfl, id, rfl, le_rfl, fun _ _ _ _ => rfl, fun _ _ _ _ => rfl, fun t i ht hi => ?_⟩
    have hne : i ≠ d.fd := by
      rintro rfl
      exact ht (by rw [(h.draft d rfl).2.1 t hi])
    rw [FS.append, FS.inode_setInode, Function.update_of_ne hne]
  | close hf _ _ _ => exact ⟨none, none, by simp, by simp, hf ▸ Frame.refl, by simp⟩
  | copy hf _ _ _ _ _ _ _ => exact ⟨none, none, by simp, by simp, hf, by simp⟩
  | @send d cp hf _ hn _ _ _ =>
    refine ⟨some d.id, _, fun _ h => h, fun _ h => h, hf, fun id' i hid hi => ?_⟩
    cases hid
    exact .inl (hn ▸ hi)
  | @fail d cp hf _ hn _ _ =>
    refine ⟨some d.id, none, fun _ h => h, by simp, hf, fun id' i hid hi => ?_⟩
    cases hid
    rw [hn] at hi
    cases hi

/-- Ids stay used. -/
theorem SendEffect.uuids {s' : SendStage} (he : SendEffect A codec clean w e w' s s') : ∀ id ∈ w.uuids,
    id ∈ w'.uuids := by
  intro id hid
  cases he with
  | keep _ hu _ => rwa [hu]
  | name _ _ hu _ _ =>
    rw [hu]
    exact List.mem_cons_of_mem _ hid
  | create _ _ hu _ _ _ _ _ => rwa [hu]
  | drop _ _ _ _ hu _ _ _ => rwa [hu]
  | write _ hu _ _ _ => rwa [hu]
  | close _ hu _ _ => rwa [hu]
  | copy _ hu _ _ _ _ _ _ => rwa [hu]
  | send _ hu _ _ _ _ => rwa [hu]
  | fail _ hu _ _ _ => rwa [hu]

/-- A request keeps its id. -/
theorem SendEffect.id_mono {s' : SendStage} (he : SendEffect A codec clean w e w' s s') {id : Str}
    (hid : s.id? = some id) :
    s'.id? = some id := by
  cases he with
  | name => cases hid
  | _ => exact hid

/-- The names of an unused id are free. -/
theorem free_of_unused {id ext : Str} {T : Loc} (hun : w.unusedId id = true) (hx : IsExt ext) :
    w.fs.node ((id ++ ext) :: T) = none := by
  rw [World.unusedId, Bool.and_eq_true] at hun
  cases hn : w.fs.node ((id ++ ext) :: T) with
  | none => rfl
  | some n =>
    have hk : (id ++ ext) :: T ∈ w.fs.names.keys :=
      AList.mem_keys.1 (AList.lookup_isSome.1 (Option.isSome_iff_exists.2 ⟨n, hn⟩))
    have := of_decide_eq_true (List.all_eq_true.1 hun.2 _ hk)
    rcases hx with rfl | rfl
    · exact absurd rfl this.1
    · exact absurd rfl this.2

/-- A request keeps what is its own in a step of its own. -/
theorem Owns.effect {s' : SendStage} (h : Owns A w s) (he : SendEffect A codec clean w e w' s s') : Owns A w' s' := by
  cases he with
  | keep hf hu _ => exact h.harmless (hf.harmless (x := none) (c := none) (by simp [hu]) (by simp)) (by simp) (by simp)
  | @name id hun hf hu _ _ =>
    refine ⟨fun _ hid => ?_, fun _ hs => ?_, fun _ hid _ => ?_, fun _ hd => (by cases hd), fun _ _ _ hs =>
      (by cases hs)⟩
    · cases hid
      rw [hu]
      exact List.mem_cons_self
    · cases hs
      rw [hf]
      exact free_of_unused hun (.inl rfl)
    · cases hid
      rw [hf]
      exact free_of_unused hun (.inr rfl)
  | @create id tm _ hf hu hlt hn hdata hino _ =>
    refine ⟨fun _ hid => ?_, fun _ hs => (by cases hs), fun _ hid _ => ?_, fun d hd => ?_, fun _ _ _ hs =>
      (by cases hs)⟩
    · rw [hu]
      exact h.ids _ hid
    · cases hid
      rw [hdata]
      exact h.unsent id rfl rfl
    · cases hd
      refine ⟨hlt, fun t ht => ?_, fun m hm => ?_⟩
      · by_contra hne
        have hne' : some id ≠ some t := fun e => hne (Option.some.inj e).symm
        rw [hf.meta hne'] at ht
        exact absurd (w.fs.bound _ _ ht) (Nat.lt_irrefl _)
      · rw [hn] at hm
        cases hm
        exact ⟨rfl, by rw [hino], by rw [hino]⟩
  | @drop _ id hid hns _ hf hu hn hdata _ =>
    refine ⟨fun _ hid' => (by rw [hu]; exact h.ids _ hid'), fun id' hs => ?_, fun id' hid' hs => ?_, fun d hd => ?_,
      fun d n j hs => ?_⟩
    · subst hs
      cases hid
      exact hn
    · rw [hid] at hid'
      cases hid'
      rw [hdata]
      exact h.unsent id hid hs
    · obtain ⟨hlt, hown, -⟩ := h.draft d hd
      have hdid := SendStage.id_of_draft hd
      rw [hid] at hdid
      refine ⟨Nat.lt_of_lt_of_le hlt hf.next, fun t ht => ?_, fun m hm => ?_⟩
      · by_cases e : some id = some t
        · cases e
          rw [hn] at ht
          cases ht
        · rw [hf.meta e] at ht
          exact hown t ht
      · rw [← Option.some.inj hdid, hn] at hm
        cases hm
    · obtain ⟨hdot, hj, hw, hown⟩ := h.copies d n j hs
      refine ⟨hdot, ?_, ?_, fun t ht => ?_⟩
      · rw [hf.temp n hdot (by simp) (by simp [hj]), hj]
      · rw [FS.writable, hf.top]
        exact hw
      by_cases e : some id = some t
      · cases e
        rw [hn] at ht
        cases ht
      · rw [hf.meta e] at ht
        exact hown t ht
  | @write d b hf hu _ _ _ =>
    obtain ⟨hlt, hown, htext⟩ := h.draft d rfl
    refine ⟨fun _ hid => (by rw [hu]; exact h.ids _ hid), fun _ hs => (by cases hs), fun id hid _ =>
      ?_, fun d' hd => ?_,
      fun _ _ _ hs => (by cases hs)⟩
    · rw [hf]
      exact h.unsent id hid rfl
    · cases hd
      rw [hf]
      refine ⟨hlt, hown, fun m hm => ?_⟩
      obtain ⟨rfl, hdone, hread⟩ := htext m hm
      rw [FS.append, FS.inode_setInode, Function.update_self]
      exact ⟨rfl, by rw [hdone], hread⟩
  | @close d hf hu _ _ =>
    refine ⟨fun _ hid => (by rw [hu]; exact h.ids _ hid), fun _ hs => (by cases hs), fun id hid _ =>
      ?_, fun d' hd => ?_,
      fun _ _ _ hs => (by cases hs)⟩
    · rw [hf]
      exact h.unsent id hid rfl
    · cases hd
      rw [hf]
      exact h.draft _ rfl
  | @copy d n j hf hu hdot hnone hj hw hown _ =>
    have hh' : Harmless A none none w w' := hf.harmless (by simp [hu]) (by simp)
    have hh := h.harmless hh' (by simp) (by simp)
    refine ⟨hh.ids, fun _ hs => (by cases hs), fun id hid _ => hh.unsent id hid rfl, hh.draft, fun _ n' j' hs => ?_⟩
    cases hs
    exact ⟨hdot, hj, hw, hown⟩
  | @send d cp hf hu hn hino _ _ =>
    obtain ⟨hlt, hown, htext⟩ := h.draft d rfl
    have hmeta : ∀ t, w'.fs.node (metaAt A.dir t) = w.fs.node (metaAt A.dir t) := by
      intro t
      by_cases e : some d.id = some t
      · rw [← Option.some.inj e, hn]
      · exact hf.meta e
    refine ⟨fun _ hid => (by rw [hu]; exact h.ids _ hid), fun _ hs => (by cases hs), fun _ _ hs => (by cases hs),
      fun d' hd => ?_,
      fun _ _ _ hs => (by cases hs)⟩
    cases hd
    refine ⟨Nat.lt_of_lt_of_le hlt hf.next, fun t ht => hown t (hmeta t ▸ ht), fun m hm => ?_⟩
    rw [hino]
    exact htext m (hmeta d.id ▸ hm)
  | @fail d cp hf hu hn hdata _ =>
    refine ⟨fun _ hid => (by rw [hu]; exact h.ids _ hid), fun _ hs => (by cases hs), fun _ hid _ => ?_,
      fun _ hd => (by cases hd),
      fun _ _ _ hs => (by cases hs)⟩
    cases hid
    rw [hdata]
    exact h.unsent d.id rfl rfl

end Owns

/-- The requests at any time: `transfers` is there, each request has what is its own, and no two have one id or one
temporary name. -/
structure Sending {ι : Type} (cwd : Loc) (A : Area) (w : World) (S : ι → SendStage) : Prop where
  wd : w.fs.cwd = cwd
  dir : A.There w.fs
  owns : ∀ i, Owns A w (S i)
  apart : ∀ i j id, (S i).id? = some id → (S j).id? = some id → i = j
  temps : ∀ i j n, (S i).temp? = some n → (S j).temp? = some n → i = j

section Sending

variable {ι : Type} {cwd : Loc} {A : Area} {w w' : World} {S : ι → SendStage} {i : ι} {codec : Codec}
  {clean : Prop} {e : Ev}

/-- At the start no request has anything. -/
theorem Sending.init (hdir : A.There w.fs) : Sending w.fs.cwd A w (fun _ : ι => .idle) where
  wd := rfl
  dir := hdir
  owns _ := ⟨fun _ h => (by cases h), fun _ h => (by cases h), fun _ h => (by cases h), fun _ h => (by cases h),
    fun _ _ _ h => (by cases h)⟩
  apart _ _ _ h := by cases h
  temps _ _ _ h := by cases h

/-- A step that only takes names away. -/
theorem Sending.harmless (h : Sending cwd A w S) (hh : Harmless A none none w w') : Sending cwd A w' S where
  wd := hh.cwd.trans h.wd
  dir := hh.dir h.dir
  owns i := (h.owns i).harmless hh (by simp) (by simp)
  apart := h.apart
  temps := h.temps

/-- An id that a step gives is that of before, or a new one. -/
theorem SendEffect.id_cases {s s' : SendStage} (he : SendEffect A codec clean w e w' s s') {id : Str}
    (hid : s'.id? = some id) :
    s.id? = some id ∨ w.unusedId id = true := by
  cases he with
  | name hun _ _ _ _ =>
    cases hid
    exact .inr hun
  | _ => exact .inl hid

theorem notMem_of_unused {id : Str} (h : w.unusedId id = true) : id ∉ w.uuids := by
  rw [World.unusedId, Bool.and_eq_true] at h
  exact of_decide_eq_true h.1

/-- So is a temporary name. -/
theorem SendEffect.temp_cases {s s' : SendStage} (he : SendEffect A codec clean w e w' s s') {n : Name}
    (hn : s'.temp? = some n) :
    s.temp? = some n ∨ w.fs.node (n :: A.dir) = none := by
  cases he with
  | copy _ _ _ hnone _ _ _ _ =>
    cases hn
    exact .inr hnone
  | name => cases hn
  | create => cases hn
  | write => cases hn
  | close => cases hn
  | send => cases hn
  | fail => cases hn
  | _ => exact .inl hn

theorem Owns.temp_ne {s : SendStage} (h : Owns A w s) {n : Name} (hn : s.temp? = some n) :
    w.fs.node (n :: A.dir) ≠ none := by
  match s, hn with
  | .ready d (some (m, j)), rfl => simp [(h.copies d m j rfl).2.1]

/-- Two of a family agree on a key only if they are one, also after a step that gives one of them a new key. -/
theorem update_apart {β κ : Type} [DecidableEq ι] {S : ι → β} {f : β → Option κ} {s' : β}
    (h : ∀ i j k, f (S i) = some k → f (S j) = some k → i = j)
    (hnew : ∀ j k, j ≠ i → f s' = some k → f (S j) ≠ some k) :
    ∀ j l k, f (Function.update S i s' j) = some k → f (Function.update S i s' l) = some k → j = l := by
  intro j l k hj hl
  by_cases hji : j = i
  · by_cases hli : l = i
    · rw [hji, hli]
    · subst hji
      rw [Function.update_self] at hj
      rw [Function.update_of_ne hli] at hl
      exact absurd hl (hnew l k hli hj)
  · by_cases hli : l = i
    · subst hli
      rw [Function.update_self] at hl
      rw [Function.update_of_ne hji] at hj
      exact absurd hj (hnew j k hji hl)
    · rw [Function.update_of_ne hji] at hj
      rw [Function.update_of_ne hli] at hl
      exact h j l k hj hl

/-- A step of a request. -/
theorem Sending.effect [DecidableEq ι] {s' : SendStage} (h : Sending cwd A w S)
    (he : SendEffect A codec clean w e w' (S i) s') :
    Sending cwd A w' (Function.update S i s') := by
  obtain ⟨x, c, hx, hc, hf, hnew⟩ := he.frame (h.owns i)
  have hh : Harmless A x c w w' := hf.harmless he.uuids hnew
  refine ⟨hh.cwd.trans h.wd, hh.dir h.dir, fun j => ?_, update_apart h.apart fun j id hj hid hjd => ?_,
    update_apart h.temps fun j n hj hn hjn => ?_⟩
  · by_cases hj : j = i
    · subst hj
      rw [Function.update_self]
      exact (h.owns j).effect he
    · rw [Function.update_of_ne hj]
      refine (h.owns j).harmless hh (fun id hid hxid => hj ?_) fun n hn hcn => hj ?_
      · exact h.apart j i id hid (hx id hxid)
      · exact h.temps j i n hn (hc n hcn)
  · rcases he.id_cases hid with h' | h'
    · exact hj (h.apart j i id hjd h')
    · exact notMem_of_unused h' ((h.owns j).ids id hjd)
  · rcases he.temp_cases hn with h' | h'
    · exact hj (h.temps j i n hjn h')
    · exact (h.owns j).temp_ne hjn h'

end Sending

end OortAgent
