import OortAgent.Cleaner
import OortAgent.Published

/-!
# The cleanup spares fresh transfers

The cleanup lists old files first and removes them later. In between a request may still write to metadata that was
listed, so fresh metadata can be removed (`cleaner_removes_fresh`). This needs a request that takes longer than the
maximum age from one change of its metadata to the next: without that, the cleanup never removes a file of a
transfer before the maximum age has passed since its metadata was written (`cleaner_spares_fresh`).

* `Expired`: all that a request did to its metadata is older than the maximum age. Such a request writes no more.
* `Tidy`: metadata is there or expired, and what a cleanup run has listed is expired or data that was moved.
-/

namespace OortAgent

open Lib

/-- The clock at a call. -/
def Ev.clock (e : Ev) : Int := e.choice.ticks 0

/-- The file that was removed. -/
def Op.unlinked : (op : Op) → op.Res → Option Str
  | .unlink p, .ok _ => some p
  | _, _ => none

/-- The file that the cleanup removed. -/
def Ev.cleans (e : Ev) : Option Str := if e.site = .cleanMeta ∨
    e.site = .cleanData then e.call.op.unlinked e.res else none

section Age

variable {ι : Type} {age : Int} {tr : History Calls Choice ι} {i k : ι} {e : Ev} {u : Int}

/-- At the time `u`, all that the request did to its metadata is older than the maximum age. -/
def ExpiredBy (age : Int) (tr : History Calls Choice ι) (k : ι) (u : Int) : Prop :=
  ∀ x ∈ tr, x.1 = k → Ev.metaTouch x.2 = true → Ev.clock x.2 + age < u

/-- That was so at some time. -/
def Expired (age : Int) (tr : History Calls Choice ι) (k : ι) : Prop := ∃ y ∈ tr, ExpiredBy age tr k (Ev.clock y.2)

/-- A request writes to its metadata no later than the maximum age after it made it or wrote to it before. -/
def Prompt (age : Int) (tr : History Calls Choice ι) (e : ι × Ev) : Prop :=
  Ev.metaWrite e.2 = true → ∃ x ∈ tr, x.1 = e.1 ∧ Ev.metaTouch x.2 = true ∧ Ev.clock e.2 ≤ Ev.clock x.2 + age

theorem ExpiredBy.append (h : ExpiredBy age tr k u) (he : i = k → e.metaTouch = true → e.clock + age < u) :
    ExpiredBy age (tr ++ [(i, e)]) k u := by
  intro x hx hk ht
  rcases List.mem_append.1 hx with hx | hx
  · exact h x hx hk ht
  · rw [List.mem_singleton.1 hx] at hk ht ⊢
    exact he hk ht

/-- Prompt requests do not touch expired metadata. -/
theorem ExpiredBy.write (h : ExpiredBy age tr k u) (hu : u ≤ e.clock) (hp : Prompt age tr (k, e))
    (hw : e.metaWrite = true) :
    False := by
  obtain ⟨x, hx, hk, ht, hle⟩ := hp hw
  have hlt := h x hx hk ht
  dsimp only at hle
  omega

theorem Expired.append (h : Expired age tr k)
    (he : i = k → e.metaTouch = true → ∀ y ∈ tr, ExpiredBy age tr k (Ev.clock y.2) → False) :
    Expired age (tr ++ [(i, e)]) k := by
  obtain ⟨y, hy, hexp⟩ := h
  exact ⟨y, List.mem_append_left _ hy, hexp.append fun hk ht => (he hk ht y hy hexp).elim⟩

end Age

/-! ## The protocol -/

/-- What a cleanup run knows: its time, the files it listed, and one of them whose metadata it could not read. -/
structure Round where
  now : Option Int := none
  files : List Str := []
  orphan : Option Str := none

section Tidy

variable {ι : Type} {age : Int} {env : Env} {w₀ w w' : World} {tr : History Calls Choice ι}
  {S : ι → SendStage} {t : Str}

/-- A step without an injected fault, in time. New ids are not those of files that were there, and names of files
have no slash. -/
structure TimedStep (env : Env) (w₀ : World) (tr : History Calls Choice ι) (e : ι × Ev) : Prop where
  faultless : e.2.choice.err = none
  mono : ∀ x ∈ tr, Ev.clock x.2 ≤ Ev.clock e.2
  range : 0 ≤ Ev.clock e.2 ∧ Ev.clock e.2 < 2147483648
  fresh : ∀ id ext, Ev.drawn e.2 = some id → IsExt ext →
    w₀.fs.node ((id ++ ext) :: (env.transfers w₀.fs.cwd).dir) = none
  names : ∀ n ∈ e.2.choice.order, '/' ∉ n

/-- The id is one of a request, or there were files of it at the start. -/
def Seen (A : Area) (w₀ w : World) (t : Str) : Prop :=
  t ∈ w.uuids ∨ ∃ ext, IsExt ext ∧ w₀.fs.node ((t ++ ext) :: A.dir) ≠ none

/-- The metadata of the id has expired. -/
def Aged (age : Int) (A : Area) (w₀ : World) (tr : History Calls Choice ι) (w : World) (S : ι → SendStage)
    (t : Str) : Prop :=
  Seen A w₀ w t ∧ ∀ k, (S k).id? = some t → S k ≠ .named t ∧ Expired age tr k

/-- The data of the id is moved. -/
def Shipped (A : Area) (w₀ w : World) (S : ι → SendStage) (t : Str) : Prop :=
  Seen A w₀ w t ∧ ∀ k, (S k).id? = some t → (S k).isSent = true

/-- What a cleanup run knows is right. -/
structure RoundOk (age : Int) (cwd : Loc) (A : Area) (w₀ : World) (tr : History Calls Choice ι) (w : World)
    (S : ι → SendStage)
    (g : Round) : Prop where
  now : ∀ n, g.now = some n → ∃ y ∈ tr, Ev.clock y.2 = n
  metas : ∀ f ∈ g.files, ∀ t, norm cwd f = metaAt A.dir t → Aged age A w₀ tr w S t
  datas : ∀ f ∈ g.files, ∀ t, norm cwd f = dataAt A.dir t → Shipped A w₀ w S t
  orphan : ∀ f, g.orphan = some f → ∀ t, norm cwd f = dataAt A.dir t → Aged age A w₀ tr w S t

/-- The requests that send, the cleanup runs, and what happened so far. -/
structure Tidy (age : Int) (env : Env) (w₀ : World) (tr : History Calls Choice ι) (w : World)
    (G : ι → SendStage × Round) :
    Prop where
  sending : Sending w₀.fs.cwd (env.transfers w₀.fs.cwd) w (Prod.fst ∘ G)
  present : ∀ k d, (G k).1.draft? = some d →
    w.fs.node (metaAt (env.transfers w₀.fs.cwd).dir d.id) = some (.file d.fd) ∨ Expired age tr k
  mtime : ∀ k d m, (G k).1.draft? = some d → w.fs.node (metaAt (env.transfers w₀.fs.cwd).dir d.id) = some (.file m) →
    ∀ x ∈ tr, x.1 = k → Ev.metaTouch x.2 = true → Ev.clock x.2 ≤ (w.fs.inode m).mtime
  failed : ∀ k id, (G k).1 = .failed id → w.fs.node (metaAt (env.transfers w₀.fs.cwd).dir id) = none
  origin : ∀ t ext, IsExt ext → w.fs.node ((t ++ ext) :: (env.transfers w₀.fs.cwd).dir) ≠ none →
    Seen (env.transfers w₀.fs.cwd) w₀ w t
  ids : ∀ x ∈ tr, ∀ id, Ev.drawn x.2 = some id → (G x.1).1.id? = some id
  rounds : ∀ i, RoundOk age w₀.fs.cwd (env.transfers w₀.fs.cwd) w₀ tr w (Prod.fst ∘ G) (G i).2
  safe : ∀ y ∈ tr, ∀ p t ext, Ev.cleans y.2 = some p → IsExt ext →
    norm w₀.fs.cwd p = (t ++ ext) :: (env.transfers w₀.fs.cwd).dir → Seen (env.transfers w₀.fs.cwd) w₀ w t ∧
    ∀ k, (G k).1.id? = some t → (G k).1 ≠ .named t ∧ ExpiredBy age tr k (Ev.clock y.2)

/-! ### Steps of requests that send -/

variable {A : Area} {codec : Codec} {cwd : Loc} {e : Ev} {s s' : SendStage}

theorem SendEffect.seen (he : SendEffect A codec True w e w' s s') (h : Seen A w₀ w t) : Seen A w₀ w' t :=
  h.imp (he.uuids t) id

/-- A new id was not seen before. -/
theorem SendEffect.old_id (he : SendEffect A codec True w e w' s s') (h : Seen A w₀ w t)
    (hfresh : ∀ id ext, e.drawn = some id → IsExt ext → w₀.fs.node ((id ++ ext) :: A.dir) = none)
    (ht : s'.id? = some t) :
    s.id? = some t := by
  cases he with
  | name hun _ _ _ hd =>
    cases ht
    rcases h with hu | ⟨ext, hx, hn⟩
    · exact absurd hu (notMem_of_unused hun)
    · exact absurd (hfresh _ ext hd hx) hn
  | _ => exact ht

/-- A request that is past its first stage does not come back to it. -/
theorem SendEffect.past (he : SendEffect A codec True w e w' s s') (ht : s.id? = some t) (hs : s ≠ .named t) :
    s' ≠ .named t := by
  cases he with
  | keep => exact hs
  | drop => exact hs
  | name => cases ht
  | _ => simp

/-- Metadata is touched when it is made, and when it is written. -/
theorem SendEffect.touch (he : SendEffect A codec True w e w' s s') (ht : e.metaTouch = true) :
    (∃ id, s = .named id) ∨ e.metaWrite = true := by
  cases he with
  | keep _ _ hp => rw [hp.1] at ht; cases ht
  | name _ _ _ hp _ => rw [hp] at ht; cases ht
  | create => exact .inl ⟨_, rfl⟩
  | drop _ _ _ _ _ _ _ hp => rw [hp.1] at ht; cases ht
  | write _ _ _ hw _ => exact .inr hw
  | close _ _ _ hp => rw [hp.1] at ht; cases ht
  | copy _ _ _ _ _ _ _ hp => rw [hp.1] at ht; cases ht
  | send _ _ _ _ _ hp => rw [hp.1] at ht; cases ht
  | fail _ _ _ _ hp => rw [hp.1] at ht; cases ht

/-- The id that was drawn is that of the request. -/
theorem SendEffect.drawn_id (he : SendEffect A codec True w e w' s s') {id : Str} (hid : e.drawn = some id) :
    s'.id? = some id := by
  cases he with
  | name _ _ _ _ hd =>
    rw [hd] at hid
    exact hid
  | keep _ _ hp => rw [hp.2] at hid; cases hid
  | create _ _ _ _ _ _ _ hd => rw [hd] at hid; cases hid
  | drop _ _ _ _ _ _ _ hp => rw [hp.2] at hid; cases hid
  | write _ _ _ _ hd => rw [hd] at hid; cases hid
  | close _ _ _ hp => rw [hp.2] at hid; cases hid
  | copy _ _ _ _ _ _ _ hp => rw [hp.2] at hid; cases hid
  | send _ _ _ _ _ hp => rw [hp.2] at hid; cases hid
  | fail _ _ _ _ hp => rw [hp.2] at hid; cases hid

theorem SendEffect.sent (he : SendEffect A codec True w e w' s s') (hs : s.isSent = true) : s'.isSent = true := by
  cases he with
  | keep => exact hs
  | drop _ hns _ _ _ _ _ _ => rw [hns] at hs; cases hs
  | send => rfl
  | _ => cases hs

variable {i k : ι} {G : ι → SendStage × Round}

/-- Expired metadata stays expired. -/
theorem ExpiredBy.effect {u : Int} (h : ExpiredBy age tr k u) (he : SendEffect A codec True w e w' (S i) s')
    (hp : Prompt age tr (i, e)) (hu : u ≤ e.clock) (hk : (S k).id? = some t) (hn : S k ≠ .named t) :
    ExpiredBy age (tr ++ [(i, e)]) k u := by
  refine h.append fun hik ht => ?_
  subst hik
  rcases he.touch ht with ⟨id, hs⟩ | hw
  · rw [hs] at hk hn
    cases hk
    exact absurd rfl hn
  · exact (h.write hu hp hw).elim

theorem Expired.effect (h : Expired age tr k) (he : SendEffect A codec True w e w' (S i) s')
    (hok : TimedStep env w₀ tr (i, e))
    (hp : Prompt age tr (i, e)) (hk : (S k).id? = some t) (hn : S k ≠ .named t) : Expired age (tr ++ [(i, e)]) k := by
  obtain ⟨y, hy, hexp⟩ := h
  exact ⟨y, List.mem_append_left _ hy, hexp.effect he hp (hok.mono y hy) hk hn⟩

theorem Aged.effect [DecidableEq ι] (h : Aged age (env.transfers w₀.fs.cwd) w₀ tr w S t)
    (he : SendEffect (env.transfers w₀.fs.cwd) codec True w e w' (S i) s') (hok : TimedStep env w₀ tr (i, e))
    (hp : Prompt age tr (i, e)) :
    Aged age (env.transfers w₀.fs.cwd) w₀ (tr ++ [(i, e)]) w' (Function.update S i s') t := by
  refine ⟨he.seen h.1, fun k hk => ?_⟩
  by_cases hki : k = i
  · subst hki
    rw [Function.update_self] at hk ⊢
    have hid := he.old_id h.1 hok.fresh hk
    obtain ⟨hn, hexp⟩ := h.2 k hid
    exact ⟨he.past hid hn, hexp.effect he hok hp hid hn⟩
  · rw [Function.update_of_ne hki] at hk ⊢
    obtain ⟨hn, hexp⟩ := h.2 k hk
    exact ⟨hn, hexp.effect he hok hp hk hn⟩

theorem Shipped.effect [DecidableEq ι] (h : Shipped (env.transfers w₀.fs.cwd) w₀ w S t)
    (he : SendEffect (env.transfers w₀.fs.cwd) codec True w e w' (S i) s') (hok : TimedStep env w₀ tr (i, e)) :
    Shipped (env.transfers w₀.fs.cwd) w₀ w' (Function.update S i s') t := by
  refine ⟨he.seen h.1, fun k hk => ?_⟩
  by_cases hki : k = i
  · subst hki
    rw [Function.update_self] at hk ⊢
    exact he.sent (h.2 k (he.old_id h.1 hok.fresh hk))
  · rw [Function.update_of_ne hki] at hk ⊢
    exact h.2 k hk

theorem RoundOk.effect [DecidableEq ι] {g : Round} (h : RoundOk age cwd (env.transfers w₀.fs.cwd) w₀ tr w S g)
    (he : SendEffect (env.transfers w₀.fs.cwd) codec True w e w' (S i) s') (hok : TimedStep env w₀ tr (i, e))
    (hp : Prompt age tr (i, e)) :
    RoundOk age cwd (env.transfers w₀.fs.cwd) w₀ (tr ++ [(i, e)]) w' (Function.update S i s') g where
  now n hn := by
    obtain ⟨y, hy, hc⟩ := h.now n hn
    exact ⟨y, List.mem_append_left _ hy, hc⟩
  metas f hf t ht := (h.metas f hf t ht).effect he hok hp
  datas f hf t ht := (h.datas f hf t ht).effect he hok
  orphan f hf t ht := (h.orphan f hf t ht).effect he hok hp

/-- Metadata of a request after a step of its own: it is there or has expired, and not older than the last touch. -/
theorem SendEffect.draft_here (he : SendEffect A codec True w e w' s s') {d' : Draft} (hd : s'.draft? = some d')
    (hown : Owns A w s) {P : Prop}
    (h : ∀ d, s.draft? = some d → w.fs.node (metaAt A.dir d.id) = some (.file d.fd) ∨ P) :
    w'.fs.node (metaAt A.dir d'.id) = some (.file d'.fd) ∨ P := by
  cases he with
  | keep hf _ _ =>
    rw [hf.meta (by simp)]
    exact h d' hd
  | name => cases hd
  | create _ _ _ _ hn _ _ _ =>
    cases hd
    exact .inl hn
  | drop _ _ hnamed _ _ _ _ _ =>
    rw [hnamed trivial] at hd
    cases hd
  | @write d b hf _ _ _ _ =>
    cases hd
    rw [hf]
    exact h d rfl
  | close hf _ _ _ =>
    cases hd
    rw [hf]
    exact h _ rfl
  | copy hf _ _ _ _ _ _ _ =>
    cases hd
    rw [hf.meta (by simp)]
    exact h _ rfl
  | send _ _ hn _ _ _ =>
    cases hd
    rw [hn]
    exact h _ rfl
  | fail => cases hd

theorem SendEffect.draft_mtime (he : SendEffect A codec True w e w' s s') {d' : Draft} {m : Ino}
    (hd : s'.draft? = some d')
    (hm : w'.fs.node (metaAt A.dir d'.id) = some (.file m)) (hown : Owns A w s)
    (hmono : ∀ x ∈ tr, Ev.clock x.2 ≤ e.clock)
    (h : ∀ d m, s.draft? = some d → w.fs.node (metaAt A.dir d.id) = some (.file m) →
      ∀ x ∈ tr, x.1 = i → Ev.metaTouch x.2 = true → Ev.clock x.2 ≤ (w.fs.inode m).mtime) :
    ∀ x ∈ tr ++ [(i, e)], x.1 = i → Ev.metaTouch x.2 = true → Ev.clock x.2 ≤ (w'.fs.inode m).mtime := by
  -- the file has not changed since a step that touches no metadata, or it was changed by this step
  have hold : e.metaTouch = false →
      (∀ x ∈ tr, x.1 = i → Ev.metaTouch x.2 = true → Ev.clock x.2 ≤ (w'.fs.inode m).mtime) →
      ∀ x ∈ tr ++ [(i, e)], x.1 = i → Ev.metaTouch x.2 = true → Ev.clock x.2 ≤ (w'.fs.inode m).mtime := by
    intro hnone htr x hx hxi ht
    rcases List.mem_append.1 hx with hx | hx
    · exact htr x hx hxi ht
    · rw [List.mem_singleton.1 hx] at ht
      rw [hnone] at ht
      cases ht
  have hnew : (w'.fs.inode m).mtime = e.clock →
      ∀ x ∈ tr ++ [(i, e)], x.1 = i → Ev.metaTouch x.2 = true → Ev.clock x.2 ≤ (w'.fs.inode m).mtime := by
    intro hnow x hx _ _
    rw [hnow]
    rcases List.mem_append.1 hx with hx | hx
    · exact hmono x hx
    · rw [List.mem_singleton.1 hx]
  cases he with
  | keep hf _ hp =>
    have hm' := (hf.meta (by simp)).symm.trans hm
    refine hold hp.1 ?_
    rw [hf.inode d'.id m (by simp) hm']
    exact h d' m hd hm'
  | name => cases hd
  | create _ _ _ _ hn _ hino _ =>
    cases hd
    rw [hn] at hm
    cases hm
    exact hnew (by rw [hino]; rfl)
  | drop _ _ hnamed _ _ _ _ _ =>
    rw [hnamed trivial] at hd
    cases hd
  | @write d b hf _ _ _ _ =>
    cases hd
    rw [hf] at hm
    obtain ⟨rfl, -⟩ := (hown.draft d rfl).2.2 m hm
    refine hnew ?_
    rw [hf, FS.append, FS.inode_setInode, Function.update_self]
    rfl
  | close hf _ _ hp =>
    cases hd
    rw [hf] at hm
    refine hold hp.1 ?_
    rw [hf]
    exact h _ m rfl hm
  | copy hf _ _ _ _ _ _ hp =>
    cases hd
    have hm' := (hf.meta (by simp)).symm.trans hm
    refine hold hp.1 ?_
    rw [hf.inode _ m (by simp) hm']
    exact h _ m rfl hm'
  | send _ _ hn hino _ hp =>
    cases hd
    rw [hn] at hm
    refine hold hp.1 ?_
    rw [hino]
    exact h _ m rfl hm
  | fail => cases hd

/-- An event that touches no metadata leaves expired what is expired. -/
theorem Aged.append (h : Aged age A w₀ tr w S t) (he : e.metaTouch = false) : Aged age A w₀ (tr ++ [(i, e)]) w S t :=
  ⟨h.1, fun k hk => ⟨(h.2 k hk).1, (h.2 k hk).2.append fun _ ht => by rw [he] at ht; cases ht⟩⟩

theorem RoundOk.append {g : Round} (h : RoundOk age cwd A w₀ tr w S g) (he : e.metaTouch = false) :
    RoundOk age cwd A w₀ (tr ++ [(i, e)]) w S g where
  now n hn := by
    obtain ⟨y, hy, hc⟩ := h.now n hn
    exact ⟨y, List.mem_append_left _ hy, hc⟩
  metas f hf t ht := (h.metas f hf t ht).append he
  datas := h.datas
  orphan f hf t ht := (h.orphan f hf t ht).append he

theorem RoundOk.world {g : Round} (h : RoundOk age cwd A w₀ tr w S g) (hu : w'.uuids = w.uuids) :
    RoundOk age cwd A w₀ tr w' S g where
  now := h.now
  metas f hf t ht := ⟨(h.metas f hf t ht).1.imp (fun h => hu ▸ h) id, (h.metas f hf t ht).2⟩
  datas f hf t ht := ⟨(h.datas f hf t ht).1.imp (fun h => hu ▸ h) id, (h.datas f hf t ht).2⟩
  orphan f hf t ht := ⟨(h.orphan f hf t ht).1.imp (fun h => hu ▸ h) id, (h.orphan f hf t ht).2⟩

/-- The step changes nothing, or removes a file of an id whose metadata has expired. -/
def Sweeps (age : Int) (A : Area) (w₀ : World) (tr : History Calls Choice ι) (S : ι → SendStage)
    (w w' : World) : Prop :=
  w'.fs = w.fs ∨ ∃ t ext, IsExt ext ∧ w.fs.unlink ((t ++ ext) :: A.dir) = .ok w'.fs ∧ Aged age A w₀ tr w S t

theorem Sweeps.harmless (h : Sweeps age A w₀ tr S w w') (hu : w'.uuids = w.uuids) : Harmless A none none w w' := by
  rcases h with hfs | ⟨t, ext, hx, hr, -⟩
  · exact (hfs ▸ Frame.refl : Frame A none none w.fs w'.fs).harmless (by simp [hu]) (by simp)
  · have hf := frame_own_unlink hx hr
    have hn := FS.node_unlink hr
    refine ⟨hf.cwd, hf.dir, hf.top, hf.next, by simp [hu], fun u ext' hx' _ => ?_, hf.temp, fun u i _ _ => ?_, by simp⟩
    · rw [hn]
      split
      · exact .inr rfl
      · exact .inl rfl
    · rw [(FS.unlink_frame hr).1]

/-- What is there after the step was there before. -/
theorem Sweeps.node (h : Sweeps age A w₀ tr S w w') {l : Loc} {n : Node} (hl : w'.fs.node l = some n) :
    w.fs.node l = some n := by
  rcases h with hfs | ⟨t, ext, hx, hr, -⟩
  · rw [hfs] at hl
    exact hl
  · rw [FS.node_unlink hr] at hl
    split at hl
    · cases hl
    · exact hl

/-- An old file was found: metadata that has expired, or data that was moved. -/
theorem Tidy.listed (h : Tidy age env w₀ tr w G) {f : Str} {st : Stat} {now touched : Int}
    (hst : w.fs.pathStat f touched = .ok st)
    (hold : st.mtime < now - age) (hnow : ∃ y ∈ tr, Ev.clock y.2 = now) :
    (∀ t, norm w₀.fs.cwd f = metaAt (env.transfers w₀.fs.cwd).dir t →
      Aged age (env.transfers w₀.fs.cwd) w₀ tr w (Prod.fst ∘ G) t) ∧
    ∀ t, norm w₀.fs.cwd f = dataAt (env.transfers w₀.fs.cwd).dir t →
      Shipped (env.transfers w₀.fs.cwd) w₀ w (Prod.fst ∘ G) t := by
  obtain ⟨n, hn, hfile⟩ : ∃ n, w.fs.node (norm w₀.fs.cwd f) = some n ∧ ∀ m, n = .file m →
      st.mtime = (w.fs.inode m).mtime := by
    unfold FS.pathStat at hst
    split at hst
    · cases hst
    · rename_i l hl
      have hl' := FS.resolve_norm hl
      rw [h.sending.wd] at hl'
      subst hl'
      split at hst
      · cases hst
      · rename_i v b hd
        exact ⟨_, hd, fun m hm => by cases hm⟩
      · rename_i m hm
        cases hst
        exact ⟨_, hm, fun m' hm' => by cases hm'; rfl⟩
  refine ⟨fun t ht => ?_, fun t ht => ?_⟩
  · rw [ht] at hn
    refine ⟨h.origin t META_EXT (.inl rfl) (by rw [← metaAt, hn]; simp), fun k hk => ?_⟩
    have hnamed : (G k).1 ≠ .named t := by
      intro hs
      have := (h.sending.owns k).named t hs
      rw [hn] at this
      cases this
    refine ⟨hnamed, ?_⟩
    -- the request has a draft, and the file is the one that it writes to
    have hdraft : ∀ d, (G k).1.draft? = some d → Expired age tr k := by
      intro d hd
      have hid := SendStage.id_of_draft hd
      rw [Function.comp_apply] at hk
      rw [hk] at hid
      cases Option.some.inj hid
      rcases h.present k d hd with hm | hexp
      · rw [hn] at hm
        cases hm
        obtain ⟨y, hy, hc⟩ := hnow
        refine ⟨y, hy, fun x hx hxk htouch => ?_⟩
        have hle := h.mtime k d d.fd hd hn x hx hxk htouch
        have hmt := hfile d.fd rfl
        omega
      · exact hexp
    rw [Function.comp_apply] at hk
    cases hs : (G k).1 with
    | idle => rw [hs] at hk; cases hk
    | named id => rw [hs] at hk hnamed; cases hk; exact absurd rfl hnamed
    | writing d => exact hdraft d (by rw [hs]; rfl)
    | ready d cp => exact hdraft d (by rw [hs]; rfl)
    | sent d => exact hdraft d (by rw [hs]; rfl)
    | failed id =>
      rw [hs] at hk
      cases hk
      have := h.failed k t hs
      rw [hn] at this
      cases this
  · rw [ht] at hn
    refine ⟨h.origin t DATA_EXT (.inr rfl) (by rw [← dataAt, hn]; simp), fun k hk => ?_⟩
    cases hs : ((Prod.fst ∘ G) k).isSent with
    | true => rfl
    | false =>
      have := (h.sending.owns k).unsent t hk hs
      rw [hn] at this
      cases this

theorem tidy_init (hdir : (env.transfers w₀.fs.cwd).There w₀.fs) : Tidy age env w₀ [] w₀
    (fun _ : ι => (.idle, {})) where
  sending := Sending.init hdir
  present _ _ h := by cases h
  mtime _ _ _ h := by cases h
  failed _ _ h := by cases h
  origin _ ext hx hn := .inr ⟨ext, hx, hn⟩
  ids := by simp
  rounds _ := ⟨fun _ h => (by cases h), fun _ h => (by cases h), fun _ h => (by cases h), fun _ h => (by cases h)⟩
  safe := by simp

variable [DecidableEq ι]

/-- A step of a request that sends. -/
theorem Tidy.effect (h : Tidy age env w₀ tr w G) (hsite : (Ev.site e).ofSend = true)
    (he : SendEffect (env.transfers w₀.fs.cwd) codec True w e w' (G i).1 s') (hok : TimedStep env w₀ tr (i, e))
    (hp : Prompt age tr (i, e)) : Tidy age env w₀ (tr ++ [(i, e)]) w' (Function.update G i (s', {})) := by
  have hS : Prod.fst ∘ Function.update G i (s', {}) = Function.update (Prod.fst ∘ G) i s' :=
    Function.comp_update _ _ _ _
  have hself : (Function.update G i (s', {}) i).1 = s' := by rw [Function.update_self]
  have hothers : ∀ j, j ≠ i → (Function.update G i (s', {}) j).1 = (G j).1 :=
    fun j hj => by rw [Function.update_of_ne hj]
  obtain ⟨x, c, hx, -, hf, -⟩ := he.frame (h.sending.owns i)
  have hne : ∀ j id, j ≠ i → (G j).1.id? = some id → x ≠ some id := fun j id hj hid hxid =>
    hj (h.sending.apart j i id hid (hx id hxid))
  have hexp : ∀ k d, (G k).1.draft? = some d → Expired age tr k → Expired age (tr ++ [(i, e)]) k := by
    intro k d hd hexp
    refine hexp.effect (S := Prod.fst ∘ G) he hok hp (SendStage.id_of_draft hd) fun hn => ?_
    rw [Function.comp_apply] at hn
    rw [hn] at hd
    cases hd
  refine ⟨?_, fun k d hd => ?_, fun k d m hd hm => ?_, fun k id hk => ?_, fun t ext hx' hn => ?_, fun y hy id hid => ?_,
    fun j => ?_, fun y hy p t ext hc hx' hl => ?_⟩
  · rw [hS]
    exact h.sending.effect he
  · by_cases hk : k = i
    · subst hk
      rw [hself] at hd
      refine he.draft_here hd (h.sending.owns k) fun d' hd' => (h.present k d' hd').imp id (hexp k d' hd')
    · rw [hothers k hk] at hd
      refine (h.present k d hd).imp (fun hn => ?_) (hexp k d hd)
      rw [hf.meta (hne k d.id hk (SendStage.id_of_draft hd)), hn]
  · by_cases hk : k = i
    · subst hk
      rw [hself] at hd
      exact he.draft_mtime hd hm (h.sending.owns k) hok.mono (h.mtime k)
    · rw [hothers k hk] at hd
      have hxd := hne k d.id hk (SendStage.id_of_draft hd)
      rw [hf.meta hxd] at hm
      intro y hy hyk ht
      rcases List.mem_append.1 hy with hy | hy
      · rw [hf.inode d.id m hxd hm]
        exact h.mtime k d m hd hm y hy hyk ht
      · rw [List.mem_singleton.1 hy] at hyk
        exact absurd hyk.symm hk
  · by_cases hki : k = i
    · subst hki
      rw [hself] at hk
      subst hk
      have hover := h.failed k id
      generalize (G k).1 = s at he hover
      cases he with
      | keep hf' _ _ =>
        rw [hf'.meta (by simp)]
        exact hover rfl
      | drop _ _ hnamed _ _ _ _ _ => exact absurd (hnamed trivial) (by simp)
      | fail _ _ hn _ _ => exact hn
    · rw [hothers k hki] at hk
      rw [hf.meta (hne k id hki (by rw [hk]; rfl))]
      exact h.failed k id hk
  · by_cases hxt : x = some t
    · exact .inl (he.uuids t ((h.sending.owns i).ids t (hx t hxt)))
    · rw [hf.node t ext hx' hxt] at hn
      exact he.seen (h.origin t ext hx' hn)
  · rcases List.mem_append.1 hy with hy | hy
    · have hold := h.ids y hy id hid
      by_cases hyi : y.1 = i
      · rw [hyi] at hold ⊢
        rw [hself]
        exact he.id_mono hold
      · rw [hothers _ hyi]
        exact hold
    · rw [List.mem_singleton.1 hy] at hid ⊢
      rw [hself]
      exact he.drawn_id hid
  · rw [hS]
    by_cases hj : j = i
    · subst hj
      rw [Function.update_self]
      exact ⟨fun _ hn => (by cases hn), fun _ hf => (by cases hf), fun _ hf => (by cases hf), fun _ hf => (by cases hf)⟩
    · rw [Function.update_of_ne hj]
      exact (h.rounds j).effect he hok hp
  · rcases List.mem_append.1 hy with hold | hy
    · obtain ⟨hseen, hall⟩ := h.safe y hold p t ext hc hx' hl
      refine ⟨he.seen hseen, fun k hk => ?_⟩
      by_cases hki : k = i
      · subst hki
        rw [hself] at hk ⊢
        have hid := he.old_id hseen hok.fresh hk
        obtain ⟨hn, hexp⟩ := hall k hid
        exact ⟨he.past hid hn, hexp.effect (S := Prod.fst ∘ G) he hp (hok.mono y hold) hid hn⟩
      · rw [hothers k hki] at hk ⊢
        obtain ⟨hn, hexp⟩ := hall k hk
        exact ⟨hn, hexp.effect (S := Prod.fst ∘ G) he hp (hok.mono y hold) hk hn⟩
    · rw [List.mem_singleton.1 hy, Ev.cleans, if_neg] at hc
      · cases hc
      · rintro (hs | hs)
        · rw [hs] at hsite
          cases hsite
        · rw [hs] at hsite
          cases hsite

/-- A step of a cleanup run. -/
theorem Tidy.sweep (h : Tidy age env w₀ tr w G) (hsw : Sweeps age (env.transfers w₀.fs.cwd) w₀ tr (Prod.fst ∘ G) w w')
    (hu : w'.uuids = w.uuids) (hp : e.Plain) (hmono : ∀ x ∈ tr, Ev.clock x.2 ≤ e.clock)
    (hclean : ∀ p t ext, e.cleans = some p → IsExt ext →
      norm w₀.fs.cwd p = (t ++ ext) :: (env.transfers w₀.fs.cwd).dir →
      Aged age (env.transfers w₀.fs.cwd) w₀ tr w (Prod.fst ∘ G) t) {g : Round}
    (hg : RoundOk age w₀.fs.cwd (env.transfers w₀.fs.cwd) w₀ (tr ++ [(i, e)]) w (Prod.fst ∘ G) g) :
    Tidy age env w₀ (tr ++ [(i, e)]) w' (Function.update G i ((G i).1, g)) := by
  have hS : Prod.fst ∘ Function.update G i ((G i).1, g) = Prod.fst ∘ G := by
    rw [Function.comp_update]
    exact Function.update_eq_self _ _
  have hfst : ∀ j, (Function.update G i ((G i).1, g) j).1 = (G j).1 := fun j => congrFun hS j
  have hmem : ∀ {x : ι × Ev}, x ∈ tr ++ [(i, e)] → Ev.metaTouch x.2 = true → x ∈ tr := by
    intro x hx ht
    rcases List.mem_append.1 hx with hx | hx
    · exact hx
    · rw [List.mem_singleton.1 hx, hp.1] at ht
      cases ht
  have hexp : ∀ {k}, Expired age tr k → Expired age (tr ++ [(i, e)]) k := fun hx =>
    hx.append fun _ ht => by rw [hp.1] at ht; cases ht
  have hseen : ∀ {t}, Seen (env.transfers w₀.fs.cwd) w₀ w t → Seen (env.transfers w₀.fs.cwd) w₀ w' t := fun hs =>
    hs.imp (fun h => hu ▸ h) id
  refine ⟨?_, fun k d hd => ?_, fun k d m hd hm x hx hxk ht => ?_, fun k id hk => ?_, fun t ext hx hn =>
    ?_, fun y hy id hid => ?_,
    fun j => ?_, fun y hy p t ext hc hx hl => ?_⟩
  · rw [hS]
    exact h.sending.harmless (hsw.harmless hu)
  · rw [hfst] at hd
    rcases h.present k d hd with hn | hx
    swap
    · exact .inr (hexp hx)
    rcases hsw with hfs | ⟨t, ext, hx, hr, haged⟩
    · rw [hfs]
      exact .inl hn
    · by_cases e : metaAt (env.transfers w₀.fs.cwd).dir d.id = (t ++ ext) :: (env.transfers w₀.fs.cwd).dir
      · obtain ⟨rfl, -⟩ := pair_inj (.inl rfl) hx (List.cons.inj e).1
        exact .inr (hexp (haged.2 k (SendStage.id_of_draft hd)).2)
      · rw [FS.node_unlink hr, if_neg e]
        exact .inl hn
  · rw [hfst] at hd
    have hino : w'.fs.inode = w.fs.inode := by
      rcases hsw with hfs | ⟨t, ext, -, hr, -⟩
      · rw [hfs]
      · exact (FS.unlink_frame hr).1
    rw [hino]
    exact h.mtime k d m hd (hsw.node hm) x (hmem hx ht) hxk ht
  · rw [hfst] at hk
    cases hn : w'.fs.node (metaAt (env.transfers w₀.fs.cwd).dir id) with
    | none => rfl
    | some n =>
      have := hsw.node hn
      rw [h.failed k id hk] at this
      cases this
  · obtain ⟨n, hn'⟩ := Option.ne_none_iff_exists'.1 hn
    exact hseen (h.origin t ext hx (by rw [hsw.node hn']; simp))
  · rw [hfst]
    rcases List.mem_append.1 hy with hy | hy
    · exact h.ids y hy id hid
    · rw [List.mem_singleton.1 hy, hp.2] at hid
      cases hid
  · rw [hS]
    by_cases hj : j = i
    · subst hj
      rw [Function.update_self]
      exact hg.world hu
    · rw [Function.update_of_ne hj]
      exact ((h.rounds j).append hp.1).world hu
  · rcases List.mem_append.1 hy with hold | hnew
    · obtain ⟨hs, hall⟩ := h.safe y hold p t ext hc hx hl
      refine ⟨hseen hs, fun k hk => ?_⟩
      rw [hfst] at hk ⊢
      exact ⟨(hall k hk).1, (hall k hk).2.append fun _ ht => by rw [hp.1] at ht; cases ht⟩
    · rw [List.mem_singleton.1 hnew] at hc ⊢
      obtain ⟨hs, hall⟩ := hclean p t ext hc hx hl
      refine ⟨hseen hs, fun k hk => ?_⟩
      rw [hfst] at hk ⊢
      obtain ⟨hn, y', hy', hexp'⟩ := hall k hk
      refine ⟨hn, fun z hz hzk ht => ?_⟩
      have hlt := hexp' z (hmem hz ht) hzk ht
      have hle := hmono y' hy'
      show Ev.clock z.2 + age < e.clock
      omega

/-! ### Cleanup runs -/

/-- The protocol of requests that send and cleanup runs. -/
abbrev Expiry (ι : Type) [DecidableEq ι] (age : Int) (env : Env) (w₀ : World) :
    Proto Calls World Choice ι (SendStage × Round) where
  sem := Machine
  ok tr _ e := TimedStep env w₀ tr e ∧ Prompt age tr e
  inv tr w G := Tidy age env w₀ tr w G

theorem expiry_rules : SendRules (Expiry ι age env w₀) i env w₀.fs.cwd True (fun s => (s, {})) Prod.fst where
  sem := rfl
  get_put _ := rfl
  base _ _ _ h := h.sending
  faultless _ _ _ _ h := h.1.faultless
  step tr w G e w' s s' hI hg hok hsite heff _ := by
    have hs : (G i).1 = s := by rw [hg]
    exact hI.effect hsite (hs ▸ heff) hok.1 hok.2

/-- The places of the calls of a cleanup run that only look. -/
def LookSite (s : Site) : Prop := s = .cleanTime ∨ s = .cleanList ∨ s = .cleanStat ∨ s = .cleanAccess

variable {α : Type} {site : Site} {g : Round} {Q : SendStage × Round → Outcome Exn α → Prop}

theorem LookSite.plain {op : Op} {ch : Choice} {r : op.Res} (hs : LookSite site) (hq : op.looks = true) :
    Ev.Plain ⟨⟨site, op⟩, ch, r⟩ := by
  refine ⟨?_, drawn_of_looks hq⟩
  rcases hs with rfl | rfl | rfl | rfl <;> simp [Ev.metaTouch, Ev.metaWrite]

/-- A call that only looks, with what it tells. -/
theorem expiry_look {op : Op} {k : op.Res → Prog α} (hq : op.looks = true) (hs : LookSite site)
    (hk : ∀ tr w G ch r, Tidy age env w₀ tr w G → G i = (s, g) → op.exec ch w = some (r, w) →
      TimedStep env w₀ tr (i, ⟨⟨site, op⟩, ch, r⟩) → ∃ g',
        (RoundOk age w₀.fs.cwd (env.transfers w₀.fs.cwd) w₀ tr w (Prod.fst ∘ G) g →
          RoundOk age w₀.fs.cwd (env.transfers w₀.fs.cwd) w₀ (tr ++ [(i, ⟨⟨site, op⟩, ch, r⟩)]) w (Prod.fst ∘ G) g') ∧
        Follows (Expiry ι age env w₀) i (k r) (s, g') Q) :
    Follows (Expiry ι age env w₀) i ((sys site op).bind k) (s, g) Q := by
  refine follows_call.2 fun tr w G ch r w' hI hg he hok => ?_
  have hw := exec_looks he hq
  subst hw
  obtain ⟨g', hr, hf⟩ := hk tr w' G ch r hI hg he hok.1
  refine ⟨(s, g'), ?_, hf⟩
  have hround := hI.rounds i
  rw [hg] at hround
  have hfst : (G i).1 = s := by rw [hg]
  rw [← hfst]
  refine hI.sweep (.inl rfl) rfl (hs.plain hq) hok.1.mono (fun p t ext hc _ _ => ?_) (hr hround)
  rw [Ev.cleans, if_neg] at hc
  · cases hc
  · rcases hs with rfl | rfl | rfl | rfl <;> simp

/-- A file of an id whose metadata has expired is removed. -/
theorem expiry_unlink {f : Str} {k : Except Errno Unit → Prog α} (hs : site = .cleanMeta ∨ site = .cleanData)
    {t ext : Str}
    (hx : IsExt ext) (hf : norm w₀.fs.cwd f = (t ++ ext) :: (env.transfers w₀.fs.cwd).dir)
    (haged : ∀ tr w (S : ι → SendStage), RoundOk age w₀.fs.cwd (env.transfers w₀.fs.cwd) w₀ tr w S g →
      Aged age (env.transfers w₀.fs.cwd) w₀ tr w S t)
    (hk : ∀ r, Follows (Expiry ι age env w₀) i (k r) (s, g) Q) :
    Follows (Expiry ι age env w₀) i ((sys site (.unlink f)).bind k) (s, g) Q := by
  refine follows_call.2 fun tr w G ch r w' hI hg he hok => ⟨(s, g), ?_, hk r⟩
  have hround := hI.rounds i
  rw [hg] at hround
  have hfst : (G i).1 = s := by rw [hg]
  rw [← hfst]
  have haged' := haged tr w _ hround
  have hp : Ev.Plain ⟨⟨site, .unlink f⟩, ch, r⟩ := by
    refine ⟨?_, rfl⟩
    rcases hs with rfl | rfl <;> simp [Ev.metaTouch, Ev.metaWrite]
  have hclean : ∀ p u ext', Ev.cleans ⟨⟨site, .unlink f⟩, ch, r⟩ = some p → IsExt ext' →
      norm w₀.fs.cwd p = (u ++ ext') :: (env.transfers w₀.fs.cwd).dir →
      Aged age (env.transfers w₀.fs.cwd) w₀ tr w (Prod.fst ∘ G) u := by
    intro p u ext' hc hx' hl
    have hpf : p = f := by
      unfold Ev.cleans at hc
      split at hc
      · cases r with
        | error e => cases hc
        | ok _ =>
          cases hc
          rfl
      · cases hc
    rw [hpf, hf] at hl
    obtain ⟨rfl, -⟩ := pair_inj hx hx' (List.cons.inj hl).1
    exact haged'
  obtain ⟨fs, -, hr, rfl⟩ | ⟨e, -, rfl, -⟩ := exec_unlink he
  · have hr' := (FS.pathUnlink_ok hr).2
    rw [hI.sending.wd, hf] at hr'
    have hsw : Sweeps age (env.transfers w₀.fs.cwd) w₀ tr (Prod.fst ∘ G) w { w with fs } :=
      .inr ⟨t, ext, hx, hr', haged'⟩
    exact hI.sweep hsw rfl hp hok.1.mono hclean (hround.append hp.1)
  · exact hI.sweep (.inl rfl) rfl hp hok.1.mono hclean (hround.append hp.1)

/-- The path of an entry of `transfers`. -/
theorem norm_entry_path {n : Name} (hn : Plain n) : norm cwd (env.transferDir ++ '/' :: n) =
    n :: (env.transfers cwd).dir := by
  rw [norm_child transferDir_ne_nil hn, Env.transfers]

/-- The files that a list of old files is about. -/
def InRound (env : Env) (g : Round) (L : List Str) : Prop :=
  ∀ f ∈ L, f ∈ g.files ∧ ∃ n, '/' ∉ n ∧ f = env.transferDir ++ '/' :: n

theorem expiry_oldFilesLoop {now : Int} (hnow : 0 ≤ now ∧ now < 2147483648) (hage : 0 ≤ age ∧ age < 2147483648)
    {names : List Name} (hnames : ∀ n ∈ names, '/' ∉ n) (hg : g.now = some now) (ho : g.orphan = none) :
    Follows (Expiry ι age env w₀) i (oldFilesLoop env.transferDir (wrap32 (wrap32 now - age)) names)
      (s, g) (fun g' o => match o with
      | .ret L => ∃ r : Round, g' = (s, r) ∧ r.orphan = none ∧ g.files ⊆ r.files ∧ InRound env r L
      | _ => True) := by
  have hlimit : wrap32 (wrap32 now - age) = now - age := by
    rw [wrap32_of_int (x := now) (by omega) hnow.2, wrap32_of_int (by omega) (by omega)]
  rw [hlimit]
  induction names generalizing g with
  | nil => exact ⟨g, rfl, ho, fun _ h => h, fun f hf => by cases hf⟩
  | cons n names ih =>
    have hrest : ∀ m ∈ names, '/' ∉ m := fun m hm => hnames m (List.mem_cons_of_mem _ hm)
    unfold oldFilesLoop
    split
    · exact ih hrest hg ho
    refine expiry_look rfl (.inr (.inr (.inl rfl))) fun tr w G ch r hI hG he hok => ?_
    cases r with
    | error e => exact ⟨g, fun h => h.append ((LookSite.plain (.inr (.inr (.inl rfl))) rfl).1), ih hrest hg ho⟩
    | ok buf =>
      have hst : w.fs.pathStat (env.transferDir ++ '/' :: n) (ch.ticks 0) = .ok buf := by
        have := (Prod.mk.inj (Option.some.inj he)).1
        rw [Choice.inject, hok.faultless] at this
        exact this
      by_cases hold : buf.mtime < now - age
      · refine ⟨{ g with files := (env.transferDir ++ '/' :: n) :: g.files }, fun hR => ?_, Follows.bind ?_⟩
        · have hp : Ev.metaTouch ⟨⟨.cleanStat, .stat (env.transferDir ++ '/' :: n)⟩, ch, .ok buf⟩ = false :=
            (LookSite.plain (.inr (.inr (.inl rfl))) rfl).1
          have hR' := hR.append (i := i) hp
          obtain ⟨hmeta, hdata⟩ := hI.listed hst hold (hR.now now hg)
          refine ⟨hR'.now, fun f hf t ht => ?_, fun f hf t ht => ?_, hR'.orphan⟩
          · rcases List.mem_cons.1 hf with rfl | hf
            · exact (hmeta t ht).append hp
            · exact hR'.metas f hf t ht
          · rcases List.mem_cons.1 hf with rfl | hf
            · exact hdata t ht
            · exact hR'.datas f hf t ht
        · refine (ih (g := { g with files := (env.transferDir ++ '/' :: n) :: g.files }) hrest hg ho).mono
            fun g' o ho' => ?_
          cases o with
          | throw e => trivial
          | stop x => trivial
          | ret L =>
            obtain ⟨r, rfl, hor, hsub, hL⟩ := ho'
            dsimp only
            rw [if_pos hold]
            refine ⟨r, rfl, hor, fun f hf => hsub (List.mem_cons_of_mem _ hf), fun f hf => ?_⟩
            rcases List.mem_cons.1 hf with rfl | hf
            · exact ⟨hsub List.mem_cons_self, n, hnames n List.mem_cons_self, rfl⟩
            · exact hL f hf
      · refine ⟨g, fun h => h.append ((LookSite.plain (.inr (.inr (.inl rfl))) rfl).1), Follows.bind ?_⟩
        refine (ih hrest hg ho).mono fun g' o ho' => ?_
        cases o with
        | throw e => trivial
        | stop x => trivial
        | ret L =>
          dsimp only
          rw [if_neg hold]
          exact ho'

theorem expiry_oldFiles (hage : 0 ≤ age ∧ age < 2147483648) :
    Follows (Expiry ι age env w₀) i (oldFiles env.transferDir age) (s, {}) (fun g' o => match o with
      | .ret L => ∃ r : Round, g' = (s, r) ∧ r.orphan = none ∧ InRound env r L
      | _ => True) := by
  refine expiry_look rfl (.inl rfl) fun tr w G ch now hI hG he hok => ?_
  have hnow : now = Ev.clock ⟨⟨.cleanTime, .time⟩, ch, now⟩ := (Prod.mk.inj (Option.some.inj he)).1.symm
  refine ⟨{ now := some now }, fun hR => ⟨fun n hn => ?_, fun _ hf => (by cases hf), fun _ hf => (by cases hf),
    fun _ hf => (by cases hf)⟩, ?_⟩
  · cases hn
    exact ⟨_, List.mem_append_right _ (List.mem_singleton.2 rfl), hnow.symm⟩
  have hrange : 0 ≤ now ∧ now < 2147483648 := by
    rw [hnow]
    exact hok.range
  refine expiry_look rfl (.inr (.inl rfl)) fun tr w G ch r hI hG he hok => ?_
  refine ⟨{ now := some now }, fun h => h.append ((LookSite.plain (.inr (.inl rfl)) rfl).1), ?_⟩
  cases r with
  | error e => trivial
  | ok names =>
    have hnames : ∀ n ∈ names, '/' ∉ n := by
      have : names = ch.order := by
        simp only [Op.exec] at he
        split at he
        · cases he
        · split at he
          · cases he
            rfl
          · cases he
      rw [this]
      exact hok.names
    refine (expiry_oldFilesLoop (g := { now := some now }) hrange hage hnames rfl rfl).mono fun g' o ho => ?_
    cases o with
    | throw e => trivial
    | stop x => trivial
    | ret L =>
      obtain ⟨r, hr, hor, -, hL⟩ := ho
      exact ⟨r, hr, hor, hL⟩

theorem expiry_cleanMetas {L : List Str} (hL : InRound env g L) :
    Follows (Expiry ι age env w₀) i (cleanMetas L) (s, g) (fun g' o => ∃ u, o = .ret u ∧ g' = (s, g)) := by
  induction L with
  | nil => exact ⟨(), rfl, rfl⟩
  | cons f L ih =>
    have hrest := ih fun f' hf' => hL f' (List.mem_cons_of_mem _ hf')
    unfold cleanMetas
    split
    · rename_i hends
      obtain ⟨hf, n, hn, rfl⟩ := hL f List.mem_cons_self
      obtain ⟨t, rfl⟩ := entry_ends (.inl rfl) hends
      have ht : '/' ∉ t := fun hs => hn (List.mem_append_left _ hs)
      have hloc : norm w₀.fs.cwd (env.transferDir ++ '/' :: (t ++ META_EXT)) = metaAt (env.transfers w₀.fs.cwd).dir t :=
        norm_entry_path (IsExt.plain (.inl rfl) ht)
      exact expiry_unlink (.inl rfl) (.inl rfl) hloc (fun tr w S hR => hR.metas _ hf t hloc) fun _ => hrest
    · exact hrest

theorem expiry_cleanOrphans {L : List Str} (hL : InRound env g L) :
    Follows (Expiry ι age env w₀) i (cleanOrphans L) (s, g) (fun _ _ => True) := by
  induction L generalizing g with
  | nil => trivial
  | cons f L ih =>
    have hL' : InRound env g L := fun f' hf' => hL f' (List.mem_cons_of_mem _ hf')
    unfold cleanOrphans
    split
    swap
    · exact ih hL'
    rename_i hends
    obtain ⟨hf, n, hn, rfl⟩ := hL f List.mem_cons_self
    obtain ⟨t, rfl⟩ := entry_ends (.inr rfl) hends
    have ht : '/' ∉ t := fun hs => hn (List.mem_append_left _ hs)
    have hmeta : metaFile (env.transferDir ++ '/' :: (t ++ DATA_EXT)) =
        some (env.transferDir ++ '/' :: (t ++ META_EXT)) := by
      have : env.transferDir ++ '/' :: (t ++ DATA_EXT) = (env.transferDir ++ '/' :: t) ++ DATA_EXT := by simp
      rw [metaFile, this, chop_append]
      simp
    have hloc : norm w₀.fs.cwd (env.transferDir ++ '/' :: (t ++ DATA_EXT)) = dataAt (env.transfers w₀.fs.cwd).dir t :=
      norm_entry_path (IsExt.plain (.inr rfl) ht)
    rw [hmeta]
    refine expiry_look rfl (.inr (.inr (.inr rfl))) fun tr w G ch r hI hG he hok => ?_
    have hp : ∀ r, Ev.metaTouch ⟨⟨.cleanAccess, .access (env.transferDir ++ '/' :: (t ++ META_EXT)) .R_OK⟩, ch, r⟩ =
        false :=
      fun r => (LookSite.plain (.inr (.inr (.inr rfl))) rfl).1
    cases r with
    | ok _ => exact ⟨g, fun h => h.append (hp _), ih hL'⟩
    | error e =>
      have haccess : w.fs.pathAccess (env.transferDir ++ '/' :: (t ++ META_EXT)) .R_OK = .error e := by
        have := (Prod.mk.inj (Option.some.inj he)).1
        rw [Choice.inject, hok.faultless] at this
        exact this
      -- the metadata of a request that moved its data is readable while it is there
      have haged : RoundOk age w₀.fs.cwd (env.transfers w₀.fs.cwd) w₀ tr w (Prod.fst ∘ G) g →
          Aged age (env.transfers w₀.fs.cwd) w₀ tr w (Prod.fst ∘ G) t := by
        intro hR
        obtain ⟨hseen, hsent⟩ := hR.datas _ hf t hloc
        refine ⟨hseen, fun k hk => ?_⟩
        have hs := hsent k hk
        rw [Function.comp_apply] at hs hk ⊢
        generalize hst : (G k).1 = st at hs hk
        cases st with
        | idle => cases hs
        | named id => cases hs
        | writing d => cases hs
        | ready d p => cases hs
        | failed p => cases hs
        | sent d =>
          cases hk
          refine ⟨by simp, ?_⟩
          rcases hI.present k d (by rw [hst]; rfl) with hm | hexp
          swap
          · exact hexp
          obtain ⟨-, -, hread⟩ := ((hI.sending.owns k).draft d (by rw [Function.comp_apply, hst]; rfl)).2.2 d.fd hm
          rw [FS.pathAccess, ← Env.sentMeta, resolve_sentMeta hI.sending.wd hI.sending.dir ht] at haccess
          simp [hm, hread] at haccess
      refine ⟨{ g with orphan := some (env.transferDir ++ '/' :: (t ++ DATA_EXT)) }, fun hR => ?_, ?_⟩
      · have hR' := hR.append (i := i) (hp (.error e))
        refine ⟨hR'.now, hR'.metas, hR'.datas, fun f' hf' u hu => ?_⟩
        cases hf'
        rw [hloc] at hu
        cases dataAt_inj hu
        exact (haged hR).append (hp (.error e))
      · exact expiry_unlink (.inr rfl) (.inr rfl) hloc (fun tr w S hR => hR.orphan _ rfl t hloc) fun _ => ih hL'

theorem expiry_cleanOldFiles (hage : 0 ≤ age ∧ age < 2147483648) :
    Follows (Expiry ι age env w₀) i (cleanOldFiles age env.transferDir) (s, {}) (fun _ _ => True) := by
  refine Follows.bind ((expiry_oldFiles hage).mono fun g' o ho => ?_)
  cases o with
  | throw e => trivial
  | stop x => trivial
  | ret L =>
    obtain ⟨r, rfl, -, hL⟩ := ho
    refine Follows.bind ((expiry_cleanMetas hL).mono fun g' o ho => ?_)
    obtain ⟨u, rfl, rfl⟩ := ho
    exact expiry_cleanOrphans hL

/-- A task of the interleavings: the source is outside of the working directory. -/
def Task.Outside (env : Env) (cwd : Loc) : Task → Prop
  | .send req => OortAgent.Outside env cwd req.filepath
  | .clean => True

theorem expiry_follows {task : Task} (htask : task.Outside env w₀.fs.cwd) (hage : 0 ≤ age ∧ age < 2147483648) :
    Follows (Expiry ι age env w₀) i (task.run env age) (.idle, {}) (fun _ _ => True) := by
  cases task with
  | send req =>
    refine Follows.bind ((expiry_rules.sendFile htask).mono fun g o _ => ?_)
    cases o <;> trivial
  | clean =>
    refine Follows.bind ((expiry_cleanOldFiles hage).mono fun g o _ => ?_)
    cases o <;> trivial

/-- **The cleanup spares fresh transfers**: in every interleaving of `send_file` requests and cleanup runs in which
each request writes to its metadata no later than the maximum age after it made it or wrote to it before, the
cleanup removes a file of a request only after the maximum age has passed since all that the request did to its
metadata. -/
theorem cleaner_spares_fresh {tasks : ι → Task} {P' : Pool Calls World Exn (Option (Response Str)) ι}
    (hage : 0 ≤ age ∧ age < 2147483648) (hdir : (env.transfers w₀.fs.cwd).There w₀.fs)
    (htasks : ∀ i, (tasks i).Outside env w₀.fs.cwd)
    (hx : Exec Machine (fun tr _ e => TimedStep env w₀ tr e ∧ Prompt age tr e)
      ⟨w₀, fun i => (tasks i).run env age⟩ tr P') :
    ∀ n ∈ tr, ∀ x ∈ tr, ∀ y ∈ tr, ∀ id p ext, Ev.drawn n.2 = some id → x.1 = n.1 → Ev.metaTouch x.2 = true →
      Ev.cleans y.2 = some p → IsExt ext → norm w₀.fs.cwd p = (id ++ ext) :: norm w₀.fs.cwd env.transferDir →
      Ev.clock x.2 + age < Ev.clock y.2 := by
  obtain ⟨G, hI, -⟩ := Exec.follows (R := Expiry ι age env w₀) hx (tidy_init hdir) fun i =>
    expiry_follows (htasks i) hage
  intro n hn x hxt y hy id p ext hid hxn htouch hc hext hl
  obtain ⟨-, hall⟩ := hI.safe y hy p id ext hc hext hl
  exact (hall n.1 (hI.ids n hn id hid)).2 x hxt hxn htouch

end Tidy

namespace Sample

/-- A task sends `/a/x`, another cleans up. -/
def sendOrClean (i : Bool) : Task := if i then .send sendRequest else .clean

/-- Both on one world, with a maximum age of five seconds. -/
def tasks : Pool Calls World Exn (Option (Response Str)) Bool := ⟨world, fun i => (sendOrClean i).run (env sendCodec) 5⟩

/-- The clock is at `n`. -/
def clockAt (n : Int) : Choice := { ticks := fun _ => n }

/-- A test for steps in time. -/
def timedTest (tr : History Calls Choice Bool) (e : Bool × Ev) : Bool :=
  decide (e.2.choice.err = none) && (tr.all fun x => decide (Ev.clock x.2 ≤ Ev.clock e.2)) &&
    decide (0 ≤ Ev.clock e.2) && decide (Ev.clock e.2 < 2147483648) &&
    (match Ev.drawn e.2 with
      | some id => (world.fs.node (metaAt ["transfers".toList, "w".toList] id)).isNone &&
        (world.fs.node (dataAt ["transfers".toList, "w".toList] id)).isNone
      | none => true) && e.2.choice.order.all fun n => decide ('/' ∉ n)

/-- A test for prompt steps. -/
def promptTest (tr : History Calls Choice Bool) (e : Bool × Ev) : Bool :=
  !Ev.metaWrite e.2 || tr.any fun x => decide (x.1 = e.1) && Ev.metaTouch x.2 && decide
    (Ev.clock e.2 ≤ Ev.clock x.2 + 5)

theorem timedTest_sound {tr : History Calls Choice Bool} {e : Bool × Ev} (h : timedTest tr e = true) :
    TimedStep (env sendCodec) world tr e := by
  have hT : ((env sendCodec).transfers world.fs.cwd).dir = ["transfers".toList, "w".toList] := by decide +kernel
  simp only [timedTest, Bool.and_eq_true, decide_eq_true_eq, List.all_eq_true] at h
  obtain ⟨⟨⟨⟨⟨herr, hmono⟩, hlow⟩, hhigh⟩, hfresh⟩, hnames⟩ := h
  refine ⟨herr, hmono, ⟨hlow, hhigh⟩, fun id ext hid hx => ?_, hnames⟩
  rw [hid] at hfresh
  simp only [Bool.and_eq_true, Option.isNone_iff_eq_none] at hfresh
  rw [hT]
  rcases hx with rfl | rfl
  · exact hfresh.1
  · exact hfresh.2

theorem promptTest_sound {tr : History Calls Choice Bool} {e : Bool × Ev} (h : promptTest tr e = true) :
    Prompt 5 tr e := by
  intro hw
  simp only [promptTest, hw, Bool.not_true, Bool.false_or, List.any_eq_true, Bool.and_eq_true, decide_eq_true_eq] at h
  obtain ⟨x, hx, ⟨hk, ht⟩, hle⟩ := h
  exact ⟨x, hx, hk, ht, hle⟩

/-- The names in `transfers` after the file was sent. -/
def sentNames : List Name := [".".toList, "..".toList, sentId ++ META_EXT, sentId ++ DATA_EXT]

/-- A file is sent, and cleaned up ten seconds later. -/
def sendThenClean : List (Bool × Choice) :=
  [(true, { rand := List.replicate 16 0 })] ++ List.replicate 15 (true, calm) ++
    [(false, clockAt 10), (false, { clockAt 10 with order := sentNames })] ++ List.replicate 5 (false, clockAt 10)

/-- The metadata is made, listed ten seconds later, written and then removed. -/
def cleanWhileSending : List (Bool × Choice) :=
  [(true, { rand := List.replicate 16 0 })] ++ List.replicate 7 (true, calm) ++
    [(false, clockAt 10), (false, { clockAt 10 with order := [".".toList, "..".toList, sentId ++ META_EXT] }),
      (false, clockAt 10), (true, clockAt 11), (false, clockAt 12)] ++ List.replicate 7 (true, clockAt 13)

end Sample

/-- A file is sent, and both files of its pair are cleaned up later. -/
theorem cleaner_spares_fresh_sample : ∃ tr P',
    Exec Machine (fun tr _ e => TimedStep (Sample.env Sample.sendCodec) Sample.world tr e ∧ Prompt 5 tr e)
      Sample.tasks tr P' ∧
    P'.procs true = .ret (some (.Ok Sample.sentId)) ∧
    (∃ y ∈ tr, Ev.cleans y.2 = some ("/w/transfers/".toList ++ Sample.sentId ++ DATA_EXT)) ∧
    ∀ x ∈ tr, x.1 = true → Ev.metaTouch x.2 = true → ∀ y ∈ tr,
      Ev.cleans y.2 = some ("/w/transfers/".toList ++ Sample.sentId ++ DATA_EXT) → Ev.clock x.2 + 5 < Ev.clock y.2 := by
  have h : (Pool.exec? Machine (fun _ _ => true) Sample.tasks Sample.sendThenClean).map (fun x =>
        decide ((x.2.procs true).outcome? = some (.ret (some (.Ok Sample.sentId)))) &&
          History.passes (fun tr e => Sample.timedTest tr e && Sample.promptTest tr e) [] x.1 &&
          (x.1.any fun y => decide (Ev.cleans y.2 = some ("/w/transfers/".toList ++ Sample.sentId ++ DATA_EXT))) &&
          x.1.any fun n => decide (n.1 = true) && decide (Ev.drawn n.2 = some Sample.sentId)) =
      some true := by decide +kernel
  obtain ⟨⟨tr, P'⟩, hx, he⟩ := Option.map_eq_some_iff.1 h
  simp only [Bool.and_eq_true, List.any_eq_true, decide_eq_true_eq] at he
  obtain ⟨⟨⟨hret, htests⟩, hcleaned⟩, n, hn, hni, hid⟩ := he
  have hrun := Exec.of_passes (fun _ _ hc => Bool.and_eq_true_iff.1 hc)
    (Pool.exec?_sound (fun _ _ _ => trivial) hx : Exec Machine (fun _ _ _ => True) Sample.tasks tr P') htests
  have hrun' : Exec Machine (fun tr _ e => TimedStep (Sample.env Sample.sendCodec) Sample.world tr e ∧ Prompt 5 tr e)
      Sample.tasks tr P' :=
    hrun.mono fun _ _ _ hok => ⟨Sample.timedTest_sound hok.2.1, Sample.promptTest_sound hok.2.2⟩
  refine ⟨tr, P', hrun', Proc.outcome?_ret.1 hret, hcleaned, fun x hxt hxi ht y hy hc => ?_⟩
  have htasks : ∀ i, (Sample.sendOrClean i).Outside (Sample.env Sample.sendCodec) Sample.world.fs.cwd := by
    intro i
    cases i with
    | true =>
      show ¬ _ <:+ _
      decide +kernel
    | false => trivial
  exact cleaner_spares_fresh (by decide) (by decide +kernel) htasks hrun' n hn x hxt y hy _ _ DATA_EXT hid
    (hxi.trans hni.symm)
    ht hc (.inr rfl) (by decide +kernel)

/-- The cleanup lists the metadata of a request that has not yet written to it, and removes it one second after it was
written. The request returns `Ok`. -/
theorem cleaner_removes_fresh : ∃ tr P',
    Exec Machine (fun tr w e => Clean w e.2 ∧ TimedStep (Sample.env Sample.sendCodec) Sample.world tr e)
      Sample.tasks tr P' ∧
    P'.procs true = .ret (some (.Ok Sample.sentId)) ∧
    ∃ x ∈ tr, ∃ y ∈ tr, x.1 = true ∧ Ev.metaWrite x.2 = true ∧
      Ev.cleans y.2 = some ("/w/transfers/".toList ++ Sample.sentId ++ META_EXT) ∧ Ev.clock x.2 ≤ Ev.clock y.2 ∧
      Ev.clock y.2 ≤ Ev.clock x.2 + 5 := by
  have h : (Pool.exec? Machine (fun _ e => Sample.cleanTest e.2) Sample.tasks Sample.cleanWhileSending).map (fun x =>
        decide ((x.2.procs true).outcome? = some (.ret (some (.Ok Sample.sentId)))) && History.passes
          Sample.timedTest [] x.1 &&
          x.1.any fun z => x.1.any fun y => decide (z.1 = true) && Ev.metaWrite z.2 &&
            decide (Ev.cleans y.2 = some ("/w/transfers/".toList ++ Sample.sentId ++ META_EXT)) &&
            decide (Ev.clock z.2 ≤ Ev.clock y.2) && decide (Ev.clock y.2 ≤ Ev.clock z.2 + 5)) =
      some true := by decide +kernel
  obtain ⟨⟨tr, P'⟩, hx, he⟩ := Option.map_eq_some_iff.1 h
  simp only [Bool.and_eq_true, List.any_eq_true, decide_eq_true_eq] at he
  obtain ⟨⟨hret, htests⟩, x, hxt, y, hy, ⟨⟨⟨hxi, hw⟩, hc⟩, hle⟩, hage⟩ := he
  have hrun : Exec Machine (fun tr w e => Clean w e.2 ∧ TimedStep (Sample.env Sample.sendCodec) Sample.world tr e)
      Sample.tasks tr P' :=
    Exec.of_passes (fun _ _ hc => Sample.timedTest_sound hc)
      (Pool.exec?_sound (fun _ _ hc => Sample.cleanTest_sound hc) hx) htests
  exact ⟨tr, P', hrun, Proc.outcome?_ret.1 hret, x, hxt, y, hy, hxi, hw, hc, hle, hage⟩

end OortAgent
