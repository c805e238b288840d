import OortAgent.Transfers

/-!
# The rule for `sendFile`

A protocol that is kept by the effects of `SendEffect` is followed by `sendFile` (`SendRules.sendFile`), whatever
else it speaks of and whoever else takes part in it. The request ends with its data moved exactly if it returns
`Ok`.
-/

namespace OortAgent

open Lib

/-- The directory `transfers`, with the directories on the way to it. -/
def Env.transfers (env : Env) (cwd : Loc) : Area where
  dir := norm cwd env.transferDir
  ways := ways (start cwd env.transferDir) (comps env.transferDir)
  mem := walk_mem_ways

theorem Env.transfers_dir (env : Env) (cwd : Loc) : (env.transfers cwd).dir = "transfers".toList :: env.home cwd :=
  norm_transferDir

/-- The path of the metadata of an id. -/
def Env.sentMeta (env : Env) (t : Str) : Str := env.transferDir ++ '/' :: (t ++ META_EXT)

theorem resolve_sentMeta {env : Env} {cwd : Loc} {w : World} {t : Str} (hcwd : w.fs.cwd = cwd)
    (hT : (env.transfers cwd).There w.fs) (ht : '/' ∉ t) :
    w.fs.resolve (env.sentMeta t) = .ok (metaAt (env.transfers cwd).dir t) := by
  have hdir : w.fs.resolve env.transferDir = .ok (norm w.fs.cwd env.transferDir) :=
    FS.resolve_of_ways transferDir_ne_nil (by rw [hcwd]; exact hT)
  rw [hcwd] at hdir
  exact FS.resolve_child hdir hT.dir (IsExt.plain (.inl rfl) ht)

/-- The places of the calls of `send_file`, with those of `move_file`. -/
def Site.ofSend : Site → Bool
  | .endeaden => false
  | .endeadenTwin => false
  | .readMeta => false
  | .accessMeta => false
  | .removeMeta => false
  | .listFiles => false
  | .entryInfo => false
  | .setTopics => false
  | .getTopics => false
  | .sysinfo => false
  | .fileNames => false
  | .cache => false
  | .cleanTime => false
  | .cleanList => false
  | .cleanStat => false
  | .cleanMeta => false
  | .cleanAccess => false
  | .cleanData => false
  | _ => true

/-- The protocol `R` is kept by the steps of the `send_file` of process `i`. The stage of the request is a part of
its ghost value. -/
structure SendRules {ι γ : Type} [DecidableEq ι] (R : Proto Calls World Choice ι γ) (i : ι) (env : Env) (cwd : Loc)
    (clean : Prop) (put : SendStage → γ) (get : γ → SendStage) : Prop where
  sem : R.sem = Machine
  get_put : ∀ s, get (put s) = s
  base : ∀ tr w G, R.inv tr w G → Sending cwd (env.transfers cwd) w (get ∘ G)
  faultless : clean → ∀ tr w e, R.ok tr w (i, e) → e.choice.err = none
  step : ∀ tr w G e w' s s', R.inv tr w G → G i = put s → R.ok tr w (i, e) → (Ev.site e).ofSend = true →
    SendEffect (env.transfers cwd) env.codec clean w e w' s s' →
    Sending cwd (env.transfers cwd) w' (get ∘ Function.update G i (put s')) →
    R.inv (tr ++ [(i, e)]) w' (Function.update G i (put s'))

section Rule

variable {ι γ : Type} [DecidableEq ι] {R : Proto Calls World Choice ι γ} {i : ι} {env : Env} {cwd : Loc} {clean : Prop}
  {put : SendStage → γ} {get : γ → SendStage} {α : Type} {s : SendStage} {site : Site}

/-- A call of the request has one of the effects. -/
theorem SendRules.call (h : SendRules R i env cwd clean put get) {op : Op} {k : op.Res → Prog α}
    {Q : γ → Outcome Exn α → Prop}
    (hsite : site.ofSend = true)
    (hk : ∀ w ch r w', w.fs.cwd = cwd → (env.transfers cwd).There w.fs → Owns (env.transfers cwd) w s →
      op.exec ch w = some (r, w') → (clean → ch.err = none) →
      ∃ s', SendEffect (env.transfers cwd) env.codec clean w ⟨⟨site, op⟩, ch, r⟩ w' s s' ∧
        Follows R i (k r) (put s') Q) :
    Follows R i ((sys site op).bind k) (put s) Q := by
  refine follows_call.2 fun tr w G ch r w' hI hg he hok => ?_
  rw [h.sem] at he
  have hS := h.base tr w G hI
  have hs : (get ∘ G) i = s := by rw [Function.comp_apply, hg, h.get_put]
  obtain ⟨s', heff, hf⟩ := hk w ch r w' hS.wd hS.dir (hs ▸ hS.owns i) he fun hc => h.faultless hc tr w _ hok
  refine ⟨put s', h.step tr w G _ w' s s' hI hg hok hsite heff ?_, hf⟩
  have hS' := hS.effect (i := i) (hs ▸ heff)
  have hcomp : get ∘ Function.update G i (put s') = Function.update (get ∘ G) i s' := by
    rw [Function.comp_update, h.get_put]
  rwa [hcomp]

/-- A place of the request at which no metadata is made or written. -/
def NoMetaWrite (s : Site) : Prop :=
  s ≠ .insertMeta ∧ s ≠ .flushMeta ∧ s ≠ .flushClose ∧ s ≠ .openMeta ∧ s.ofSend = true

instance : DecidablePred NoMetaWrite := fun _ => inferInstanceAs (Decidable (_ ∧ _))

theorem NoMetaWrite.ofSend (h : NoMetaWrite site) : site.ofSend = true := h.2.2.2.2

theorem plain_of_site {op : Op} {ch : Choice} {r : op.Res} (h : NoMetaWrite site) (hd : op.drawn r = none) :
    Ev.Plain ⟨⟨site, op⟩, ch, r⟩ := by
  refine ⟨?_, hd⟩
  simp [Ev.metaTouch, Ev.metaWrite, Ev.site, h.1, h.2.1, h.2.2.1, h.2.2.2.1]

theorem plain_of_refused {op : Op} {ch : Choice} {r : op.Res} (h : op.refused r = true) (hd : op.drawn r = none) :
    Ev.Plain ⟨⟨site, op⟩, ch, r⟩ := by
  refine ⟨?_, hd⟩
  simp [Ev.metaTouch, Ev.metaWrite, Ev.refused, h]

theorem drawn_of_looks {op : Op} {r : op.Res} (h : op.looks = true) : op.drawn r = none := by
  cases op <;> first | rfl | cases h

/-- A call that only looks. -/
theorem SendRules.look (h : SendRules R i env cwd clean put get) {op : Op} {k : op.Res → Prog α}
    {Q : γ → Outcome Exn α → Prop} (hq : op.looks = true) (hs : NoMetaWrite site)
    (hk : ∀ r, Follows R i (k r) (put s) Q) :
    Follows R i ((sys site op).bind k) (put s) Q := by
  refine h.call hs.ofSend fun w ch r w' _ _ _ he _ => ⟨s, ?_, hk r⟩
  have hw := exec_looks he hq
  subst hw
  exact .keep .refl rfl (plain_of_site hs (drawn_of_looks hq))

/-- A program that only looks. -/
theorem SendRules.looks (h : SendRules R i env cwd clean put get) (hs : NoMetaWrite site) {p : Prog α}
    (hp : p.Calls (Looks site)) : Follows R i p (put s) (fun g _ => g = put s) := by
  induction p with
  | ret a => rfl
  | throw e => rfl
  | stop x => trivial
  | sys c k ih =>
    obtain ⟨site', op⟩ := c
    obtain ⟨⟨rfl, hq⟩, hk⟩ := hp
    show Follows R i ((sys site' op).bind k) _ _
    exact h.look hq hs fun r => ih r (hk r)

/-- A file that was found to be regular is not on the way to `transfers`. -/
theorem SendRules.fileInfo (h : SendRules R i env cwd clean put get) (hs : NoMetaWrite site) {file : Str} :
    Follows R i (fileInfo env site file) (put s)
      (fun g o => g = put s ∧ ∀ fi, o = .ret fi → (env.transfers cwd).Misses (norm cwd file)) := by
  unfold OortAgent.fileInfo fileStat
  refine Follows.bind (h.call hs.ofSend fun w ch r w' hcwd hT _ he _ => ⟨s, ?_, ?_⟩)
  · have hw := exec_looks he rfl
    subst hw
    exact .keep .refl rfl (plain_of_site hs rfl)
  · cases r with
    | error e => exact ⟨rfl, fun fi h => by cases h⟩
    | ok st =>
      dsimp only
      by_cases hreg : st.isReg = true
      swap
      · rw [if_neg hreg]
        exact ⟨rfl, fun fi h => by cases h⟩
      · rw [if_pos hreg]
        have hst : ch.inject (w.fs.pathStat file (ch.ticks 0)) = .ok st := (Prod.mk.inj (Option.some.inj he)).1
        obtain ⟨k, -, hk, -⟩ := FS.pathStat_reg (inject_ok hst).2 hreg
        rw [hcwd] at hk
        have hnot := hT.above (l := norm cwd file) (by rw [FS.isDir, hk])
        refine Follows.bind ((h.looks hs ((getCrc_calls file).mono fun c hc => hc.1)).mono fun g o hg => ?_)
        cases o with
        | ret crc => exact ⟨hg, fun _ _ => hnot⟩
        | throw e => exact ⟨hg, fun fi h => by cases h⟩
        | stop x => trivial

/-! ### The metadata -/

variable {d : Draft} {text : Bytes}

/-- The draft with more bytes written. -/
def Draft.wrote (d : Draft) (b : Bytes) : Draft := { d with done := d.done ++ b }

@[simp] theorem Draft.wrote_nil (d : Draft) : d.wrote [] = d := by simp [wrote]

@[simp] theorem Draft.wrote_wrote (d : Draft) (b b' : Bytes) : (d.wrote b).wrote b' = d.wrote (b ++ b') := by
  simp [wrote, List.append_assoc]

/-- A place at which metadata is written. -/
def MetaWriteSite (s : Site) : Prop := s = .insertMeta ∨ s = .flushMeta ∨ s = .flushClose

instance : DecidablePred MetaWriteSite := fun _ => inferInstanceAs (Decidable (_ ∨ _))

theorem MetaWriteSite.ofSend (h : MetaWriteSite site) : site.ofSend = true := by
  rcases h with rfl | rfl | rfl <;> rfl

theorem MetaWriteSite.metaWrite {op : Op} {ch : Choice} {r : op.Res} (h : MetaWriteSite site)
    (hr : op.refused r = false) :
    Ev.metaWrite ⟨⟨site, op⟩, ch, r⟩ = true := by
  rcases h with rfl | rfl | rfl <;> simp [Ev.metaWrite, hr]

/-- The write loop of the stream: everything is written, or some write failed. -/
theorem SendRules.xwrite (h : SendRules R i env cwd clean put get) {rest : Bytes} (hsite : MetaWriteSite site)
    (hp : clean → d.done ++ rest = d.text) :
    Follows R i (xwrite site d.fd rest) (put (.writing d)) (fun g o => match o with
      | .ret failed => (failed = none ∧ g = put (.writing (d.wrote rest))) ∨
        (∃ e, failed = some e ∧ ¬ clean ∧ ∃ b, g = put (.writing (d.wrote b)))
      | .throw _ => False
      | .stop _ => True) := by
  refine Follows.loop (J := fun rest' g => ∃ b, b ++ rest' = rest ∧ g = put (.writing (d.wrote b))) ?_ _ _ _
    ⟨[], rfl, by simp⟩
  rintro rest' g ⟨b, hb, rfl⟩
  unfold xwriteRound
  split
  · rename_i hnil
    subst hnil
    rw [List.append_nil] at hb
    exact .inl ⟨rfl, by rw [hb]⟩
  · refine h.call hsite.ofSend fun w ch r w' _ _ _ he hclean => ?_
    obtain ⟨n, rfl, -, -, -, rfl⟩ | ⟨e, rfl, rfl, herr⟩ := exec_write he
    · refine ⟨.writing ((d.wrote b).wrote (rest'.take n)), .write rfl rfl (fun hc => ?_) (hsite.metaWrite rfl) rfl,
        b ++ rest'.take n, ?_, ?_⟩
      · show (d.done ++ b) ++ rest'.take n <+: d.text
        rw [← hp hc, ← hb, List.append_assoc, List.prefix_append_right_inj, List.prefix_append_right_inj]
        exact List.take_prefix _ _
      · rw [List.append_assoc, List.take_append_drop, hb]
      · rw [Draft.wrote_wrote]
    · refine ⟨_, .keep .refl rfl (plain_of_refused rfl rfl), .inr ⟨e, rfl, fun hc => ?_, b, rfl⟩⟩
      rw [hclean hc] at herr
      cases herr

/-- The destructors of the stream: the metadata is closed, and complete if no write failed. -/
theorem SendRules.closeStream (h : SendRules R i env cwd clean put get) {pending : Bytes}
    (hp : clean → d.done ++ pending = d.text) :
    Follows R i (closeStream d.fd pending) (put (.writing d)) (fun g o => match o with
      | .ret _ => ∃ d', d'.id = d.id ∧ d'.text = d.text ∧ (clean → d'.done = d'.text) ∧ g = put (.ready d' none)
      | .throw _ => False
      | .stop _ => True) := by
  have hclose : ∀ {d' : Draft} {last : Except Errno Unit → Option Errno}, d'.id = d.id → d'.text = d.text →
      (clean → d'.done = d'.text) →
      Follows R i ((sys .closeMeta .close).bind fun r => .ret (last r)) (put (.writing d')) (fun g o => match o with
        | .ret _ => ∃ d', d'.id = d.id ∧ d'.text = d.text ∧ (clean → d'.done = d'.text) ∧ g = put (.ready d' none)
        | .throw _ => False
        | .stop _ => True) := by
    intro d' last hid htext hdone
    refine h.call rfl fun w ch r w' _ _ _ he _ => ⟨.ready d' none, ?_, d', hid, htext, hdone, rfl⟩
    have hw := exec_looks he rfl
    subst hw
    exact .close rfl rfl hdone (plain_of_site (by decide) rfl)
  refine Follows.bind ((h.xwrite (by decide) hp).mono fun g o ho => ?_)
  cases o with
  | throw e => exact ho.elim
  | stop x => trivial
  | ret failed =>
    rcases ho with ⟨rfl, rfl⟩ | ⟨e, rfl, hc, b, rfl⟩
    · refine h.look rfl (by decide) fun _ => ?_
      rw [Option.isNone_none, if_pos rfl]
      exact hclose rfl rfl hp
    · refine h.look rfl (by decide) fun _ => ?_
      rw [Option.isNone_some, if_neg (by simp)]
      refine Follows.bind ((h.xwrite (d := d.wrote b) (by decide) fun hc' => absurd hc' hc).mono fun g o ho => ?_)
      cases o with
      | throw e => exact ho.elim
      | stop x => trivial
      | ret again =>
        rcases ho with ⟨-, rfl⟩ | ⟨-, -, -, b', rfl⟩
        · exact hclose rfl rfl fun hc' => absurd hc' hc
        · exact hclose rfl rfl fun hc' => absurd hc' hc

/-- The paths of the pair of an id. -/
theorem norm_pair {id ext : Str} (hid : '/' ∉ id) (hx : IsExt ext) :
    norm cwd (env.transferDir ++ '/' :: (id ++ ext)) = (id ++ ext) :: (env.transfers cwd).dir := by
  rw [norm_child transferDir_ne_nil (hx.plain hid), Env.transfers]

/-- The request removes its own metadata, or nothing. -/
theorem SendRules.unlinkMeta (h : SendRules R i env cwd clean put get) {id : Str} {k : Except Errno Unit → Prog α}
    {Q : γ → Outcome Exn α → Prop} (hid : '/' ∉ id) (hs : s.id? = some id) (hns : s.isSent = false)
    (hc : clean → s = .named id) (hk : ∀ r, Follows R i (k r) (put s) Q) :
    Follows R i ((sys .unlinkBadMeta (.unlink (env.transferDir ++ '/' :: (id ++ META_EXT)))).bind k) (put s) Q := by
  refine h.call rfl fun w ch r w' hcwd hT _ he _ => ⟨s, ?_, hk r⟩
  obtain ⟨fs, -, hu, rfl⟩ | ⟨e, -, rfl, -⟩ := exec_unlink he
  · have hu' := (FS.pathUnlink_ok hu).2
    rw [hcwd, norm_pair hid (.inl rfl)] at hu'
    refine .drop hs hns hc (frame_own_unlink (.inl rfl) hu') rfl ?_ ?_ (plain_of_site (by decide) rfl)
    · exact (FS.node_unlink hu' _).trans (if_pos rfl)
    · exact (FS.node_unlink hu' _).trans (if_neg (Ne.symm metaAt_ne_dataAt))
  · exact .keep .refl rfl (plain_of_site (by decide) rfl)

/-- The metadata is written and closed, or the request gives up. -/
def MetaEnd (put : SendStage → γ) (clean : Prop) (id : Str) (text : Bytes) (g : γ) (o : Outcome Exn α) : Prop :=
  match o with
  | .ret _ => ∃ d, d.id = id ∧ d.text = text ∧ (clean → d.done = d.text) ∧ g = put (.ready d none)
  | .throw _ => ∃ s : SendStage, s.id? = some id ∧ s.isSent = false ∧ g = put s
  | .stop _ => True

/-- A new file for the metadata. -/
theorem added_of_create {fs fs' : FS} {p : Str} {now : Int} {m : Ino} (h : fs.create p now = .ok (m, fs'))
    (hn : fs.node (norm fs.cwd p) = none) :
    m = fs.next ∧ Added fs fs' (norm fs.cwd p) ⟨[], true, now, now⟩ ∧ fs.next < fs'.next := by
  obtain ⟨-, ⟨hi, -⟩ | ⟨-, rfl, hm⟩⟩ := FS.create_ok h
  · rw [hn] at hi
    cases hi
  · obtain ⟨n, dir, hl, hw, hnone, rfl⟩ := FS.mkfile_ok hm
    have hd := FS.isDir_of_writable hw
    rw [hl] at hnone ⊢
    refine ⟨rfl, ⟨hnone, FS.node_putFile hd hnone, FS.inode_putFile hd hnone, by simp⟩, ?_⟩
    rw [FS.next_putFile hd hnone]
    exact Nat.lt_succ_self _

/-- How `insertText` ends: `b` went to the file, and the rest is kept, unless a write failed. -/
def InsertEnd (put : SendStage → γ) (clean : Prop) (d : Draft) (g : γ) : Outcome Exn (Bytes × Option Errno) → Prop
  | .ret (pending, failed) => ∃ b, g = put (.writing { d with done := b }) ∧ (failed = none → b ++ pending = d.text) ∧
      (failed ≠ none → ¬ clean)
  | .throw _ => False
  | .stop _ => True

/-- The text goes to the file at once, or is kept for later. -/
theorem SendRules.insertText (h : SendRules R i env cwd clean put get) {d : Draft} (hd : d.done = []) :
    Follows R i (insertText env d.fd d.text) (put (.writing d)) (InsertEnd put clean d) := by
  have hself : { d with done := [] } = d := by rw [← hd]
  unfold OortAgent.insertText
  split
  · refine Follows.bind ((h.xwrite (d := d) (by decide) fun _ => by rw [hd]; rfl).mono fun g o ho => ?_)
    cases o with
    | throw e => exact ho.elim
    | stop x => trivial
    | ret failed =>
      rcases ho with ⟨rfl, rfl⟩ | ⟨e, rfl, hc', b, rfl⟩
      · refine ⟨d.text, ?_, fun _ => List.append_nil _, fun h => absurd rfl h⟩
        rw [Draft.wrote, hd, List.nil_append]
      · refine ⟨b, ?_, fun h => (by cases h), fun _ => hc'⟩
        rw [Draft.wrote, hd, List.nil_append]
  · exact ⟨[], by rw [hself], fun _ => rfl, fun h => absurd rfl h⟩

/-- The file of the metadata is made, or it could not be. -/
theorem SendRules.openMeta (h : SendRules R i env cwd clean put get) {id : Str} (hid : '/' ∉ id) {tm : TransferMeta}
    (ht : tm.texts.all utf8 = true) {k : Except Errno Ino → Prog α} {Q : γ → Outcome Exn α → Prop}
    (herr : ∀ e, Follows R i (k (.error e)) (put (.named id)) Q)
    (hok : ∀ fd, Follows R i (k (.ok fd)) (put (.writing ⟨id, fd, env.codec.dump tm, []⟩)) Q) :
    Follows R i ((sys .openMeta (.openWrite (env.transferDir ++ '/' :: (id ++ META_EXT)))).bind k)
      (put (.named id)) Q := by
  refine h.call rfl fun w ch r w' hcwd hT hown he _ => ?_
  obtain ⟨m, fs, rfl, hc, rfl⟩ | ⟨e, rfl, rfl⟩ := exec_openWrite he
  swap
  · exact ⟨.named id, .keep .refl rfl (plain_of_refused rfl rfl), herr e⟩
  have hloc : norm w.fs.cwd (env.transferDir ++ '/' :: (id ++ META_EXT)) = metaAt (env.transfers cwd).dir id := by
    rw [hcwd, norm_pair hid (.inl rfl), metaAt]
  obtain ⟨rfl, hA, hnext⟩ := added_of_create hc (by rw [hloc]; exact hown.named id rfl)
  rw [hloc] at hA
  obtain ⟨hf, hd⟩ := frame_own_added hA (Nat.le_of_lt hnext)
  refine ⟨.writing ⟨id, w.fs.next, env.codec.dump tm, []⟩, .create ht hf rfl hnext ?_ hd ?_ rfl, hok _⟩
  · exact (hA.node _).trans (if_pos rfl)
  · show fs.inode w.fs.next = _
    rw [hA.inode, Function.update_self]

theorem SendRules.writeMeta (h : SendRules R i env cwd clean put get) {id : Str} (hid : '/' ∉ id) {tm : TransferMeta}
    (ht : tm.texts.all utf8 = true) :
    Follows R i (writeMeta env (env.transferDir ++ '/' :: (id ++ META_EXT)) (env.codec.dump tm)) (put (.named id))
      (MetaEnd put clean id (env.codec.dump tm)) := by
  refine h.openMeta hid ht (fun e => h.unlinkMeta hid rfl rfl (fun _ => rfl) fun _ => ⟨.named id, rfl, rfl, rfl⟩)
    fun fd => ?_
  refine Follows.bind ((h.insertText (d := ⟨id, fd, env.codec.dump tm, []⟩) rfl).mono fun g o ho => ?_)
  cases o with
  | throw e => exact ho.elim
  | stop x => trivial
  | ret x =>
    obtain ⟨pending, failed⟩ := x
    obtain ⟨b, rfl, htext, hfail⟩ := ho
    cases failed with
    | none =>
      refine Follows.bind
        ((h.closeStream (d := ⟨id, fd, env.codec.dump tm, b⟩) fun _ => htext rfl).mono fun g o ho => ?_)
      cases o with
      | ret _ => exact ho
      | throw e => exact ho.elim
      | stop x => trivial
    | some e =>
      have hc : ¬ clean := hfail (by simp)
      refine h.unlinkMeta hid rfl rfl (fun hc' => absurd hc' hc) fun _ => Follows.bind ?_
      refine (h.closeStream (d := ⟨id, fd, env.codec.dump tm, b⟩) fun hc' => absurd hc' hc).mono fun g o ho => ?_
      cases o with
      | ret _ =>
        obtain ⟨d', hid', -, -, rfl⟩ := ho
        exact ⟨.ready d' none, congrArg some hid', rfl, rfl⟩
      | throw e => exact ho.elim
      | stop x => trivial

/-- A stream that nothing was written to is closed. -/
theorem closeStream_nil {fd : Ino} : OortAgent.closeStream fd [] = (sys .fsyncMeta (.fsync fd)).bind fun synced =>
    (sys .closeMeta .close).bind fun closed => .ret (errorOf closed <|> errorOf synced) := rfl

/-- The metadata cannot be written as JSON: its file stays empty. -/
theorem SendRules.abandonMeta (h : SendRules R i env cwd clean put get) {id : Str} (hid : '/' ∉ id) {text : Bytes} :
    Follows R i (abandonMeta (env.transferDir ++ '/' :: (id ++ META_EXT))) (put (.named id))
      (MetaEnd put clean id text) := by
  -- the draft is one of any metadata, of which nothing is written
  let blank : TransferMeta := ⟨[], [], [], [], 0, ⟨[], [], 0, 0, 0, [], []⟩, {}, []⟩
  have hblank : blank.texts.all utf8 = true := by decide
  refine h.openMeta hid hblank (fun e => ⟨.named id, rfl, rfl, rfl⟩) fun fd => ?_
  dsimp only
  rw [closeStream_nil]
  exact h.look rfl (by decide) fun _ => h.look rfl (by decide) fun _ => ⟨_, rfl, rfl, rfl⟩

theorem SendRules.writeTransferMeta (h : SendRules R i env cwd clean put get) {id : Str} (hid : '/' ∉ id)
    {tm : TransferMeta} :
    Follows R i (writeTransferMeta env (env.transferDir ++ '/' :: (id ++ META_EXT)) tm) (put (.named id))
      (MetaEnd put clean id (env.codec.dump tm)) := by
  unfold OortAgent.writeTransferMeta
  split
  · rename_i ht
    exact h.writeMeta hid ht
  · exact h.abandonMeta hid

/-- The first `try` block: the metadata of the file that was found is written and closed, or the request gives up. -/
def StartEnd (put : SendStage → γ) (clean : Prop) (env : Env) (cwd : Loc) (req : SendFileRequest) (id : Str) (g : γ) :
    Outcome Exn (Response FileInfo) → Prop
  | .ret (.Ok fi) => (env.transfers cwd).Misses (norm cwd req.filepath) ∧ ∃ time d, d.id = id ∧
    d.text = env.codec.dump (transferMeta env req fi time) ∧ (clean → d.done = d.text) ∧ g = put (.ready d none)
  | .ret (.Bad_Request _) => ∃ s : SendStage, s.id? = some id ∧ s.isSent = false ∧ g = put s
  | .throw _ => ∃ s : SendStage, s.id? = some id ∧ s.isSent = false ∧ g = put s
  | .stop _ => True

theorem SendRules.startSend (h : SendRules R i env cwd clean put get) {req : SendFileRequest} {id : Str}
    (hid : '/' ∉ id) :
    Follows R i (startSend env req id (env.transferDir ++ '/' :: (id ++ META_EXT))) (put (.named id))
      (StartEnd put clean env cwd req id) := by
  refine Follows.handle (Follows.bind (Follows.bind ((h.fileInfo (by decide)).mono fun g o ho => ?_)))
  obtain ⟨rfl, hnot⟩ := ho
  cases o with
  | throw e =>
    dsimp only
    split
    · exact ⟨.named id, rfl, rfl, rfl⟩
    · exact ⟨.named id, rfl, rfl, rfl⟩
  | stop x => trivial
  | ret fi =>
    refine h.look rfl (by decide) fun time => Follows.bind ((h.writeTransferMeta hid).mono fun g o ho => ?_)
    cases o with
    | throw e =>
      obtain ⟨s, hs, hn, rfl⟩ := ho
      dsimp only
      split
      · exact ⟨s, hs, hn, rfl⟩
      · exact ⟨s, hs, hn, rfl⟩
    | stop x => trivial
    | ret _ =>
      obtain ⟨d, hd, htext, hclean, rfl⟩ := ho
      exact ⟨hnot fi rfl, time, d, hd, htext, hclean, rfl⟩

/-! ### The move -/

variable {src : Str} {fi : FileInfo} {tmpdir dtname : Str} {cp : Option (Name × Ino)} {n : Name} {j : Ino}

/-- How a move ends: the data is moved, or not. Only a fault can keep a move that returns from having moved it. -/
def MoveEnd (put : SendStage → γ) (clean : Prop) (d : Draft) (g : γ) : Outcome Exn Unit → Prop
  | .ret _ => g = put (.sent d) ∨ (¬ clean ∧ ∃ cp, g = put (.ready d cp))
  | .throw _ => ∃ cp, g = put (.ready d cp)
  | .stop _ => True

/-- A file outside of the working directory that is not on the way to `transfers`. -/
theorem off_of_outside (hout : Outside env cwd src) (hnot : (env.transfers cwd).Misses (norm cwd src)) :
    Off (env.transfers cwd) none (norm cwd src) where
  above := hnot
  entry n e := absurd (by
    rw [e, Env.transfers_dir]
    exact (List.suffix_cons _ _).trans (List.suffix_cons _ _)) hout

/-- The temporary directory of a move, and the place of the parked source in it. -/
structure TmpOff (A : Area) (cwd : Loc) (tmpdir : Str) : Prop where
  ne : tmpdir ≠ []
  dir : Off A none (norm cwd tmpdir)

theorem TmpOff.parked {A : Area} (h : TmpOff A cwd tmpdir) : Off A none (norm cwd (parkedName tmpdir)) := by
  rw [norm_parkedName h.ne]
  refine ⟨fun k hk hs => h.dir.above k hk ((List.suffix_cons _ _).trans hs), fun n e => ?_⟩
  have hdir := (List.cons.inj e).2
  exact absurd (hdir ▸ List.suffix_refl _) (h.dir.above _ A.mem)

/-- A rename between names elsewhere. -/
theorem SendRules.renameOff (h : SendRules R i env cwd clean put get) {a b : Str} {k : Except Errno Unit → Prog α}
    {Q : γ → Outcome Exn α → Prop} (hs : NoMetaWrite site) (ha : Off (env.transfers cwd) none (norm cwd a))
    (hb : Off (env.transfers cwd) none (norm cwd b)) (hk : ∀ r, Follows R i (k r) (put s) Q) :
    Follows R i ((sys site (.rename a b)).bind k) (put s) Q := by
  refine h.call hs.ofSend fun w ch r w' hcwd _ _ he _ => ⟨s, ?_, hk r⟩
  obtain ⟨fs, -, -, hr, rfl⟩ | ⟨e, -, rfl, -⟩ := exec_rename he
  · have hr' := (FS.pathRename_ok hr).2.2
    rw [hcwd] at hr'
    exact .keep (frame_rename hr' ha hb) rfl (plain_of_site hs rfl)
  · exact .keep .refl rfl (plain_of_site hs rfl)

theorem SendRules.rmdirOff (h : SendRules R i env cwd clean put get) {k : Except Errno Unit → Prog α}
    {Q : γ → Outcome Exn α → Prop} (hs : NoMetaWrite site) (ht : TmpOff (env.transfers cwd) cwd tmpdir)
    (hk : ∀ r, Follows R i (k r) (put s) Q) : Follows R i ((sys site (.rmdir tmpdir)).bind k) (put s) Q := by
  refine h.call hs.ofSend fun w ch r w' hcwd _ _ he _ => ⟨s, ?_, hk r⟩
  obtain ⟨fs, -, hr, rfl⟩ | ⟨e, -, rfl⟩ := exec_rmdir he
  · have hr' := (FS.pathRmdir_ok hr).2
    rw [hcwd] at hr'
    exact .keep (frame_rmdir hr' ht.dir) rfl (plain_of_site hs rfl)
  · exact .keep .refl rfl (plain_of_site hs rfl)

theorem SendRules.unlinkOff (h : SendRules R i env cwd clean put get) {k : Except Errno Unit → Prog α}
    {Q : γ → Outcome Exn α → Prop} (hs : NoMetaWrite site) (ht : TmpOff (env.transfers cwd) cwd tmpdir)
    (hk : ∀ r, Follows R i (k r) (put s) Q) :
    Follows R i ((sys site (.unlink (parkedName tmpdir))).bind k) (put s) Q := by
  refine h.call hs.ofSend fun w ch r w' hcwd _ _ he _ => ⟨s, ?_, hk r⟩
  obtain ⟨fs, -, hu, rfl⟩ | ⟨e, -, rfl, -⟩ := exec_unlink he
  · have hu' := (FS.pathUnlink_ok hu).2
    rw [hcwd] at hu'
    exact .keep (frame_unlink hu' ht.parked) rfl (plain_of_site hs rfl)
  · exact .keep .refl rfl (plain_of_site hs rfl)

/-- The request's rename to its data file: something elsewhere, or the copy. -/
theorem SendRules.renameData (h : SendRules R i env cwd clean put get) {a : Str} {k : Except Errno Unit → Prog α}
    {Q : γ → Outcome Exn α → Prop} (hs : NoMetaWrite site) (hid : '/' ∉ d.id)
    (ha : ∀ w, (env.transfers cwd).There w.fs → Owns (env.transfers cwd) w (.ready d cp) →
      Off (env.transfers cwd) (SendStage.ready d cp).temp? (norm cwd a))
    (hok : Follows R i (k (.ok ())) (put (.sent d)) Q)
    (herr : ∀ w e, w.fs.cwd = cwd → (env.transfers cwd).There w.fs → Owns (env.transfers cwd) w (.ready d cp) →
      (clean → w.fs.pathRename a (env.transferDir ++ '/' :: (d.id ++ DATA_EXT)) = .error e) →
      Follows R i (k (.error e)) (put (.ready d cp)) Q) :
    Follows R i ((sys site (.rename a (env.transferDir ++ '/' :: (d.id ++ DATA_EXT)))).bind k)
      (put (.ready d cp)) Q := by
  refine h.call hs.ofSend fun w ch r w' hcwd hT hown he hclean => ?_
  obtain ⟨fs, rfl, -, hr, rfl⟩ | ⟨e, rfl, rfl, hr, -⟩ := exec_rename he
  · have hr' := (FS.pathRename_ok hr).2.2
    rw [hcwd, norm_pair hid (.inr rfl)] at hr'
    obtain ⟨hf, hmeta⟩ := frame_own_rename hr' (ha w hT hown) (hown.unsent d.id rfl rfl)
    obtain ⟨htarget, hsrc⟩ := FS.rename_target hr'
    refine ⟨.sent d, .send hf rfl hmeta (FS.rename_frame hr').1 ?_ (plain_of_site hs rfl), hok⟩
    show fs.node ((d.id ++ DATA_EXT) :: (env.transfers cwd).dir) ≠ none
    rw [htarget]
    exact hsrc
  · refine ⟨.ready d cp, .keep .refl rfl (plain_of_site hs rfl), herr w' e hcwd hT hown fun hc => ?_⟩
    rw [Choice.inject, hclean hc] at hr
    exact hr

/-- The copy is in `transfers`, under a temporary name. -/
structure CopyName (env : Env) (cwd : Loc) (dtname : Str) (n : Name) : Prop where
  plain : Plain n
  path : dtname = env.transferDir ++ '/' :: n

theorem CopyName.norm (hn : CopyName env cwd dtname n) : Lib.norm cwd dtname = n :: (env.transfers cwd).dir := by
  rw [hn.path, norm_child transferDir_ne_nil hn.plain, Env.transfers]

/-- A complete copy can always be renamed. -/
theorem publish_ok {w : World} (hcwd : w.fs.cwd = cwd) (hT : (env.transfers cwd).There w.fs)
    (hown : Owns (env.transfers cwd) w (.ready d (some (n, j)))) (hid : '/' ∉ d.id) (hn : CopyName env cwd dtname n)
    {e : Errno} :
    w.fs.pathRename dtname (env.transferDir ++ '/' :: (d.id ++ DATA_EXT)) ≠ .error e := by
  obtain ⟨hdot, hj, hw, -⟩ := hown.copies d n j rfl
  have hdir : w.fs.resolve env.transferDir = .ok (env.transfers cwd).dir := by
    have hres : w.fs.resolve env.transferDir = .ok (norm w.fs.cwd env.transferDir) :=
      FS.resolve_of_ways transferDir_ne_nil (by rw [hcwd]; exact hT)
    rw [hres, hcwd, Env.transfers]
  obtain ⟨fs', hr⟩ := FS.rename_within (m := d.id ++ DATA_EXT) hw hj
    (by
      have hnone : w.fs.node ((d.id ++ DATA_EXT) :: (env.transfers cwd).dir) = none := hown.unsent d.id rfl rfl
      rw [FS.isDir, hnone])
  rw [hn.path, FS.pathRename, FS.resolve_child hdir hT.dir hn.plain,
    FS.resolve_child hdir hT.dir (IsExt.plain (.inr rfl) hid)]
  simp [hr]

theorem SendRules.publishCopy (h : SendRules R i env cwd clean put get) (hid : '/' ∉ d.id)
    (ht : TmpOff (env.transfers cwd) cwd tmpdir) (hn : CopyName env cwd dtname n) :
    Follows R i (publishCopy tmpdir (env.transferDir ++ '/' :: (d.id ++ DATA_EXT)) dtname)
      (put (.ready d (some (n, j))))
      (MoveEnd put clean d) := by
  refine h.renameData (by decide) hid (fun w hT hown => ?_) ?_ fun w e hcwd hT hown hbad => ?_
  · obtain ⟨hdot, hj, -⟩ := hown.copies d n j rfl
    rw [hn.norm]
    refine ⟨hT.above (by rw [FS.isDir, hj]), fun m e => ?_⟩
    cases e
    exact ⟨hdot, rfl⟩
  · exact h.unlinkOff (by decide) ht fun _ => h.rmdirOff (by decide) ht fun _ => .inl rfl
  · refine h.unlinkOff (by decide) ht fun _ => h.rmdirOff (by decide) ht fun _ => .inr ⟨fun hc => ?_, _, rfl⟩
    exact publish_ok hcwd hT hown hid hn (hbad hc)

/-- The copy loop writes to the copy only. -/
theorem SendRules.copyBlocks (h : SendRules R i env cwd clean put get) {srcfd : Handle} {blksize : Nat} :
    Follows R i (copyBlocks env srcfd j blksize) (put (.ready d (some (n, j))))
      (fun g o => g = put (.ready d (some (n, j))) ∧ ∀ e, o ≠ .throw e) := by
  refine Follows.loop (J := fun _ g => g = put (.ready d (some (n, j)))) ?_ _ _ _ rfl
  rintro off g rfl
  refine h.look rfl (by decide) fun r => ?_
  match r with
  | .error _ => exact ⟨rfl, by simp⟩
  | .ok [] => exact ⟨rfl, by simp⟩
  | .ok (b :: bs) =>
    refine h.call rfl fun w ch r w' _ _ hown he _ => ⟨_, ?_, rfl⟩
    obtain ⟨m, -, -, -, -, rfl⟩ | ⟨e, -, rfl, -⟩ := exec_write he
    · exact .keep (frame_append (hown.copies d n j rfl).2.2.2) rfl (plain_of_site (by decide) rfl)
    · exact .keep .refl rfl (plain_of_site (by decide) rfl)

theorem SendRules.copyInto (h : SendRules R i env cwd clean put get) (hid : '/' ∉ d.id)
    (ht : TmpOff (env.transfers cwd) cwd tmpdir) (hn : CopyName env cwd dtname n) {blksize : Int} :
    Follows R i (copyInto env tmpdir (env.transferDir ++ '/' :: (d.id ++ DATA_EXT)) fi blksize dtname j)
      (put (.ready d (some (n, j)))) (MoveEnd put clean d) := by
  refine h.look rfl (by decide) fun r => ?_
  cases r with
  | error e => exact ⟨_, rfl⟩
  | ok srcfd =>
    dsimp only
    split
    · exact ⟨_, rfl⟩
    refine Follows.bind (h.copyBlocks.mono fun g o ho => ?_)
    obtain ⟨rfl, hthrow⟩ := ho
    cases o with
    | throw e => exact absurd rfl (hthrow e)
    | stop x => trivial
    | ret _ =>
      refine h.look rfl (by decide) fun _ => h.look rfl (by decide) fun _ => h.look rfl (by decide) fun _ =>
        Follows.bind ((h.fileInfo (by decide)).mono fun g o ho => ?_)
      obtain ⟨rfl, -⟩ := ho
      cases o with
      | throw e => exact ⟨_, rfl⟩
      | stop x => trivial
      | ret destfi =>
        dsimp only
        split
        · exact ⟨_, rfl⟩
        · exact h.publishCopy hid ht hn

theorem SendRules.copyParked (h : SendRules R i env cwd clean put get) (hid : '/' ∉ d.id)
    (ht : TmpOff (env.transfers cwd) cwd tmpdir) {blksize : Int} :
    Follows R i (copyParked env tmpdir (env.transferDir ++ '/' :: (d.id ++ DATA_EXT)) fi blksize) (put (.ready d none))
      (MoveEnd put clean d) := by
  refine h.call rfl fun w ch r w' hcwd hT hown he _ => ?_
  obtain ⟨dtname, j, fs, rfl, hm, rfl⟩ | ⟨e, rfl, rfl⟩ := exec_mkstemp he
  swap
  · exact ⟨_, .keep .refl rfl (plain_of_site (by decide) rfl), none, rfl⟩
  obtain ⟨hpick, hname, -, -, -, hmk⟩ := FS.mkstemp_ok hm
  obtain ⟨rfl, hA⟩ := added_of_mkstemp hm
  rw [dirname_child (IsExt.plain (.inr rfl) hid).2.2.2, fromTemplate_moveTemplate] at hname
  have hn : CopyName env cwd dtname ("file_move_".toList ++ ch.pick) := ⟨picked_plain hpick, hname⟩
  rw [hcwd, hn.norm] at hA hmk
  have hoff : Off (env.transfers cwd) (some ("file_move_".toList ++ ch.pick))
      (("file_move_".toList ++ ch.pick) :: (env.transfers cwd).dir) := by
    refine ⟨hT.above (by rw [FS.isDir, hA.free]), fun m e => ?_⟩
    cases e
    exact ⟨picked_dot hpick, rfl⟩
  have hnext : w.fs.next ≤ fs.next := by
    rw [FS.next_mkstemp hm]
    exact Nat.le_succ _
  have hf := frame_added hA hnext hoff
  refine ⟨.ready d (some ("file_move_".toList ++ ch.pick, w.fs.next)), .copy hf rfl (picked_dot hpick) hA.free ?_ ?_ ?_
    (plain_of_site (by decide) rfl), h.copyInto hid ht hn⟩
  · exact (hA.node _).trans (if_pos rfl)
  · obtain ⟨m, dir, hl, hw, -, -⟩ := FS.mkfile_ok hmk
    cases hl
    show fs.writable _ = true
    rw [FS.writable, hf.top]
    exact hw
  · intro t hm'
    have hm'' : w.fs.node (metaAt (env.transfers cwd).dir t) = some (.file w.fs.next) :=
      (hf.meta (by simp)).symm.trans hm'
    exact absurd (w.fs.bound _ _ hm'') (Nat.lt_irrefl _)

theorem SendRules.undoPark (h : SendRules R i env cwd clean put get) (ht : TmpOff (env.transfers cwd) cwd tmpdir)
    (hsrc : Off (env.transfers cwd) none (norm cwd src)) {e : Exn} :
    Follows R i (undoPark src tmpdir e) (put s) (fun g o => g = put s ∧ o = .throw e) :=
  h.renameOff (by decide) ht.parked hsrc fun _ => h.rmdirOff (by decide) ht fun _ => ⟨rfl, rfl⟩

theorem SendRules.parkAndCopy (h : SendRules R i env cwd clean put get) (hid : '/' ∉ d.id)
    (ht : TmpOff (env.transfers cwd) cwd tmpdir) (hsrc : Off (env.transfers cwd) none (norm cwd src)) {blksize : Int} :
    Follows R i (parkAndCopy env src (env.transferDir ++ '/' :: (d.id ++ DATA_EXT)) fi blksize tmpdir)
      (put (.ready d none))
      (MoveEnd put clean d) := by
  refine h.renameOff (by decide) hsrc ht.parked fun r => ?_
  cases r with
  | error e => exact ⟨none, rfl⟩
  | ok _ =>
    refine Follows.handle ((h.copyParked hid ht).mono fun g o ho => ?_)
    cases o with
    | ret _ => exact ho
    | stop x => trivial
    | throw e =>
      obtain ⟨cp, rfl⟩ := ho
      refine (h.undoPark ht hsrc).mono fun g o ho => ?_
      obtain ⟨rfl, rfl⟩ := ho
      exact ⟨cp, rfl⟩

/-- A temporary directory beside a file outside of the working directory. -/
theorem tmpOff_of_mkdtemp {fs fs' : FS} {pick : Str} (hcwd : fs.cwd = cwd) (hT : (env.transfers cwd).There fs)
    (hs : '/' ∈ src)
    (hsrc : Off (env.transfers cwd) none (norm cwd src))
    (hm : fs.mkdtemp (moveTemplate (dirname src)) pick = some (.ok (tmpdir, fs'))) :
    TmpOff (env.transfers cwd) cwd tmpdir := by
  obtain ⟨hpick, rfl, -, hfree, -⟩ := FS.mkdtemp_ok hm
  rw [hcwd] at hfree
  refine ⟨by rw [fromTemplate_moveTemplate]; simp, hT.above (by rw [FS.isDir, hfree]), fun n e => ?_⟩
  rw [fromTemplate_moveTemplate, norm_parent_child (picked_plain hpick)] at e
  have hp : parentLoc cwd src = (env.transfers cwd).dir := (List.cons.inj e).2
  -- the source would be `transfers`, the directory above it, or an entry of it
  have hloc : norm cwd src = enter (parentLoc cwd src) (tailname src) := norm_of_parent hs
  rw [hp, enter] at hloc
  split at hloc
  · exact absurd (hloc ▸ List.suffix_refl _) (hsrc.above _ (env.transfers cwd).mem)
  split at hloc
  · exact absurd (hloc ▸ List.tail_suffix _) (hsrc.above _ (env.transfers cwd).mem)
  · exact absurd (hsrc.entry _ hloc).2 (by simp)

theorem SendRules.copyAcross (h : SendRules R i env cwd clean put get) (hid : '/' ∉ d.id) (hs : '/' ∈ src)
    (hsrc : Off (env.transfers cwd) none (norm cwd src)) :
    Follows R i (copyAcross env src (env.transferDir ++ '/' :: (d.id ++ DATA_EXT)) fi) (put (.ready d none))
      (MoveEnd put clean d) := by
  refine h.look rfl (by decide) fun srcvfs => h.look rfl (by decide) fun destvfs => ?_
  generalize checkDiskFree env fi.size destvfs.2 = space
  cases space with
  | false => exact ⟨none, rfl⟩
  | true =>
    refine h.call rfl fun w ch r w' hcwd hT _ he _ => ⟨.ready d none, ?_⟩
    obtain ⟨tmpdir, fs, rfl, hm, rfl⟩ | ⟨e, rfl, rfl⟩ := exec_mkdtemp he
    · have ht := tmpOff_of_mkdtemp hcwd hT hs hsrc hm
      refine ⟨.keep (frame_mkdtemp hm ?_) rfl (plain_of_site (by decide) rfl), h.parkAndCopy hid ht hsrc⟩
      rw [hcwd]
      exact ht.dir
    · exact ⟨.keep .refl rfl (plain_of_site (by decide) rfl), trivial⟩

theorem SendRules.moveFile (h : SendRules R i env cwd clean put get) (hid : '/' ∉ d.id) (hs : '/' ∈ src)
    (hsrc : Off (env.transfers cwd) none (norm cwd src)) :
    Follows R i (moveFile env src (env.transferDir ++ '/' :: (d.id ++ DATA_EXT)) fi) (put (.ready d none))
      (MoveEnd put clean d) := by
  refine h.look rfl (by decide) fun r => ?_
  cases r with
  | ok _ => exact ⟨none, rfl⟩
  | error _ =>
    refine Follows.bind ((h.fileInfo (by decide)).mono fun g o ho => ?_)
    obtain ⟨rfl, -⟩ := ho
    cases o with
    | throw e => exact ⟨none, rfl⟩
    | stop x => trivial
    | ret precheck =>
      dsimp only
      split
      · exact ⟨none, rfl⟩
      refine h.renameData (by decide) hid (fun _ _ _ => hsrc) (.inl rfl) fun w e _ _ _ _ => ?_
      split
      · rename_i heq
        cases heq
      · exact h.copyAcross hid hs hsrc
      · exact ⟨none, rfl⟩

/-! ### The request -/

/-- How a `send_file` ends. -/
def SendEnd (put : SendStage → γ) (clean : Prop) (g : γ) : Outcome Exn (Response Str) → Prop
  | .ret (.Ok id) => ∃ d, d.id = id ∧ (g = put (.sent d) ∨ (¬ clean ∧ ∃ cp, g = put (.ready d cp)))
  | .ret (.Bad_Request _) => ∃ s : SendStage, s.isSent = false ∧ g = put s
  | .throw _ => ∃ s : SendStage, s.isSent = false ∧ g = put s
  | .stop _ => True

theorem SendRules.finishSend (h : SendRules R i env cwd clean put get) {req : SendFileRequest} (hid : '/' ∉ d.id)
    (hs : '/' ∈ req.filepath) (hsrc : Off (env.transfers cwd) none (norm cwd req.filepath)) :
    Follows R i (finishSend env req d.id (env.transferDir ++ '/' :: (d.id ++ DATA_EXT))
      (env.transferDir ++ '/' :: (d.id ++ META_EXT)) fi) (put (.ready d none)) (SendEnd put clean) := by
  refine Follows.handle (Follows.bind ((h.moveFile hid hs hsrc).mono fun g o ho => ?_))
  cases o with
  | ret _ => exact ⟨d, rfl, ho⟩
  | stop x => trivial
  | throw e =>
    obtain ⟨cp, rfl⟩ := ho
    dsimp only
    split
    swap
    · exact ⟨.ready d cp, rfl, rfl⟩
    refine h.call rfl fun w ch r w' hcwd _ _ he _ => ?_
    obtain ⟨fs, -, hu, rfl⟩ | ⟨e, -, rfl, -⟩ := exec_unlink he
    · have hu' := (FS.pathUnlink_ok hu).2
      rw [hcwd, norm_pair hid (.inl rfl)] at hu'
      refine ⟨.failed d.id, .fail (frame_own_unlink (.inl rfl) hu') rfl ?_ ?_ (plain_of_site (by decide) rfl),
        .failed d.id, rfl, rfl⟩
      · exact (FS.node_unlink hu' _).trans (if_pos rfl)
      · exact (FS.node_unlink hu' _).trans (if_neg (Ne.symm metaAt_ne_dataAt))
    · exact ⟨.ready d cp, .keep .refl rfl (plain_of_site (by decide) rfl), .ready d cp, rfl, rfl⟩

theorem exec_urandom {ch : Choice} {w w' : World} {r : List UInt8} (h : Op.urandom.exec ch w = some (r, w')) :
    w.unusedId (uuidText r) = true ∧ w' = { w with uuids := uuidText r :: w.uuids } := by
  simp only [Op.exec] at h
  split at h
  · rename_i hr
    cases h
    exact ⟨hr.2, rfl⟩
  · cases h

theorem slash_of_checkPath {p : Str} (h : checkPath p = true) : '/' ∈ p := List.mem_of_mem_head? (of_decide_eq_true h)

/-- **The rule for `sendFile`.** -/
theorem SendRules.sendFile (h : SendRules R i env cwd clean put get) {req : SendFileRequest}
    (hout : Outside env cwd req.filepath) :
    Follows R i (sendFile env req) (put .idle) (SendEnd put clean) := by
  refine Follows.bind (h.call rfl fun w ch r w' _ _ _ he _ => ?_)
  obtain ⟨hun, rfl⟩ := exec_urandom he
  refine ⟨.named (uuidText r), .name hun rfl rfl rfl rfl, ?_⟩
  have hid : '/' ∉ uuidText r := (uuidText_plain r).2.1
  dsimp only
  split
  · exact ⟨.named _, rfl, rfl⟩
  rename_i hpath
  have hs : '/' ∈ req.filepath := slash_of_checkPath (not_not.1 hpath)
  refine h.look rfl (by decide) fun allowed => ?_
  split
  · exact ⟨.named _, rfl, rfl⟩
  refine h.look rfl (by decide) fun r => ?_
  cases r with
  | error e => exact ⟨.named _, rfl, rfl⟩
  | ok _ =>
    refine Follows.bind ((h.startSend hid).mono fun g o ho => ?_)
    cases o with
    | throw e =>
      obtain ⟨s, -, hns, hg⟩ := ho
      exact ⟨s, hns, hg⟩
    | stop x => trivial
    | ret r => cases r with
      | Bad_Request m =>
        obtain ⟨s, -, hns, hg⟩ := ho
        exact ⟨s, hns, hg⟩
      | Ok fi =>
        obtain ⟨hmiss, time, d, hd, -, -, hg⟩ := ho
        subst hg
        rw [← hd] at hid ⊢
        exact h.finishSend hid hs (off_of_outside hout hmiss)

end Rule

end OortAgent
