import OortAgent.Published

/-!
# Readers of metadata beside requests that send

A `meta` request quarantines metadata that it cannot read or parse. The metadata of a `send_file` is there under its
final name before its text is, so a reader can take it for a broken file (`meta_breaks_send`). As long as no reader
opens metadata that is incomplete, nothing is quarantined, and the pair of every request that returns `Ok` is in
place (`meta_spares_send`).

* `Gone`, `Whole`: what a reader knows of the pair of its id: both files are gone for good, or the metadata stays as
  it is.
* `Known`: an id that was listed is not one that a request has yet to write metadata for.
-/

namespace OortAgent

open Lib

/-- No proper initial part of a text that is written can be parsed. -/
def Codec.Solid (J : Codec) : Prop :=
  ∀ tm b, tm.texts.all utf8 = true → b <+: J.dump tm → J.parse b ≠ none → b = J.dump tm

/-- The file that a `stat` found to be regular. -/
def Op.found : (op : Op) → op.Res → Option Str
  | .stat p, .ok st => if st.isReg then some p else none
  | _, _ => none

/-- A file was renamed. -/
def Op.renamed : (op : Op) → op.Res → Bool
  | .rename _ _, .ok _ => true
  | _, _ => false

/-- The file that `collector_info` found. -/
def Ev.lists (e : Ev) : Option Str := if e.site = .fileNames then e.call.op.found e.res else none

/-- A file went to the dead-letter directory. -/
def Ev.quarantines (e : Ev) : Bool :=
  e.call.op.renamed e.res && (decide (e.site = .endeaden) || decide (e.site = .endeadenTwin))

/-- What a reader of metadata is at: nothing, a file `m` of the id `t` that it opened with the contents `c`, or an
id whose files are gone. -/
inductive ReadStage
  | idle
  | opened (t : Str) (m : Ino) (c : Bytes)
  | gone (t : Str)

section Stable

variable {ι : Type} {A : Area} {codec : Codec} {w w' : World} {S : ι → SendStage} {t : Str}

/-- Both files of an id are gone, and nobody will make them again. -/
structure Gone (A : Area) (w : World) (S : ι → SendStage) (t : Str) : Prop where
  noMeta : w.fs.node (metaAt A.dir t) = none
  noData : w.fs.node (dataAt A.dir t) = none
  used : t ∈ w.uuids
  failed : ∀ k, (S k).id? = some t → S k = .failed t

/-- The metadata of an id is complete. -/
structure Whole (codec : Codec) (A : Area) (w : World) (t : Str) (m : Ino) (c : Bytes) : Prop where
  here : w.fs.node (metaAt A.dir t) = some (.file m)
  text : (w.fs.inode m).data = c
  parses : codec.parse c ≠ none

/-- An id that is in use: its request has made its metadata, or it is none of a request. -/
def Known (A : Area) (w : World) (S : ι → SendStage) (t : Str) : Prop :=
  (∃ k, (S k).id? = some t ∧ S k ≠ .named t) ∨
    ((∀ k, (S k).id? ≠ some t) ∧ (t ∈ w.uuids ∨ ∃ ext, IsExt ext ∧ w.fs.node ((t ++ ext) :: A.dir) ≠ none))

/-- What a reader is at is right. -/
def ReadOk (codec : Codec) (A : Area) (w : World) (S : ι → SendStage) : ReadStage → Prop
  | .idle => True
  | .opened t m c => Gone A w S t ∨ Whole codec A w t m c
  | .gone t => Gone A w S t

theorem known_of_file (h : ∀ i, Owns A w (S i)) {ext : Str} (hx : IsExt ext)
    (hn : w.fs.node ((t ++ ext) :: A.dir) ≠ none) : Known A w S t := by
  by_cases hk : ∃ k, (S k).id? = some t
  · obtain ⟨k, hk⟩ := hk
    refine .inl ⟨k, hk, fun e => hn ?_⟩
    rcases hx with rfl | rfl
    · exact (h k).named t e
    · exact (h k).unsent t hk (by rw [e]; rfl)
  · exact .inr ⟨fun k hk' => hk ⟨k, hk'⟩, .inr ⟨ext, hx, hn⟩⟩

/-- A known id without files is gone. -/
theorem Known.gone (h : Known A w S t) (hown : ∀ i, Owns A w (S i)) (hC : ∀ i, Complete codec A w (S i))
    (hS : ∀ i j id, (S i).id? = some id → (S j).id? = some id → i = j) (hm : w.fs.node (metaAt A.dir t) = none)
    (hd : w.fs.node (dataAt A.dir t) = none) : Gone A w S t := by
  have hdraft : ∀ k d, (S k).draft? = some d → (S k).id? ≠ some t := by
    intro k d hk hid
    have hid' := SendStage.id_of_draft hk
    rw [hid] at hid'
    have := (hC k).here d hk
    rw [← Option.some.inj hid', hm] at this
    cases this
  rcases h with ⟨k, hk, hne⟩ | ⟨hnone, hu | ⟨ext, hx, hn⟩⟩
  · refine ⟨hm, hd, (hown k).ids t hk, fun j hj => ?_⟩
    obtain rfl := hS k j t hk hj
    cases hs : S k with
    | idle => rw [hs] at hk; cases hk
    | named id => rw [hs] at hk hne; cases hk; exact absurd rfl hne
    | writing d => exact absurd hk (hdraft k d (by rw [hs]; rfl))
    | ready d cp => exact absurd hk (hdraft k d (by rw [hs]; rfl))
    | sent d => exact absurd hk (hdraft k d (by rw [hs]; rfl))
    | failed id => rw [hs] at hk; cases hk; rfl
  · exact ⟨hm, hd, hu, fun k hk => absurd hk (hnone k)⟩
  · rcases hx with rfl | rfl
    · exact absurd hm hn
    · exact absurd hd hn

/-! ### Steps of requests that send -/

variable [DecidableEq ι] {cwd : Loc} {e : Ev} {i : ι} {s' : SendStage}

/-- The step leaves the pair of an id alone that is not the request's. -/
theorem SendEffect.frame_other {s : SendStage} (he : SendEffect A codec True w e w' s s') (h : Owns A w s)
    (ht : s.id? ≠ some t) :
    ∃ x c, x ≠ some t ∧ Frame A x c w.fs w'.fs := by
  obtain ⟨x, c, hx, -, hf, -⟩ := he.frame h
  exact ⟨x, c, fun e => ht (hx t e), hf⟩

theorem Gone.effect (h : Gone A w S t) (hS : Sending cwd A w S) (he : SendEffect A codec True w e w' (S i) s') :
    Gone A w' (Function.update S i s') t := by
  -- a request that is over makes no more changes
  have hover : (S i).id? = some t → s' = .failed t ∧ Frame A none none w.fs w'.fs := by
    intro hi
    rw [h.failed i hi] at he
    cases he with
    | keep hf _ _ => exact ⟨rfl, hf⟩
    | drop _ _ hnamed _ _ _ _ _ => exact absurd (hnamed trivial) (by simp)
  obtain ⟨x, c, hx, hf⟩ : ∃ x c, x ≠ some t ∧ Frame A x c w.fs w'.fs := by
    by_cases hi : (S i).id? = some t
    · exact ⟨none, none, by simp, (hover hi).2⟩
    · exact he.frame_other (hS.owns i) hi
  refine ⟨by rw [hf.meta hx, h.noMeta], by rw [hf.data hx, h.noData], he.uuids t h.used, fun k hk => ?_⟩
  by_cases hki : k = i
  · subst hki
    rw [Function.update_self] at hk ⊢
    rcases he.id_cases hk with hid | hun
    · exact (hover hid).1
    · exact absurd h.used (notMem_of_unused hun)
  · rw [Function.update_of_ne hki] at hk ⊢
    exact h.failed k hk

theorem Whole.frame {m : Ino} {c : Bytes} {x : Option Str} {n : Option Name} (h : Whole codec A w t m c)
    (hf : Frame A x n w.fs w'.fs) (hx : x ≠ some t) : Whole codec A w' t m c :=
  ⟨by rw [hf.meta hx, h.here], by rw [hf.inode t m hx h.here, h.text], h.parses⟩

/-- Complete metadata stays, or is removed with its request. -/
theorem Whole.effect {m : Ino} {c : Bytes} (h : Whole codec A w t m c) (hJ : codec.Solid) (hS : Sending cwd A w S)
    (hC : Complete codec A w (S i)) (he : SendEffect A codec True w e w' (S i) s') :
    Gone A w' (Function.update S i s') t ∨ Whole codec A w' t m c := by
  by_cases hi : (S i).id? = some t
  swap
  · obtain ⟨x, n, hx, hf⟩ := he.frame_other (hS.owns i) hi
    exact .inr (h.frame hf hx)
  have hown := hS.owns i
  have hapart : ∀ k, k ≠ i → (S k).id? ≠ some t := fun k hk hkt => hk (hS.apart k i t hkt hi)
  generalize hs : S i = s at he hi hown hC
  cases he with
  | keep hf _ _ => exact .inr (h.frame hf (by simp))
  | name => cases hi
  | create =>
    cases hi
    have := h.here
    rw [hown.named _ rfl] at this
    cases this
  | drop _ _ hnamed _ _ _ _ _ =>
    have hs' := hnamed trivial
    subst hs'
    cases hi
    have := h.here
    rw [hown.named _ rfl] at this
    cases this
  | @write d b hf _ hpart _ _ =>
    cases hi
    obtain ⟨rfl, hdone, -⟩ := (hown.draft d rfl).2.2 m h.here
    obtain ⟨hpre, tm, ht, htm⟩ := hC.text d rfl
    -- what can be parsed is the whole text, so nothing is left to write
    have hc : d.done = d.text := by
      rw [htm] at hpre ⊢
      exact hJ tm _ ht hpre (by rw [← hdone, h.text]; exact h.parses)
    have hb : b = [] := by
      have hlen := (hpart trivial).length_le
      rw [List.length_append, hc] at hlen
      exact List.length_eq_zero_iff.1 (by omega)
    refine .inr ⟨by rw [hf]; exact h.here, ?_, h.parses⟩
    rw [hf, hb, FS.append, FS.inode_setInode, Function.update_self, List.append_nil, h.text]
  | close hf _ _ _ => exact .inr (h.frame (hf ▸ Frame.refl : Frame A none none w.fs w'.fs) (by simp))
  | copy hf _ _ _ _ _ _ _ => exact .inr (h.frame hf (by simp))
  | @send d cp hf _ hn hino _ _ =>
    cases hi
    exact .inr ⟨by rw [hn, h.here], by rw [hino, h.text], h.parses⟩
  | @fail d cp hf hu hn hdata _ =>
    cases hi
    refine .inl ⟨hn, by rw [hdata]; exact hown.unsent d.id rfl rfl, by rw [hu]; exact hown.ids d.id rfl, fun k hk => ?_⟩
    by_cases hki : k = i
    · subst hki
      rw [Function.update_self]
    · rw [Function.update_of_ne hki] at hk
      exact absurd hk (hapart k hki)

theorem Known.effect (h : Known A w S t) (hS : Sending cwd A w S) (he : SendEffect A codec True w e w' (S i) s') :
    Known A w' (Function.update S i s') t := by
  rcases h with ⟨k, hk, hne⟩ | ⟨hnone, hused⟩
  · refine .inl ⟨k, ?_⟩
    by_cases hki : k = i
    · subst hki
      rw [Function.update_self]
      refine ⟨he.id_mono hk, ?_⟩
      generalize S k = s at he hk hne
      cases he with
      | keep => exact hne
      | drop => exact hne
      | name => cases hk
      | _ => simp
    · rw [Function.update_of_ne hki]
      exact ⟨hk, hne⟩
  · obtain ⟨x, c, hx, hf⟩ := he.frame_other (hS.owns i) (hnone i)
    refine .inr ⟨fun k hk => ?_, ?_⟩
    · by_cases hki : k = i
      · subst hki
        rw [Function.update_self] at hk
        rcases he.id_cases hk with hid | hun
        · exact hnone k hid
        · rcases hused with hu | ⟨ext, hx, hn⟩
          · exact notMem_of_unused hun hu
          · exact hn (free_of_unused hun hx)
      · rw [Function.update_of_ne hki] at hk
        exact hnone k hk
    · rcases hused with hu | ⟨ext, hx', hn⟩
      · exact .inl (he.uuids t hu)
      · exact .inr ⟨ext, hx', by rw [hf.node t ext hx' hx]; exact hn⟩

theorem ReadOk.effect {g : ReadStage} (h : ReadOk codec A w S g) (hJ : codec.Solid) (hS : Sending cwd A w S)
    (hC : Complete codec A w (S i)) (he : SendEffect A codec True w e w' (S i) s') :
    ReadOk codec A w' (Function.update S i s') g := by
  cases g with
  | idle => trivial
  | gone t => exact Gone.effect h hS he
  | opened t m c =>
    rcases h with h | h
    · exact .inl (h.effect hS he)
    · exact h.effect hJ hS hC he

end Stable

/-! ## The protocol -/

section Protocol

variable {ι : Type} {env : Env} {cwd : Loc} {w₀ : World} {reqs : ι → Request}

/-- The files of an id were listed: before the start, or by a `collector_info` since. -/
def Listed (env : Env) (w₀ : World) (tr : History Calls Choice ι) (t : Str) : Prop :=
  (t ∈ w₀.uuids ∨ ∃ ext, IsExt ext ∧ w₀.fs.node ((t ++ ext) :: (env.transfers w₀.fs.cwd).dir) ≠ none) ∨
    ∃ x ∈ tr, ∃ ext, IsExt ext ∧ Ev.lists x.2 = some (env.transferDir ++ '/' :: (t ++ ext))

/-- Metadata that a reader can open: it is complete, or there is nothing to quarantine. -/
def Readable (codec : Codec) (T : Loc) (fs : FS) (t : Str) : Prop := match fs.node (metaAt T t) with
  | some (.file m) => (fs.inode m).readable = true ∧ codec.parse (fs.inode m).data ≠ none
  | some (.dir _ _) => True
  | none => fs.node (dataAt T t) = none

/-- A step without an injected fault; `meta` requests are for ids that were listed. -/
structure ListedStep (env : Env) (w₀ : World) (reqs : ι → Request) (tr : History Calls Choice ι)
    (e : ι × Ev) : Prop where
  faultless : e.2.choice.err = none
  listed : ∀ t, reqs e.1 = .metainfo t → Listed env w₀ tr t

/-- A `meta` request that opens metadata can read it. -/
def OpensReadable (env : Env) (reqs : ι → Request) (w : World) (e : ι × Ev) : Prop :=
  ∀ t p, reqs e.1 = .metainfo t → e.2.call = ⟨.readMeta, .openRead p⟩ →
    Readable env.codec (env.transfers w.fs.cwd).dir w.fs t

/-- The requests that send, the readers, and what happened so far. -/
structure Readers (env : Env) (w₀ : World) (tr : History Calls Choice ι) (w : World)
    (G : ι → SendStage × ReadStage) : Prop where
  sending : Sending w₀.fs.cwd (env.transfers w₀.fs.cwd) w (Prod.fst ∘ G)
  complete : ∀ i, Complete env.codec (env.transfers w₀.fs.cwd) w (G i).1
  data : ∀ i d, (G i).1 = .sent d → w.fs.node (dataAt (env.transfers w₀.fs.cwd).dir d.id) ≠ none
  known : ∀ t, '/' ∉ t → Listed env w₀ tr t → Known (env.transfers w₀.fs.cwd) w (Prod.fst ∘ G) t
  reads : ∀ i, ReadOk env.codec (env.transfers w₀.fs.cwd) w (Prod.fst ∘ G) (G i).2
  calm : ∀ e ∈ tr, Ev.quarantines e.2 = false

theorem listed_append {tr : History Calls Choice ι} {x : ι × Ev} {t : Str} (h : Listed env w₀ (tr ++ [x]) t) :
    Listed env w₀ tr t ∨ ∃ ext, IsExt ext ∧ Ev.lists x.2 = some (env.transferDir ++ '/' :: (t ++ ext)) := by
  rcases h with h | ⟨y, hy, ext, hx, hl⟩
  · exact .inl (.inl h)
  · rcases List.mem_append.1 hy with hy | hy
    · exact .inl (.inr ⟨y, hy, ext, hx, hl⟩)
    · rw [List.mem_singleton.1 hy] at hl
      exact .inr ⟨ext, hx, hl⟩

variable [DecidableEq ι]

/-- A step that changes neither files nor ids, perhaps with a new reader. -/
theorem Readers.look {tr : History Calls Choice ι} {w w' : World} {G : ι → SendStage × ReadStage} {i : ι} {e : Ev}
    (h : Readers env w₀ tr w G) (hfs : w'.fs = w.fs) (hu : w'.uuids = w.uuids) (hq : e.quarantines = false)
    (hlist : ∀ p, e.lists = some p → w.fs.node (norm w.fs.cwd p) ≠ none) {g : ReadStage}
    (hg : ReadOk env.codec (env.transfers w₀.fs.cwd) w (Prod.fst ∘ G) g) :
    Readers env w₀ (tr ++ [(i, e)]) w' (Function.update G i ((G i).1, g)) := by
  have hS : Prod.fst ∘ Function.update G i ((G i).1, g) = Prod.fst ∘ G := by
    rw [Function.comp_update]
    exact Function.update_eq_self _ _
  have hfst : ∀ j, (Function.update G i ((G i).1, g) j).1 = (G j).1 := fun j => congrFun hS j
  have hf : Frame (env.transfers w₀.fs.cwd) none none w.fs w'.fs := hfs ▸ Frame.refl
  have hread : ∀ {r : ReadStage}, ReadOk env.codec (env.transfers w₀.fs.cwd) w (Prod.fst ∘ G) r →
      ReadOk env.codec (env.transfers w₀.fs.cwd) w' (Prod.fst ∘ G) r := by
    intro r hr
    have hgone : ∀ {t}, Gone (env.transfers w₀.fs.cwd) w (Prod.fst ∘ G) t →
        Gone (env.transfers w₀.fs.cwd) w' (Prod.fst ∘ G) t := fun hg =>
      ⟨by rw [hfs]; exact hg.noMeta, by rw [hfs]; exact hg.noData, by rw [hu]; exact hg.used, hg.failed⟩
    cases r with
    | idle => trivial
    | gone t => exact hgone hr
    | opened t m c => exact hr.imp hgone fun hw => hw.frame hf (by simp)
  refine ⟨?_, fun j => ?_, fun j d hd => ?_, fun t ht hl => ?_, fun j => ?_, fun x hx => ?_⟩
  · rw [hS]
    exact h.sending.harmless (hf.harmless (by simp [hu]) (by simp))
  · rw [hfst]
    exact (h.complete j).frame hf (by simp)
  · rw [hfst] at hd
    rw [hfs]
    exact h.data j d hd
  · rw [hS]
    have hk : Known (env.transfers w₀.fs.cwd) w (Prod.fst ∘ G) t := by
      rcases listed_append hl with hl | ⟨ext, hx, hl⟩
      · exact h.known t ht hl
      · refine known_of_file h.sending.owns hx ?_
        have := hlist _ hl
        rwa [h.sending.wd, norm_pair ht hx] at this
    exact hk.imp id fun hk => ⟨hk.1, by rw [hfs, hu]; exact hk.2⟩
  · rw [hS]
    by_cases hj : j = i
    · subst hj
      rw [Function.update_self]
      exact hread hg
    · rw [Function.update_of_ne hj]
      exact hread (h.reads j)
  · rcases List.mem_append.1 hx with hx | hx
    · exact h.calm x hx
    · rw [List.mem_singleton.1 hx]
      exact hq

/-- A step of a request that sends. -/
theorem Readers.effect {tr : History Calls Choice ι} {w w' : World} {G : ι → SendStage × ReadStage} {i : ι} {e : Ev}
    {s' : SendStage} (h : Readers env w₀ tr w G) (hJ : env.codec.Solid) (hsite : (Ev.site e).ofSend = true)
    (he : SendEffect (env.transfers w₀.fs.cwd) env.codec True w e w' (G i).1 s') :
    Readers env w₀ (tr ++ [(i, e)]) w' (Function.update G i (s', .idle)) := by
  have hS : Prod.fst ∘ Function.update G i (s', .idle) = Function.update (Prod.fst ∘ G) i s' :=
    Function.comp_update _ _ _ _
  have hothers : ∀ j, j ≠ i → (Function.update G i (s', .idle) j).1 = (G j).1 :=
    fun j hj => by rw [Function.update_of_ne hj]
  obtain ⟨x, c, hx, -, hf, -⟩ := he.frame (h.sending.owns i)
  have hne : ∀ j id, j ≠ i → (G j).1.id? = some id → x ≠ some id := fun j id hj hid hxid =>
    hj (h.sending.apart j i id hid (hx id hxid))
  refine ⟨?_, fun j => ?_, fun j d hd => ?_, fun t ht hl => ?_, fun j => ?_, fun y hy => ?_⟩
  · rw [hS]
    exact h.sending.effect he
  · by_cases hj : j = i
    · subst hj
      rw [Function.update_self]
      exact (h.complete j).effect trivial he
    · rw [hothers j hj]
      exact (h.complete j).frame hf fun id hid => hne j id hj hid
  · by_cases hj : j = i
    · subst hj
      rw [Function.update_self] at hd
      dsimp only at hd
      subst hd
      have hdata := h.data j d
      generalize (G j).1 = s at he hdata hf
      cases he with
      | keep hf' _ _ =>
        rw [hf'.data (by simp)]
        exact hdata rfl
      | drop _ hns _ _ _ _ _ _ => cases hns
      | send _ _ _ _ hn _ => exact hn
    · rw [hothers j hj] at hd
      rw [hf.data (hne j d.id hj (by rw [hd]; rfl))]
      exact h.data j d hd
  · rw [hS]
    rcases listed_append hl with hl | ⟨ext, hx, hl⟩
    · exact (h.known t ht hl).effect h.sending he
    · rw [Ev.lists, if_neg] at hl
      · cases hl
      · intro hs
        rw [hs] at hsite
        cases hsite
  · rw [hS]
    by_cases hj : j = i
    · subst hj
      rw [Function.update_self]
      trivial
    · rw [Function.update_of_ne hj]
      exact (h.reads j).effect hJ h.sending (h.complete i) he
  · rcases List.mem_append.1 hy with hy | hy
    · exact h.calm y hy
    · rw [List.mem_singleton.1 hy]
      have h₁ : Ev.site e ≠ .endeaden := fun hs => by rw [hs] at hsite; cases hsite
      have h₂ : Ev.site e ≠ .endeadenTwin := fun hs => by rw [hs] at hsite; cases hsite
      simp [Ev.quarantines, h₁, h₂]

/-- The protocol of requests that send and requests that read metadata. -/
abbrev Reading (env : Env) (w₀ : World) (reqs : ι → Request) : Proto Calls World Choice ι (SendStage × ReadStage) where
  sem := Machine
  ok tr w e := ListedStep env w₀ reqs tr e ∧ OpensReadable env reqs w e
  inv tr w G := Readers env w₀ tr w G

theorem reading_rules (hJ : env.codec.Solid) {i : ι} :
    SendRules (Reading env w₀ reqs) i env w₀.fs.cwd True (fun s => (s, .idle)) Prod.fst where
  sem := rfl
  get_put _ := rfl
  base _ _ _ h := h.sending
  faultless _ _ _ _ h := h.1.faultless
  step tr w G e w' s s' hI hg _ hsite heff _ := by
    have hs : (G i).1 = s := by rw [hg]
    exact hI.effect hJ hsite (hs ▸ heff)

/-! ### The readers -/

variable {α : Type} {i : ι} {site : Site} {g : ReadStage} {s : SendStage}

theorem lists_file {op : Op} {ch : Choice} {w w' : World} {r : op.Res} (he : op.exec ch w = some (r, w')) {p : Str}
    (hl : Ev.lists ⟨⟨site, op⟩, ch, r⟩ = some p) : w.fs.node (norm w.fs.cwd p) ≠ none := by
  unfold Ev.lists at hl
  split at hl
  swap
  · cases hl
  rename_i hs
  clear hs
  cases op
  case stat q =>
    cases r with
    | error e => cases hl
    | ok st =>
      have hst : ch.inject (w.fs.pathStat q (ch.ticks 0)) = .ok st := (Prod.mk.inj (Option.some.inj he)).1
      by_cases hreg : st.isReg = true
      · have hq : q = p := by simpa [Op.found, hreg] using hl
        subst hq
        obtain ⟨k, -, hk, -⟩ := FS.pathStat_reg (inject_ok hst).2 hreg
        simp [hk]
      · simp [Op.found, hreg] at hl
  all_goals cases hl

theorem quarantines_still {op : Op} {ch : Choice} {r : op.Res} (h : op.still = true) :
    Ev.quarantines ⟨⟨site, op⟩, ch, r⟩ = false := by
  cases op <;> first | rfl | cases h

/-- A call that changes neither files nor ids; what it tells may be kept in mind. -/
theorem reading_still {op : Op} {k : op.Res → Prog α} {Q : SendStage × ReadStage → Outcome Exn α → Prop}
    (hq : op.still = true)
    (hk : ∀ w S ch r w', w.fs.cwd = w₀.fs.cwd → (env.transfers w₀.fs.cwd).There w.fs →
      ReadOk env.codec (env.transfers w₀.fs.cwd) w S g → op.exec ch w = some (r, w') → ch.err = none →
      ∃ g', ReadOk env.codec (env.transfers w₀.fs.cwd) w (S : ι → SendStage) g' ∧
        Follows (Reading env w₀ reqs) i (k r) (s, g') Q) :
    Follows (Reading env w₀ reqs) i ((sys site op).bind k) (s, g) Q := by
  refine follows_call.2 fun tr w G ch r w' hI hg he hok => ?_
  have hread := hI.reads i
  rw [hg] at hread
  obtain ⟨g', hg', hf⟩ := hk w (Prod.fst ∘ G) ch r w' hI.sending.wd hI.sending.dir hread he hok.1.faultless
  obtain ⟨hfs, hu⟩ := exec_still hq he
  refine ⟨(s, g'), ?_, hf⟩
  have hs : (G i).1 = s := by rw [hg]
  rw [← hs]
  exact hI.look hfs hu (quarantines_still hq) (fun p hl => lists_file he hl) hg'

/-- A call that only looks at what does not matter. -/
theorem reading_skip {op : Op} {k : op.Res → Prog α} {Q : SendStage × ReadStage → Outcome Exn α → Prop}
    (hq : op.still = true)
    (hk : ∀ r, Follows (Reading env w₀ reqs) i (k r) (s, g) Q) :
    Follows (Reading env w₀ reqs) i ((sys site op).bind k) (s, g) Q :=
  reading_still hq fun _ _ _ r _ _ _ hr _ _ => ⟨g, hr, hk r⟩

/-- Quarantine of files that are gone. -/
theorem reading_rename {t ext : Str} {b : Str} {k : Except Errno Unit → Prog α}
    {Q : SendStage × ReadStage → Outcome Exn α → Prop} (ht : '/' ∉ t) (hx : IsExt ext)
    (hk : ∀ r, Follows (Reading env w₀ reqs) i (k r) (s, .gone t) Q) :
    Follows (Reading env w₀ reqs) i ((sys site (.rename (env.transferDir ++ '/' :: (t ++ ext)) b)).bind k)
      (s, .gone t) Q := by
  refine follows_call.2 fun tr w G ch r w' hI hg he _ => ⟨(s, .gone t), ?_, hk r⟩
  have hread := hI.reads i
  rw [hg] at hread
  have hnone : w.fs.node ((t ++ ext) :: (env.transfers w₀.fs.cwd).dir) = none := by
    rcases hx with rfl | rfl
    · exact hread.noMeta
    · exact hread.noData
  obtain ⟨fs, rfl, -, hr, rfl⟩ | ⟨e, rfl, rfl, -⟩ := exec_rename he
  · have hr' := (FS.pathRename_ok hr).2.2
    rw [hI.sending.wd, norm_pair ht hx] at hr'
    exact absurd hnone (FS.rename_src hr')
  · have hs : (G i).1 = s := by rw [hg]
    rw [← hs]
    refine hI.look rfl rfl rfl (fun p hl => ?_) hread
    unfold Ev.lists at hl
    split at hl <;> cases hl

theorem reading_endeaden {t : Str} (ht : '/' ∉ t) :
    Follows (Reading env w₀ reqs) i (endeaden env (env.sentMeta t)) (s, .gone t) (fun _ _ => True) := by
  have hp : env.sentMeta t = (env.transferDir ++ '/' :: t) ++ META_EXT := by simp [Env.sentMeta]
  have hd : (env.transferDir ++ '/' :: t) ++ DATA_EXT = env.transferDir ++ '/' :: (t ++ DATA_EXT) := by simp
  rw [hp, endeaden_meta]
  split
  · unfold endeadenPair
    rw [← hp, hd]
    exact reading_rename ht (.inl rfl) fun _ => reading_rename ht (.inr rfl) fun _ => trivial
  · trivial

/-- Reading a file that was complete when it was opened gives its contents, unless it is removed meanwhile. -/
theorem reading_readAll {t : Str} {m : Ino} {c : Bytes} :
    Follows (Reading env w₀ reqs) i (readAll env .readMeta (.file m)) (s, .opened t m c) (fun g o => match o with
      | .ret text => (g = (s, .opened t m c) ∧ text = c) ∨ g = (s, .gone t)
      | _ => True) := by
  refine Follows.loop (J := fun text g => (g = (s, .opened t m c) ∧ text <+: c) ∨ g = (s, .gone t)) ?_ _ _ _
    (.inl ⟨rfl, List.nil_prefix⟩)
  rintro text g (⟨rfl, hpre⟩ | rfl)
  · refine reading_still rfl fun w S ch r w' _ _ hread he herr => ?_
    have hr : r = (((w.fs.inode m).data.drop text.length).take 8191, false) := by
      have := (Prod.mk.inj (Option.some.inj he)).1
      rw [herr] at this
      exact this.symm
    subst hr
    rcases hread with hgone | hw
    · refine ⟨.gone t, hgone, ?_⟩
      dsimp only
      rw [if_neg (by simp)]
      split
      · exact .inr rfl
      · exact .inr rfl
    · refine ⟨.opened t m c, .inr hw, ?_⟩
      dsimp only
      rw [if_neg (by simp), hw.text]
      obtain ⟨rest, rfl⟩ := hpre
      rw [List.drop_left]
      split
      · rename_i hlt
        refine .inl ⟨rfl, ?_⟩
        rw [List.length_take] at hlt
        rw [List.take_of_length_le (by omega)]
      · exact .inl ⟨rfl, by rw [List.prefix_append_right_inj]; exact List.take_prefix _ _⟩
  · refine reading_skip rfl fun r => ?_
    obtain ⟨b, bad⟩ := r
    dsimp only
    split
    · trivial
    · split
      · exact .inr rfl
      · exact .inr rfl

/-- A reader of metadata keeps the protocol. -/
theorem reading_readTransferMeta {t : Str} (ht : '/' ∉ t) (hreq : reqs i = .metainfo t) :
    Follows (Reading env w₀ reqs) i (readTransferMeta env (env.sentMeta t)) (s, .idle) (fun _ _ => True) := by
  have hquarantine : ∀ e, Follows (Reading env w₀ reqs) i ((endeaden env (env.sentMeta t)).bind fun _ =>
      (.throw e : Prog TransferMeta)) (s, .gone t) (fun _ _ => True) := fun e =>
    Follows.bind ((reading_endeaden ht).mono fun g o _ => by cases o <;> trivial)
  refine follows_call.2 fun tr w G ch r w' hI hg he hok => ?_
  have hs : (G i).1 = s := by rw [hg]
  have hlook : ∀ {g : ReadStage}, ReadOk env.codec (env.transfers w₀.fs.cwd) w (Prod.fst ∘ G) g →
      Readers env w₀ (tr ++ [(i, ⟨⟨.readMeta, .openRead (env.sentMeta t)⟩, ch, r⟩)]) w'
        (Function.update G i (s, g)) := by
    intro g hg'
    have he' : (Op.openRead (env.sentMeta t)).exec ch w = some (r, w') := he
    obtain ⟨hfs, hu⟩ := exec_still rfl he'
    rw [← hs]
    refine hI.look hfs hu rfl (fun p hl => ?_) hg'
    unfold Ev.lists at hl
    split at hl <;> cases hl
  have hopen : r = w.fs.pathOpen (env.sentMeta t) := by
    have := (Prod.mk.inj (Option.some.inj he)).1
    rw [Choice.inject, hok.1.faultless] at this
    exact this.symm
  have hread := hok.2 t _ hreq rfl
  rw [hI.sending.wd, Readable] at hread
  rw [FS.pathOpen, resolve_sentMeta hI.sending.wd hI.sending.dir ht] at hopen
  dsimp only at hopen
  cases hm : w.fs.node (metaAt (env.transfers w₀.fs.cwd).dir t) with
  | none =>
    rw [hm] at hread hopen
    have hgone : Gone (env.transfers w₀.fs.cwd) w (Prod.fst ∘ G) t :=
      (hI.known t ht (hok.1.listed t hreq)).gone hI.sending.owns hI.complete hI.sending.apart hm hread
    subst hopen
    exact ⟨(s, .gone t), hlook hgone, hquarantine _⟩
  | some n =>
    rw [hm] at hread hopen
    cases n with
    | dir v b =>
      subst hopen
      refine ⟨(s, .idle), hlook trivial, Follows.bind ?_⟩
      -- a directory cannot be read
      refine Follows.loop (J := fun _ g => g = (s, .idle)) ?_ _ _ _ rfl
      rintro text g rfl
      refine reading_still rfl fun w S ch r w' _ _ _ he _ => ⟨.idle, trivial, ?_⟩
      have hr : r = ([], true) := (Prod.mk.inj (Option.some.inj he)).1.symm
      subst hr
      trivial
    | file m =>
      simp only [hread.1, if_true] at hopen
      subst hopen
      refine ⟨(s, .opened t m (w.fs.inode m).data), hlook (.inr ⟨hm, rfl, hread.2⟩), Follows.bind ?_⟩
      refine reading_readAll.mono fun g o ho => ?_
      cases o with
      | throw e => trivial
      | stop x => trivial
      | ret text =>
        rcases ho with ⟨rfl, rfl⟩ | rfl
        · dsimp only
          split
          · trivial
          · rename_i hp
            exact absurd hp hread.2
        · dsimp only
          split
          · trivial
          · exact hquarantine _

/-- A cached reader keeps it too. -/
theorem reading_cacheGet {c : CacheId} {key : Str} {fn : Prog c.Val}
    (hfn : Follows (Reading env w₀ reqs) i fn (s, .idle) (fun _ _ => True)) :
    Follows (Reading env w₀ reqs) i (cacheGet c key fn) (s, .idle) (fun _ _ => True) := by
  refine reading_skip rfl fun enabled => ?_
  split
  · exact hfn
  · refine reading_skip rfl fun _ => Follows.ensure (Follows.mono (Q := fun _ _ => True) ?_ ?_)
    · intro g o _
      obtain ⟨s, g⟩ := g
      refine Follows.mono (Q := fun _ _ => True) (fun g' o' _ => ?_)
        (reading_skip (k := fun _ => .ret ()) rfl fun _ => trivial)
      cases o' <;> trivial
    · refine reading_skip rfl fun r => ?_
      cases r with
      | inl v => trivial
      | inr now =>
        refine Follows.bind (hfn.mono fun g o _ => ?_)
        obtain ⟨s, g⟩ := g
        cases o with
        | throw e => trivial
        | stop x => trivial
        | ret v =>
          refine reading_skip rfl fun r => ?_
          cases r <;> trivial

/-- The requests of the interleavings. -/
def SendInfoMeta (env : Env) (cwd : Loc) : Request → Prop
  | .send req => Outside env cwd req.filepath
  | .info _ => True
  | .metainfo t => '/' ∉ t
  | _ => False

/-- How they end. -/
def SendReplied (g : SendStage × ReadStage) : Outcome Exn Reply → Prop
  | .ret (.send (.Ok id)) => ∃ d, d.id = id ∧ g.1 = .sent d
  | _ => True

theorem reading_follows (hJ : env.codec.Solid) (hreq : SendInfoMeta env w₀.fs.cwd (reqs i)) :
    Follows (Reading env w₀ reqs) i (serve env (reqs i)) (.idle, .idle) SendReplied := by
  cases hr : reqs i with
  | query topic => rw [hr] at hreq; exact hreq.elim
  | retrieve req => rw [hr] at hreq; exact hreq.elim
  | send req =>
    rw [hr] at hreq
    refine Follows.bind (((reading_rules hJ).sendFile hreq).mono fun g o ho => ?_)
    match o, ho with
    | .ret (.Ok id), ⟨d, hd, hg⟩ =>
      rcases hg with hg | ⟨hc, -⟩
      · exact ⟨d, hd, by rw [hg]⟩
      · exact absurd trivial hc
    | .ret (.Bad_Request m), _ => trivial
    | .throw e, _ => trivial
    | .stop x, _ => trivial
  | info req =>
    refine Follows.bind ((Follows.quiet (C := Still) ?_ (collectorInfo_calls req)).mono fun g o _ => ?_)
    · intro tr w G c ch r w' hc hI he _
      obtain ⟨hfs, hu⟩ := exec_still hc he
      have := hI.look (i := i) (e := ⟨⟨c.site, c.op⟩, ch, r⟩) hfs hu (quarantines_still hc)
        (fun p hl => lists_file he hl)
        (hI.reads i)
      rwa [Prod.mk.eta, Function.update_eq_self] at this
    · cases o <;> trivial
  | metainfo t =>
    rw [hr] at hreq
    refine Follows.bind (Follows.mono (Q := fun _ _ => True) (fun g o _ => ?_)
      (Follows.handle (Follows.bind ((reading_cacheGet (reading_readTransferMeta hreq hr)).mono fun g o _ => ?_))))
    · cases o <;> trivial
    · cases o with
      | ret tm => trivial
      | stop x => trivial
      | throw e =>
        dsimp only
        split <;> trivial

/-- **Readers spare sends**: in every interleaving of `send_file`, `collector_info` and `meta` requests without an
injected fault in which no `meta` request opens incomplete metadata, nothing is quarantined, and the pair of every
`send_file` that returned `Ok` is in `transfers`. -/
theorem meta_spares_send {tr : History Calls Choice ι} {P' : Pool Calls World Exn Reply ι} (hJ : env.codec.Solid)
    (hdir : (env.transfers w₀.fs.cwd).There w₀.fs) (hreqs : ∀ i, SendInfoMeta env w₀.fs.cwd (reqs i))
    (hx : Exec Machine (fun tr w e => ListedStep env w₀ reqs tr e ∧ OpensReadable env reqs w e)
      ⟨w₀, fun i => serve env (reqs i)⟩ tr P') :
    (∀ i id, P'.procs i = .ret (.send (.Ok id)) → P'.state.fs.node (metaAt (norm w₀.fs.cwd env.transferDir) id) ≠ none ∧
      P'.state.fs.node (dataAt (norm w₀.fs.cwd env.transferDir) id) ≠ none) ∧
    ∀ e ∈ tr, Ev.quarantines e.2 = false := by
  have hinit : Readers env w₀ ([] : History Calls Choice ι) w₀ fun _ => (.idle, .idle) := by
    refine ⟨Sending.init hdir, fun _ => ⟨fun _ h => (by cases h), fun _ h => (by cases h), by simp⟩,
      fun _ _ h => (by cases h), fun t _ hl => ?_, fun _ => trivial, by simp⟩
    rcases hl with hl | ⟨x, hx, -⟩
    · exact .inr ⟨fun _ h => (by cases h), hl⟩
    · cases hx
  obtain ⟨G, hI, hF⟩ := Exec.follows (R := Reading env w₀ reqs) hx hinit fun i => reading_follows hJ (hreqs i)
  refine ⟨fun i id hi => ?_, hI.calm⟩
  have hend := hF i
  rw [hi] at hend
  obtain ⟨d, rfl, hg⟩ := hend
  refine ⟨?_, hI.data i d hg⟩
  have := (hI.complete i).here d (by rw [hg]; rfl)
  exact fun hnone => absurd (this.symm.trans hnone) (by simp)

end Protocol

namespace Sample

/-- The requests of a collector that reads what it has seen listed, beside a request that sends. -/
inductive Client
  | sender
  | lister
  | reader
  deriving DecidableEq

/-- The reader asks for the id `t`. -/
def clientRequest (t : Str) : Client → Request
  | .sender => .send sendRequest
  | .lister => .info { topics := none }
  | .reader => .metainfo t

/-- A codec for runs in which only these two texts are written or read. -/
def solidCodec : Codec where
  dump x := if x = tm then metaText else sentText
  parse b := if b = metaText then some tm else if b = sentText then some sentMeta else none

theorem solidCodec_solid : solidCodec.Solid := by
  have hne : ¬ metaText <+: sentText ∧ ¬ sentText <+: metaText := by
    rw [metaText_eq, sentText_eq]
    decide
  intro x b _ hb hp
  by_contra hd
  simp only [solidCodec] at hb hp hd
  split at hb <;> rename_i hx
  · rw [if_pos hx] at hd
    rw [if_neg hd] at hp
    split at hp
    · rename_i e
      exact hne.2 (e ▸ hb)
    · exact hp rfl
  · rw [if_neg hx] at hd
    rw [if_neg hd] at hp
    split at hp
    · rename_i e
      exact hne.1 (e ▸ hb)
    · exact hp rfl

/-- The filesystem with the pair of the id `f` in `transfers`. -/
def listedFs : FS :=
  (fs.putFile "f.data.oort".toList ["transfers".toList, "w".toList] ⟨[104, 105], true, 0, 0⟩).putFile
    "f.meta.oort".toList ["transfers".toList, "w".toList] ⟨metaText, true, 0, 0⟩

/-- The world with that pair. -/
def listedWorld : World := { world with fs := listedFs }

/-- A test for steps without an injected fault, with metadata of `f` that can be read. -/
def readTest (w : World) (e : Ev) : Bool := decide (e.choice.err = none) &&
  match w.fs.node (metaAt ["transfers".toList, "w".toList] "f".toList) with
  | some (.file m) => (w.fs.inode m).readable && (solidCodec.parse (w.fs.inode m).data).isSome
  | _ => false

end Sample

/-- A file is sent while the metadata of another is read. -/
theorem meta_spares_send_sample : ∃ tr P',
    Exec Machine (fun tr w e =>
      ListedStep (Sample.env Sample.solidCodec) Sample.listedWorld (Sample.clientRequest "f".toList) tr e ∧
        OpensReadable (Sample.env Sample.solidCodec) (Sample.clientRequest "f".toList) w e)
      ⟨Sample.listedWorld, fun i => serve (Sample.env Sample.solidCodec) (Sample.clientRequest "f".toList i)⟩ tr P' ∧
    P'.procs .sender = .ret (.send (.Ok Sample.sentId)) ∧ P'.procs .reader = .ret (.metainfo (.Ok Sample.tm)) ∧
    P'.state.fs.node (metaAt ["transfers".toList, "w".toList] Sample.sentId) ≠ none ∧ ∀ e ∈ tr,
      Ev.quarantines e.2 = false := by
  have h : (Pool.exec? Machine (fun w e => decide (w.fs.cwd = []) && Sample.readTest w e.2)
        ⟨Sample.listedWorld, fun i => serve (Sample.env Sample.solidCodec) (Sample.clientRequest "f".toList i)⟩
        ([(.sender, { rand := List.replicate 16 0 })] ++ List.replicate 9 (.sender, Sample.calm) ++
          List.replicate 3 (.reader, Sample.calm) ++ List.replicate 6 (.sender, Sample.calm))).map (fun x =>
        ((x.2.procs Sample.Client.sender).outcome?, (x.2.procs .reader).outcome?)) =
      some (some (.ret (.send (.Ok Sample.sentId))), some (.ret (.metainfo (.Ok Sample.tm)))) := by
    rw [Sample.listedWorld, Sample.solidCodec, Sample.metaText_eq, Sample.sentText_eq]
    decide +kernel
  obtain ⟨⟨tr, P'⟩, hx, he⟩ := Option.map_eq_some_iff.1 h
  simp only [Prod.mk.injEq] at he
  have hT : norm [] (Sample.env Sample.solidCodec).transferDir = ["transfers".toList, "w".toList] := by decide +kernel
  have hrun : Exec Machine (fun _ w e => w.fs.cwd = [] ∧ Sample.readTest w e.2 = true)
      ⟨Sample.listedWorld, fun i => serve (Sample.env Sample.solidCodec) (Sample.clientRequest "f".toList i)⟩ tr P' :=
    Pool.exec?_sound (fun _ _ hc => by simpa using hc) hx
  have hrun' : Exec Machine (fun tr w e =>
      ListedStep (Sample.env Sample.solidCodec) Sample.listedWorld (Sample.clientRequest "f".toList) tr e ∧
        OpensReadable (Sample.env Sample.solidCodec) (Sample.clientRequest "f".toList) w e)
      ⟨Sample.listedWorld, fun i => serve (Sample.env Sample.solidCodec) (Sample.clientRequest "f".toList i)⟩
      tr P' := by
    refine hrun.mono fun tr w e hok => ?_
    obtain ⟨hcwd, hok⟩ := hok
    simp only [Sample.readTest, Bool.and_eq_true, decide_eq_true_eq] at hok
    refine ⟨⟨hok.1, fun t ht => .inl (.inr ⟨META_EXT, .inl rfl, ?_⟩)⟩, fun t p ht _ => ?_⟩
    · obtain ⟨c, e⟩ := e
      cases c <;> cases ht
      decide +kernel
    · obtain ⟨c, e⟩ := e
      cases c <;> cases ht
      rw [hcwd]
      have hmeta := hok.2
      show Readable Sample.solidCodec (norm [] (Sample.env Sample.solidCodec).transferDir) w.fs _
      rw [hT, Readable]
      split at hmeta
      · rename_i m hm
        rw [hm]
        simp only [Bool.and_eq_true, Option.isSome_iff_ne_none] at hmeta
        exact hmeta
      · cases hmeta
  refine ⟨tr, P', hrun', Proc.outcome?_ret.1 he.1, Proc.outcome?_ret.1 he.2, ?_⟩
  have hall := meta_spares_send Sample.solidCodec_solid (by decide +kernel) (fun i => ?_) hrun'
  · refine ⟨?_, hall.2⟩
    have := (hall.1 .sender _ (Proc.outcome?_ret.1 he.1)).1
    rwa [show Sample.listedWorld.fs.cwd = [] from rfl, hT] at this
  · cases i with
    | sender =>
      show ¬ _ <:+ _
      decide +kernel
    | lister => trivial
    | reader =>
      show '/' ∉ _
      decide

namespace Sample

/-- The three on one world. -/
def clients : Pool Calls World Exn Reply Client := ⟨world, fun i => serve (env solidCodec) (clientRequest sentId i)⟩

/-- The metadata of the sender is made, and listed. -/
def listing : List (Client × Choice) :=
  [(Client.sender, { rand := List.replicate 16 0 })] ++ List.replicate 7 (Client.sender, calm) ++
    List.replicate 3 (Client.lister, calm) ++
    [(Client.lister, { order := [".".toList, "..".toList, sentId ++ META_EXT] }), (Client.lister, calm),
      (Client.lister, calm),
      (Client.lister, { order := [".".toList, "..".toList] })]

/-- The reader opens the metadata, and the sender goes on. -/
def reading : List (Client × Choice) := List.replicate 5 (Client.reader, calm) ++ List.replicate 8 (Client.sender, calm)

/-- The files of a response to `collector_info`. -/
def listedFiles : Option (Outcome Exn Reply) → List Name
  | some (.ret (.info (.Ok resp))) => resp.files
  | _ => []

end Sample

/-- The metadata of a request that sends is listed while it is still empty. A reader then opens it, cannot parse it and
quarantines it; the request goes on and returns `Ok`. -/
theorem meta_breaks_send : ∃ tr₁ P₁ tr₂ P₂, Exec Machine (fun _ w e => Clean w e.2) Sample.clients tr₁ P₁ ∧
    (∀ x ∈ tr₁, x.1 ≠ .reader) ∧ Sample.sentId ++ META_EXT ∈ Sample.listedFiles (P₁.procs .lister).outcome? ∧
    Exec Machine (fun _ w e => Clean w e.2) P₁ tr₂ P₂ ∧ P₂.procs .sender = .ret (.send (.Ok Sample.sentId)) ∧
    P₂.state.fs.node (metaAt ["transfers".toList, "w".toList] Sample.sentId) = none ∧
    ∃ e ∈ tr₂, Ev.quarantines e.2 = true := by
  have h : ((Pool.exec? Machine (fun _ e => Sample.cleanTest e.2) Sample.clients Sample.listing).bind fun x =>
      (Pool.exec? Machine (fun _ e => Sample.cleanTest e.2) x.2 Sample.reading).map fun y =>
        ((y.2.procs .sender).outcome?, (x.1.all fun e => decide (e.1 ≠ .reader)) &&
          decide (Sample.sentId ++ META_EXT ∈ Sample.listedFiles (x.2.procs .lister).outcome?) &&
          (y.2.state.fs.node (metaAt ["transfers".toList, "w".toList] Sample.sentId)).isNone &&
          y.1.any fun e => Ev.quarantines e.2)) =
      some (some (.ret (.send (.Ok Sample.sentId))), true) := by decide +kernel
  obtain ⟨⟨tr₁, P₁⟩, hx, h⟩ := Option.bind_eq_some_iff.1 h
  obtain ⟨⟨tr₂, P₂⟩, hy, h⟩ := Option.map_eq_some_iff.1 h
  simp only [Prod.mk.injEq, Bool.and_eq_true, List.all_eq_true, List.any_eq_true, decide_eq_true_eq,
    Option.isNone_iff_eq_none] at h
  obtain ⟨hsender, ⟨⟨hreader, hlisted⟩, hnone⟩, e, he, hq⟩ := h
  exact ⟨tr₁, P₁, tr₂, P₂, Pool.exec?_sound (fun _ _ hc => Sample.cleanTest_sound hc) hx, hreader, hlisted,
    Pool.exec?_sound (fun _ _ hc => Sample.cleanTest_sound hc) hy, Proc.outcome?_ret.1 hsender, hnone, e, he, hq⟩

end OortAgent
