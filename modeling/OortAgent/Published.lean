import OortAgent.SendRule

/-!
# Data is published after its metadata

A data file in `transfers` is covered if there is metadata beside it that can be read (`Covered`). The requests that
send files keep this at each of their steps, in any interleaving (`send_covered`): the metadata of a request is
complete when it is closed, its data is moved only then, and the metadata is removed only while there is no data.
-/

namespace OortAgent

open Lib

/-- The data file of `t` has complete metadata beside it, if it is there. -/
def CoveredAt (codec : Codec) (T : Loc) (fs : FS) (t : Str) : Prop :=
  fs.node (dataAt T t) ≠ none → ∃ i, fs.node (metaAt T t) = some (.file i) ∧ codec.parse (fs.inode i).data ≠ none

/-- Every data file of `T` has complete metadata beside it. -/
def Covered (codec : Codec) (T : Loc) (fs : FS) : Prop := ∀ t, CoveredAt codec T fs t

/-! ## Calls that leave files and ids alone -/

/-- The operation changes neither the filesystem nor the ids. -/
def Op.still : Op → Bool
  | .urandom => false
  | op => op.quiet

/-- A call of such an operation. -/
def Still (c : Call) : Prop := c.op.still = true

theorem exec_still {op : Op} {ch : Choice} {w w' : World} {r : op.Res} (hq : op.still = true)
    (h : op.exec ch w = some (r, w')) : w'.fs = w.fs ∧ w'.uuids = w.uuids := by
  refine ⟨exec_quiet (by cases op <;> first | exact hq | rfl) h, ?_⟩
  cases op
  case urandom => cases hq
  case openWrite => cases hq
  case write => cases hq
  case rename => cases hq
  case unlink => cases hq
  case rmdir => cases hq
  case mkdtemp => cases hq
  case mkstemp => cases hq
  case read h' off n => rw [exec_looks h rfl]
  case fill h' off n => rw [exec_looks h rfl]
  case readdir p => rw [exec_looks h rfl]
  case cacheLock c =>
    simp only [Op.exec] at h
    split at h
    · cases h
    · cases h
      rfl
  all_goals
    cases h
    rfl

theorem still_of_looks {op : Op} (h : op.looks = true) : op.still = true := by
  cases op <;> first | rfl | cases h

theorem listFiles_calls {s : Site} (dir ext : Str) : (listFiles s dir ext).Calls (Looks s) := by
  refine calls_call.2 ⟨⟨rfl, rfl⟩, fun r => ?_⟩
  cases r <;> trivial

theorem statNames_calls {env : Env} {s : Site} (dir : Str) (files : List Name) :
    (statNames env s dir files).Calls (Looks s) := by
  induction files with
  | nil => trivial
  | cons f files ih =>
    refine Proc.Calls.bind (Proc.Calls.handle ((fileStat_calls _).bind fun _ => trivial) fun e => ?_) fun here =>
      ih.bind fun _ => trivial
    split <;> trivial

theorem fileNames_calls {env : Env} {s : Site} (dir : Str) : (fileNames env s dir).Calls (Looks s) :=
  (listFiles_calls dir []).bind fun files => statNames_calls dir files

/-- `cacheGet` with a function that only looks. -/
theorem cacheGet_still {s : Site} {c : CacheId} {key : Str} {fn : Prog c.Val} (hfn : fn.Calls (Looks s)) :
    (cacheGet c key fn).Calls Still := by
  have hf := hfn.mono (D := Still) fun c hc => still_of_looks hc.2
  refine calls_call.2 ⟨rfl, fun enabled => ?_⟩
  split
  · exact hf
  · refine calls_call.2 ⟨rfl, fun _ => Proc.Calls.ensure (calls_call.2 ⟨rfl, fun r => ?_⟩) ⟨rfl, fun _ => trivial⟩⟩
    cases r with
    | inl v => trivial
    | inr now =>
      refine hf.bind fun v => calls_call.2 ⟨rfl, fun r => ?_⟩
      cases r <;> trivial

/-- `collector_info` changes no file. -/
theorem collectorInfo_calls {env : Env} (req : InfoRequest) : (collectorInfo env req).Calls Still := by
  refine Proc.Calls.bind ?_ fun _ => Proc.Calls.bind (calls_call.2 ⟨rfl, fun _ => trivial⟩) fun _ =>
    calls_call.2 ⟨rfl, fun _ =>
    (cacheGet_still (fileNames_calls _)).bind fun _ => (cacheGet_still (fileNames_calls _)).bind fun _ => trivial⟩
  cases req.topics with
  | none => trivial
  | some ts => exact calls_call.2 ⟨rfl, fun _ => trivial⟩

/-! ## The protocol -/

/-- The metadata of a request is in its place, and complete once it is closed. -/
structure Complete (codec : Codec) (A : Area) (w : World) (s : SendStage) : Prop where
  here : ∀ d, s.draft? = some d → w.fs.node (metaAt A.dir d.id) = some (.file d.fd)
  text : ∀ d, s.draft? = some d → d.done <+: d.text ∧ ∃ tm : TransferMeta, tm.texts.all utf8 = true ∧
    d.text = codec.dump tm
  closed : ∀ d, s = .sent d ∨ (∃ cp, s = .ready d cp) → d.done = d.text

section Complete

variable {codec : Codec} {A : Area} {clean : Prop} {w w' : World} {e : Ev} {s s' : SendStage}

theorem Complete.frame {x : Option Str} {c : Option Name} (h : Complete codec A w s) (hf : Frame A x c w.fs w'.fs)
    (hx : ∀ id, s.id? = some id → x ≠ some id) : Complete codec A w' s where
  here d hd := by rw [hf.meta (hx d.id (SendStage.id_of_draft hd)), h.here d hd]
  text := h.text
  closed := h.closed

/-- A step of the request keeps this, if nothing is made to fail. -/
theorem Complete.effect (h : Complete codec A w s) (hc : clean) (he : SendEffect A codec clean w e w' s s') :
    Complete codec A w' s' := by
  cases he with
  | keep hf _ _ => exact h.frame hf (by simp)
  | name _ _ _ _ _ => exact ⟨fun _ hd => (by cases hd), fun _ hd => (by cases hd), by simp⟩
  | @create id tm ht hf _ _ hn _ _ _ =>
    refine ⟨fun d hd => ?_, fun d hd => ?_, by simp⟩
    · cases hd
      exact hn
    · cases hd
      exact ⟨List.nil_prefix, tm, ht, rfl⟩
  | drop _ _ hnamed _ _ _ _ _ =>
    rw [hnamed hc]
    exact ⟨fun _ hd => (by cases hd), fun _ hd => (by cases hd), by simp⟩
  | @write d b hf _ hpart _ _ =>
    refine ⟨fun d' hd => ?_, fun d' hd => ?_, by simp⟩
    · cases hd
      rw [hf]
      exact h.here d rfl
    · cases hd
      exact ⟨hpart hc, (h.text d rfl).2⟩
  | @close d hf _ hdone _ =>
    refine ⟨fun d' hd => ?_, fun d' hd => ?_, fun d' hd => ?_⟩
    · cases hd
      rw [hf]
      exact h.here d rfl
    · cases hd
      exact h.text d rfl
    · rcases hd with hd | ⟨cp, hd⟩
      · cases hd
      · cases hd
        exact hdone hc
  | @copy d n j hf _ _ _ _ _ _ _ =>
    refine ⟨fun d' hd => ?_, fun d' hd => ?_, fun d' hd => ?_⟩
    · cases hd
      rw [hf.meta (by simp), h.here d rfl]
    · cases hd
      exact h.text d rfl
    · rcases hd with hd | ⟨cp, hd⟩
      · cases hd
      · cases hd
        exact h.closed d (.inr ⟨none, rfl⟩)
  | @send d cp hf _ hn _ _ _ =>
    refine ⟨fun d' hd => ?_, fun d' hd => ?_, fun d' hd => ?_⟩
    · cases hd
      rw [hn, h.here d rfl]
    · cases hd
      exact h.text d rfl
    · rcases hd with hd | ⟨cp', hd⟩
      · cases hd
        exact h.closed d (.inr ⟨cp, rfl⟩)
      · cases hd
  | fail _ _ _ _ _ => exact ⟨fun _ hd => (by cases hd), fun _ hd => (by cases hd), by simp⟩

/-- The data of a request is covered. -/
theorem Complete.covered (h : Complete codec A w s) (hown : Owns A w s)
    (hcodec : ∀ tm, tm.texts.all utf8 = true → codec.parse (codec.dump tm) ≠ none) {id : Str}
    (hid : s.id? = some id) : CoveredAt codec A.dir w.fs id := by
  intro hdata
  cases hs : s.isSent with
  | false => exact absurd (hown.unsent id hid hs) hdata
  | true =>
    match s, hs with
    | .sent d, _ =>
      cases hid
      obtain ⟨-, tm, ht, htm⟩ := h.text d rfl
      obtain ⟨-, -, htext⟩ := hown.draft d rfl
      have hm := h.here d rfl
      refine ⟨d.fd, hm, ?_⟩
      rw [(htext d.fd hm).2.1, h.closed d (.inl rfl), htm]
      exact hcodec tm ht

end Complete

section Protocol

variable {ι : Type} {env : Env} {cwd : Loc}

/-- The requests are in order, their metadata is complete, and the data of all other ids is covered. -/
structure Publishing (env : Env) (cwd : Loc) (w : World) (S : ι → SendStage) : Prop where
  sending : Sending cwd (env.transfers cwd) w S
  complete : ∀ i, Complete env.codec (env.transfers cwd) w (S i)
  rest : ∀ t, (∀ i, (S i).id? ≠ some t) → CoveredAt env.codec (env.transfers cwd).dir w.fs t

/-- What is left alone stays covered. -/
theorem CoveredAt.frame {codec : Codec} {A : Area} {x : Option Str} {c : Option Name} {fs fs' : FS} {t : Str}
    (h : CoveredAt codec A.dir fs t) (hf : Frame A x c fs fs') (hx : x ≠ some t) : CoveredAt codec A.dir fs' t := by
  intro hdata
  rw [hf.data hx] at hdata
  obtain ⟨i, hi, hp⟩ := h hdata
  refine ⟨i, by rw [hf.meta hx, hi], ?_⟩
  rw [hf.inode t i hx hi]
  exact hp

/-- A step that changes neither files nor ids. -/
theorem Publishing.still {w w' : World} {S : ι → SendStage} (h : Publishing env cwd w S) (hfs : w'.fs = w.fs)
    (hu : w'.uuids = w.uuids) : Publishing env cwd w' S := by
  have hf : Frame (env.transfers cwd) none none w.fs w'.fs := hfs ▸ Frame.refl
  exact ⟨h.sending.harmless (hf.harmless (by simp [hu]) (by simp)), fun i => (h.complete i).frame hf (by simp),
    fun t ht => (h.rest t ht).frame hf (by simp)⟩

/-- A step of a request. -/
theorem Publishing.effect [DecidableEq ι] {w w' : World} {S : ι → SendStage} {i : ι} {e : Ev} {s' : SendStage}
    (h : Publishing env cwd w S) (he : SendEffect (env.transfers cwd) env.codec True w e w' (S i) s') :
    Publishing env cwd w' (Function.update S i s') := by
  obtain ⟨x, c, hx, -, hf, -⟩ := he.frame (h.sending.owns i)
  refine ⟨h.sending.effect he, fun j => ?_, fun t ht => ?_⟩
  · by_cases hj : j = i
    · subst hj
      rw [Function.update_self]
      exact (h.complete j).effect trivial he
    · rw [Function.update_of_ne hj]
      exact (h.complete j).frame hf fun id hid hxid => hj (h.sending.apart j i id hid (hx id hxid))
  · have hold : ∀ j, (S j).id? ≠ some t := by
      intro j hjt
      by_cases hj : j = i
      · subst hj
        exact ht j (by rw [Function.update_self]; exact he.id_mono hjt)
      · exact ht j (by rw [Function.update_of_ne hj]; exact hjt)
    exact (h.rest t hold).frame hf fun hxt => hold i (hx t hxt)

/-- Everything is covered. -/
theorem Publishing.covered {w : World} {S : ι → SendStage} (h : Publishing env cwd w S)
    (hcodec : ∀ tm, tm.texts.all utf8 = true → env.codec.parse (env.codec.dump tm) ≠ none) :
    Covered env.codec (env.transfers cwd).dir w.fs := by
  intro t
  by_cases ht : ∃ i, (S i).id? = some t
  · obtain ⟨i, hi⟩ := ht
    exact (h.complete i).covered (h.sending.owns i) hcodec hi
  · exact h.rest t fun i hi => ht ⟨i, hi⟩

/-- The protocol of requests that send files. -/
abbrev Publication (ι : Type) [DecidableEq ι] (env : Env) (cwd : Loc) : Proto Calls World Choice ι SendStage where
  sem := Machine
  ok _ _ e := e.2.choice.err = none
  inv _ w S := Publishing env cwd w S

theorem publication_rules [DecidableEq ι] {i : ι} : SendRules (Publication ι env cwd) i env cwd True id id where
  sem := rfl
  get_put _ := rfl
  base _ _ _ h := h.sending
  faultless _ _ _ _ h := h
  step tr w G e w' s s' hI hg _ _ heff _ := by
    subst hg
    exact hI.effect heff

/-- Initially nobody has an id, and what is there is covered. -/
theorem publishing_init {w : World} (hdir : (env.transfers w.fs.cwd).There w.fs)
    (h : Covered env.codec (env.transfers w.fs.cwd).dir w.fs) : Publishing env w.fs.cwd w (fun _ : ι => .idle) where
  sending := Sending.init hdir
  complete _ := ⟨fun _ h => (by cases h), fun _ h => (by cases h), by simp⟩
  rest t _ := h t

/-- A request of the interleavings: a `send_file` with a source outside of the working directory, or a
`collector_info`. -/
def SendOrInfo (env : Env) (cwd : Loc) : Request → Prop
  | .send req => Outside env cwd req.filepath
  | .info _ => True
  | _ => False

theorem publication_follows [DecidableEq ι] {i : ι} {req : Request} (hreq : SendOrInfo env cwd req) :
    Follows (Publication ι env cwd) i (serve env req) .idle (fun _ _ => True) := by
  match req, hreq with
  | .send req, hout =>
    refine Follows.bind ((publication_rules.sendFile hout).mono fun g o _ => ?_)
    cases o <;> trivial
  | .info req, _ =>
    refine Follows.bind ((Follows.quiet (C := Still) ?_ (collectorInfo_calls req)).mono fun g o _ => ?_)
    · intro tr w G c ch r w' hc hI he _
      obtain ⟨hfs, hu⟩ := exec_still hc he
      exact hI.still hfs hu
    · cases o <;> trivial

/-- **Data is published only after its metadata**: in every state that any interleaving of `send_file` and
`collector_info` requests reaches without an injected fault, every data file in `transfers` has complete metadata beside
it, if that was so at the start. -/
theorem send_covered [DecidableEq ι] {reqs : ι → Request} {w : World} {tr : History Calls Choice ι}
    {P' : Pool Calls World Exn Reply ι}
    (hcodec : env.codec.Inverse) (hdir : (env.transfers w.fs.cwd).There w.fs)
    (hreqs : ∀ i, SendOrInfo env w.fs.cwd (reqs i)) (h : Covered env.codec (norm w.fs.cwd env.transferDir) w.fs)
    (hx : Exec Machine (fun _ _ e => e.2.choice.err = none) ⟨w, fun i => serve env (reqs i)⟩ tr P') :
    Covered env.codec (norm w.fs.cwd env.transferDir) P'.state.fs := by
  obtain ⟨G, hI, -⟩ := Exec.follows (R := Publication ι env w.fs.cwd) hx (publishing_init hdir h)
    fun i => publication_follows (hreqs i)
  exact hI.covered fun tm ht => by simp [hcodec tm ht]

end Protocol

namespace Sample

/-- A test for clean steps. -/
def cleanTest (e : Ev) : Bool := decide (e.choice.err = none) && match e.call.op with
  | .write _ b => decide (b.length ≤ e.choice.len)
  | .statvfs _ => decide (0 < e.choice.vfs.f_bsize) && decide (e.choice.vfs.f_bsize < 2147483648)
  | _ => true

theorem cleanTest_sound {w : World} {e : Ev} (h : cleanTest e = true) : Clean w e := by
  obtain ⟨⟨s, op⟩, ch, r⟩ := e
  simp only [cleanTest, Bool.and_eq_true, decide_eq_true_eq] at h
  refine ⟨h.1, ?_⟩
  cases op
  case write i b => simpa using h.2
  case statvfs p =>
    intro l _ _
    simpa using h.2
  all_goals trivial

/-- The id of a request that reads zeros from `/dev/urandom`. -/
def sentId : Str := uuidText (List.replicate 16 0)

/-- The request to send `/a/x`. -/
def sendRequest : SendFileRequest := ⟨[], "/a/x".toList, "t".toList, {}⟩

/-- The metadata that it writes at time 0. -/
def sentMeta : TransferMeta := transferMeta (env noCodec) sendRequest { info with id := sentId } 0

/-- Its text. -/
def sentText : Bytes :=
  ("\x7b\"destination\":\"\",\"file_info\":\x7b\"crc32\":\"d8932aac\",\"created\":0," ++
    "\"id\":\"00000000-0000-4000-8000-000000000000\",\"modified\":0," ++
    "\"path\":\"/a/x\",\"size\":2\x7d,\"meta_version\":\"\",\"node\":\"\",\"send_options\":\x7b\"TTLParams\":\x7b" ++
    "\"bulk\":43200,\"surplus\":172800,\"urgent\":9000\x7d,\"reliable\":true\x7d,\"time\":0," ++
    "\"topic\":\"t\"\x7d").toUTF8.toList

/-- Its bytes. -/
theorem sentText_eq : sentText =
    [123, 34, 100, 101, 115, 116, 105, 110, 97, 116, 105, 111, 110, 34, 58, 34, 34, 44, 34, 102, 105, 108, 101, 95,
      105, 110, 102, 111, 34, 58, 123, 34, 99, 114, 99, 51, 50, 34, 58, 34, 100, 56, 57, 51, 50, 97, 97, 99, 34, 44,
      34, 99, 114, 101, 97, 116, 101, 100, 34, 58, 48, 44, 34, 105, 100, 34, 58, 34, 48, 48, 48, 48, 48, 48, 48, 48,
      45, 48, 48, 48, 48, 45, 52, 48, 48, 48, 45, 56, 48, 48, 48, 45, 48, 48, 48, 48, 48, 48, 48, 48, 48, 48, 48,
      48, 34, 44, 34, 109, 111, 100, 105, 102, 105, 101, 100, 34, 58, 48, 44, 34, 112, 97, 116, 104, 34, 58, 34, 47,
      97, 47, 120, 34, 44, 34, 115, 105, 122, 101, 34, 58, 50, 125, 44, 34, 109, 101, 116, 97, 95, 118, 101, 114,
      115, 105, 111, 110, 34, 58, 34, 34, 44, 34, 110, 111, 100, 101, 34, 58, 34, 34, 44, 34, 115, 101, 110, 100,
      95, 111, 112, 116, 105, 111, 110, 115, 34, 58, 123, 34, 84, 84, 76, 80, 97, 114, 97, 109, 115, 34, 58, 123,
      34, 98, 117, 108, 107, 34, 58, 52, 51, 50, 48, 48, 44, 34, 115, 117, 114, 112, 108, 117, 115, 34, 58, 49, 55,
      50, 56, 48, 48, 44, 34, 117, 114, 103, 101, 110, 116, 34, 58, 57, 48, 48, 48, 125, 44, 34, 114, 101, 108, 105,
      97, 98, 108, 101, 34, 58, 116, 114, 117, 101, 125, 44, 34, 116, 105, 109, 101, 34, 58, 48, 44, 34, 116, 111,
      112, 105, 99, 34, 58, 34, 116, 34, 125] := by
  rw [sentText, toList_toUTF8]
  rw [String.toByteArray_append, String.toByteArray_append, String.toByteArray_append, String.toByteArray_append,
    ByteArray.toList_data_append, ByteArray.toList_data_append, ByteArray.toList_data_append,
    ByteArray.toList_data_append]
  decide +kernel

/-- A codec with that text. -/
def sendCodec : Codec := Codec.sample sentMeta sentText

theorem sendCodec_inverse : sendCodec.Inverse := Codec.sample_inverse (by decide +kernel)

/-- One request sends `/a/x`, another asks for the state of the agent. -/
def sendAndInfo (i : Bool) : Request := if i then .send sendRequest else .info { topics := none }

/-- Both on one world. -/
def sending : Pool Calls World Exn Reply Bool := ⟨world, fun i => serve (env sendCodec) (sendAndInfo i)⟩

end Sample

/-- A file is sent, with a `collector_info` beside it: the pair is complete in the end. -/
theorem send_covered_sample : ∃ tr P', Exec Machine (fun _ _ e => e.2.choice.err = none) Sample.sending tr P' ∧
    P'.procs true = .ret (.send (.Ok Sample.sentId)) ∧
    P'.state.fs.node (dataAt ["transfers".toList, "w".toList] Sample.sentId) = some (.file 0) ∧
    Covered Sample.sendCodec ["transfers".toList, "w".toList] P'.state.fs := by
  have h : (Pool.exec? Machine (fun _ e => decide (e.2.choice.err = none)) Sample.sending
        ([(true, { rand := List.replicate 16 0 })] ++ List.replicate 10 (true, Sample.calm) ++ [(false, Sample.calm)] ++
          List.replicate 5 (true, Sample.calm))).map (fun x => ((x.2.procs true).outcome?,
          x.2.state.fs.node (dataAt ["transfers".toList, "w".toList] Sample.sentId))) =
      some (some (.ret (.send (.Ok Sample.sentId))), some (.file 0)) := by decide +kernel
  obtain ⟨⟨tr, P'⟩, hx, he⟩ := Option.map_eq_some_iff.1 h
  simp only [Prod.mk.injEq] at he
  have hrun : Exec Machine (fun _ _ e => e.2.choice.err = none) Sample.sending tr P' :=
    Pool.exec?_sound (fun _ _ hc => of_decide_eq_true hc) hx
  refine ⟨tr, P', hrun, Proc.outcome?_ret.1 he.1, he.2, ?_⟩
  have hT : norm Sample.world.fs.cwd (Sample.env Sample.sendCodec).transferDir = ["transfers".toList, "w".toList] := by
    decide +kernel
  have hempty : ∀ l ∈ Sample.fs.names.keys, l.head? ≠ none → l.tail ≠ ["transfers".toList, "w".toList] := by
    decide +kernel
  have hcov : Covered Sample.sendCodec ["transfers".toList, "w".toList] Sample.fs := by
    intro t ht
    obtain ⟨n, hn⟩ := Option.ne_none_iff_exists'.1 ht
    have hk : dataAt ["transfers".toList, "w".toList] t ∈ Sample.fs.names.keys :=
      AList.mem_keys.1 (AList.lookup_isSome.1 (Option.isSome_iff_exists.2 ⟨n, hn⟩))
    exact absurd rfl (hempty _ hk (by simp [dataAt]))
  have hreqs : ∀ i, SendOrInfo (Sample.env Sample.sendCodec) Sample.world.fs.cwd (Sample.sendAndInfo i) := by
    intro i
    cases i with
    | true =>
      show ¬ _ <:+ _
      decide +kernel
    | false => trivial
  have hall := send_covered Sample.sendCodec_inverse (by decide +kernel) hreqs (by rw [hT]; exact hcov) hrun
  rwa [hT] at hall

end OortAgent
