import OortAgent.Agent
import OortAgent.Trace

/-!
# Runs of `sendFile` alone

* `startSend_calls`: the places of the calls before the file is moved.
* `run_startSend_end`: its first `try` block answers every exception but that of metadata that is not well-formed.
* `size_of_prepareSend`: the size in the metadata is that of the source, as an `int`.
-/

namespace OortAgent

open Lib

/-- The places of the calls that write the metadata. -/
def MetaSite (s : Site) : Prop :=
  s = .openMeta ∨ s = .insertMeta ∨ s = .unlinkBadMeta ∨ s = .flushMeta ∨ s = .fsyncMeta ∨ s = .flushClose ∨
    s = .closeMeta

instance : DecidablePred MetaSite := fun _ => inferInstanceAs (Decidable (_ ∨ _))

/-- The places of the calls of `send_file` before the move. -/
def SendSite (s : Site) : Prop :=
  s = .mkUUID ∨ s = .checkTopic ∨ s = .accessSrcDir ∨ s = .sendInfo ∨ s = .time ∨ MetaSite s

instance : DecidablePred SendSite := fun _ => inferInstanceAs (Decidable (_ ∨ _))

section Calls

variable {C : Call → Prop} {env : Env} {req : SendFileRequest} {id destmeta : Str}

theorem xwrite_calls {s : Site} {fd : Ino} {text : Bytes} (h : ∀ b, C ⟨s, .write fd b⟩) :
    (xwrite s fd text).Calls C := by
  refine Proc.Calls.loop (fun rest => ?_) _ _
  unfold xwriteRound
  split
  · trivial
  · refine calls_call.2 ⟨h _, fun r => ?_⟩
    cases r <;> trivial

section Stream

variable (hw : ∀ s fd b, MetaSite s → C ⟨s, .write fd b⟩) (hl : ∀ s op, MetaSite s → op.looks = true → C ⟨s, op⟩)
include hw

theorem insertText_calls {fd : Ino} {text : Bytes} : (insertText env fd text).Calls C := by
  unfold insertText
  split
  · exact (xwrite_calls fun _ => hw _ _ _ (by decide)).bind fun _ => trivial
  · trivial

include hl

theorem closeStream_calls {fd : Ino} {pending : Bytes} : (closeStream fd pending).Calls C := by
  refine (xwrite_calls fun _ => hw _ _ _ (by decide)).bind fun failed =>
    calls_call.2 ⟨hl _ _ (by decide) rfl, fun _ => ?_⟩
  split
  · exact calls_call.2 ⟨hl _ _ (by decide) rfl, fun _ => trivial⟩
  · exact (xwrite_calls fun _ => hw _ _ _ (by decide)).bind fun _ =>
      calls_call.2 ⟨hl _ _ (by decide) rfl, fun _ => trivial⟩

/-- The calls that write metadata. -/
theorem writeTransferMeta_calls {tm : TransferMeta} (hopen : C ⟨.openMeta, .openWrite destmeta⟩)
    (hunlink : C ⟨.unlinkBadMeta, .unlink destmeta⟩) : (writeTransferMeta env destmeta tm).Calls C := by
  unfold writeTransferMeta
  split
  · refine calls_call.2 ⟨hopen, fun r => ?_⟩
    cases r with
    | error e => exact calls_call.2 ⟨hunlink, fun _ => trivial⟩
    | ok fd =>
      refine (insertText_calls hw).bind fun x => ?_
      obtain ⟨pending, failed⟩ := x
      cases failed with
      | some e => exact calls_call.2 ⟨hunlink, fun _ => (closeStream_calls hw hl).bind fun _ => trivial⟩
      | none => exact (closeStream_calls hw hl).bind fun _ => trivial
  · refine calls_call.2 ⟨hopen, fun r => ?_⟩
    cases r with
    | error e => trivial
    | ok fd => exact (closeStream_calls hw hl).bind fun _ => trivial

end Stream

theorem prepareSend_calls (h : ∀ s op, SendSite s → C ⟨s, op⟩) : (prepareSend env req id destmeta).Calls C := by
  refine ((fileInfo_calls _).mono fun c hc => ?_).bind fun fi => calls_call.2 ⟨h _ _ (by decide), fun _ => ?_⟩
  · obtain ⟨s, op⟩ := c
    obtain ⟨rfl, -⟩ := hc
    exact h _ _ (by decide)
  · have hmeta : ∀ s op, MetaSite s → C ⟨s, op⟩ := fun s op hs => h s op (.inr (.inr (.inr (.inr (.inr hs)))))
    exact (writeTransferMeta_calls (fun _ _ _ => hmeta _ _) (fun _ _ hs _ => hmeta _ _ hs) (hmeta _ _ (by decide))
      (hmeta _ _ (by decide))).bind fun _ => trivial

theorem startSend_calls (h : ∀ s op, SendSite s → C ⟨s, op⟩) : (startSend env req id destmeta).Calls C := by
  refine Proc.Calls.handle ((prepareSend_calls h).bind fun _ => trivial) fun e => ?_
  split <;> trivial

end Calls

/-! ## How the first `try` block ends -/

section Ends

variable {α : Type} {env : Env} {req : SendFileRequest} {id destmeta : Str} {K : Exn → Prop}

/-- A result, an exception of `K`, or the bound on the rounds of a loop. -/
def Mildly (K : Exn → Prop) : Outcome Exn α → Prop
  | .ret _ => True
  | .throw e => K e
  | .stop x => x = .fuel

theorem Mildly.bind {β : Type} {p : Prog α} {f : α → Prog β} (hp : p.Ends (Mildly K))
    (hf : ∀ a, (f a).Ends (Mildly K)) :
    (p.bind f).Ends (Mildly K) := by
  refine Proc.Ends.bind (hp.mono fun o ho => ?_)
  cases o with
  | ret a => exact hf a
  | throw e => exact ho
  | stop x => exact ho

theorem Mildly.call {s : Site} {op : Op} {k : op.Res → Prog α} (hk : ∀ r, (k r).Ends (Mildly K)) :
    ((sys s op).bind k).Ends (Mildly K) := fun r => hk r

theorem Mildly.loop {β γ : Type} {body : β → Prog (β ⊕ γ)} (hb : ∀ b, (body b).Ends (Mildly K)) (n : Nat) (b : β) :
    (Proc.loop n body b).Ends (Mildly K) := by
  refine Proc.Ends.loop (show Mildly K (.stop .fuel) from rfl) (fun b => (hb b).mono fun o ho => ?_) n b
  cases o with
  | ret x => cases x <;> trivial
  | throw e => exact ho
  | stop x => exact ho

theorem xwrite_ends {s : Site} {fd : Ino} {text : Bytes} : (xwrite s fd text).Ends (Mildly K) := by
  refine Mildly.loop (fun rest => ?_) _ _
  unfold xwriteRound
  split
  · trivial
  · refine Mildly.call fun r => ?_
    cases r <;> trivial

theorem closeStream_ends {fd : Ino} {pending : Bytes} : (closeStream fd pending).Ends (Mildly K) := by
  refine Mildly.bind xwrite_ends fun done => Mildly.call fun _ => ?_
  split
  · exact Mildly.call fun _ => trivial
  · exact Mildly.bind xwrite_ends fun _ => Mildly.call fun _ => trivial

theorem insertText_ends {fd : Ino} {text : Bytes} : (insertText env fd text).Ends (Mildly K) := by
  unfold insertText
  split
  · exact Mildly.bind xwrite_ends fun _ => trivial
  · trivial

/-- What can go wrong with the file of the metadata is a `runtime_error`. -/
theorem writeMeta_ends {text : Bytes} : (writeMeta env destmeta text).Ends (Mildly fun e => e.isRuntime = true) := by
  refine Mildly.call fun r => ?_
  cases r with
  | error e => exact Mildly.call fun r => (rfl : Exn.isRuntime (.runtime ((errorOf r).getD e) _) = true)
  | ok fd =>
    refine Mildly.bind insertText_ends fun x => ?_
    obtain ⟨pending, failed⟩ := x
    cases failed with
    | none => exact Mildly.bind closeStream_ends fun _ => trivial
    | some e =>
      exact Mildly.call fun r => Mildly.bind closeStream_ends fun last =>
        (rfl : Exn.isRuntime (.runtime ((last <|> errorOf r).getD e) _) = true)

/-- How the metadata is given up. -/
def Abandoned : Outcome Exn Unit → Prop
  | .ret _ => False
  | .throw e => e = notUtf8
  | .stop x => x = .fuel

theorem abandonMeta_ends : (abandonMeta destmeta).Ends Abandoned := by
  intro r
  cases r with
  | error e => exact (rfl : notUtf8 = notUtf8)
  | ok fd =>
    show ((closeStream fd []).bind fun _ => .throw notUtf8 : Prog Unit).Ends Abandoned
    refine Proc.Ends.bind ((closeStream_ends (K := fun _ => False)).mono fun o ho => ?_)
    cases o with
    | ret _ => exact (rfl : notUtf8 = notUtf8)
    | throw e => exact ho.elim
    | stop x => exact ho

/-- How the metadata is written: if a text is not well-formed, writing it throws. -/
def Written (tm : TransferMeta) : Outcome Exn Unit → Prop
  | .ret _ => tm.texts.all utf8 = true
  | .throw e => (tm.texts.all utf8 = true ∧ e.isRuntime = true) ∨ (tm.texts.all utf8 = false ∧ e = notUtf8)
  | .stop x => x = .fuel

theorem writeTransferMeta_ends {tm : TransferMeta} : (writeTransferMeta env destmeta tm).Ends (Written tm) := by
  unfold writeTransferMeta
  split
  · rename_i ht
    refine writeMeta_ends.mono fun o ho => ?_
    cases o with
    | ret _ => exact ht
    | throw e => exact .inl ⟨ht, ho⟩
    | stop x => exact ho
  · rename_i ht
    refine abandonMeta_ends.mono fun o ho => ?_
    cases o with
    | ret _ => exact ho.elim
    | throw e => exact .inr ⟨Bool.eq_false_iff.2 ht, ho⟩
    | stop x => exact ho

theorem fileInfo_ends {s : Site} {file : Str} : (fileInfo env s file).Ends (Mildly fun e => e.isRuntime = true) := by
  have hstat : (fileStat env s file).Ends (Mildly fun e => e.isRuntime = true) := by
    refine Mildly.call fun r => ?_
    cases r with
    | error e => exact (rfl : Exn.isRuntime (.runtime e _) = true)
    | ok st =>
      dsimp only
      split
      · trivial
      · exact (rfl : Exn.isRuntime (.runtime _ _) = true)
  have hcrc : (getCrc env s file).Ends (Mildly fun e => e.isRuntime = true) := by
    refine Mildly.call fun r => ?_
    cases r with
    | error e => trivial
    | ok hd =>
      refine Mildly.bind (Mildly.loop (fun x => Mildly.call fun r => ?_) _ _) fun _ => trivial
      dsimp only
      split <;> trivial
  exact Mildly.bind hstat fun st => Mildly.bind hcrc fun _ => trivial

end Ends

section Runs

variable {env : Env} {req : SendFileRequest} {w w' : World} {tr : List Ev}

/-- The information on the source is that of the file found there. -/
theorem size_of_fileInfo {s : Site} {file : Str} {fi : FileInfo}
    (h : Run Machine (fileInfo env s file) w tr (.ret fi) w') :
    w' = w ∧ ∃ k, w.fs.node (norm w.fs.cwd file) = some (.file k) ∧ fi.size = wrap32 (w.fs.inode k).data.length := by
  refine ⟨(Run.looks h (fileInfo_calls file)).1, ?_⟩
  obtain ⟨st, w₁, tr₁, tr₂, h₁, h₂, rfl⟩ := run_bind_ret.1 h
  obtain ⟨e, what, ho, -⟩ | ⟨st', k, ho, -, -, hk, hst⟩ := run_fileStat h₁
  · cases ho
  cases ho
  obtain ⟨crc, w₂, tr₃, tr₄, -, h₄, rfl⟩ := run_bind_ret.1 h₂
  obtain ⟨-, ho, -⟩ := run_ret.1 h₄
  refine ⟨k, hk, ?_⟩
  rw [Outcome.ret.inj ho, hst]

theorem utf8_hex8 (c : Nat) : utf8 (hex8 c) = true := by
  refine utf8_of_ascii fun d hd => ?_
  simp only [hex8, List.mem_cons, List.not_mem_nil, or_false] at hd
  rcases hd with rfl | rfl | rfl | rfl | rfl | rfl | rfl | rfl
  all_goals exact hexDigit_ascii _ (Nat.mod_lt _ (by decide))

/-- The texts of the information on a file, besides its id. -/
theorem texts_of_fileInfo {σ : Type} {M : Sem Calls σ Choice} {x x' : σ} {s : Site} {file : Str} {fi : FileInfo}
    (h : Run M (fileInfo env s file) x tr (.ret fi) x') : fi.path = file ∧ fi.extra = [] ∧ utf8 fi.crc32 = true := by
  obtain ⟨st, x₁, tr₁, tr₂, -, h₂, rfl⟩ := run_bind_ret.1 h
  obtain ⟨crc, x₂, tr₃, tr₄, h₃, h₄, rfl⟩ := run_bind_ret.1 h₂
  obtain ⟨-, ho, -⟩ := run_ret.1 h₄
  cases ho
  obtain ⟨-, he | he⟩ := run_getCrc h₃
  · cases he
  · rw [Outcome.ret.inj he]
    exact ⟨rfl, rfl, utf8_hex8 _⟩

/-- The texts that a request gives to its metadata, besides its id and the checksum. -/
def metaTexts (env : Env) (req : SendFileRequest) : List Str :=
  [env.apiVersion, req.topic, req.destination, env.nodename, req.filepath]

/-- If a request came to writing its metadata, the texts are well-formed. -/
def MetaSpeaks (env : Env) (req : SendFileRequest) (tr : List Ev) : Prop :=
  doneAt .time tr = true → (metaTexts env req).all utf8 = true

theorem MetaSpeaks.left {tr₁ tr₂ : List Ev} (h : MetaSpeaks env req (tr₁ ++ tr₂)) : MetaSpeaks env req tr₁ :=
  fun hd => h (by rw [doneAt_append, hd, Bool.true_or])

theorem MetaSpeaks.right {tr₁ tr₂ : List Ev} (h : MetaSpeaks env req (tr₁ ++ tr₂)) : MetaSpeaks env req tr₂ :=
  fun hd => h (by rw [doneAt_append, hd, Bool.or_true])

theorem MetaSpeaks.tail {e : Ev} (h : MetaSpeaks env req (e :: tr)) : MetaSpeaks env req tr :=
  fun hd => h (by rw [doneAt_cons, hd, Bool.or_true])

/-- The texts of the metadata of a request. -/
theorem texts_transferMeta {fi : FileInfo} {time : Int} (hpath : fi.path = req.filepath) (hextra : fi.extra = [])
    (hcrc : utf8 fi.crc32 = true) (hid : utf8 fi.id = true) :
    (transferMeta env req fi time).texts.all utf8 = (metaTexts env req).all utf8 := by
  simp [transferMeta, TransferMeta.texts, FileInfo.texts, extraTexts, metaTexts, hpath, hextra, hcrc, hid]

/-- How the information is taken and the metadata is written: only JSON that cannot be written throws anything but a
`runtime_error`. -/
theorem run_prepareSend_end {σ : Type} {M : Sem Calls σ Choice} {x x' : σ} {id destmeta : Str}
    {o : Outcome Exn FileInfo}
    (hid : utf8 id = true) (h : Run M (prepareSend env req id destmeta) x tr o x') :
    (((∃ fi, o = .ret fi) ∨ ∃ e, o = .throw e ∧ e.isRuntime = true) ∧ MetaSpeaks env req tr) ∨
      (o = .throw notUtf8 ∧ ¬ MetaSpeaks env req tr) ∨ o = .stop .fuel := by
  -- the time has not been asked for
  have hinfo : ∀ {tr₁ o₁ x₁}, Run M (fileInfo env .sendInfo req.filepath) x tr₁ o₁ x₁ → doneAt .time tr₁ = false :=
    fun h₁ => doneAt_of_allAt (S := (· = .sendInfo)) (fun e he => (h₁.calls (fileInfo_calls _) e he).1) (by decide)
  rcases run_bind.1 h with ⟨fi, x₁, tr₁, tr₂, h₁, h₂, rfl⟩ | ⟨e, h₁, rfl⟩ | ⟨y, h₁, rfl⟩
  · obtain ⟨hpath, hextra, hcrc⟩ := texts_of_fileInfo h₁
    obtain ⟨ch, time, x₂, tr₃, -, h₃, rfl⟩ := run_ask.1 h₂
    have hdone : doneAt .time (tr₁ ++ ⟨⟨.time, .time⟩, ch, time⟩ :: tr₃) = true := by simp [Op.refused]
    have htexts : (transferMeta env req { fi with id := id } time).texts.all utf8 = (metaTexts env req).all utf8 :=
      texts_transferMeta hpath hextra hcrc hid
    rcases run_bind.1 h₃ with ⟨_, x₃, tr₄, tr₅, h₄, h₅, rfl⟩ | ⟨e, h₄, rfl⟩ | ⟨y, h₄, rfl⟩
    · have hw : _ = true := h₄.ends writeTransferMeta_ends
      rw [htexts] at hw
      obtain ⟨-, rfl, -⟩ := run_ret.1 h₅
      exact .inl ⟨.inl ⟨_, rfl⟩, fun _ => hw⟩
    · obtain ⟨hw, he⟩ | ⟨hw, rfl⟩ := h₄.ends writeTransferMeta_ends
      · rw [htexts] at hw
        exact .inl ⟨.inr ⟨e, rfl, he⟩, fun _ => hw⟩
      · rw [htexts] at hw
        refine .inr (.inl ⟨rfl, fun hm => ?_⟩)
        rw [hm hdone] at hw
        cases hw
    · obtain rfl : y = .fuel := h₄.ends writeTransferMeta_ends
      exact .inr (.inr rfl)
  · refine .inl ⟨.inr ⟨e, rfl, h₁.ends fileInfo_ends⟩, fun hd => ?_⟩
    rw [hinfo h₁] at hd
    cases hd
  · obtain rfl : y = .fuel := h₁.ends fileInfo_ends
    exact .inr (.inr rfl)

/-- The first `try` block answers every exception but that of JSON that cannot be written. -/
theorem run_startSend_end {σ : Type} {M : Sem Calls σ Choice} {x x' : σ} {id destmeta : Str}
    {o : Outcome Exn (Response FileInfo)}
    (hid : utf8 id = true) (h : Run M (startSend env req id destmeta) x tr o x') (hf : o ≠ .stop .fuel) :
    ((∃ r, o = .ret r) ∧ MetaSpeaks env req tr) ∨ (o = .throw notUtf8 ∧ ¬ MetaSpeaks env req tr) := by
  rcases run_try.1 h with ⟨fi, h₁, rfl⟩ | ⟨y, h₁, rfl⟩ | ⟨e, x₁, tr₁, tr₂, h₁, h₂, rfl⟩
  · obtain ⟨-, hm⟩ | ⟨he, -⟩ | he := run_prepareSend_end hid h₁
    · exact .inl ⟨⟨_, rfl⟩, hm⟩
    · cases he
    · cases he
  · obtain ⟨⟨fi, he⟩ | ⟨e, he, -⟩, -⟩ | ⟨he, -⟩ | he := run_prepareSend_end hid h₁
    · cases he
    · cases he
    · cases he
    · cases he
      exact absurd rfl hf
  · obtain ⟨⟨fi, he⟩ | ⟨e', he, hr⟩, hm⟩ | ⟨he, hm⟩ | he := run_prepareSend_end hid h₁
    · cases he
    · cases he
      rw [if_pos hr] at h₂
      obtain ⟨rfl, rfl, -⟩ := run_ret.1 h₂
      rw [List.append_nil]
      exact .inl ⟨⟨_, rfl⟩, hm⟩
    · cases he
      rw [if_neg (by decide)] at h₂
      obtain ⟨rfl, rfl, -⟩ := run_throw.1 h₂
      rw [List.append_nil]
      exact .inr ⟨rfl, hm⟩
    · cases he

/-- The first `try` block gave the file's information. -/
theorem run_startSend_ok {σ : Type} {M : Sem Calls σ Choice} {x x' : σ} {id destmeta : Str} {fi : FileInfo}
    (h : Run M (startSend env req id destmeta) x tr (.ret (.Ok fi)) x') :
    Run M (prepareSend env req id destmeta) x tr (.ret fi) x' := by
  rcases run_try.1 h with ⟨fi', h₁, ho⟩ | ⟨x, -, ho⟩ | ⟨e, w₁, tr₁, tr₂, -, h₂, -⟩
  · cases ho
    exact h₁
  · cases ho
  · split at h₂
    · cases (run_ret.1 h₂).2.1
    · cases (run_throw.1 h₂).2.1

/-- The size that the metadata gives is that of the source. -/
theorem size_of_prepareSend {id destmeta : Str} {fi : FileInfo}
    (h : Run Machine (prepareSend env req id destmeta) w tr (.ret fi) w') :
    ∃ k, w.fs.node (norm w.fs.cwd req.filepath) = some (.file k) ∧ fi.size = wrap32 (w.fs.inode k).data.length := by
  obtain ⟨fi₀, w₁, tr₁, tr₂, h₁, h₂, -⟩ := run_bind_ret.1 h
  obtain ⟨-, k, hk, hsize⟩ := size_of_fileInfo h₁
  obtain ⟨ch, now, w₂, tr₃, -, h₃, -⟩ := run_call.1 h₂
  obtain ⟨_, w₃, tr₄, tr₅, -, h₄, -⟩ := run_bind_ret.1 h₃
  obtain ⟨-, ho, -⟩ := run_ret.1 h₄
  rw [Outcome.ret.inj ho]
  exact ⟨k, hk, hsize⟩

end Runs

end OortAgent
