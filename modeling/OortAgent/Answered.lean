import OortAgent.Pair
import OortAgent.Spoken

/-!
# Responses of the agent's methods

A method of the agent that returns has a response for its route, and one that an exception leaves has none.

* `speaks_sendFile`, `speaks_retrieveFile`, `speaks_queryAvailable`, `speaks_metaRequest`: what the agent's methods
  respond is well-formed.
* `run_sendFile_reply`, `run_retrieveFile_reply`: when they respond.
-/

namespace OortAgent

open Lib

/-- The texts of a response are well-formed. -/
def Response.Proper {α : Type} (texts : α → List Str) : Response α → Prop
  | .Ok a => (texts a).all utf8 = true
  | .Bad_Request message => utf8 message = true

section Methods

variable {env : Env} {K : Exn → Prop} {X : Stop → Prop}

/-! ## What the agent's methods respond -/

theorem speaks_queryAvailable (h : env.Spoken) (hX : X .fuel) (topic : Str) :
    Speaks Mild X (queryAvailable env topic) (Response.Proper fun r => r.files.flatMap FileInfo.texts) := by
  have hlist : Speaks Mild X (cacheGet .metafile env.uploadDir (listFiles .listFiles env.uploadDir META_EXT))
      (Said .metafile) :=
    speaks_cacheGet ((speaks_listFiles _ _ _).mono (fun _ he => he) (fun _ hx => hx) fun _ ha => ha (by decide))
  have hfiles : Speaks Mild X (filesInfo env env.uploadDir topic) fun l => ∀ fi ∈ l, fi.texts.all utf8 = true :=
    hlist.bind fun names hn => speaks_filesInfoLoop h hX hn (by simp)
  have hall : ∀ l : List FileInfo, (∀ fi ∈ l, fi.texts.all utf8 = true) →
      (l.flatMap FileInfo.texts).all utf8 = true := by
    intro l hl
    rw [List.all_flatMap, List.all_eq_true]
    exact hl
  refine hfiles.bind fun files hf => ?_
  split
  · exact hall _ fun fi hfi => hf fi (List.mem_of_mem_dropLast hfi)
  · exact hall _ hf

/-- The handler answers every exception. -/
theorem speaks_metaRequest (h : env.Spoken) (hX : X .fuel) (uuid : Str) :
    Speaks K X (metaRequest env uuid) (Response.Proper TransferMeta.texts) := by
  refine Speaks.handle (K := Polite env) ((speaks_readTransferMetaCached h hX _).bind fun tm htm => htm) fun e he => ?_
  rw [if_pos he.1]
  exact he.2

/-- The path of a data file in `uploads`. -/
theorem utf8_uploaded (h : env.Spoken) {id : Str} (hid : utf8 id = true) :
    utf8 (env.uploadDir ++ '/' :: (id ++ DATA_EXT)) = true := by
  rw [Env.uploadDir, List.append_assoc, utf8_append h.workdir, utf8_append (utf8_phrase (by simp [phrases])),
    ← List.singleton_append,
    utf8_append (by decide), utf8_append hid]
  exact utf8_phrase (s := ".data.oort") (by simp [phrases])

/-- `Agent::retrieve_file`: only an exception that is no `runtime_error` leaves it. -/
theorem speaks_retrieveFile (h : env.Spoken) {req : RetrieveFileRequest} (hid : utf8 req.id = true)
    (hp : utf8 req.savePath = true) :
    Speaks (fun e => e.isRuntime = false) (fun _ => True) (retrieveFile env req) (Response.Proper FileInfo.texts) := by
  have hmove : Speaks (Heard env) (fun _ => True) (do
      let tm ← readTransferMetaCached env (env.uploadDir ++ '/' :: (req.id ++ META_EXT))
      moveFile env (env.uploadDir ++ '/' :: (req.id ++ DATA_EXT)) req.savePath tm.fileInfo
      return .Ok tm.fileInfo : Prog (Response FileInfo)) (Response.Proper FileInfo.texts) := by
    have hread :
        Speaks (Heard env) (fun _ => True) (readTransferMetaCached env (env.uploadDir ++ '/' :: (req.id ++ META_EXT)))
        fun tm => tm.texts.all utf8 = true :=
      (speaks_readTransferMetaCached h (X := fun _ => True) trivial _).mono (fun e he _ => he.2) (fun _ hx => hx)
        fun _ ha => ha
    refine hread.bind fun tm htm => ?_
    exact (speaks_moveFile h (utf8_uploaded h hid) hp).bind fun _ _ => texts_fileInfo htm
  unfold retrieveFile
  dsimp only
  split
  · show utf8 _ = true
    rw [List.append_assoc, utf8_append (utf8_phrase (by simp [phrases])), utf8_append hp]
    exact utf8_phrase (by simp [phrases])
  refine Speaks.call trivial fun r _ => ?_
  cases r with
  | error e =>
    show utf8 _ = true
    rw [List.append_assoc, List.append_assoc, utf8_append (utf8_phrase (by simp [phrases])), utf8_append hid,
      utf8_append (by decide)]
    exact h.strerror e
  | ok _ =>
    refine Speaks.bind (P := Response.Proper FileInfo.texts) (hmove.handle fun e he => ?_) fun res hres => ?_
    · unfold retrieveCatch
      split
      · rename_i hs
        exact he (Exn.isRuntime_of_isSystem hs)
      · split
        · rename_i hr
          exact (speaks_endeaden _).bind fun _ _ => he hr
        · rename_i hr
          exact Bool.eq_false_iff.2 hr
    · cases res with
      | Bad_Request message => exact hres
      | Ok fi => exact Speaks.call trivial fun _ _ => hres

/-- The first `try` block of `send_file` answers every exception but that of metadata that cannot be written as JSON. -/
theorem speaks_startSend (h : env.Spoken) (hX : X .fuel) (hK : K notUtf8) {req : SendFileRequest} {id destmeta : Str}
    (hp : utf8 req.filepath = true) : Speaks K X (startSend env req id destmeta) (Response.Proper fun _ => []) := by
  have hmeta : ∀ {tm : TransferMeta},
      Speaks (fun e => e.isRuntime = true ∨ e = notUtf8) X (writeTransferMeta env destmeta tm)
      fun _ => True := by
    intro tm
    refine Proc.Rely.of_ends (writeTransferMeta_calls (fun _ _ _ _ => trivial) (fun s op hs hl => ?_) trivial trivial)
      (writeTransferMeta_ends.mono fun o ho => ?_)
    · cases op <;> trivial
    · cases o with
      | ret u => trivial
      | throw e => exact ho.imp And.right And.right
      | stop x => exact (show x = .fuel from ho) ▸ hX
  have hinfo : Speaks (fun e => e.isRuntime = true ∨ e = notUtf8) X (fileInfo env .sendInfo req.filepath)
      fun _ => True :=
    speaks_fileInfo hX (fun c => .inl rfl) (.inl rfl)
  have hprep : Speaks (fun e => e.isRuntime = true ∨ e = notUtf8) X (prepareSend env req id destmeta) fun _ => True :=
    hinfo.bind fun fi _ => Speaks.call trivial fun _ _ => hmeta.bind fun _ _ => trivial
  refine Speaks.handle (hprep.bind fun fi _ => rfl) fun e he => ?_
  split
  · show utf8 _ = true
    rw [List.append_assoc, List.append_assoc, utf8_append (utf8_phrase (by simp [phrases])), utf8_append hp,
      utf8_append (by decide)]
    exact h.strerror _
  · rename_i hr
    exact he.resolve_left hr ▸ hK

/-- `Agent::send_file`: only an exception that is no `system_error` leaves it. -/
theorem speaks_sendFile (h : env.Spoken) {req : SendFileRequest} (hp : utf8 req.filepath = true)
    (ht : utf8 req.topic = true) :
    Speaks (fun e => e.isSystem = false) (fun _ => True) (sendFile env req) (Response.Proper fun id => [id]) := by
  refine Speaks.call trivial fun rand _ => ?_
  show Speaks _ _ (if ¬ checkPath req.filepath then _ else _) _
  split
  · show utf8 _ = true
    rw [List.append_assoc, utf8_append (utf8_phrase (by simp [phrases])), utf8_append hp]
    exact utf8_phrase (by simp [phrases])
  refine Speaks.call trivial fun allowed _ => ?_
  split
  · show utf8 _ = true
    rw [List.append_assoc, utf8_append (utf8_phrase (by simp [phrases])), utf8_append ht]
    exact utf8_phrase (by simp [phrases])
  refine Speaks.call trivial fun r _ => ?_
  cases r with
  | error _ =>
    show utf8 _ = true
    exact utf8_phrase (by simp [phrases])
  | ok _ =>
    refine Speaks.bind (speaks_startSend (K := fun e => e.isSystem = false) h trivial rfl hp) fun res hres => ?_
    have hid : utf8 (uuidText rand) = true := utf8_uuidText rand
    cases res with
    | Bad_Request message => exact hres
    | Ok fi =>
      have hdata : utf8 (env.transferDir ++ '/' :: (uuidText rand ++ DATA_EXT)) = true := by
        rw [Env.transferDir, List.append_assoc, utf8_append h.workdir,
          utf8_append (utf8_phrase (by simp [phrases])), ← List.singleton_append,
          utf8_append (by decide), utf8_append hid]
        exact utf8_phrase (s := ".data.oort") (by simp [phrases])
      refine Speaks.handle (K := Heard env) ((speaks_moveFile h hp hdata).bind fun _ _ => ?_) fun e he => ?_
      · show [uuidText rand].all utf8 = true
        rw [List.all_cons, hid]
        rfl
      · split
        · rename_i hs
          exact Speaks.call trivial fun _ _ => he (Exn.isRuntime_of_isSystem hs)
        · rename_i hs
          exact Bool.eq_false_iff.2 hs

/-! ## When they respond -/

/-- A place outside of `move_file`. -/
def OffMove (s : Site) : Prop := s ≠ .accessDest ∧ s ≠ .precheck ∧ s ≠ .statvfsSrc ∧ s ≠ .statvfsDest ∧ s ≠ .mkdtemp ∧
  s ≠ .openParked ∧ s ≠ .verify

instance : DecidablePred OffMove := fun _ => inferInstanceAs (Decidable (_ ∧ _))

/-- The block size is an `int` that is not negative, if a buffer is made. -/
def BlocksFit (tr : List Ev) : Prop := doneAt .openParked tr = true → 0 ≤ moveBlocks tr

/-- No check of the move of a file with this checksum goes wrong. -/
def ChecksPass (crc : Str) (tr : List Ev) : Prop :=
  SourceChecked crc tr ∧ (doneAt .openParked tr = true → CopyVerified crc tr)

section Runs

variable {σ : Type} {M : Sem Calls σ Choice} {x x' : σ} {w w' : World} {tr tr₀ tr₁ : List Ev}

theorem vfsAt_left {s : Site} (h : AllAt (· ≠ s) tr₁) : vfsAt s (tr ++ tr₁) = vfsAt s tr := by
  induction tr with
  | nil =>
    have hnil : vfsAt s (tr₁ ++ []) = vfsAt s [] := vfsAt_append h (by simp)
    rwa [List.append_nil] at hnil
  | cons e tr ih => rw [List.cons_append, vfsAt_cons, vfsAt_cons, ih]

/-- What is read off a trace of the move is not changed by calls outside. -/
theorem offMove_frame (crc : Str) (tr : List Ev) (h₀ : AllAt OffMove tr₀) (h₁ : AllAt OffMove tr₁) :
    failedAt .mkdtemp (tr₀ ++ (tr ++ tr₁)) = failedAt .mkdtemp tr ∧ (BlocksFit (tr₀ ++ (tr ++ tr₁)) ↔ BlocksFit tr) ∧
    (ChecksPass crc (tr₀ ++ (tr ++ tr₁)) ↔ ChecksPass crc tr) := by
  have hfailed : ∀ {s}, ¬ OffMove s → failedAt s (tr₀ ++ (tr ++ tr₁)) = failedAt s tr := fun hs => by
    rw [failedAt_append, failedAt_append, failedAt_of_allAt h₀ hs, failedAt_of_allAt h₁ hs, Bool.false_or,
      Bool.or_false]
  have hstat : ∀ {s}, ¬ OffMove s → statFailed s (tr₀ ++ (tr ++ tr₁)) = statFailed s tr := fun hs => by
    rw [statFailed_append, statFailed_append, statFailed_of_allAt h₀ hs, statFailed_of_allAt h₁ hs, Bool.false_or,
      Bool.or_false]
  have hfill : ∀ {s}, ¬ OffMove s → filled s (tr₀ ++ (tr ++ tr₁)) = filled s tr := fun hs => by
    rw [filled_append, filled_append, filled_of_allAt h₀ hs, filled_of_allAt h₁ hs, List.nil_append, List.append_nil]
  have hdone : doneAt .openParked (tr₀ ++ (tr ++ tr₁)) = doneAt .openParked tr := by
    rw [doneAt_append, doneAt_append, doneAt_of_allAt h₀ (by decide), doneAt_of_allAt h₁ (by decide),
      Bool.false_or, Bool.or_false]
  have hvfs : ∀ {s}, (∀ s', OffMove s' → s' ≠ s) → vfsAt s (tr₀ ++ (tr ++ tr₁)) = vfsAt s tr := fun hs => by
    rw [vfsAt_append h₀ (fun ha => hs _ ha rfl), vfsAt_left fun e he => hs _ (h₁ e he)]
  have hblocks : moveBlocks (tr₀ ++ (tr ++ tr₁)) = moveBlocks tr := by
    rw [moveBlocks, moveBlocks, hvfs fun s' ha => ha.2.2.1, hvfs fun s' ha => ha.2.2.2.1]
  refine ⟨hfailed (by decide), ?_, ?_⟩
  · rw [BlocksFit, BlocksFit, hdone, hblocks]
  · rw [ChecksPass, ChecksPass, SourceChecked, SourceChecked, CopyVerified, CopyVerified, hdone, hfailed (by decide),
      hstat (by decide), hfill (by decide), hstat (by decide), hfill (by decide)]

/-- Nothing is said about a move that is not made. -/
theorem offMove_only (crc : Str) (h : AllAt OffMove tr) : failedAt .mkdtemp tr = false ∧ BlocksFit tr ∧
    ChecksPass crc tr := by
  have hdone : doneAt .openParked tr = false := doneAt_of_allAt h (by decide)
  refine ⟨failedAt_of_allAt h (by decide), fun hd => ?_, fun hf => ?_, fun hd => ?_⟩
  · rw [hdone] at hd
    cases hd
  · rw [failedAt_of_allAt h (by decide)] at hf
    cases hf
  · rw [hdone] at hd
    cases hd

/-- How a move ends, by the kinds of its exceptions. -/
theorem moveFile_kinds {src dest : Str} {fi : FileInfo} {o : Outcome Exn Unit}
    (h : Run M (moveFile env src dest fi) x tr o x') (hf : o ≠ .stop .fuel) :
    ((o = .ret () ∨ ∃ e, o = .throw e ∧ e.isSystem = true) ∧
        failedAt .mkdtemp tr = false ∧ BlocksFit tr ∧ ChecksPass fi.crc32 tr) ∨
    ((∃ e, o = .throw e ∧ e.isSystem = false ∧ e.isRuntime = true) ∧
        failedAt .mkdtemp tr = false ∧ BlocksFit tr ∧ ¬ ChecksPass fi.crc32 tr) ∨
    ((∃ e, o = .throw e ∧ e.isRuntime = false) ∧ failedAt .mkdtemp tr = false ∧ ¬ BlocksFit tr) ∨
    (o = .stop .crash ∧ failedAt .mkdtemp tr = true) := by
  obtain ⟨hsrc, hopen, hmk, e, rfl, hs, hr⟩ | ⟨hsrc, hend⟩ := moveFile_end h hf
  · refine .inr (.inl ⟨⟨e, rfl, hs, hr⟩, hmk, fun hd => ?_, fun hc => hsrc hc.1⟩)
    rw [hopen] at hd
    cases hd
  · cases hend with
    | fine ho hm hc => exact .inl ⟨ho, hm, fun hd => (hc hd).1, hsrc, fun hd => (hc hd).2⟩
    | bad hs hr hm hd hb hc => exact .inr (.inl ⟨⟨_, rfl, hs, hr⟩, hm, fun _ => hb, fun hp => hc (hp.2 hd)⟩)
    | block hr hm hd hb =>
      refine .inr (.inr (.inl ⟨⟨_, rfl, hr⟩, hm, fun hfit => ?_⟩))
      have := hfit hd
      omega
    | crash hm => exact .inr (.inr (.inr ⟨rfl, hm⟩))

/-- The first `try` block of `send_file` took the checksum of what it read. -/
theorem run_prepareSend_crc {req : SendFileRequest} {id destmeta : Str} {fi : FileInfo}
    (h : Run M (prepareSend env req id destmeta) x tr (.ret fi) x') : fi.crc32 = crcText (filled .sendInfo tr) := by
  obtain ⟨fi₀, x₁, tr₁, tr₂, h₁, h₂, rfl⟩ := run_bind_ret.1 h
  have hcrc : fi₀.crc32 = crcText (filled .sendInfo tr₁) := by
    obtain ⟨-, ⟨e, what, he, -⟩ | ⟨-, he | ⟨fi', he, hcrc⟩⟩⟩ := run_fileInfo_said h₁
    · cases he
    · cases he
    · cases he
      exact hcrc
  obtain ⟨ch, time, x₂, tr₃, -, h₃, rfl⟩ := run_ask.1 h₂
  have hcalls : ((writeTransferMeta env destmeta (transferMeta env req { fi₀ with id := id } time)).bind fun _ =>
      .ret { fi₀ with id := id }).Calls fun c : Call => c.site = .time ∨ MetaSite c.site :=
    (writeTransferMeta_calls (fun _ _ _ hs => .inr hs) (fun _ _ hs _ => .inr hs) (.inr (by simp [MetaSite]))
      (.inr (by simp [MetaSite]))).bind fun _ => trivial
  have hlate : AllAt (fun s => s = .time ∨ MetaSite s) (⟨⟨.time, .time⟩, ch, time⟩ :: tr₃) :=
    allAt_cons.2 ⟨.inl rfl, h₃.calls hcalls⟩
  have hfi : fi.crc32 = fi₀.crc32 := by
    obtain ⟨_, _, _, _, -, h₄, -⟩ := run_bind_ret.1 h₃
    obtain ⟨-, ho, -⟩ := run_ret.1 h₄
    cases ho
    rfl
  rw [hfi, hcrc, filled_append, filled_of_allAt hlate (by decide), List.append_nil]

/-- How `send_file` can end: with a response; with an exception, if a check of its move goes wrong or there can be
no buffer for a copy; never, if `mkdtemp` failed. -/
def SendFate (crc : Str) (tr : List Ev) (o : Outcome Exn (Response Str)) : Prop :=
  ((∃ r, o = .ret r) ∧ failedAt .mkdtemp tr = false ∧ BlocksFit tr ∧ ChecksPass crc tr) ∨
  ((∃ e, o = .throw e) ∧ failedAt .mkdtemp tr = false ∧ ¬ (BlocksFit tr ∧ ChecksPass crc tr)) ∨
  (o = .stop .crash ∧ failedAt .mkdtemp tr = true)

theorem SendFate.aside {crc : Str} {o : Outcome Exn (Response Str)} (h₀ : AllAt OffMove tr₀) (h₁ : AllAt OffMove tr₁) :
    SendFate crc (tr₀ ++ (tr ++ tr₁)) o ↔ SendFate crc tr o := by
  obtain ⟨hm, hfit, hck⟩ := offMove_frame crc tr h₀ h₁
  rw [SendFate, SendFate, hm, hfit, hck]

theorem SendFate.reply {crc : Str} {o : Outcome Exn (Response Str)} (h : SendFate crc tr o) :
    (∃ r, o = .ret r) ↔ failedAt .mkdtemp tr = false ∧ BlocksFit tr ∧ ChecksPass crc tr := by
  obtain ⟨ho, hall⟩ | ⟨⟨e, rfl⟩, -, hno⟩ | ⟨rfl, hm⟩ := h
  · exact iff_of_true ho hall
  · refine iff_of_false ?_ fun hall => hno hall.2
    rintro ⟨r, hr⟩
    cases hr
  · refine iff_of_false ?_ fun hall => Bool.false_ne_true (hall.1.symm.trans hm)
    rintro ⟨r, hr⟩
    cases hr

/-- The second `try` block of `send_file`. -/
theorem run_finishSend_fate {req : SendFileRequest} {id dest destmeta : Str} {fi : FileInfo}
    {o : Outcome Exn (Response Str)}
    (h : Run M (finishSend env req id dest destmeta fi) x tr o x') (hf : o ≠ .stop .fuel) : SendFate fi.crc32 tr o := by
  rcases run_try.1 h with ⟨_, hm, rfl⟩ | ⟨y, hm, rfl⟩ | ⟨e, x₁, tr₁, tr₂, hm, hc, rfl⟩
  · obtain ⟨-, hall⟩ | ⟨⟨e, he, -⟩, -⟩ | ⟨⟨e, he, -⟩, -⟩ | ⟨he, -⟩ := moveFile_kinds hm (by simp)
    · exact .inl ⟨⟨_, rfl⟩, hall⟩
    · cases he
    · cases he
    · cases he
  · obtain ⟨he | ⟨e, he, -⟩, -⟩ | ⟨⟨e, he, -⟩, -⟩ | ⟨⟨e, he, -⟩, -⟩ | ⟨he, hmk⟩ :=
      moveFile_kinds hm (by simpa using hf)
    · cases he
    · cases he
    · cases he
    · cases he
    · cases he
      exact .inr (.inr ⟨rfl, hmk⟩)
  · have hthrow : e.isSystem = false → tr₂ = [] ∧ o = .throw e := by
      intro hs
      rw [if_neg (by rw [hs]; exact Bool.false_ne_true)] at hc
      obtain ⟨rfl, rfl, -⟩ := run_throw.1 hc
      exact ⟨rfl, rfl⟩
    obtain ⟨he | ⟨e', he, hs⟩, hall⟩ | ⟨⟨e', he, hs, -⟩, hmk, -, hck⟩ | ⟨⟨e', he, hr⟩, hmk, hfit⟩ | ⟨he, -⟩ :=
      moveFile_kinds hm (by simp)
    · cases he
    · -- caught: the metadata is removed
      cases he
      rw [if_pos hs] at hc
      obtain ⟨ch, r, x₂, tr₃, -, h₃, rfl⟩ := run_ask.1 hc
      obtain ⟨rfl, rfl, -⟩ := run_ret.1 h₃
      have hlast : AllAt OffMove [⟨⟨.unlinkMeta, .unlink destmeta⟩, ch, r⟩] := by simp [OffMove]
      have hfirst : AllAt OffMove [] := allAt_nil
      exact (SendFate.aside hfirst hlast).2 (.inl ⟨⟨_, rfl⟩, hall⟩)
    · cases he
      obtain ⟨rfl, rfl⟩ := hthrow hs
      rw [List.append_nil]
      exact .inr (.inl ⟨⟨_, rfl⟩, hmk, fun hall => hck hall.2⟩)
    · cases he
      obtain ⟨rfl, rfl⟩ := hthrow (Exn.isSystem_of_isRuntime hr)
      rw [List.append_nil]
      exact .inr (.inl ⟨⟨_, rfl⟩, hmk, fun hall => hfit hall.1⟩)
    · cases he

/-- The move of `send_file` makes no call at a place of the first `try` block. -/
theorem finishSend_sites {req : SendFileRequest} {id dest destmeta : Str} {fi : FileInfo} :
    (finishSend env req id dest destmeta fi).Calls fun c : Call => ¬ SendSite c.site := by
  have hacross : ∀ s, SendSite s → ¬ AcrossSite s := by
    rintro s (rfl | rfl | rfl | rfl | rfl | rfl | rfl | rfl | rfl | rfl | rfl | rfl) <;> decide
  have hmove : (moveFile env req.filepath dest fi).Calls fun c : Call => ¬ SendSite c.site :=
    moveFile_calls (fun _ => (by decide : ¬ SendSite .accessDest)) (fun _ => (by decide : ¬ SendSite .precheck))
      (fun _ => (by decide : ¬ SendSite .rename)) fun _ hc hs => hacross _ hs hc.site
  refine Proc.Calls.handle (hmove.bind fun _ => trivial) fun e => ?_
  split
  · exact calls_call.2 ⟨(by decide : ¬ SendSite .unlinkMeta), fun _ => trivial⟩
  · trivial

/-- How `Agent::send_file` ends, by the checks of its move against the checksum that it took first; or its metadata
cannot be written as JSON. -/
theorem run_sendFile_fate {req : SendFileRequest} {o : Outcome Exn (Response Str)}
    (h : Run M (sendFile env req) x tr o x')
    (hf : o ≠ .stop .fuel) :
    (SendFate (crcText (filled .sendInfo tr)) tr o ∧ MetaSpeaks env req tr) ∨
      (o = .throw notUtf8 ∧ ¬ MetaSpeaks env req tr) := by
  have hnone : ∀ {r : Response Str} {t : List Ev}, AllAt OffMove t → MetaSpeaks env req t →
      (SendFate (crcText (filled .sendInfo t)) t (.ret r) ∧ MetaSpeaks env req t) ∨
        ((.ret r : Outcome Exn (Response Str)) = .throw notUtf8 ∧ ¬ MetaSpeaks env req t) :=
    fun ht hm => .inl ⟨.inl ⟨⟨_, rfl⟩, offMove_only _ ht⟩, hm⟩
  have hsend : ∀ s, SendSite s → OffMove s := by
    intro s hs
    refine ⟨?_, ?_, ?_, ?_, ?_, ?_, ?_⟩ <;> rintro rfl <;> revert hs <;> decide
  obtain ⟨ch, r, x₁, tr₁, -, h₁, rfl⟩ := run_ask.1 h
  replace h₁ : Run M (if ¬ checkPath req.filepath then _ else _ : Prog (Response Str)) x₁ tr₁ o x' := h₁
  split at h₁
  · obtain ⟨rfl, rfl, -⟩ := run_ret.1 h₁
    exact hnone (by simp [OffMove]) (by simp [MetaSpeaks])
  obtain ⟨ch', ts, x₂, tr₂, -, h₂, rfl⟩ := run_ask.1 h₁
  split at h₂
  · obtain ⟨rfl, rfl, -⟩ := run_ret.1 h₂
    exact hnone (by simp [OffMove]) (by simp [MetaSpeaks])
  obtain ⟨ch'', r', x₃, tr₃, -, h₃, rfl⟩ := run_ask.1 h₂
  cases r' with
  | error e =>
    obtain ⟨rfl, rfl, -⟩ := run_ret.1 h₃
    exact hnone (by simp [OffMove]) (by simp [MetaSpeaks])
  | ok _ =>
    have hid := utf8_uuidText r
    -- the time is asked for in the first `try` block
    have htime : ∀ {t : List Ev},
        MetaSpeaks env req ([⟨⟨.mkUUID, .urandom⟩, ch, r⟩, ⟨⟨.checkTopic, .getTopics⟩, ch', ts⟩,
        ⟨⟨.accessSrcDir, .access (dirname req.filepath) .W_OK⟩, ch'', .ok ()⟩] ++ t) ↔ MetaSpeaks env req t := by
      simp [MetaSpeaks]
    rcases run_bind.1 h₃ with ⟨res, x₄, tr₄, tr₅, h₄, h₅, rfl⟩ | ⟨e, h₄, rfl⟩ | ⟨y, h₄, rfl⟩
    · have hoff : AllAt OffMove tr₄ :=
        h₄.calls (startSend_calls (C := fun c : Call => OffMove c.site) fun _ _ hs => hsend _ hs)
      have hmeta : MetaSpeaks env req tr₄ := by
        obtain ⟨-, hm⟩ | ⟨he, -⟩ := run_startSend_end hid h₄ (by simp)
        · exact hm
        · cases he
      cases res with
      | Bad_Request m =>
        obtain ⟨rfl, rfl, -⟩ := run_ret.1 h₅
        rw [List.append_nil]
        exact hnone (by simp [OffMove, hoff]) (htime.2 hmeta)
      | Ok fi =>
        have hcrc := run_prepareSend_crc (run_startSend_ok h₄)
        have hpre : AllAt OffMove ([⟨⟨.mkUUID, .urandom⟩, ch, r⟩, ⟨⟨.checkTopic, .getTopics⟩, ch', ts⟩,
            ⟨⟨.accessSrcDir, .access (dirname req.filepath) .W_OK⟩, ch'', .ok ()⟩] ++ tr₄) := by
          simp [OffMove, hoff]
        have hfate := (SendFate.aside hpre allAt_nil).2 (run_finishSend_fate h₅ hf)
        have hinfo : filled .sendInfo tr₅ = [] :=
          filled_of_allAt (S := fun s => ¬ SendSite s) (h₅.calls finishSend_sites) (by decide)
        have hlate : doneAt .time tr₅ = false :=
          doneAt_of_allAt (S := fun s => ¬ SendSite s) (h₅.calls finishSend_sites) (by decide)
        rw [hcrc] at hfate
        refine .inl ⟨by simpa [hinfo] using hfate, htime.2 fun hd => hmeta ?_⟩
        rw [show tr₄.append tr₅ = tr₄ ++ tr₅ from rfl, doneAt_append, hlate, Bool.or_false] at hd
        exact hd
    · obtain ⟨⟨r, he⟩, -⟩ | ⟨he, hm⟩ := run_startSend_end hid h₄ (by simp)
      · cases he
      · cases he
        exact .inr ⟨rfl, fun hall => hm (htime.1 hall)⟩
    · obtain ⟨⟨r, he⟩, -⟩ | ⟨he, -⟩ := run_startSend_end hid h₄ (by simpa using hf)
      · cases he
      · cases he

/-- `Agent::send_file` responds unless a check of its move goes wrong, there can be no buffer for a copy, `mkdtemp`
failed, or its metadata cannot be written as JSON. -/
theorem run_sendFile_reply {req : SendFileRequest} {o : Outcome Exn (Response Str)}
    (h : Run M (sendFile env req) x tr o x')
    (hf : o ≠ .stop .fuel) :
    (∃ r, o = .ret r) ↔ failedAt .mkdtemp tr = false ∧ BlocksFit tr ∧ ChecksPass (crcText (filled .sendInfo tr)) tr ∧
      MetaSpeaks env req tr := by
  obtain ⟨hfate, hm⟩ | ⟨rfl, hm⟩ := run_sendFile_fate h hf
  · rw [hfate.reply]
    simp only [hm, and_true]
  · refine iff_of_false ?_ fun hall => hm hall.2.2.2
    rintro ⟨r, hr⟩
    cases hr

end Runs

end Methods

end OortAgent
