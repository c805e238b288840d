import OortAgent.CacheRun
import OortAgent.Endings
import OortAgent.Lib.Rely
import OortAgent.Routes

/-!
# The texts of the agent are well-formed

What the agent says comes from the metadata that it parsed, from the topics that it was given, from its
configuration and from the request, and all of these are well-formed UTF-8.

* `Speaks`: a part of the agent that says only well-formed texts, in its results and in its exceptions. If it is
  mild, it throws no other exceptions than `runtime_error`s.
* `Speaks.call`, `Speaks.bind`, `Speaks.handle`, `Speaks.loop`: rules.
* `speaks_readTransferMetaCached`, `speaks_filesInfoLoop`, `speaks_moveFile`: the parts.
-/

namespace OortAgent

open Lib

/-- The directory, the texts of errors and what the parser accepts are well-formed. -/
structure Env.Spoken (env : Env) : Prop where
  workdir : utf8 env.workdir = true
  strerror : ∀ c, utf8 (env.strerror c) = true
  codec : ∀ b tm, env.codec.parse b = some tm → tm.texts.all utf8 = true

/-- A cached value: metadata has well-formed texts only, and names of metadata files have their extension. -/
def Said : (c : CacheId) → c.Val → Prop
  | .metainfo, tm => tm.texts.all utf8 = true
  | .metafile, names => ∀ n ∈ names, endsWith n META_EXT = true
  | .dir, _ => True

/-- The topics and the cached metadata are well-formed. -/
structure World.Spoken (w : World) : Prop where
  topics : ∀ t ∈ w.topics, utf8 t = true
  caches : ∀ c key t v, (w.caches c).contents.lookup key = some (t, v) → Said c v

/-- What is handed to an operation. -/
def Op.says : Op → Prop
  | .cacheStore c _ _ v => Said c v
  | .setTopics ts => ∀ t ∈ ts, utf8 t = true
  | _ => True

/-- What an operation answers. -/
def Op.tells : (op : Op) → op.Res → Prop
  | .cacheFind c _, r => ∀ v, r = .inl v → Said c v
  | .cacheStore c _ _ _, r => ∃ v, r = some v ∧ Said c v
  | .getTopics, ts => ∀ t ∈ ts, utf8 t = true
  | .mkstemp tmpl, r => ∀ p i, r = .ok (p, i) → ∃ pick, FS.Pick pick ∧ p = FS.fromTemplate tmpl pick
  | _, _ => True

/-- A hit is an entry. -/
theorem Cache.find_hit {T : Type} {c : Cache T} {ticks : Nat → Int} {key : Str} {v : T}
    (h : (c.find ticks key).2 = .inl v) :
    ∃ t, c.contents.lookup key = some (t, v) := by
  rw [find_eq] at h
  cases hl : (c.opened ticks).contents.lookup key with
  | none =>
    rw [hl] at h
    cases h
  | some x =>
    obtain ⟨created, v'⟩ := x
    rw [hl] at h
    dsimp only at h
    split at h
    · cases h
    · cases h
      exact ⟨created, (opened_spec c ticks).2.2.1 key _ hl⟩

theorem World.Spoken.same {w w' : World} (h : w.Spoken) (ht : w'.topics = w.topics) (hc : w'.caches = w.caches) :
    w'.Spoken := by
  constructor
  · rw [ht]
    exact h.topics
  · rw [hc]
    exact h.caches

/-- A change to one cache. -/
theorem World.Spoken.cache {w : World} (h : w.Spoken) (c : CacheId) {c' : Cache c.Val}
    (hc : ∀ key t v, c'.contents.lookup key = some (t, v) → Said c v) :
    World.Spoken { w with caches := Function.update w.caches c c' } := by
  refine ⟨h.topics, fun d key t v hv => ?_⟩
  by_cases hd : d = c
  · subst hd
    dsimp only at hv
    rw [Function.update_self] at hv
    exact hc key t v hv
  · dsimp only at hv
    rw [Function.update_of_ne hd] at hv
    exact h.caches d key t v hv

/-- An operation on something else than the topics and the caches. -/
def Op.elsewhere : Op → Bool
  | .setTopics _ => false
  | .cacheFind _ _ => false
  | .cacheStore _ _ _ _ => false
  | _ => true

theorem exec_elsewhere {w w' : World} {op : Op} {ch : Choice} {r : op.Res} (he : op.exec ch w = some (r, w'))
    (h : op.elsewhere = true) : w'.topics = w.topics ∧ w'.caches = w.caches := by
  cases op
  case setTopics => cases h
  case cacheFind => cases h
  case cacheStore => cases h
  case cacheLock c =>
    simp only [Op.exec] at he
    split at he
    · cases he
    · cases he
      exact ⟨rfl, rfl⟩
  case cacheUnlock c =>
    cases he
    exact ⟨rfl, rfl⟩
  case urandom =>
    simp only [Op.exec] at he
    split at he
    · cases he
      exact ⟨rfl, rfl⟩
    · cases he
  case openWrite p =>
    obtain ⟨i, fs, -, -, rfl⟩ | ⟨e, -, rfl⟩ := exec_openWrite he <;> exact ⟨rfl, rfl⟩
  case write i b =>
    obtain ⟨n, -, -, -, -, rfl⟩ | ⟨e, -, rfl, -⟩ := exec_write he <;> exact ⟨rfl, rfl⟩
  case rename a b =>
    obtain ⟨fs, -, -, -, rfl⟩ | ⟨e, -, rfl, -⟩ := exec_rename he <;> exact ⟨rfl, rfl⟩
  case unlink p =>
    obtain ⟨fs, -, -, rfl⟩ | ⟨e, -, rfl, -⟩ := exec_unlink he <;> exact ⟨rfl, rfl⟩
  case rmdir p =>
    obtain ⟨fs, -, -, rfl⟩ | ⟨e, -, rfl⟩ := exec_rmdir he <;> exact ⟨rfl, rfl⟩
  case mkdtemp tmpl =>
    obtain ⟨p, fs, -, -, rfl⟩ | ⟨e, -, rfl⟩ := exec_mkdtemp he <;> exact ⟨rfl, rfl⟩
  case mkstemp tmpl =>
    obtain ⟨p, i, fs, -, -, rfl⟩ | ⟨e, -, rfl⟩ := exec_mkstemp he <;> exact ⟨rfl, rfl⟩
  all_goals
    have hw := exec_looks he rfl
    subst hw
    exact ⟨rfl, rfl⟩

/-- No operation enables or disables a cache. -/
theorem exec_enabled {w w' : World} {op : Op} {ch : Choice} {r : op.Res} (he : op.exec ch w = some (r, w'))
    (c : CacheId) :
    (w'.caches c).enabled = (w.caches c).enabled := by
  have hupdate : ∀ (d : CacheId) (x : Cache d.Val), x.enabled = (w.caches d).enabled →
      (Function.update w.caches d x c).enabled = (w.caches c).enabled := by
    intro d x hx
    by_cases hd : c = d
    · subst hd
      rw [Function.update_self, hx]
    · rw [Function.update_of_ne hd]
  cases op
  case cacheFind d key =>
    cases he
    exact hupdate d _ (Cache.find_frame _ _ _).2.1
  case cacheStore d key now v =>
    cases he
    refine hupdate d _ ?_
    unfold Cache.emplace
    split <;> rfl
  case setTopics =>
    cases he
    rfl
  all_goals rw [(exec_elsewhere he rfl).2]

/-- An operation that is handed well-formed texts keeps them, and answers with them. -/
theorem World.Spoken.exec {w w' : World} {op : Op} {ch : Choice} {r : op.Res} (h : w.Spoken) (hs : op.says)
    (he : op.exec ch w = some (r, w')) : w'.Spoken ∧ op.tells r := by
  have hkeep : op.elsewhere = true → w'.Spoken := fun hq => h.same (exec_elsewhere he hq).1 (exec_elsewhere he hq).2
  cases op
  case getTopics =>
    cases he
    exact ⟨h, h.topics⟩
  case setTopics ts =>
    cases he
    exact ⟨⟨hs, h.caches⟩, trivial⟩
  case cacheFind c key =>
    cases he
    refine ⟨h.cache c fun k t v hv => h.caches c k t v (Cache.find_subset hv), fun v hv => ?_⟩
    obtain ⟨t, ht⟩ := Cache.find_hit hv
    exact h.caches c key t v ht
  case cacheStore c key now v =>
    cases he
    have hin : ∀ k t v', ((w.caches c).emplace key now v).contents.lookup k = some (t, v') → Said c v' := by
      intro k t v' hv
      rcases (Cache.emplace_frame (w.caches c) key now v).2.2 k _ hv with ⟨-, hx⟩ | hold
      · cases hx
        exact hs
      · exact h.caches c k t v' hold
    refine ⟨h.cache c hin, ?_⟩
    show ∃ v', ((w.caches c).emplace key now v).valueAt key = some v' ∧ Said c v'
    cases hl : ((w.caches c).emplace key now v).valueAt key with
    | none => exact absurd hl (valueAt_emplace_ne_none _ _ _ _)
    | some v' =>
      obtain ⟨⟨t, _⟩, hx, rfl⟩ := Option.map_eq_some_iff.1 hl
      exact ⟨_, rfl, hin key t _ hx⟩
  case mkstemp tmpl =>
    refine ⟨hkeep rfl, ?_⟩
    obtain ⟨p, i, fs, rfl, hm, -⟩ | ⟨e, rfl, -⟩ := exec_mkstemp he
    · intro q j hq
      cases hq
      obtain ⟨hpick, rfl, -⟩ := FS.mkstemp_ok hm
      exact ⟨_, hpick, rfl⟩
    · intro q j hq
      cases hq
  all_goals exact ⟨hkeep rfl, trivial⟩

/-! ## Parts of the agent -/

section Rules

variable {K K' : Exn → Prop} {X : Stop → Prop} {α β γ : Type}

/-- How a part may end: a result with `Q`, an exception with `K`, or a stop with `X`. -/
def Uttered (K : Exn → Prop) (X : Stop → Prop) (Q : α → Prop) : Outcome Exn α → Prop
  | .ret a => Q a
  | .throw e => K e
  | .stop x => X x

/-- As long as it is answered with well-formed texts, the part hands on well-formed texts only and ends so. -/
def Speaks (K : Exn → Prop) (X : Stop → Prop) (p : Prog α) (Q : α → Prop) : Prop :=
  p.Rely (fun c : Calls.Call => c.op.says) (fun c r => c.op.tells r) (Uttered K X Q)

theorem Speaks.call {Q : α → Prop} {s : Site} {op : Op} {k : op.Res → Prog α} (hs : op.says)
    (hk : ∀ r, op.tells r → Speaks K X (k r) Q) : Speaks K X ((sys s op).bind k) Q := ⟨hs, hk⟩

theorem Speaks.bind {P : α → Prop} {Q : β → Prop} {p : Prog α} {f : α → Prog β} (hp : Speaks K X p P)
    (hf : ∀ a, P a → Speaks K X (f a) Q) : Speaks K X (p.bind f) Q := by
  refine Proc.Rely.bind (hp.mono fun o ho => ?_)
  cases o with
  | ret a => exact hf a ho
  | throw e => exact ho
  | stop x => exact ho

theorem Speaks.handle {Q : α → Prop} {p : Prog α} {h : Exn → Prog α} (hp : Speaks K X p Q)
    (hh : ∀ e, K e → Speaks K' X (h e) Q) : Speaks K' X (p.handle h) Q := by
  refine Proc.Rely.handle (hp.mono fun o ho => ?_)
  cases o with
  | ret a => exact ho
  | throw e => exact hh e ho
  | stop x => exact ho

/-- `J` holds before each round. -/
theorem Speaks.loop {J : β → Prop} {Q : γ → Prop} {body : β → Prog (β ⊕ γ)} (hX : X .fuel)
    (hb : ∀ b, J b → Speaks K X (body b) (Sum.elim J Q)) (n : Nat) {b : β} (h : J b) :
    Speaks K X (Proc.loop n body b) Q := by
  refine Proc.Rely.loop (J := J) hX (fun b hJ => (hb b hJ).mono fun o ho => ?_) n b h
  cases o with
  | ret x => cases x <;> exact ho
  | throw e => exact ho
  | stop x => exact ho

/-- Consequence. -/
theorem Speaks.mono {P Q : α → Prop} {X' : Stop → Prop} {p : Prog α} (hp : Speaks K X p P) (hK : ∀ e, K e → K' e)
    (hX : ∀ x, X x → X' x) (h : ∀ a, P a → Q a) : Speaks K' X' p Q := by
  refine Proc.Rely.mono (fun o ho => ?_) hp
  cases o with
  | ret a => exact h a ho
  | throw e => exact hK e ho
  | stop x => exact hX x ho

/-- What a run ends with. -/
theorem Speaks.run {Q : α → Prop} {p : Prog α} {w w' : World} {tr : List Ev} {o : Outcome Exn α} (hp : Speaks K X p Q)
    (hw : w.Spoken) (h : Run Machine p w tr o w') : Uttered K X Q o ∧ w'.Spoken := by
  have hM : ∀ (c : Call) (ch : Choice) (v : World) (r : c.op.Res) (v' : World), c.op.says → v.Spoken →
      c.op.exec ch v = some (r, v') → v'.Spoken ∧ c.op.tells r := fun c ch v r v' hs hv he => hv.exec hs he
  exact h.rely hM hw hp

end Rules

/-- A `runtime_error`. -/
def Mild (e : Exn) : Prop := e.isRuntime = true

/-- A `runtime_error` with a well-formed text. -/
def Polite (env : Env) (e : Exn) : Prop := e.isRuntime = true ∧ utf8 (e.what env) = true

/-- If a handler reads the text, it is well-formed. -/
def Heard (env : Env) (e : Exn) : Prop := e.isRuntime = true → utf8 (e.what env) = true

section Parts

variable {env : Env} {K : Exn → Prop} {X : Stop → Prop}

/-- The constant texts in paths, in the messages of errors and in the answers to requests. -/
def phrases : List String :=
  ["/transfers", "/uploads", "/upgrades", "/dead", ".data.oort", "file_move_",
   "stat error: ", " is not a regular file", "error reading metadata", "error parsing metadata",
   "basic_filebuf::underflow error reading the file", "open error (xdev)", "mkstemp error (xdev)",
   "rename error (xdev)",
   "insufficient disk space for destination file", "move_file error - file exists", "Error renaming",
   "move_file: CRC Check failed on source file", "move_file: CRC Check failed on written file",
   "Error getting info on ", "File path ", "Destination path ", " is not absolute", "Topic ", " is not allowed",
   "Source directory not writable", "meta file unreadable for ",
   "Adcs interface is unavailable", "Tfrs interface is unavailable", "Request in progress", "Cannot translate command ",
   "Invalid aperture specification", "Error contacting service: ", "OK", "FAIL", "UNKNOWN", "NO-OP",
   "BDOT", "DETUMBLE", "SUNPOINT",
   "NADIRPOINTYAW", "SUNSPIN", "NADIRPOINTSUN", "SUNPOINTNADIR", "LATLONTRACK", "INERTIALPOINT", "PONG"]

theorem ascii_phrase {s : String} (h : s ∈ phrases) : ∀ c ∈ s.toList, c.toNat < 128 := by
  have hall : phrases.all fun p => p.toList.all fun c => decide (c.toNat < 128) := by decide +kernel
  intro c hc
  exact of_decide_eq_true (List.all_eq_true.1 (List.all_eq_true.1 hall s h) c hc)

theorem utf8_phrase {s : String} (h : s ∈ phrases) : utf8 s.toList = true := utf8_of_ascii (ascii_phrase h)

/-- A constant text and an error. -/
theorem polite_system (h : env.Spoken) {what : Str} (hw : ∀ c ∈ what, c.toNat < 128) (c : Errno) :
    Polite env (.system c what) := by
  refine ⟨rfl, ?_⟩
  rw [Exn.what, List.append_assoc, utf8_append (utf8_of_ascii hw), utf8_append (by decide)]
  exact h.strerror c

/-- An exception with a text of its own. -/
theorem polite_runtime {what : Str} (hw : utf8 what = true) (c : Errno) : Polite env (.runtime c what) := ⟨rfl, hw⟩

theorem speaks_endeaden (file : Str) : Speaks K X (endeaden env file) fun _ => True := by
  have hpair : ∀ p q, Speaks K X (endeadenPair env p q) fun _ => True :=
    fun p q => Speaks.call trivial fun _ _ => Speaks.call trivial fun _ _ => trivial
  unfold endeaden
  split
  · trivial
  · split
    · rename_i hm
      obtain ⟨s, rfl⟩ := endsWith_iff.1 hm
      rw [dataFile, chop_append]
      exact hpair _ _
    · split
      · rename_i hd
        obtain ⟨s, rfl⟩ := endsWith_iff.1 hd
        rw [metaFile, chop_append]
        exact hpair _ _
      · trivial

/-- `Agent::read_transfer_meta`: metadata that is returned was parsed. -/
theorem speaks_readTransferMeta (h : env.Spoken) (hX : X .fuel) (file : Str) :
    Speaks (Polite env) X (readTransferMeta env file) fun tm => tm.texts.all utf8 = true := by
  refine Speaks.call trivial fun r _ => ?_
  cases r with
  | error e => exact (speaks_endeaden file).bind fun _ _ => polite_runtime (utf8_phrase (by simp [phrases])) e
  | ok hd =>
    refine Speaks.bind (P := fun _ => True) (Speaks.loop (J := fun _ => True) hX (fun text _ => ?_) _ trivial)
      fun text _ => ?_
    · refine Speaks.call trivial fun r _ => ?_
      obtain ⟨b, bad⟩ := r
      dsimp only
      split
      · exact polite_system h (ascii_phrase (by simp [phrases])) _
      · split <;> trivial
    · cases hp : env.codec.parse text with
      | some tm => exact h.codec text tm hp
      | none => exact (speaks_endeaden file).bind fun _ _ => polite_runtime (utf8_phrase (by simp [phrases])) _

/-- `Cache::get`: a value is a hit, or what the wrapped function returned. -/
theorem speaks_cacheGet {c : CacheId} {key : Str} {fn : Prog c.Val} (h : Speaks K X fn (Said c)) :
    Speaks K X (cacheGet c key fn) (Said c) := by
  refine Speaks.call trivial fun enabled _ => ?_
  split
  · exact h
  · refine Speaks.call trivial fun _ _ => ?_
    refine Proc.Rely.ensure (Speaks.call trivial fun r hr => ?_) ⟨trivial, fun _ _ => rfl⟩
    cases r with
    | inl v => exact hr v rfl
    | inr now =>
      refine Speaks.bind h fun v hv => Speaks.call hv fun r hr => ?_
      obtain ⟨v', rfl, hv'⟩ := hr
      exact hv'

theorem speaks_readTransferMetaCached (h : env.Spoken) (hX : X .fuel) (file : Str) :
    Speaks (Polite env) X (readTransferMetaCached env file) fun tm => tm.texts.all utf8 = true :=
  speaks_cacheGet (c := .metainfo) (speaks_readTransferMeta h hX file)

/-! ### Files -/

/-- The exceptions of `file_stat`. -/
theorem speaks_fileStat {s : Site} {file : Str} (he : ∀ c, K (.runtime c ("stat error: ".toList ++ env.strerror c)))
    (hr : K (.runtime (.other 0) ("stat error: ".toList ++ file ++ " is not a regular file".toList))) :
    Speaks K X (fileStat env s file) fun _ => True := by
  refine Speaks.call trivial fun r _ => ?_
  cases r with
  | error c => exact he c
  | ok buf =>
    dsimp only
    split
    · trivial
    · exact hr

theorem speaks_fileInfo {s : Site} {file : Str} (hX : X .fuel)
    (he : ∀ c, K (.runtime c ("stat error: ".toList ++ env.strerror c)))
    (hr : K (.runtime (.other 0) ("stat error: ".toList ++ file ++ " is not a regular file".toList))) :
    Speaks K X (fileInfo env s file) fun _ => True := by
  refine (speaks_fileStat he hr).bind fun buf _ => Speaks.bind (P := fun _ => True) ?_ fun _ _ => trivial
  refine Speaks.call trivial fun r _ => ?_
  cases r with
  | error c => trivial
  | ok h =>
    refine Speaks.bind (P := fun _ => True) (Speaks.loop (J := fun _ => True) hX (fun x _ => ?_) _ trivial)
      fun _ _ => trivial
    refine Speaks.call trivial fun r _ => ?_
    dsimp only
    split <;> trivial

/-- The information on a file with a well-formed path. -/
theorem speaks_fileInfo_utf8 (h : env.Spoken) {s : Site} {file : Str} (hf : utf8 file = true) (hX : X .fuel) :
    Speaks (Polite env) X (fileInfo env s file) fun _ => True := by
  have hstat : utf8 "stat error: ".toList = true := utf8_phrase (by simp [phrases])
  refine speaks_fileInfo hX (fun c => polite_runtime ?_ c) (polite_runtime ?_ _)
  · rw [utf8_append hstat]
    exact h.strerror c
  · rw [List.append_assoc, utf8_append hstat, utf8_append hf]
    exact utf8_phrase (by simp [phrases])

theorem speaks_listFiles (s : Site) (dir ext : Str) :
    Speaks Mild X (listFiles s dir ext) fun names => ext ≠ [] → ∀ n ∈ names, endsWith n ext = true := by
  refine Speaks.call trivial fun r _ => ?_
  cases r with
  | error e => exact rfl
  | ok names =>
    intro hext n hn
    have hn' := (List.mem_filter.1 hn).2
    simp only [Bool.and_eq_true, Bool.or_eq_true, decide_eq_true_eq] at hn'
    exact hn'.2.resolve_left hext

/-- The names are not looked at, and errors of `stat` are skipped. -/
theorem speaks_fileNames (s : Site) (dir : Str) : Speaks Mild X (fileNames env s dir) fun _ => True := by
  have hstat : ∀ files, Speaks Mild X (statNames env s dir files) fun _ => True := by
    intro files
    induction files with
    | nil => trivial
    | cons f files ih =>
      have hstat : Speaks Mild X (fileStat env s (dir ++ '/' :: f)) fun _ => True :=
        speaks_fileStat (fun c => (rfl : Exn.isRuntime (.runtime c _) = true))
          (rfl : Exn.isRuntime (.runtime _ _) = true)
      have hone : Speaks Mild X ((fileStat env s (dir ++ '/' :: f)).bind fun _ => .ret [f]) fun _ => True :=
        hstat.bind fun _ _ => trivial
      refine Speaks.bind (P := fun _ => True) (Speaks.handle hone fun e he => ?_) fun _ _ => ih.bind fun _ _ => trivial
      rw [if_pos (show e.isRuntime = true from he)]
      trivial
  exact (speaks_listFiles s dir []).bind fun files _ => hstat files

/-! ### The files for a topic -/

/-- An entry with well-formed texts. -/
def Entry.Proper : Entry → Prop
  | .push fi => fi.texts.all utf8 = true
  | _ => True

theorem texts_fileInfo {tm : TransferMeta} (h : tm.texts.all utf8 = true) : tm.fileInfo.texts.all utf8 = true := by
  rw [List.all_eq_true] at h ⊢
  intro t ht
  exact h t (by simp [TransferMeta.texts, ht])

theorem speaks_filesInfoEntry (h : env.Spoken) (hX : X .fuel) {dir topic : Str} {it : Name}
    (hit : endsWith it META_EXT = true) :
    Speaks Mild X (filesInfoEntry env dir topic it) Entry.Proper := by
  obtain ⟨t, rfl⟩ := endsWith_iff.1 hit
  refine ((speaks_readTransferMetaCached h hX _).mono (fun e he => he.1) (fun _ hx => hx) fun _ ha => ha).bind
    fun tm htm => ?_
  split
  · trivial
  · have hpath : dir ++ '/' :: (t ++ META_EXT) = (dir ++ '/' :: t) ++ META_EXT := by simp
    rw [hpath, dataFile, chop_append]
    have hinfo : Speaks Mild X (fileInfo env .entryInfo ((dir ++ '/' :: t) ++ DATA_EXT)) fun _ => True :=
      speaks_fileInfo hX (fun c => (rfl : Exn.isRuntime (.runtime c _) = true))
        (rfl : Exn.isRuntime (.runtime _ _) = true)
    refine hinfo.bind fun fi _ => ?_
    split
    · exact (speaks_endeaden _).bind fun _ _ => trivial
    · exact texts_fileInfo htm

/-- The handler catches every exception. -/
theorem speaks_filesInfoRound (h : env.Spoken) (hX : X .fuel) {dir topic : Str} {it : Name}
    (hit : endsWith it META_EXT = true) :
    Speaks K X (filesInfoRound env dir topic it) Entry.Proper := by
  refine Speaks.handle (speaks_filesInfoEntry h hX hit) fun e he => ?_
  rw [if_pos (show e.isRuntime = true from he)]
  exact (speaks_endeaden _).bind fun _ _ => trivial

theorem speaks_filesInfoLoop (h : env.Spoken) (hX : X .fuel) {dir topic : Str} {its : List Name}
    (hits : ∀ it ∈ its, endsWith it META_EXT = true) {flist : List FileInfo}
    (hl : ∀ fi ∈ flist, fi.texts.all utf8 = true) :
    Speaks K X (filesInfoLoop env dir topic its flist) fun l => ∀ fi ∈ l, fi.texts.all utf8 = true := by
  induction its generalizing flist with
  | nil => exact hl
  | cons it its ih =>
    have hrest := fun it' h' => hits it' (List.mem_cons_of_mem _ h')
    refine (speaks_filesInfoRound h hX (hits it List.mem_cons_self)).bind fun x hx => ?_
    cases x with
    | skip => exact ih hrest hl
    | push fi =>
      have hl' : ∀ fi' ∈ flist ++ [fi], fi'.texts.all utf8 = true := by
        intro fi' h'
        rcases List.mem_append.1 h' with h' | h'
        · exact hl fi' h'
        · rw [List.mem_singleton.1 h']
          exact hx
      dsimp only
      split
      · exact hl'
      · exact ih hrest hl'
    | caught =>
      dsimp only
      split
      · exact hl
      · exact ih hrest hl

/-! ### Moving -/

theorem utf8_dirname {p : Str} (h : utf8 p = true) : utf8 (dirname p) = true := by
  by_cases hs : '/' ∈ p
  · rw [dirname_tailname hs] at h
    exact utf8_cut (by decide) h
  · rw [dirname, if_neg hs]
    exact h

/-- A name that `mkstemp` makes of a well-formed one. -/
theorem utf8_picked {d pick : Str} (hd : utf8 d = true) (hp : FS.Pick pick) :
    utf8 (FS.fromTemplate (moveTemplate d) pick) = true := by
  rw [fromTemplate_moveTemplate, utf8_append hd]
  refine utf8_of_ascii fun c hc => ?_
  simp only [List.mem_cons, List.mem_append] at hc
  rcases hc with rfl | hc | hc
  · decide
  · exact ascii_phrase (s := "file_move_") (by simp [phrases]) c hc
  · have halnum :
        (((decide (c.val ≥ 'A'.val ∧ c.val ≤ 'Z'.val) || (decide (c.val ≥ 'a'.val) && decide (c.val ≤ 'z'.val))) ||
        (decide (c.val ≥ '0'.val) && decide (c.val ≤ '9'.val))) : Bool) = true := List.all_eq_true.1 hp.2 c hc
    have hval : c.toNat = c.val.toNat := rfl
    simp only [Bool.or_eq_true, Bool.and_eq_true, decide_eq_true_eq, UInt32.le_iff_toNat_le] at halnum
    simp at halnum
    omega

section Moves

variable {src dest tmpdir dtname : Str} {fi : FileInfo} {blksize : Int}

theorem heard_system (h : env.Spoken) {what : Str} (hw : ∀ c ∈ what, c.toNat < 128) (c : Errno) :
    Heard env (.system c what) :=
  fun _ => (polite_system h hw c).2

theorem speaks_checked (h : env.Spoken) {s : Site} {file : Str} (hf : utf8 file = true) :
    Speaks (Heard env) (fun _ => True) (fileInfo env s file) fun _ => True :=
  (speaks_fileInfo_utf8 h hf (X := fun _ => True) trivial).mono (fun _ he _ => he.2) (fun _ hx => hx) fun _ ha => ha

/-- The copy and its check. -/
theorem speaks_copyInto (h : env.Spoken) (hn : utf8 dtname = true) (j : Ino) :
    Speaks (Heard env) (fun _ => True) (copyInto env tmpdir dest fi blksize dtname j) fun _ => True := by
  refine Speaks.call trivial fun r _ => ?_
  cases r with
  | error _ => exact heard_system h (ascii_phrase (by simp [phrases])) _
  | ok srcfd =>
    dsimp only
    split
    · exact fun hr => by cases hr
    refine Speaks.bind (P := fun _ => True) (Speaks.loop (J := fun _ => True) trivial (fun off _ => ?_) _ trivial)
      fun _ _ => ?_
    · refine Speaks.call trivial fun r _ => ?_
      split
      · trivial
      · trivial
      · exact Speaks.call trivial fun _ _ => trivial
    refine Speaks.call trivial fun _ _ => Speaks.call trivial fun _ _ => Speaks.call trivial fun _ _ => ?_
    refine (speaks_checked h hn).bind fun dfi _ => ?_
    split
    · exact fun _ => (polite_runtime (utf8_phrase (by simp [phrases])) _).2
    · exact Speaks.call trivial fun _ _ => Speaks.call trivial fun _ _ => Speaks.call trivial fun _ _ => trivial

/-- From the parking of the source on; the handler throws what it caught. -/
theorem speaks_parkAndCopy (h : env.Spoken) (hd : utf8 dest = true) :
    Speaks (Heard env) (fun _ => True) (parkAndCopy env src dest fi blksize tmpdir) fun _ => True := by
  refine Speaks.call trivial fun r _ => ?_
  cases r with
  | error _ => exact heard_system h (ascii_phrase (by simp [phrases])) _
  | ok _ =>
    refine Speaks.handle (K := Heard env) (Speaks.call trivial fun r hr => ?_) fun e he =>
      Speaks.call trivial fun _ _ => Speaks.call trivial fun _ _ => he
    cases r with
    | error _ => exact heard_system h (ascii_phrase (by simp [phrases])) _
    | ok x =>
      obtain ⟨dtname, destfd⟩ := x
      obtain ⟨pick, hpick, rfl⟩ := hr _ _ rfl
      exact speaks_copyInto h (utf8_picked (utf8_dirname hd) hpick) destfd

theorem speaks_copyAcross (h : env.Spoken) (hd : utf8 dest = true) :
    Speaks (Heard env) (fun _ => True) (copyAcross env src dest fi) fun _ => True := by
  refine Speaks.call trivial fun (srcvfs : Except Errno Unit × Vfs) _ =>
    Speaks.call trivial fun (destvfs : Except Errno Unit × Vfs) _ => ?_
  cases hfree : checkDiskFree env fi.size destvfs.2 with
  | false => exact heard_system h (ascii_phrase (by simp [phrases])) _
  | true =>
    refine Speaks.call trivial fun r _ => ?_
    cases r with
    | error _ => trivial
    | ok tmpdir => exact speaks_parkAndCopy h hd

/-- `Agent::move_file` between well-formed paths: the texts of its exceptions are well-formed. -/
theorem speaks_moveFile (h : env.Spoken) (hs : utf8 src = true) (hd : utf8 dest = true) :
    Speaks (Heard env) (fun _ => True) (moveFile env src dest fi) fun _ => True := by
  refine Speaks.call trivial fun r _ => ?_
  cases r with
  | ok _ => exact heard_system h (ascii_phrase (by simp [phrases])) _
  | error _ =>
    refine (speaks_checked h hs).bind fun pre _ => ?_
    split
    · exact fun _ => (polite_runtime (utf8_phrase (by simp [phrases])) _).2
    refine Speaks.call trivial fun r _ => ?_
    split
    · trivial
    · exact speaks_copyAcross h hd
    · exact heard_system h (ascii_phrase (by simp [phrases])) _

end Moves

end Parts

end OortAgent
