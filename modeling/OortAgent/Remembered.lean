import OortAgent.Calm
import OortAgent.SendRule
import OortAgent.Spoken

/-!
# What caches remember

An entry of a cache was true when it was made, and may be out of date. What a call of `Cache::get` does to the
world, when the wrapped function only looks, is said once here for whatever such functions find.

* `World.Holds`: an entry of a cache.
* `Learns`: everything else is as before, but for files, and new entries have a property.
* `calm_cacheGet`: a value is one that the cache had, or one that the wrapped function returns.
* `SoundPair`, `KnownPair`: the two files of a letter, and what the cache knows of them.
* `calm_readKnown`, `calm_readGone`: the metadata of a pair that is there, and of one that is not.
-/

namespace OortAgent

open Lib

/-- The value that a cache has for a key. -/
def World.Holds (w : World) (c : CacheId) (key : Str) (v : c.Val) : Prop :=
  ∃ t, (w.caches c).contents.lookup key = some (t, v)

/-- Only files and caches have changed, and what the caches have learned has the property. -/
structure Learns (P : (c : CacheId) → Str → c.Val → Prop) (w w' : World) : Prop where
  cwd : w'.fs.cwd = w.fs.cwd
  uuids : w'.uuids = w.uuids
  locked : w'.locked = w.locked
  enabled : ∀ c, (w'.caches c).enabled = (w.caches c).enabled
  holds : ∀ c key v, w'.Holds c key v → w.Holds c key v ∨ (w.caches c).enabled = true ∧ P c key v

section Learning

variable {P Q : (c : CacheId) → Str → c.Val → Prop} {w w₁ w' : World} {tr : List Ev} {c : CacheId} {key : Str}
  {ch : Choice}

theorem Learns.of_caches (hc : w'.fs.cwd = w.fs.cwd) (hu : w'.uuids = w.uuids) (hl : w'.locked = w.locked)
    (h : w'.caches = w.caches) : Learns P w w' := by
  refine ⟨hc, hu, hl, fun c => by rw [h], fun c key v hv => .inl ?_⟩
  rwa [World.Holds, h] at hv

theorem Learns.refl : Learns P w w := .of_caches rfl rfl rfl rfl

theorem OnlyFiles.learns (h : OnlyFiles w w') : Learns P w w' := by
  obtain ⟨hw, hc⟩ := h
  refine .of_caches hc ?_ ?_ ?_
  all_goals rw [hw]

theorem Learns.trans (h : Learns P w w₁) (h' : Learns P w₁ w') : Learns P w w' := by
  refine ⟨h'.cwd.trans h.cwd, h'.uuids.trans h.uuids, h'.locked.trans h.locked, fun c =>
    (h'.enabled c).trans (h.enabled c), ?_⟩
  intro c key v hv
  rcases h'.holds c key v hv with hv | ⟨hen, hv⟩
  · exact h.holds c key v hv
  · exact .inr ⟨(h.enabled c).symm.trans hen, hv⟩

theorem Learns.mono (h : Learns P w w') (hPQ : ∀ c key v, P c key v → Q c key v) : Learns Q w w' where
  cwd := h.cwd
  uuids := h.uuids
  locked := h.locked
  enabled := h.enabled
  holds c key v hv := (h.holds c key v hv).imp_right (And.imp_right (hPQ c key v))

/-- An entry after one cache was changed. -/
theorem holds_update {x : Cache c.Val} {d : CacheId} {k : Str} {v : d.Val}
    (h : World.Holds { w with caches := Function.update w.caches c x } d k v)
    (hx : ∀ e, x.contents.lookup k = some e → (w.caches c).contents.lookup k = some e) : w.Holds d k v := by
  obtain ⟨t, ht⟩ := h
  dsimp only at ht
  by_cases hd : d = c
  · subst hd
    rw [Function.update_self] at ht
    exact ⟨t, hx _ ht⟩
  · rw [Function.update_of_ne hd] at ht
    exact ⟨t, ht⟩

/-- Looking up a key makes a cache forget. -/
theorem learns_find {r : c.Val ⊕ Int} (he : (Op.cacheFind c key).exec ch w = some (r, w')) :
    Learns P w w' ∧ w'.fs = w.fs ∧ ∀ v, r = .inl v → w.Holds c key v := by
  have hen := fun d => exec_enabled he d
  cases he
  refine ⟨⟨rfl, rfl, rfl, hen, fun d k v hv => .inl ?_⟩, rfl, fun v hv => ?_⟩
  · exact holds_update hv fun e he => Cache.find_subset he
  · exact Cache.find_hit hv

/-- Storing a value: it is there, or an older one. -/
theorem learns_store {now : Int} {v : c.Val} {r : Option c.Val}
    (he : (Op.cacheStore c key now v).exec ch w = some (r, w'))
    (hen : (w.caches c).enabled = true) (hP : P c key v) :
    Learns P w w' ∧ w'.fs = w.fs ∧ ∃ v', r = some v' ∧ (v' = v ∨ w.Holds c key v') := by
  have hen' := fun d => exec_enabled he d
  cases he
  refine ⟨⟨rfl, rfl, rfl, hen', fun d k v' hv => ?_⟩, rfl, ?_⟩
  · obtain ⟨t, ht⟩ := hv
    by_cases hd : d = c
    · subst hd
      dsimp only at ht
      rw [Function.update_self] at ht
      rcases (Cache.emplace_frame _ _ _ _).2.2 k _ ht with ⟨rfl, hx⟩ | ht
      · cases hx
        exact .inr ⟨hen, hP⟩
      · exact .inl ⟨t, ht⟩
    · dsimp only at ht
      rw [Function.update_of_ne hd] at ht
      exact .inl ⟨t, ht⟩
  · cases hl : (w.caches c).contents.lookup key with
    | none => exact ⟨v, Cache.valueAt_emplace hl, .inl rfl⟩
    | some x =>
      refine ⟨x.2, ?_, .inr ⟨x.1, hl⟩⟩
      simp [Cache.emplace, Cache.valueAt, hl]

/-- The wrapped function only looks, and its outcomes are among these, whatever the caches hold. -/
def Finds (fs : FS) (fn : Prog c.Val) (O : Outcome Exn c.Val → Prop) : Prop :=
  ∀ ⦃w : World⦄ ⦃tr : List Ev⦄ ⦃o : Outcome Exn c.Val⦄ ⦃w' : World⦄, w.fs = fs → Run Machine fn w tr o w' →
    Along Machine Clean w tr → w' = w ∧ O o

variable {fn : Prog c.Val} {O : Outcome Exn c.Val → Prop} {o : Outcome Exn c.Val}

/-- What `Cache::get` does under the lock. -/
theorem calm_locked (h : Run Machine (locked c key fn) w tr o w') (ha : Along Machine Clean w tr)
    (hfn : Finds w.fs fn O)
    (hen : (w.caches c).enabled = true) (hP : ∀ v, O (.ret v) → P c key v) :
    Learns P w w' ∧ w'.fs = w.fs ∧ (O o ∨ ∃ v, o = .ret v ∧ w.Holds c key v) := by
  obtain ⟨ch, r, w₁, tr', he, hk, rfl⟩ := run_call.1 h
  have ha' := ((along_cons he).1 ha).2
  obtain ⟨hL, hfs, hhit⟩ := learns_find (P := P) he
  cases r with
  | inl v =>
    obtain ⟨-, rfl, rfl⟩ := run_ret.1 hk
    exact ⟨hL, hfs, .inr ⟨v, rfl, hhit v rfl⟩⟩
  | inr now =>
    rcases run_bind.1 hk with ⟨v, w₂, tr₁, tr₂, h₁, h₂, rfl⟩ | ⟨e, h₁, rfl⟩ | ⟨x, h₁, rfl⟩
    · obtain ⟨rfl, hv⟩ := hfn hfs h₁ (h₁.along.1 ha').1
      obtain ⟨ch', r', w₃, tr₃, he', hk', rfl⟩ := run_call.1 h₂
      obtain ⟨hL', hfs', v', rfl, hv'⟩ := learns_store (P := P) he' ((hL.enabled c).trans hen) (hP v hv)
      obtain ⟨-, rfl, rfl⟩ := run_ret.1 hk'
      refine ⟨hL.trans hL', hfs'.trans hfs, ?_⟩
      obtain rfl | hold := hv'
      · exact .inl hv
      · obtain hold | ⟨-, hno⟩ := (learns_find (P := fun _ _ _ => False) he).1.holds _ _ _ hold
        · exact .inr ⟨v', rfl, hold⟩
        · exact hno.elim
    · obtain ⟨rfl, hv⟩ := hfn hfs h₁ ha'
      exact ⟨hL, hfs, .inl hv⟩
    · obtain ⟨rfl, hv⟩ := hfn hfs h₁ ha'
      exact ⟨hL, hfs, .inl hv⟩

/-- **A calm `Cache::get`.** Nothing but the cache changes. It returns a value that the cache had, or does what the
wrapped function does. -/
theorem calm_cacheGet (h : Run Machine (cacheGet c key fn) w tr o w') (ha : Along Machine Clean w tr)
    (hfn : Finds w.fs fn O)
    (hP : ∀ v, O (.ret v) → P c key v) (hstop : ∀ x, ¬ O (.stop x)) :
    Learns P w w' ∧ w'.fs = w.fs ∧ (O o ∨ (w.caches c).enabled = true ∧ ∃ v, o = .ret v ∧ w.Holds c key v) := by
  obtain ⟨ch, en, w₁, tr', he, hk, rfl⟩ := run_call.1 h
  have ha' := ((along_cons he).1 ha).2
  obtain ⟨rfl, rfl⟩ : (w.caches c).enabled = en ∧ w = w₁ := by
    cases he
    exact ⟨rfl, rfl⟩
  cases hen : (w.caches c).enabled with
  | false =>
    rw [hen] at hk
    obtain ⟨rfl, ho⟩ := hfn rfl hk ha'
    exact ⟨.refl, rfl, .inl ho⟩
  | true =>
    rw [hen, if_neg (by simp)] at hk
    obtain ⟨ch₁, r₁, w₁, tr₂, he₁, hk₁, rfl⟩ := run_call.1 hk
    have ha₁ := ((along_cons he₁).1 ha').2
    -- the lock was free, and it is free again at the end
    obtain ⟨hfree, rfl⟩ : w.locked c = false ∧ w₁ = { w with locked := Function.update w.locked c true } := by
      simp only [Op.exec] at he₁
      split at he₁
      · cases he₁
      · rename_i hf
        cases he₁
        exact ⟨by simpa using hf, rfl⟩
    have hbody : ∀ {tr : List Ev} {o : Outcome Exn c.Val} {w₂ w' : World},
        Run Machine (locked c key fn) { w with locked := Function.update w.locked c true } tr o w₂ →
        Along Machine Clean { w with locked := Function.update w.locked c true } tr →
        w' = { w₂ with locked := Function.update w₂.locked c false } →
        Learns P w w' ∧ w'.fs = w.fs ∧ (O o ∨ true = true ∧ ∃ v, o = .ret v ∧ w.Holds c key v) := by
      rintro tr o w₂ w' h₂ ha₂ rfl
      obtain ⟨hL, hfs, ho⟩ := calm_locked (P := P) h₂ ha₂ hfn hen hP
      refine ⟨⟨hL.cwd, hL.uuids, ?_, hL.enabled, hL.holds⟩, hfs, ho.imp_right fun hv => ⟨rfl, hv⟩⟩
      dsimp only
      rw [hL.locked, Function.update_idem, ← hfree, Function.update_eq_self]
    rcases run_ensure.1 hk₁ with ⟨x, hb, rfl⟩ | ⟨o₁, w₂, tr₃, tr₄, -, hb, rfl, hfin⟩
    · obtain ⟨-, -, hx | ⟨v, hv, -⟩⟩ := calm_locked (P := P) hb ha₁ hfn hen hP
      · exact absurd hx (hstop x)
      · cases hv
    · have ha₃ := (hb.along.1 ha₁).1
      rcases hfin with ⟨hu, rfl⟩ | ⟨e, hu, -⟩ | ⟨x, hu, -⟩
      · obtain ⟨ch₄, r₄, w₄, t, he₄, hr, rfl⟩ := run_sys.1 hu
        obtain ⟨-, -, rfl⟩ := run_ret.1 hr
        cases he₄
        exact hbody hb ha₃ rfl
      all_goals
        obtain ⟨ch₄, r₄, w₄, t, -, hr, rfl⟩ := run_sys.1 hu
        cases (run_ret.1 hr).2.1

end Learning

/-! ## Reading metadata -/

section Read

variable {env : Env} {w w' : World} {tr : List Ev} {l : Loc} {text : Bytes} {tm : TransferMeta} {id : Str}

/-- A call that was not refused did not fail. -/
theorem fine_of_served {α : Type} {p : Prog α} {o : Outcome Exn α} (h : Run Machine p w tr o w') (hs : Served tr) :
    Along Machine Fine w tr := by
  induction h with
  | ret a w => exact trivial
  | throw e w => exact trivial
  | stop x w => exact trivial
  | @sys c k w w₁ w' tr o ch r he _ ih =>
    obtain ⟨hr, hs'⟩ := served_cons.1 hs
    refine (along_cons he).2 ⟨?_, ih hs'⟩
    obtain ⟨site, op⟩ := c
    have hr' : op.refused r = false := hr
    show op.fine r w.fs = true
    cases op <;> first | rfl | skip
    case openRead p => cases r <;> first | rfl | cases hr'
    case readdir p => cases r <;> first | rfl | cases hr'
    case fill h off n => simpa [Op.refused, Op.fine] using hr'
    case stat p => cases r <;> first | rfl | cases hr'
    case rename a b => cases r <;> first | rfl | cases hr'

/-- Metadata that can be read and parsed is returned. -/
theorem calm_readTransferMeta {p : Str} {o : Outcome Exn TransferMeta}
    (h : Run Machine (readTransferMeta env p) w tr o w')
    (ha : Along Machine Clean w tr) (hl : w.fs.resolve p = .ok l) (hd : w.fs.look l = some (.file text true))
    (hp : env.codec.parse text = some tm) (hf : text.length < env.fuel) : o = .ret tm ∧ w' = w := by
  obtain ⟨i, hi, rfl, hr⟩ := FS.look_eq_file.1 hd
  obtain ⟨ch, r, w₁, tr', he, hk, rfl⟩ := run_call.1 h
  obtain ⟨⟨herr, -⟩, ha'⟩ := (along_cons he).1 ha
  have hw := exec_looks he rfl
  subst hw
  have hans : r = .ok (.file i) := by
    rw [← pathOpen_readable hl hi hr, ← inject_calm herr (w₁.fs.pathOpen p)]
    exact (Prod.mk.inj (Option.some.inj he)).1.symm
  subst hans
  have hread : ∀ {tr : List Ev} {o : Outcome Exn Bytes} {w' : World},
      Run Machine (readAll env .readMeta (.file i)) w₁ tr o w' →
      Along Machine Clean w₁ tr → o = .ret (w₁.fs.inode i).data ∧ w' = w₁ := by
    intro tr o w' h₁ ha₁
    have hfills : (readAll env .readMeta (.file i)).Calls fun c : Call => ∃ off n, c.op = .fill (.file i) off n :=
      Proc.Calls.loop (fun y => readRound_calls y fun off n => ⟨off, n, rfl⟩) _ _
    exact run_readLoop rfl h₁ (fine_of_served h₁ (calm_fills h₁ hfills ha₁)) rfl (by simpa using hf)
  obtain ⟨b, w₂, tr₁, tr₂, h₁, ha₁, h₂, -, rfl⟩ := hk.bind_along ha' fun h ha => ⟨_, (hread h ha).1⟩
  obtain ⟨hb, rfl⟩ := hread h₁ ha₁
  cases hb
  rw [hp] at h₂
  obtain ⟨-, rfl, rfl⟩ := run_ret.1 h₂
  exact ⟨rfl, rfl⟩

/-- The quarantine of a pair that is not there does nothing. -/
theorem endeaden_nothing {d : Str} {o : Outcome Exn Unit} (hd : d ≠ []) (hid : '/' ∉ id)
    (h : Run Machine (endeaden env (d ++ '/' :: (id ++ META_EXT))) w tr o w')
    (hm : w.fs.node (metaAt (norm w.fs.cwd d) id) = none)
    (hf : w.fs.node (dataAt (norm w.fs.cwd d) id) = none) : o = .ret () ∧ w' = w := by
  have hsplit : ∀ e, d ++ '/' :: (id ++ e) = (d ++ '/' :: id) ++ e := fun e => by simp
  have hrename : ∀ {s : Site} {ext b : Str} {ch : Choice} {r : Except Errno Unit} {w₁ : World}, IsExt ext →
      w.fs.node ((id ++ ext) :: norm w.fs.cwd d) = none →
      (Op.rename ((d ++ '/' :: id) ++ ext) b).exec ch w = some (r, w₁) → w₁ = w := by
    intro s ext b ch r w₁ hx hnone he
    obtain ⟨fs, -, -, hr, -⟩ | ⟨e, -, rfl, -⟩ := exec_rename he
    · have hsrc := FS.rename_src (FS.pathRename_ok hr).2.2
      rw [← hsplit, norm_child hd (hx.plain hid)] at hsrc
      exact absurd hnone hsrc
    · rfl
  rw [hsplit, endeaden_meta] at h
  split at h
  · obtain ⟨ch₁, r₁, w₁, tr₁, e₁, h₁, rfl⟩ := run_sys.1 h
    obtain ⟨ch₂, r₂, w₂, tr₂, e₂, h₂, rfl⟩ := run_sys.1 h₁
    obtain ⟨-, rfl, rfl⟩ := run_ret.1 h₂
    have hw₁ : w₁ = w := hrename (s := .endeaden) (.inl rfl) hm e₁
    subst hw₁
    exact ⟨rfl, hrename (s := .endeadenTwin) (.inr rfl) hf e₂⟩
  · obtain ⟨-, rfl, rfl⟩ := run_ret.1 h
    exact ⟨rfl, rfl⟩

end Read

/-! ## Pairs -/

/-- A sound pair: its metadata parses and gives the checksum of its data, and both can be read. -/
structure SoundPair (env : Env) (fs : FS) (D : Loc) (id : Str) (tm : TransferMeta) (data : Bytes) : Prop where
  note : ∃ text, fs.look (metaAt D id) = some (.file text true) ∧ env.codec.parse text = some tm
  file : fs.look (dataAt D id) = some (.file data true)
  crc : tm.fileInfo.crc32 = crcText data

/-- The metadata and the data are what is there. -/
theorem SoundPair.unique {env : Env} {fs : FS} {D : Loc} {id : Str} {tm tm' : TransferMeta} {data data' : Bytes}
    (h : SoundPair env fs D id tm data) (h' : SoundPair env fs D id tm' data') : tm = tm' ∧ data = data' := by
  obtain ⟨text, htext, hparse⟩ := h.note
  obtain ⟨text', htext', hparse'⟩ := h'.note
  rw [htext] at htext'
  cases htext'
  have hfile := h.file
  rw [h'.file] at hfile
  cases hfile
  exact ⟨Option.some.inj (hparse.symm.trans hparse'), rfl⟩

/-- Nothing of a pair is in the directory. -/
def NoPair (fs : FS) (D : Loc) (id : Str) : Prop := ∀ ext, IsExt ext → fs.look ((id ++ ext) :: D) = none

theorem NoPair.node {fs : FS} {D : Loc} {id ext : Str} (h : NoPair fs D id) (hx : IsExt ext) :
    fs.node ((id ++ ext) :: D) = none :=
  FS.look_eq_none.1 (h ext hx)

/-- The directory is there and can be changed. -/
structure Open (fs : FS) (d : Str) : Prop where
  resolve : fs.resolve d = .ok (norm fs.cwd d)
  writable : fs.writable (norm fs.cwd d) = true

/-- The loops of the model are long enough for all files. -/
def Fits (env : Env) (fs : FS) : Prop := ∀ l i, fs.node l = some (.file i) → (fs.inode i).data.length < env.fuel

theorem Fits.look {env : Env} {fs : FS} {l : Loc} {data : Bytes} {b : Bool} (h : Fits env fs)
    (hl : fs.look l = some (.file data b)) : data.length < env.fuel := by
  obtain ⟨i, hi, rfl, -⟩ := FS.look_eq_file.1 hl
  exact h l i hi

/-- What an entry says that is made now: the metadata of a pair, the names of the metadata in `uploads`, or those of
the files of a directory. -/
def Current (env : Env) (fs : FS) : (c : CacheId) → Str → c.Val → Prop
  | .metainfo, key, tm => ∃ d id data, (d = env.transferDir ∨ d = env.uploadDir) ∧ '/' ∉ id ∧
      key = d ++ '/' :: (id ++ META_EXT) ∧ SoundPair env fs (norm fs.cwd d) id tm data
  | .metafile, key, files => key = env.uploadDir ∧ ∃ names : List Name,
      names.Perm (['.'] :: ['.', '.'] :: fs.children (env.inbox fs)) ∧ files = (stems names).map (· ++ META_EXT)
  | .dir, key, names => ∃ D, fs.resolve key = .ok D ∧
      ∀ n, Plain n → (n ∈ names ↔ n.head? ≠ some '.' ∧ ∃ k, fs.node (n :: D) = some (.file k))

section Pairs

variable {env : Env} {w w' : World} {tr : List Ev} {d d' id id' : Str} {tm : TransferMeta} {data : Bytes}

/-- A sound pair of which the cache knows no other metadata. -/
structure KnownPair (env : Env) (w : World) (d id : Str) (tm : TransferMeta) (data : Bytes) : Prop where
  sound : SoundPair env w.fs (norm w.fs.cwd d) id tm data
  held : ∀ tm', w.Holds .metainfo (d ++ '/' :: (id ++ META_EXT)) tm' → tm' = tm

/-- The path of metadata says of which pair it is. -/
theorem metaPath_inj (h : '/' ∉ id) (h' : '/' ∉ id')
    (he : d ++ '/' :: (id ++ META_EXT) = d' ++ '/' :: (id' ++ META_EXT)) :
    d = d' ∧ id = id' := by
  have hn : ∀ {t : Str}, '/' ∉ t → '/' ∉ t ++ META_EXT := fun ht => (IsExt.plain (.inl rfl) ht).2.2.2
  have hdir := congrArg dirname he
  have hname := congrArg tailname he
  rw [dirname_child (hn h), dirname_child (hn h')] at hdir
  rw [tailname_child (hn h), tailname_child (hn h')] at hname
  exact ⟨hdir, List.append_cancel_right hname⟩

theorem KnownPair.learns (h : KnownPair env w d id tm data) (hid : '/' ∉ id) (hL : Learns (Current env w.fs) w w')
    (hfs : w'.fs = w.fs) : KnownPair env w' d id tm data := by
  refine ⟨by rw [hfs]; exact h.sound, fun tm' hv => ?_⟩
  obtain hv | ⟨-, d', id', data', -, hid', hkey, hP⟩ := hL.holds _ _ _ hv
  · exact h.held tm' hv
  · obtain ⟨rfl, rfl⟩ := metaPath_inj hid hid' hkey
    exact (hP.unique h.sound).1

/-- Both files of a pair are there, or neither is. -/
def WholePair (env : Env) (w : World) (d id : Str) : Prop :=
  NoPair w.fs (norm w.fs.cwd d) id ∨ ∃ tm data, KnownPair env w d id tm data

theorem WholePair.learns (h : WholePair env w d id) (hid : '/' ∉ id) (hL : Learns (Current env w.fs) w w')
    (hfs : w'.fs = w.fs) :
    WholePair env w' d id := by
  obtain hno | ⟨tm, data, hP⟩ := h
  · exact .inl (by rw [hfs]; exact hno)
  · exact .inr ⟨tm, data, hP.learns hid hL hfs⟩

/-- The metadata of a pair that is there. -/
theorem calm_readKnown {o : Outcome Exn TransferMeta} (hd : d = env.transferDir ∨ d = env.uploadDir) (hid : '/' ∉ id)
    (h : Run Machine (readTransferMetaCached env (d ++ '/' :: (id ++ META_EXT))) w tr o w')
    (ha : Along Machine Clean w tr)
    (hO : Open w.fs d) (hP : KnownPair env w d id tm data) (hfit : Fits env w.fs) :
    o = .ret tm ∧ w'.fs = w.fs ∧ Learns (Current env w.fs) w w' := by
  have hm : w.fs.resolve (d ++ '/' :: (id ++ META_EXT)) = .ok (metaAt (norm w.fs.cwd d) id) :=
    FS.resolve_child hO.resolve (FS.isDir_of_writable hO.writable) (IsExt.plain (.inl rfl) hid)
  obtain ⟨text, htext, hparse⟩ := hP.sound.note
  have hfn : Finds w.fs (c := .metainfo) (readTransferMeta env (d ++ '/' :: (id ++ META_EXT))) fun o =>
    o = .ret tm := by
    intro w₁ tr₁ o₁ w₂ hfs h₁ ha₁
    rw [← hfs] at hm htext hfit
    obtain ⟨ho, hw⟩ := calm_readTransferMeta h₁ ha₁ hm htext hparse (hfit.look htext)
    exact ⟨hw, ho⟩
  obtain ⟨hL, hfs, ho | ⟨-, tm', ho, hv⟩⟩ := calm_cacheGet (P := Current env w.fs) h ha hfn (fun v hv => by
    cases hv
    exact ⟨d, id, data, hd, hid, rfl, hP.sound⟩) fun x hx => by cases hx
  · exact ⟨ho, hfs, hL⟩
  · rw [hP.held tm' hv] at ho
    exact ⟨ho, hfs, hL⟩

/-- The metadata of a pair that is gone, or was never there: the cache may have it. -/
theorem calm_readGone {o : Outcome Exn TransferMeta} (hne : d ≠ []) (hid : '/' ∉ id)
    (h : Run Machine (readTransferMetaCached env (d ++ '/' :: (id ++ META_EXT))) w tr o w')
    (ha : Along Machine Clean w tr)
    (hO : Open w.fs d) (hno : NoPair w.fs (norm w.fs.cwd d) id) :
    w'.fs = w.fs ∧ Learns (Current env w.fs) w w' ∧ ((∃ e, o = .throw e ∧ e.isRuntime = true) ∨
      (w.caches .metainfo).enabled = true ∧ ∃ tm, o = .ret tm ∧
        w.Holds .metainfo (d ++ '/' :: (id ++ META_EXT)) tm) := by
  have hres : w.fs.resolve (d ++ '/' :: (id ++ META_EXT)) = .ok (metaAt (norm w.fs.cwd d) id) :=
    FS.resolve_child hO.resolve (FS.isDir_of_writable hO.writable) (IsExt.plain (.inl rfl) hid)
  have hfn : Finds w.fs (c := .metainfo) (readTransferMeta env (d ++ '/' :: (id ++ META_EXT))) fun o =>
      ∃ e, o = .throw e ∧ e.isRuntime = true := by
    intro w₁ tr₁ o₁ w₂ hfs h₁ ha₁
    rw [← hfs] at hno hres
    have hm : w₁.fs.node (metaAt (norm w₁.fs.cwd d) id) = none := hno.node (.inl rfl)
    have hf : w₁.fs.node (dataAt (norm w₁.fs.cwd d) id) = none := hno.node (.inr rfl)
    obtain ⟨ch, r, w₃, tr₂, he, hk, rfl⟩ := run_call.1 h₁
    have hw := exec_looks he rfl
    subst hw
    cases r with
    | ok x =>
      have hopen := (inject_ok (Prod.mk.inj (Option.some.inj he)).1).2
      rw [FS.pathOpen, hres] at hopen
      simp [hm] at hopen
    | error e =>
      rcases run_bind.1 hk with ⟨u, w₄, tr₃, tr₄, h₃, h₄, rfl⟩ | ⟨e', h₃, -⟩ | ⟨y, h₃, -⟩
      · obtain ⟨-, rfl⟩ := endeaden_nothing hne hid h₃ hm hf
        obtain ⟨-, rfl, rfl⟩ := run_throw.1 h₄
        exact ⟨rfl, _, rfl, rfl⟩
      · cases (endeaden_nothing hne hid h₃ hm hf).1
      · cases (endeaden_nothing hne hid h₃ hm hf).1
  obtain ⟨hL, hfs, ho | hv⟩ := calm_cacheGet (P := Current env w.fs) h ha hfn (fun v hv => by
    obtain ⟨e, he, -⟩ := hv
    cases he) fun x hx => by
      obtain ⟨e, he, -⟩ := hx
      cases he
  · exact ⟨hfs, hL, .inl ho⟩
  · exact ⟨hfs, hL, .inr hv⟩

end Pairs

end OortAgent
