import OortAgent.Quarantine
import OortAgent.Served

/-!
# What a query finds

`Agent::query_available` reads the metadata files of `uploads` in the order of the directory, checks the data of
those with its topic, and puts the bad ones into quarantine on the way; it stops at one file more than it may
report.

- `appraise`: what a query makes of an entry;
- `run_filesInfoRound`, `run_filesInfoLoop`: one entry, and all of them;
- `queryAvailable_exact`: the report and what the query leaves behind.
-/

namespace OortAgent

open Lib

/-! ## Calls that do not fail -/

/-- A call of a query did not fail, unless it asked for or renamed something that is not there. -/
def Op.fine : (op : Op) → op.Res → FS → Bool
  | .openRead _, .error _, _ => false
  | .readdir _, .error _, _ => false
  | .fill _ _ _, r, _ => !r.2
  | .stat p, .error _, fs => (fs.locate p).isNone
  | .rename a _, .error _, fs => (fs.locate a).isNone
  | _, _, _ => true

/-- The same of an event. -/
def Fine (w : World) (e : Ev) : Prop := e.call.op.fine e.res w.fs = true

section Reads

variable {env : Env} {s : Site} {w w' : World} {tr : List Ev} {k : Ino}

/-- A file is read to its end. -/
theorem run_readLoop {h : Handle} (hk : h = .file k) : ∀ {n : Nat} {text : Bytes} {w : World} {tr : List Ev}
    {o : Outcome Exn Bytes},
    Run Machine (Proc.loop n (readRound s h) text) w tr o w' → Along Machine Fine w tr →
    text = (w.fs.inode k).data.take text.length → (w.fs.inode k).data.length - text.length < n →
    o = .ret (w.fs.inode k).data ∧ w' = w
  | 0, _, _, _, _, _, _, _, hn => absurd hn (Nat.not_lt_zero _)
  | n + 1, text, w, tr, o, hr, ha, ht, hn => by
    subst hk
    obtain ⟨ch, ⟨b, bad⟩, w₁, tr', he, hr', rfl⟩ := run_call.1 hr
    obtain ⟨hbad, ha'⟩ := (along_cons he).1 ha
    have hbad' : bad = false := by simpa [Fine, Op.fine] using hbad
    subst hbad'
    have hb : b = ((w.fs.inode k).data.drop text.length).take 8191 := exec_fill he rfl
    have hw := exec_looks he rfl
    subst hw
    have hlen : b.length = min 8191 ((w₁.fs.inode k).data.length - text.length) := by
      rw [hb, List.length_take, List.length_drop]
    have happ : text ++ b = (w₁.fs.inode k).data.take (text ++ b).length := by
      conv_lhs => rw [ht, hb]
      rw [← List.take_add, List.length_append, hlen]
      rcases Nat.le_total 8191 ((w₁.fs.inode k).data.length - text.length) with hle | hle
      · rw [Nat.min_eq_left hle]
      · rw [Nat.min_eq_right hle, List.take_of_length_le (by omega), List.take_of_length_le (by omega)]
    simp only [Proc.pure_eq, Proc.ret_bind, Bool.false_eq_true, if_false] at hr'
    split at hr'
    · rename_i hshort
      obtain ⟨-, rfl, rfl⟩ := run_ret.1 hr'
      refine ⟨?_, rfl⟩
      rw [happ, List.take_of_length_le]
      rw [List.length_append]
      omega
    · refine run_readLoop rfl hr' ha' happ ?_
      rw [List.length_append]
      omega

/-- The operation opens a file or reads from it. -/
def Op.gets : Op → Bool
  | .openRead _ => true
  | .fill _ _ _ => true
  | _ => false

theorem getCrc_gets (file : Str) : (getCrc env s file).Calls (fun c : Call => c.op.gets = true) := by
  refine calls_call.2 ⟨rfl, fun r => ?_⟩
  cases r with
  | error e => trivial
  | ok h =>
    refine (Proc.Calls.loop (fun x => ?_) _ _).bind fun _ => trivial
    refine calls_call.2 ⟨rfl, fun r => ?_⟩
    dsimp only
    split <;> trivial

/-- Reads that do not fail are served. -/
theorem served_of_gets {α : Type} {p : Prog α} {o : Outcome Exn α} (h : Run Machine p w tr o w')
    (hp : p.Calls (fun c : Call => c.op.gets = true)) (ha : Along Machine Fine w tr) : Served tr := by
  induction h with
  | ret a w => simp [Served]
  | throw e w => simp [Served]
  | stop x w => simp [Served]
  | @sys c k w w₁ w' tr o ch r he _ ih =>
    obtain ⟨hf, ha'⟩ := (along_cons he).1 ha
    refine served_cons.2 ⟨?_, ih (hp.2 r) ha'⟩
    obtain ⟨site, op⟩ := c
    have hgets : op.gets = true := hp.1
    cases op <;> first | (cases hgets; done) | skip
    · cases r with
      | error e => cases hf
      | ok x => rfl
    · simpa [Fine, Op.fine, Op.refused] using hf

/-- The `stat` of a file that is there is served. -/
theorem fileStat_fine {file : Str} {o : Outcome Exn Stat} {l : Loc} (h : Run Machine (fileStat env s file) w tr o w')
    (ha : Along Machine Fine w tr) (hl : w.fs.resolve file = .ok l) (hk : w.fs.node l = some (.file k)) :
    Served tr := by
  obtain ⟨ch, r, w₁, tr', he, hr, rfl⟩ := run_call.1 h
  obtain ⟨hf, -⟩ := (along_cons he).1 ha
  cases r with
  | error e =>
    have hthere : w.fs.locate file = some l := FS.locate_eq_some.2 ⟨hl, by simp [hk]⟩
    cases hthere.symm.trans (Option.isNone_iff_eq_none.1 hf)
  | ok st =>
    have hst : st.isReg = true := by
      have hstat := (inject_ok (Prod.mk.inj (Option.some.inj he)).1).2
      unfold FS.pathStat at hstat
      rw [hl] at hstat
      simp only [hk] at hstat
      cases hstat
      rfl
    dsimp only at hr
    rw [if_pos hst] at hr
    obtain ⟨rfl, -, -⟩ := run_ret.1 hr
    refine served_cons.2 ⟨?_, by simp [Served]⟩
    simp [Op.refused, hst]

/-- What `fileInfo` says of a file, and that it throws if there is none. -/
theorem run_fileInfo_fine {file : Str} {o : Outcome Exn FileInfo} {l : Loc}
    (h : Run Machine (fileInfo env s file) w tr o w')
    (ha : Along Machine Fine w tr) (hl : w.fs.resolve file = .ok l)
    (hf : ∀ i, w.fs.node l = some (.file i) → (w.fs.inode i).data.length < env.fuel) :
    w' = w ∧ match w.fs.node l with
      | some (.file i) => o = .ret (infoOf file (w.fs.inode i))
      | _ => ∃ e, o = .throw e ∧ e.isRuntime = true := by
  have hn := FS.resolve_norm hl
  refine ⟨(Run.looks h (fileInfo_calls file)).1, ?_⟩
  split
  · rename_i i hi
    refine fileInfo_served h ?_ (by rw [← hn, hi]) (hf i hi)
    rcases run_bind.1 h with ⟨st, w₁, tr₁, tr₂, h₁, h₂, rfl⟩ | ⟨e, h₁, -⟩ | ⟨x, h₁, -⟩
    · obtain ⟨ha₁, ha₂⟩ := h₁.along.1 ha
      refine served_append.2 ⟨fileStat_fine h₁ ha₁ hl hi, ?_⟩
      exact served_of_gets h₂ ((getCrc_gets file).bind fun _ => trivial) ha₂
    · exact fileStat_fine h₁ ha hl hi
    · exact fileStat_fine h₁ ha hl hi
  · rename_i hno
    obtain ⟨-, -, ⟨e, what, rfl, -⟩ | ⟨⟨i, hi⟩, -⟩⟩ := run_fileInfo h
    · exact ⟨_, rfl, rfl⟩
    · rw [← hn] at hi
      exact absurd hi (hno i)

end Reads

/-! ## Quarantine of an entry -/

/-- What is at `a` was moved to `b`, with everything below it. -/
structure Hauled (fs fs' : FS) (a b : Loc) : Prop where
  moved : fs.node a ≠ none → fs'.node b = fs.node a
  gone : fs'.node a = none
  others : ∀ l, ¬ a <:+ l → ¬ b <:+ l → fs'.node l = fs.node l
  inode : fs'.inode = fs.inode
  cwd : fs'.cwd = fs.cwd

/-- The files of the entries `ts` were moved from `D` to `G`. -/
structure Swept (fs fs' : FS) (D G : Loc) (ts : List Str) : Prop where
  moved : ∀ t ∈ ts, ∀ e, IsExt e → fs.node ((t ++ e) :: D) ≠ none → fs'.node ((t ++ e) :: G) = fs.node ((t ++ e) :: D)
  gone : ∀ t ∈ ts, ∀ e, IsExt e → fs'.node ((t ++ e) :: D) = none
  others : ∀ l, (∀ t ∈ ts, ∀ e, IsExt e → ¬ (t ++ e) :: D <:+ l ∧ ¬ (t ++ e) :: G <:+ l) → fs'.node l = fs.node l
  inode : fs'.inode = fs.inode
  cwd : fs'.cwd = fs.cwd

section Sweep

variable {fs fs₁ fs' : FS} {a b D G : Loc} {ts ts' : List Str}

theorem hauled_of_rename (h : fs.rename a b = .ok fs') (hab : a ≠ b) : Hauled fs fs' a b :=
  ⟨fun _ => (FS.rename_target h).1, FS.rename_frees h hab, fun _ ha hb => FS.node_rename_frame h ha hb,
    (FS.rename_frame h).1, FS.rename_cwd h⟩

theorem hauled_of_none (h : fs.node a = none) : Hauled fs fs a b :=
  ⟨fun hne => absurd h hne, h, fun _ _ _ => rfl, rfl, rfl⟩

theorem swept_nil : Swept fs fs D G [] := ⟨by simp, by simp, fun _ _ => rfl, rfl, rfl⟩

/-- Locations of one depth are below each other only if they are equal. -/
theorem suffix_entries {x y : Name} {D E : Loc} (hlen : D.length = E.length) (h : x :: D <:+ y :: E) : x = y ∧ D = E :=
  List.cons.inj (h.eq_of_length (by simp [hlen]))

theorem IsExt.length {e : Str} (h : IsExt e) : e.length = 10 := by
  rcases h with rfl | rfl <;> decide

/-- Files of different entries have different names. -/
theorem stem_ne {t t' e e' : Str} (ht : t ≠ t') (he : IsExt e) (he' : IsExt e') : t ++ e ≠ t' ++ e' :=
  fun heq => ht (List.append_inj_left' heq (he.length.trans he'.length.symm))

/-- The two files of an entry, one after the other. -/
theorem Hauled.swept {t : Str} (hlen : D.length = G.length)
    (h₁ : Hauled fs fs₁ ((t ++ META_EXT) :: D) ((t ++ META_EXT) :: G))
    (h₂ : Hauled fs₁ fs' ((t ++ DATA_EXT) :: D) ((t ++ DATA_EXT) :: G)) : Swept fs fs' D G [t] := by
  have hdata : ∀ {E F : Loc}, E.length = F.length → ¬ (t ++ DATA_EXT) :: E <:+ (t ++ META_EXT) :: F :=
    fun hl h => ext_ne (suffix_entries hl h).1.symm
  have hmeta : ∀ {E F : Loc}, E.length = F.length → ¬ (t ++ META_EXT) :: E <:+ (t ++ DATA_EXT) :: F :=
    fun hl h => ext_ne (suffix_entries hl h).1
  refine ⟨fun t' ht e he hne => ?_, fun t' ht e he => ?_, fun l hl => ?_, h₂.inode.trans h₁.inode, h₂.cwd.trans h₁.cwd⟩
  · cases List.mem_singleton.1 ht
    rcases he with rfl | rfl
    · rw [h₂.others _ (hdata hlen) (hdata rfl)]
      exact h₁.moved hne
    · have hold := h₁.others ((t ++ DATA_EXT) :: D) (hmeta rfl) (hmeta hlen.symm)
      rw [← hold]
      exact h₂.moved (hold ▸ hne)
  · cases List.mem_singleton.1 ht
    rcases he with rfl | rfl
    · rw [h₂.others _ (hdata rfl) (hdata hlen.symm)]
      exact h₁.gone
    · exact h₂.gone
  · have hm := hl t (List.mem_singleton.2 rfl) META_EXT (.inl rfl)
    have hd := hl t (List.mem_singleton.2 rfl) DATA_EXT (.inr rfl)
    rw [h₂.others l hd.1 hd.2, h₁.others l hm.1 hm.2]

/-- A quarantine leaves the files of the other entries in their directory. -/
theorem Swept.kept (h : Swept fs fs' D G ts) (hlen : D.length = G.length) {t : Str} (ht : t ∉ ts) {e : Str}
    (he : IsExt e) :
    fs'.node ((t ++ e) :: D) = fs.node ((t ++ e) :: D) := by
  refine h.others _ fun t' ht' e' he' => ?_
  have hne : t' ++ e' ≠ t ++ e := stem_ne (fun heq => ht (heq ▸ ht')) he' he
  exact ⟨fun hs => hne (suffix_entries rfl hs).1, fun hs => hne (suffix_entries hlen.symm hs).1⟩

/-- One quarantine after another, of other entries. -/
theorem Swept.trans (h₁ : Swept fs fs₁ D G ts) (h₂ : Swept fs₁ fs' D G ts') (hlen : D.length = G.length)
    (hne : ∀ t ∈ ts, t ∉ ts') : Swept fs fs' D G (ts ++ ts') := by
  refine ⟨fun t ht e he hnode => ?_, fun t ht e he => ?_, fun l hl => ?_, h₂.inode.trans h₁.inode, h₂.cwd.trans h₁.cwd⟩
  · rcases List.mem_append.1 ht with ht | ht
    · rw [← h₁.moved t ht e he hnode]
      refine h₂.others _ fun t' ht' e' he' => ?_
      have hdiff : t' ++ e' ≠ t ++ e := stem_ne (fun heq => hne t ht (heq ▸ ht')) he' he
      exact ⟨fun hs => hdiff (suffix_entries hlen hs).1, fun hs => hdiff (suffix_entries rfl hs).1⟩
    · have hold := h₁.kept hlen (fun hin => hne t hin ht) he
      rw [← hold]
      exact h₂.moved t ht e he (hold ▸ hnode)
  · by_cases ht' : t ∈ ts'
    · exact h₂.gone t ht' e he
    · rw [h₂.kept hlen ht' he]
      exact h₁.gone t ((List.mem_append.1 ht).resolve_right ht') e he
  · rw [h₂.others l fun t ht => hl t (List.mem_append_right _ ht), h₁.others l fun t ht =>
      hl t (List.mem_append_left _ ht)]

end Sweep

/-- The path of a name in `uploads`. -/
def Env.upload (env : Env) (n : Name) : Str := env.uploadDir ++ '/' :: n

/-- The location of `uploads`. -/
def Env.inbox (env : Env) (fs : FS) : Loc := norm fs.cwd env.uploadDir

section Entry

variable {env : Env} {w w' : World} {tr : List Ev} {t : Str}

theorem inbox_grave (fs : FS) : env.inbox fs ≠ env.grave fs ∧ (env.inbox fs).length = (env.grave fs).length := by
  rw [Env.inbox, Env.grave, norm_uploadDir, norm_deadletterDir]
  exact ⟨by simp, rfl⟩

theorem norm_upload {fs : FS} {n : Name} (hn : Plain n) : norm fs.cwd (env.upload n) = n :: env.inbox fs :=
  norm_child uploadDir_ne_nil hn

/-- The two renames of an entry, in a run in which no call fails. -/
theorem run_endeaden_fine (ht : '/' ∉ t) {o : Outcome Exn Unit}
    (h : Run Machine (endeaden env (env.upload (t ++ META_EXT))) w tr o w')
    (ha : Along Machine Fine w tr) : o = .ret () ∧ w'.caches = w.caches ∧ ∃ fs₁,
      (w.fs.locate (env.upload (t ++ META_EXT)) = none ∧ fs₁ = w.fs ∨
        w.fs.rename ((t ++ META_EXT) :: env.inbox w.fs) ((t ++ META_EXT) :: env.grave w.fs) = .ok fs₁) ∧
      (fs₁.locate (env.upload (t ++ DATA_EXT)) = none ∧ w'.fs = fs₁ ∨
        fs₁.rename ((t ++ DATA_EXT) :: env.inbox w.fs) ((t ++ DATA_EXT) :: env.grave w.fs) = .ok w'.fs) := by
  have hupload : ∀ e, env.upload (t ++ e) = (env.uploadDir ++ '/' :: t) ++ e := by
    intro e
    simp [Env.upload]
  have hcovers : env.covers (env.upload (t ++ META_EXT)) = true :=
    covers_iff.2 (.inr (.inl (startsWith_iff.2 ⟨'/' :: (t ++ META_EXT), rfl⟩)))
  have hgrave : ∀ {fs : FS} {e : Str}, fs.cwd = w.fs.cwd → IsExt e →
      norm fs.cwd (env.deadletterDir ++ '/' :: tailname (env.upload (t ++ e))) = (t ++ e) :: env.grave w.fs := by
    intro fs e hc he
    rw [Env.upload, tailname_child (he.plain ht).2.2.2, hc]
    exact norm_child deadletterDir_ne_nil (he.plain ht)
  have hinbox : ∀ {fs : FS} {e : Str}, fs.cwd = w.fs.cwd → IsExt e →
      norm fs.cwd (env.upload (t ++ e)) = (t ++ e) :: env.inbox w.fs := by
    intro fs e hc he
    rw [hc]
    exact norm_upload (he.plain ht)
  rw [hupload, endeaden_meta, ← hupload, ← hupload, if_pos hcovers] at h
  obtain ⟨ch₁, r₁, w₁, tr₁, e₁, h₁, rfl⟩ := run_sys.1 h
  obtain ⟨ch₂, r₂, w₂, tr₂, e₂, h₂, rfl⟩ := run_sys.1 h₁
  obtain ⟨-, rfl, rfl⟩ := run_ret.1 h₂
  obtain ⟨hf₁, ha₁⟩ := (along_cons e₁).1 ha
  obtain ⟨hf₂, -⟩ := (along_cons e₂).1 ha₁
  have hw₁ : w₁.caches = w.caches ∧ w₁.fs.cwd = w.fs.cwd := by
    rcases exec_rename e₁ with ⟨fs, -, -, hr, rfl⟩ | ⟨e, -, rfl, -⟩
    · exact ⟨rfl, FS.rename_cwd (FS.pathRename_ok hr).2.2⟩
    · exact ⟨rfl, rfl⟩
  have hw₂ : w'.caches = w₁.caches := by
    rcases exec_rename e₂ with ⟨fs, -, -, hr, rfl⟩ | ⟨e, -, rfl, -⟩
    · rfl
    · rfl
  refine ⟨rfl, hw₂.trans hw₁.1, w₁.fs, ?_, ?_⟩
  · rcases exec_rename e₁ with ⟨fs, -, -, hr, rfl⟩ | ⟨e, rfl, rfl, -⟩
    · have hren := (FS.pathRename_ok hr).2.2
      rw [hinbox rfl (.inl rfl), hgrave rfl (.inl rfl)] at hren
      exact .inr hren
    · exact .inl ⟨Option.isNone_iff_eq_none.1 hf₁, rfl⟩
  · rcases exec_rename e₂ with ⟨fs, -, -, hr, rfl⟩ | ⟨e, rfl, rfl, -⟩
    · have hren := (FS.pathRename_ok hr).2.2
      rw [hinbox hw₁.2 (.inr rfl), hgrave hw₁.2 (.inr rfl)] at hren
      exact .inr hren
    · exact .inl ⟨Option.isNone_iff_eq_none.1 hf₂, rfl⟩

/-- The quarantine of an entry that is there. -/
theorem run_endeaden_entry (ht : '/' ∉ t) {o : Outcome Exn Unit}
    (h : Run Machine (endeaden env (env.upload (t ++ META_EXT))) w tr o w')
    (ha : Along Machine Fine w tr) {i : Ino} (hi : w.fs.node ((t ++ META_EXT) :: env.inbox w.fs) = some (.file i))
    (hres : w.fs.resolve (env.upload (t ++ META_EXT)) = .ok ((t ++ META_EXT) :: env.inbox w.fs)) :
    o = .ret () ∧ w'.caches = w.caches ∧ Swept w.fs w'.fs (env.inbox w.fs) (env.grave w.fs) [t] := by
  obtain ⟨hne, hlen⟩ : env.inbox w.fs ≠ env.grave w.fs ∧ _ := inbox_grave w.fs
  obtain ⟨ho, hcaches, fs₁, hfirst, hsecond⟩ := run_endeaden_fine ht h ha
  refine ⟨ho, hcaches, ?_⟩
  have hren : w.fs.rename ((t ++ META_EXT) :: env.inbox w.fs) ((t ++ META_EXT) :: env.grave w.fs) = .ok fs₁ := by
    refine hfirst.resolve_left fun hnone => ?_
    rw [FS.locate_eq_some.2 ⟨hres, by simp [hi]⟩] at hnone
    cases hnone.1
  obtain ⟨hnode, -, -, hcwd⟩ := FS.rename_file hren hi
  have h₁ : Hauled w.fs fs₁ ((t ++ META_EXT) :: env.inbox w.fs) ((t ++ META_EXT) :: env.grave w.fs) :=
    hauled_of_rename hren fun e => hne (List.cons.inj e).2
  refine h₁.swept hlen ?_
  rcases hsecond with ⟨hnone, rfl⟩ | hren₂
  · -- the directories are where they were
    have hdirs : ∀ l, w.fs.isDir l = true → w'.fs.isDir l = true := by
      intro l hl
      obtain ⟨v, b, hv⟩ := FS.isDir_iff.1 hl
      refine FS.isDir_iff.2 ⟨v, b, ?_⟩
      rw [hnode, if_neg, if_neg, hv]
      · rintro rfl
        rw [hi] at hv
        cases hv
      · rintro rfl
        have hfree : w.fs.isDir ((t ++ META_EXT) :: env.grave w.fs) = false := by
          obtain ⟨-, -, -, -, -, ⟨e, -⟩ | ⟨j, -, -, hb, -⟩ | ⟨hd, -⟩⟩ := FS.rename_cases hren
          · exact absurd (List.cons.inj e).2 hne
          · exact hb
          · obtain ⟨v, b, hd⟩ := FS.isDir_iff.1 hd
            cases hi.symm.trans hd
        rw [hfree] at hl
        cases hl
    have hres' : w'.fs.resolve (env.upload (t ++ DATA_EXT)) = .ok ((t ++ DATA_EXT) :: env.inbox w.fs) :=
      FS.resolve_mono hdirs hcwd (FS.resolve_sibling (IsExt.plain (.inl rfl) ht) (IsExt.plain (.inr rfl) ht) hres)
    refine hauled_of_none ?_
    by_contra hthere
    rw [FS.locate_eq_some.2 ⟨hres', hthere⟩] at hnone
    cases hnone
  · exact hauled_of_rename hren₂ fun e => hne (List.cons.inj e).2

/-- The quarantine of an entry that is gone. -/
theorem run_endeaden_gone (ht : '/' ∉ t) {o : Outcome Exn Unit}
    (h : Run Machine (endeaden env (env.upload (t ++ META_EXT))) w tr o w')
    (ha : Along Machine Fine w tr) (hgone : ∀ e, IsExt e → w.fs.node ((t ++ e) :: env.inbox w.fs) = none) :
    o = .ret () ∧ w'.caches = w.caches ∧ w'.fs = w.fs := by
  obtain ⟨ho, hcaches, fs₁, hfirst, hsecond⟩ := run_endeaden_fine ht h ha
  refine ⟨ho, hcaches, ?_⟩
  have h₁ : fs₁ = w.fs := by
    rcases hfirst with ⟨-, e⟩ | hren
    · exact e
    · exact absurd (hgone _ (.inl rfl)) (FS.rename_src hren)
  subst h₁
  rcases hsecond with ⟨-, e⟩ | hren
  · exact e
  · exact absurd (hgone _ (.inr rfl)) (FS.rename_src hren)

end Entry

/-! ## One entry -/

/-- The loops of the model are long enough for the files of `uploads`. -/
def Short (env : Env) (fs : FS) : Prop :=
  ∀ n i, fs.node (n :: env.inbox fs) = some (.file i) → (fs.inode i).data.length < env.fuel

theorem Swept.short {env : Env} {fs fs' : FS} {ts : List Str} (h : Swept fs fs' (env.inbox fs) (env.grave fs) ts)
    (hs : Short env fs) : Short env fs' := by
  have hlen : (env.inbox fs).length = (env.grave fs).length := (inbox_grave fs).2
  intro n i hn
  have hbox : env.inbox fs' = env.inbox fs := by rw [Env.inbox, h.cwd, Env.inbox]
  rw [hbox] at hn
  rw [h.inode]
  refine hs n i ?_
  rw [← hn]
  refine (h.others _ fun t ht e he => ?_).symm
  have hne : t ++ e ≠ n := by
    rintro rfl
    rw [h.gone t ht e he] at hn
    cases hn
  exact ⟨fun hsuf => hne (suffix_entries rfl hsuf).1, fun hsuf => hne (suffix_entries hlen.symm hsuf).1⟩

/-- What a query makes of an entry: it reports it, leaves it alone, or puts it into quarantine. -/
inductive Appraisal
  | good (fi : FileInfo)
  | other
  | bad

/-- The metadata of the entry, if its file is regular and can be parsed. -/
def metaOf (env : Env) (fs : FS) (t : Str) : Option TransferMeta :=
  match fs.node ((t ++ META_EXT) :: env.inbox fs) with
  | some (.file i) => env.codec.parse (fs.inode i).data
  | _ => none

/-- The data of the entry is a regular file with the checksum. -/
def dataHas (env : Env) (fs : FS) (t crc : Str) : Bool :=
  match fs.node ((t ++ DATA_EXT) :: env.inbox fs) with
  | some (.file i) => decide (crc = crcText (fs.inode i).data)
  | _ => false

/-- An entry, for a topic. -/
def appraise (env : Env) (fs : FS) (topic t : Str) : Appraisal :=
  match metaOf env fs t with
  | none => .bad
  | some tm =>
    if tm.topic ≠ topic then .other
    else if dataHas env fs t tm.fileInfo.crc32 then .good tm.fileInfo else .bad

/-- The metadata files that a run opened. -/
def scanned (tr : List Ev) : List Str := tr.filterMap fun e => match e.call with
  | ⟨.readMeta, .openRead p⟩ => some p
  | _ => none

theorem scanned_append (tr tr' : List Ev) : scanned (tr ++ tr') = scanned tr ++ scanned tr' := by simp [scanned]

section Round

variable {env : Env} {w w' : World} {tr : List Ev} {t topic : Str}

theorem scanned_eq_nil (h : ∀ e ∈ tr, e.call.site ≠ .readMeta ∨ ∀ p, e.call.op ≠ .openRead p) : scanned tr = [] := by
  refine List.filterMap_eq_nil_iff.2 fun e he => ?_
  have hne := h e he
  split
  · rename_i p hc
    rw [hc] at hne
    exact (hne.resolve_left (by simp) p rfl).elim
  · rfl

/-- A quarantine opens nothing. -/
theorem endeaden_scans {p : Str} {o : Outcome Exn Unit} (h : Run Machine (endeaden env p) w tr o w') :
    scanned tr = [] :=
  scanned_eq_nil fun e he => .inl (h.calls (endeaden_sites (P := (· ≠ .readMeta)) (by simp) (by simp) p) e he)

/-- A disabled cache calls its function. -/
theorem run_cacheGet_disabled {c : CacheId} {key : Str} {fn : Prog c.Val} {o : Outcome Exn c.Val}
    (h : Run Machine (cacheGet c key fn) w tr o w') (hdis : (w.caches c).enabled = false)
    (ha : Along Machine Fine w tr) :
    ∃ tr', scanned tr = scanned tr' ∧ Run Machine fn w tr' o w' ∧ Along Machine Fine w tr' ∧ ∀ e ∈ tr', e ∈ tr := by
  obtain ⟨ch, en, w₁, tr', he, hk, rfl⟩ := run_call.1 h
  have ha' := ((along_cons he).1 ha).2
  obtain ⟨rfl, rfl⟩ : (w.caches c).enabled = en ∧ w = w₁ := by
    cases he
    exact ⟨rfl, rfl⟩
  rw [hdis] at hk
  exact ⟨tr', rfl, hk, ha', fun e he => List.mem_cons_of_mem _ he⟩

/-- The metadata is returned, or the entry is in quarantine and the exception is a runtime error. -/
theorem run_readTransferMeta (ht : '/' ∉ t) {o : Outcome Exn TransferMeta}
    (h : Run Machine (readTransferMeta env (env.upload (t ++ META_EXT))) w tr o w')
    (ha : Along Machine Fine w tr) {i : Ino}
    (hi : w.fs.node ((t ++ META_EXT) :: env.inbox w.fs) = some (.file i)) (hf : (w.fs.inode i).data.length < env.fuel) :
    scanned tr = [env.upload (t ++ META_EXT)] ∧ w'.caches = w.caches ∧
    w.fs.resolve (env.upload (t ++ META_EXT)) = .ok ((t ++ META_EXT) :: env.inbox w.fs) ∧
    match metaOf env w.fs t with
      | some tm => o = .ret tm ∧ w' = w
      | none => (∃ e, o = .throw e ∧ e.isRuntime = true) ∧ Swept w.fs w'.fs (env.inbox w.fs) (env.grave w.fs) [t] := by
  have hnorm : norm w.fs.cwd (env.upload (t ++ META_EXT)) = (t ++ META_EXT) :: env.inbox w.fs :=
    norm_upload (IsExt.plain (.inl rfl) ht)
  obtain ⟨ch, r, w₁, tr', he, hk, rfl⟩ := run_call.1 h
  obtain ⟨hfine, ha'⟩ := (along_cons he).1 ha
  have hw := exec_looks he rfl
  subst hw
  cases r with
  | error e => cases hfine
  | ok x =>
    have hopen := (inject_ok (Prod.mk.inj (Option.some.inj he)).1).2
    have hx : x = .file i := FS.pathOpen_handle hopen (by rw [hnorm, hi])
    subst hx
    have hres : w₁.fs.resolve (env.upload (t ++ META_EXT)) = .ok ((t ++ META_EXT) :: env.inbox w₁.fs) := by
      rw [← hnorm]
      exact (FS.pathOpen_file hopen).1
    have hcons : ∀ {tr : List Ev}, scanned tr = [] →
        scanned ((⟨⟨.readMeta, .openRead (env.upload (t ++ META_EXT))⟩, ch, .ok (.file i)⟩ : Ev) :: tr) =
          [env.upload (t ++ META_EXT)] := by
      intro tr hnil
      rw [← List.singleton_append, scanned_append, hnil]
      rfl
    have hfills : ∀ {tr : List Ev} {o : Outcome Exn Bytes} {w' : World},
        Run Machine (readAll env .readMeta (.file i)) w₁ tr o w' →
        scanned tr = [] := by
      intro tr o w' hr
      refine scanned_eq_nil fun e he => .inr fun p hp => ?_
      have := hr.calls (C := fun c : Call => ∀ p, c.op ≠ .openRead p)
        (Proc.Calls.loop (fun text => readRound_calls text fun _ _ _ => by simp) _ _) e he
      exact this p hp
    have hmeta : metaOf env w₁.fs t = env.codec.parse (w₁.fs.inode i).data := by rw [metaOf, hi]
    have hread : ∀ {tr : List Ev} {o : Outcome Exn Bytes} {w' : World},
        Run Machine (readAll env .readMeta (.file i)) w₁ tr o w' →
        Along Machine Fine w₁ tr → o = .ret (w₁.fs.inode i).data ∧ w' = w₁ :=
      fun hr hal => run_readLoop rfl hr hal rfl (by simpa using hf)
    rw [hmeta]
    obtain ⟨text, w₂, tr₁, tr₂, h₁, ha₁, h₂, ha₂, rfl⟩ := hk.bind_along ha' fun h ha => ⟨_, (hread h ha).1⟩
    obtain ⟨htext, rfl⟩ := hread h₁ ha₁
    cases htext
    cases hp : env.codec.parse (w₂.fs.inode i).data with
    | some tm =>
      rw [hp] at h₂
      obtain ⟨rfl, rfl, rfl⟩ := run_ret.1 h₂
      exact ⟨hcons (by rw [List.append_nil, hfills h₁]), rfl, hres, rfl, rfl⟩
    | none =>
      rw [hp] at h₂
      obtain ⟨_, w₃, tr₃, tr₄, h₃, ha₃, h₄, -, rfl⟩ := h₂.bind_along ha₂ fun h ha =>
        ⟨_, (run_endeaden_entry ht h ha hi hres).1⟩
      obtain ⟨-, hcaches, hswept⟩ := run_endeaden_entry ht h₃ ha₃ hi hres
      obtain ⟨rfl, rfl, rfl⟩ := run_throw.1 h₄
      refine ⟨hcons ?_, hcaches, hres, ⟨_, rfl, rfl⟩, hswept⟩
      rw [List.append_nil, scanned_append, hfills h₁, endeaden_scans h₃, List.append_nil]

/-- The check of the data of an entry. -/
theorem run_check {tm : TransferMeta} (ht : '/' ∉ t) {o : Outcome Exn Entry}
    (h : Run Machine (do
      let fi ← fileInfo env .entryInfo (env.upload (t ++ DATA_EXT))
      if tm.fileInfo.crc32 ≠ fi.crc32 then
        endeaden env (env.upload (t ++ META_EXT))
        return .skip
      else return .push tm.fileInfo : Prog Entry) w tr o w') (ha : Along Machine Fine w tr) {i : Ino}
    (hi : w.fs.node ((t ++ META_EXT) :: env.inbox w.fs) = some (.file i))
    (hres : w.fs.resolve (env.upload (t ++ META_EXT)) = .ok ((t ++ META_EXT) :: env.inbox w.fs))
    (hf : Short env w.fs) :
    scanned tr = [] ∧ w'.caches = w.caches ∧
    match (if dataHas env w.fs t tm.fileInfo.crc32 then .good tm.fileInfo else .bad : Appraisal) with
      | .good fi => o = .ret (.push fi) ∧ w' = w
      | .other => o = .ret .skip ∧ w' = w
      | .bad => (o = .ret .skip ∧ Swept w.fs w'.fs (env.inbox w.fs) (env.grave w.fs) [t]) ∨
        (∃ e, o = .throw e ∧ e.isRuntime = true) ∧
        (w' = w ∨ Swept w.fs w'.fs (env.inbox w.fs) (env.grave w.fs) [t]) := by
  have hres' := FS.resolve_sibling (IsExt.plain (.inl rfl) ht) (IsExt.plain (.inr rfl) ht) hres
  have hlook : ∀ {tr : List Ev} {o : Outcome Exn FileInfo} {w' : World},
      Run Machine (fileInfo env .entryInfo (env.upload (t ++ DATA_EXT))) w tr o w' → scanned tr = [] := fun hr =>
    scanned_eq_nil fun e he => .inl (by rw [(hr.calls (fileInfo_calls _) e he).1]; simp)
  rw [List.tail_cons] at hres'
  rcases run_bind.1 h with ⟨fi, w₁, tr₁, tr₂, h₁, h₂, rfl⟩ | ⟨e, h₁, rfl⟩ | ⟨x, h₁, rfl⟩
  · obtain ⟨ha₁, ha₂⟩ := h₁.along.1 ha
    obtain ⟨rfl, hfi⟩ := run_fileInfo_fine h₁ ha₁ hres' (hf _)
    rw [scanned_append, hlook h₁, List.nil_append]
    split at hfi
    · rename_i j hj
      cases hfi
      have hinfo : (infoOf (env.upload (t ++ DATA_EXT)) (w₁.fs.inode j)).crc32 = crcText (w₁.fs.inode j).data := rfl
      rw [hinfo] at h₂
      by_cases hcrc : tm.fileInfo.crc32 = crcText (w₁.fs.inode j).data
      · rw [if_neg (not_not.2 hcrc)] at h₂
        obtain ⟨rfl, rfl, rfl⟩ := run_ret.1 h₂
        have hhas : dataHas env w'.fs t tm.fileInfo.crc32 = true := by
          rw [dataHas, hj]
          exact decide_eq_true hcrc
        rw [if_pos hhas]
        exact ⟨rfl, rfl, rfl, rfl⟩
      · rw [if_pos hcrc] at h₂
        have hhas : ¬ dataHas env w₁.fs t tm.fileInfo.crc32 = true := by
          rw [dataHas, hj]
          exact fun hd => hcrc (of_decide_eq_true hd)
        rw [if_neg hhas]
        obtain ⟨_, w₂, tr₃, tr₄, h₃, ha₃, h₄, -, rfl⟩ := h₂.bind_along ha₂ fun h ha =>
          ⟨_, (run_endeaden_entry ht h ha hi hres).1⟩
        obtain ⟨-, hcaches, hswept⟩ := run_endeaden_entry ht h₃ ha₃ hi hres
        obtain ⟨rfl, rfl, rfl⟩ := run_ret.1 h₄
        rw [List.append_nil, endeaden_scans h₃]
        exact ⟨rfl, hcaches, .inl ⟨rfl, hswept⟩⟩
    · obtain ⟨e, he, -⟩ := hfi
      cases he
  · obtain ⟨rfl, hfi⟩ := run_fileInfo_fine h₁ ha hres' (hf _)
    refine ⟨hlook h₁, rfl, ?_⟩
    split at hfi
    · cases hfi
    · rename_i hno
      obtain ⟨e', he, hrt⟩ := hfi
      cases he
      have hhas : ¬ dataHas env w'.fs t tm.fileInfo.crc32 = true := by
        rw [dataHas]
        split
        · rename_i j hj
          exact absurd hj (hno j)
        · simp
      rw [if_neg hhas]
      exact .inr ⟨⟨_, rfl, hrt⟩, .inl rfl⟩
  · obtain ⟨rfl, hfi⟩ := run_fileInfo_fine h₁ ha hres' (hf _)
    split at hfi
    · cases hfi
    · obtain ⟨e, he, -⟩ := hfi
      cases he

/-- The `try` block. -/
theorem run_filesInfoEntry (ht : '/' ∉ t) {o : Outcome Exn Entry}
    (h : Run Machine (filesInfoEntry env env.uploadDir topic (t ++ META_EXT)) w tr o w')
    (ha : Along Machine Fine w tr) {i : Ino}
    (hi : w.fs.node ((t ++ META_EXT) :: env.inbox w.fs) = some (.file i)) (hf : Short env w.fs)
    (hdis : (w.caches .metainfo).enabled = false) :
    scanned tr = [env.upload (t ++ META_EXT)] ∧ w'.caches = w.caches ∧
    w.fs.resolve (env.upload (t ++ META_EXT)) = .ok ((t ++ META_EXT) :: env.inbox w.fs) ∧
    match appraise env w.fs topic t with
      | .good fi => o = .ret (.push fi) ∧ w' = w
      | .other => o = .ret .skip ∧ w' = w
      | .bad => (o = .ret .skip ∧ Swept w.fs w'.fs (env.inbox w.fs) (env.grave w.fs) [t]) ∨
        (∃ e, o = .throw e ∧ e.isRuntime = true) ∧
        (w' = w ∨ Swept w.fs w'.fs (env.inbox w.fs) (env.grave w.fs) [t]) := by
  have hdata : dataFile (env.uploadDir ++ '/' :: (t ++ META_EXT)) = some (env.upload (t ++ DATA_EXT)) := by
    have hsplit : env.uploadDir ++ '/' :: (t ++ META_EXT) = (env.uploadDir ++ '/' :: t) ++ META_EXT := by simp
    rw [hsplit, dataFile, chop_append]
    simp [Env.upload]
  have hread : ∀ {tr : List Ev} {o : Outcome Exn TransferMeta} {w' : World},
      Run Machine (readTransferMetaCached env (env.upload (t ++ META_EXT))) w tr o w' → Along Machine Fine w tr →
      scanned tr = [env.upload (t ++ META_EXT)] ∧ w'.caches = w.caches ∧
      w.fs.resolve (env.upload (t ++ META_EXT)) = .ok ((t ++ META_EXT) :: env.inbox w.fs) ∧
      match metaOf env w.fs t with
        | some tm => o = .ret tm ∧ w' = w
        | none => (∃ e, o = .throw e ∧ e.isRuntime = true) ∧
          Swept w.fs w'.fs (env.inbox w.fs) (env.grave w.fs) [t] := by
    intro tr o w' hr hal
    obtain ⟨tr', hscan, hr', hal', -⟩ := run_cacheGet_disabled hr hdis hal
    rw [hscan]
    exact run_readTransferMeta ht hr' hal' hi (hf _ i hi)
  unfold appraise
  rcases run_bind.1 h with ⟨tm, w₁, tr₁, tr₂, h₁, h₂, rfl⟩ | ⟨e, h₁, rfl⟩ | ⟨x, h₁, rfl⟩
  · obtain ⟨ha₁, ha₂⟩ := h₁.along.1 ha
    obtain ⟨hscan, -, hres, hmeta⟩ := hread h₁ ha₁
    cases hm : metaOf env w.fs t with
    | none =>
      rw [hm] at hmeta
      obtain ⟨⟨e, he, -⟩, -⟩ := hmeta
      cases he
    | some tm' =>
      rw [hm] at hmeta
      obtain ⟨htm, rfl⟩ := hmeta
      cases htm
      dsimp only
      rw [scanned_append, hscan]
      by_cases htopic : tm.topic ≠ topic
      · rw [if_pos htopic] at h₂ ⊢
        obtain ⟨rfl, rfl, rfl⟩ := run_ret.1 h₂
        exact ⟨rfl, rfl, hres, rfl, rfl⟩
      · rw [if_neg htopic] at h₂ ⊢
        rw [hdata] at h₂
        obtain ⟨hscan₂, hcaches, hcheck⟩ := run_check ht h₂ ha₂ hi hres hf
        rw [hscan₂]
        exact ⟨rfl, hcaches, hres, hcheck⟩
  · obtain ⟨hscan, hcaches, hres, hmeta⟩ := hread h₁ ha
    refine ⟨hscan, hcaches, hres, ?_⟩
    cases hm : metaOf env w.fs t with
    | some tm =>
      rw [hm] at hmeta
      cases hmeta.1
    | none =>
      rw [hm] at hmeta
      obtain ⟨⟨e', he, hrt⟩, hswept⟩ := hmeta
      cases he
      exact .inr ⟨⟨_, rfl, hrt⟩, .inr hswept⟩
  · obtain ⟨-, -, -, hmeta⟩ := hread h₁ ha
    cases hm : metaOf env w.fs t with
    | some tm =>
      rw [hm] at hmeta
      cases hmeta.1
    | none =>
      rw [hm] at hmeta
      obtain ⟨⟨e', he, -⟩, -⟩ := hmeta
      cases he

/-- **One entry.** -/
theorem run_filesInfoRound (ht : '/' ∉ t) {o : Outcome Exn Entry}
    (h : Run Machine (filesInfoRound env env.uploadDir topic (t ++ META_EXT)) w tr o w')
    (ha : Along Machine Fine w tr) {i : Ino}
    (hi : w.fs.node ((t ++ META_EXT) :: env.inbox w.fs) = some (.file i)) (hf : Short env w.fs)
    (hdis : (w.caches .metainfo).enabled = false) :
    scanned tr = [env.upload (t ++ META_EXT)] ∧ w'.caches = w.caches ∧
    match appraise env w.fs topic t with
      | .good fi => o = .ret (.push fi) ∧ w' = w
      | .other => o = .ret .skip ∧ w' = w
      | .bad => (o = .ret .skip ∨ o = .ret .caught) ∧ Swept w.fs w'.fs (env.inbox w.fs) (env.grave w.fs) [t] := by
  rcases run_handle.1 h with ⟨a, h₁, rfl⟩ | ⟨x, h₁, rfl⟩ | ⟨e, w₁, tr₁, tr₂, h₁, h₂, rfl⟩
  · obtain ⟨hscan, hcaches, -, happ⟩ := run_filesInfoEntry ht h₁ ha hi hf hdis
    refine ⟨hscan, hcaches, ?_⟩
    split
    · rename_i fi hg
      rw [hg] at happ
      exact happ
    · rename_i hg
      rw [hg] at happ
      exact happ
    · rename_i hg
      rw [hg] at happ
      rcases happ with ⟨ho, hswept⟩ | ⟨⟨e, he, -⟩, -⟩
      · exact ⟨.inl ho, hswept⟩
      · cases he
  · obtain ⟨-, -, -, happ⟩ := run_filesInfoEntry ht h₁ ha hi hf hdis
    split at happ
    · cases happ.1
    · cases happ.1
    · rcases happ with ⟨ho, -⟩ | ⟨⟨e, he, -⟩, -⟩
      · cases ho
      · cases he
  · obtain ⟨ha₁, ha₂⟩ := h₁.along.1 ha
    obtain ⟨hscan, hcaches, hres, happ⟩ := run_filesInfoEntry ht h₁ ha₁ hi hf hdis
    split at happ
    · cases happ.1
    · cases happ.1
    · rcases happ with ⟨ho, -⟩ | ⟨⟨e', he, hrt⟩, hstate⟩
      · cases ho
      · cases he
        rw [if_pos hrt] at h₂
        -- the handler's quarantine finds the entry, or finds it gone
        have hquar : ∀ {tr : List Ev} {o : Outcome Exn Unit} {w' : World},
            Run Machine (endeaden env (env.upload (t ++ META_EXT))) w₁ tr o w' → Along Machine Fine w₁ tr →
            o = .ret () ∧ w'.caches = w₁.caches ∧ Swept w.fs w'.fs (env.inbox w.fs) (env.grave w.fs) [t] := by
          intro tr o w' hr hal
          rcases hstate with rfl | hswept
          · exact run_endeaden_entry ht hr hal hi hres
          · have hbox : env.inbox w₁.fs = env.inbox w.fs := by rw [Env.inbox, hswept.cwd, Env.inbox]
            obtain ⟨ho, hc, hfs⟩ := run_endeaden_gone ht hr hal fun e he => by
              rw [hbox]
              exact hswept.gone t (List.mem_singleton.2 rfl) e he
            rw [hfs]
            exact ⟨ho, hc, hswept⟩
        obtain ⟨_, w₂, tr₃, tr₄, h₃, ha₃, h₄, -, rfl⟩ := h₂.bind_along ha₂ fun h ha => ⟨_, (hquar h ha).1⟩
        obtain ⟨-, hc, hswept⟩ := hquar h₃ ha₃
        obtain ⟨rfl, rfl, rfl⟩ := run_ret.1 h₄
        rw [List.append_nil, scanned_append, hscan, endeaden_scans h₃]
        exact ⟨rfl, hc.trans hcaches, .inr rfl, hswept⟩

end Round

/-! ## All entries -/

/-- The file that a query reports for an entry. -/
def Appraisal.file? : Appraisal → Option FileInfo
  | .good fi => some fi
  | _ => none

def Appraisal.isBad : Appraisal → Bool
  | .bad => true
  | _ => false

/-- The files that could be reported, in the order of the entries. -/
def found (env : Env) (fs : FS) (topic : Str) (ts : List Str) : List FileInfo := ts.filterMap fun t =>
    (appraise env fs topic t).file?

/-- The entries for the quarantine. -/
def rotten (env : Env) (fs : FS) (topic : Str) (ts : List Str) : List Str := ts.filter fun t =>
    (appraise env fs topic t).isBad

section Loop

variable {env : Env} {w' : World} {topic : Str}

/-- A quarantine changes nothing for the other entries. -/
theorem Swept.appraise {fs fs' : FS} {ts : List Str} {t : Str} (h : Swept fs fs' (env.inbox fs) (env.grave fs) ts)
    (ht : t ∉ ts) :
    appraise env fs' topic t = appraise env fs topic t := by
  have hlen : (env.inbox fs).length = (env.grave fs).length := (inbox_grave fs).2
  have hbox : env.inbox fs' = env.inbox fs := by rw [Env.inbox, h.cwd, Env.inbox]
  unfold OortAgent.appraise metaOf dataHas
  rw [hbox, h.kept hlen ht (.inl rfl), h.kept hlen ht (.inr rfl), h.inode]

theorem found_good {fs : FS} {t : Str} {ts : List Str} {fi : FileInfo} (h : appraise env fs topic t = .good fi) :
    found env fs topic (t :: ts) = fi :: found env fs topic ts := by
  rw [found, List.filterMap_cons, h]
  rfl

theorem found_skip {fs : FS} {t : Str} {ts : List Str} (h : (appraise env fs topic t).file? = none) :
    found env fs topic (t :: ts) = found env fs topic ts := by
  rw [found, List.filterMap_cons, h]
  rfl

theorem rotten_cons {fs : FS} {t : Str} {ts : List Str} : rotten env fs topic (t :: ts) =
    if (appraise env fs topic t).isBad then t :: rotten env fs topic ts else rotten env fs topic ts :=
  List.filter_cons

theorem found_congr {fs fs' : FS} {ts : List Str} (h : ∀ t ∈ ts, appraise env fs' topic t = appraise env fs topic t) :
    found env fs' topic ts = found env fs topic ts :=
  List.filterMap_congr fun t ht => by rw [h t ht]

theorem rotten_congr {fs fs' : FS} {ts : List Str} (h : ∀ t ∈ ts, appraise env fs' topic t = appraise env fs topic t) :
    rotten env fs' topic ts = rotten env fs topic ts :=
  List.filter_congr fun t ht => by rw [h t ht]

/-- The entry that is looked at next is a regular file. -/
def Legible (env : Env) (fs : FS) (t : Str) : Prop :=
  '/' ∉ t ∧ ∃ i, fs.node ((t ++ META_EXT) :: env.inbox fs) = some (.file i)

/-- **All entries**, or those up to one more than may be reported. -/
theorem run_filesInfoLoop : ∀ {ts : List Str} {flist : List FileInfo} {w : World} {tr : List Ev}
    {o : Outcome Exn (List FileInfo)},
    Run Machine (filesInfoLoop env env.uploadDir topic (ts.map (· ++ META_EXT)) flist) w tr o w' →
    Along Machine Fine w tr →
    ts.Nodup → (∀ t ∈ ts, Legible env w.fs t) → Short env w.fs →
    (w.caches .metainfo).enabled = false → flist.length ≤ env.maxQuery →
    o = .ret (flist ++ (found env w.fs topic ts).take (env.maxQuery + 1 - flist.length)) ∧
    ∃ seen rest, ts = seen ++ rest ∧ scanned tr = seen.map (fun t => env.upload (t ++ META_EXT)) ∧
      (flist.length + (found env w.fs topic ts).length ≤ env.maxQuery → rest = []) ∧
      Swept w.fs w'.fs (env.inbox w.fs) (env.grave w.fs) (rotten env w.fs topic seen)
  | [], flist, w, tr, o, h, _, _, _, _, _, _ => by
    obtain ⟨rfl, rfl, rfl⟩ := run_ret.1 h
    exact ⟨by simp [found], [], [], rfl, rfl, fun _ => rfl, swept_nil⟩
  | t :: ts, flist, w, tr, o, h, ha, hnd, hlist, hf, hdis, hlen => by
    obtain ⟨ht, i, hi⟩ := hlist t List.mem_cons_self
    obtain ⟨hnot, hnd'⟩ := List.nodup_cons.1 hnd
    have hlist' : ∀ x ∈ ts, Legible env w.fs x := fun x hx => hlist x (List.mem_cons_of_mem _ hx)
    rcases run_bind.1 h with ⟨r, w₁, tr₁, tr₂, h₁, h₂, rfl⟩ | ⟨e, h₁, rfl⟩ | ⟨x, h₁, rfl⟩
    · obtain ⟨ha₁, ha₂⟩ := h₁.along.1 ha
      obtain ⟨hscan, hcaches, happ⟩ := run_filesInfoRound ht h₁ ha₁ hi hf hdis
      rw [scanned_append, hscan]
      cases hap : appraise env w.fs topic t with
      | good fi =>
        rw [hap] at happ
        obtain ⟨hr, rfl⟩ := happ
        cases hr
        rw [found_good hap]
        dsimp only at h₂
        by_cases hfull : (flist ++ [fi]).length > env.maxQuery
        · rw [if_pos hfull] at h₂
          obtain ⟨rfl, rfl, rfl⟩ := run_ret.1 h₂
          have hone : env.maxQuery + 1 - flist.length = 1 := by
            rw [List.length_append, List.length_singleton] at hfull
            omega
          rw [hone, List.take_succ_cons, List.take_zero]
          refine ⟨rfl, [t], ts, rfl, rfl, fun hle => ?_, ?_⟩
          · rw [List.length_cons] at hle
            omega
          · rw [rotten_cons, hap]
            exact swept_nil
        · rw [if_neg hfull] at h₂
          rw [List.length_append, List.length_singleton] at hfull
          obtain ⟨ho, seen, rest, hsplit, hscan₂, hall, hswept⟩ :=
            run_filesInfoLoop h₂ ha₂ hnd' hlist' hf hdis (by rw [List.length_append, List.length_singleton]; omega)
          have hnext : env.maxQuery + 1 - flist.length = env.maxQuery + 1 - (flist ++ [fi]).length + 1 := by
            rw [List.length_append, List.length_singleton]
            omega
          rw [hnext, List.take_succ_cons]
          refine ⟨by rw [ho, List.append_assoc, List.singleton_append], t :: seen, rest,
            by rw [hsplit, List.cons_append], ?_,
            fun hle => hall ?_, ?_⟩
          · rw [hscan₂]
            rfl
          · rw [List.length_cons] at hle
            rw [List.length_append, List.length_singleton]
            omega
          · rw [rotten_cons, hap]
            exact hswept
      | other =>
        rw [hap] at happ
        obtain ⟨hr, rfl⟩ := happ
        cases hr
        obtain ⟨ho, seen, rest, hsplit, hscan₂, hall, hswept⟩ := run_filesInfoLoop h₂ ha₂ hnd' hlist' hf hdis hlen
        rw [found_skip (by rw [hap]; rfl)]
        refine ⟨ho, t :: seen, rest, by rw [hsplit, List.cons_append], ?_, hall, ?_⟩
        · rw [hscan₂]
          rfl
        · rw [rotten_cons, hap]
          exact hswept
      | bad =>
        rw [hap] at happ
        obtain ⟨hr, hquar⟩ := happ
        have h₃ : Run Machine (filesInfoLoop env env.uploadDir topic (ts.map (· ++ META_EXT)) flist) w₁ tr₂ o w' := by
          rcases hr with hr | hr
          · cases hr
            exact h₂
          · cases hr
            dsimp only at h₂
            rwa [if_neg (by omega)] at h₂
        have hbox : env.inbox w₁.fs = env.inbox w.fs := by rw [Env.inbox, hquar.cwd, Env.inbox]
        have hgrave : env.grave w₁.fs = env.grave w.fs := by rw [Env.grave, hquar.cwd, Env.grave]
        have haway : ∀ x ∈ ts, x ∉ [t] := fun x hx hmem => hnot (List.mem_singleton.1 hmem ▸ hx)
        have hsame : ∀ x ∈ ts, appraise env w₁.fs topic x = appraise env w.fs topic x :=
          fun x hx => hquar.appraise (haway x hx)
        have hlist₁ : ∀ x ∈ ts, Legible env w₁.fs x := by
          intro x hx
          obtain ⟨hx₁, j, hj⟩ := hlist' x hx
          refine ⟨hx₁, j, ?_⟩
          rw [hbox, hquar.kept (inbox_grave w.fs).2 (haway x hx) (.inl rfl), hj]
        obtain ⟨ho, seen, rest, hsplit, hscan₂, hall, hswept⟩ :=
          run_filesInfoLoop h₃ ha₂ hnd' hlist₁ (hquar.short hf) (by rw [hcaches]; exact hdis) hlen
        rw [found_congr hsame] at ho hall
        rw [rotten_congr fun x hx => hsame x (hsplit ▸ List.mem_append_left _ hx), hbox, hgrave] at hswept
        rw [found_skip (by rw [hap]; rfl)]
        refine ⟨ho, t :: seen, rest, by rw [hsplit, List.cons_append], ?_, hall, ?_⟩
        · rw [hscan₂]
          rfl
        · rw [rotten_cons, hap]
          refine hquar.trans hswept (inbox_grave w.fs).2 fun x hx hmem => ?_
          cases List.mem_singleton.1 hx
          exact hnot (hsplit ▸ List.mem_append_left _ (List.mem_filter.1 hmem).1)
    · obtain ⟨-, -, happ⟩ := run_filesInfoRound ht h₁ ha hi hf hdis
      split at happ
      · cases happ.1
      · cases happ.1
      · rcases happ.1 with he | he <;> cases he
    · obtain ⟨-, -, happ⟩ := run_filesInfoRound ht h₁ ha hi hf hdis
      split at happ
      · cases happ.1
      · cases happ.1
      · rcases happ.1 with he | he <;> cases he

end Loop

/-! ## The query -/

/-- What stands for the star in the names that match `*.meta.oort`, in their order. -/
def stems (names : List Name) : List Str :=
  (names.filter fun n => decide (n.head? ≠ some '.') && endsWith n META_EXT).map fun n =>
    n.take (n.length - META_EXT.length)

/-- The report to a query: at most `max` files, and whether there are more. -/
def report (max : Nat) (files : List FileInfo) : AvailableFilesResponse where
  files := files.take max
  overflow := if max < files.length then some true else none

section Query

variable {env : Env} {w w' : World} {tr : List Ev} {topic : Str}

theorem stems_map (names : List Name) : (stems names).map (· ++ META_EXT) =
    names.filter fun n => decide (n.head? ≠ some '.') && endsWith n META_EXT := by
  rw [stems, List.map_map]
  refine (List.map_congr_left fun n hn => ?_).trans (List.map_id _)
  obtain ⟨t, rfl⟩ := endsWith_iff.1 (Bool.and_eq_true_iff.1 (List.mem_filter.1 hn).2).2
  simp

/-- The listing of `uploads`. -/
theorem run_listUploads {o : Outcome Exn (List Name)}
    (h : Run Machine (cacheGet .metafile env.uploadDir (listFiles .listFiles env.uploadDir META_EXT)) w tr o w')
    (ha : Along Machine Fine w tr) (hdis : (w.caches .metafile).enabled = false) :
    w' = w ∧ scanned tr = [] ∧ ∃ ch names, (⟨⟨.listFiles, .readdir env.uploadDir⟩, ch, .ok names⟩ : Ev) ∈ tr ∧
      names.Perm (['.'] :: ['.', '.'] :: w.fs.children (env.inbox w.fs)) ∧
        o = .ret ((stems names).map (· ++ META_EXT)) := by
  obtain ⟨tr', hscan, hr, ha', hmem⟩ := run_cacheGet_disabled h hdis ha
  obtain ⟨ch, r, w₁, tr₁, he, hk, rfl⟩ := run_call.1 hr
  have hw := exec_looks he rfl
  subst hw
  cases r with
  | error e => cases ((along_cons he).1 ha').1
  | ok names =>
    obtain ⟨rfl, rfl, rfl⟩ := run_ret.1 hk
    obtain ⟨ns, hns, hperm, -⟩ := exec_readdir he
    refine ⟨rfl, by rw [hscan]; rfl, ch, names, hmem _ List.mem_cons_self, ?_, ?_⟩
    · unfold FS.pathEntries at hns
      split at hns
      · cases hns
      · rename_i l hl
        split at hns
        · cases hns
          rw [Env.inbox, ← FS.resolve_norm hl]
          exact hperm
        · cases hns
    · rw [stems_map]
      rfl

/-- The names of a listing match once each, and are entries. -/
theorem stems_listed {names : List Name} {fs : FS} {D : Loc}
    (hperm : names.Perm (['.'] :: ['.', '.'] :: fs.children D)) :
    (stems names).Nodup ∧ ∀ t ∈ stems names, (t ++ META_EXT).head? ≠ some '.' ∧
      fs.node ((t ++ META_EXT) :: D) ≠ none := by
  have hfilter := hperm.filter fun n => decide (n.head? ≠ some '.') && endsWith n META_EXT
  have hdots :
      (['.'] :: ['.', '.'] :: fs.children D).filter (fun n => decide (n.head? ≠ some '.') && endsWith n META_EXT) =
      (fs.children D).filter fun n => decide (n.head? ≠ some '.') && endsWith n META_EXT := by
    rw [List.filter_cons_of_neg (by simp), List.filter_cons_of_neg (by simp)]
  rw [hdots, ← stems_map] at hfilter
  refine ⟨List.Nodup.of_map _ (hfilter.nodup_iff.2 ((fs.children_nodup D).filter _)), fun t ht => ?_⟩
  obtain ⟨hmem, hp⟩ := List.mem_filter.1 (hfilter.subset (List.mem_map_of_mem ht))
  exact ⟨of_decide_eq_true (Bool.and_eq_true_iff.1 hp).1, FS.mem_children.1 hmem⟩

/-- The files of a query, one more than may be reported if there are so many, and what it leaves behind. -/
theorem run_filesInfo {o : Outcome Exn (List FileInfo)} (h : Run Machine (filesInfo env env.uploadDir topic) w tr o w')
    (ha : Along Machine Fine w tr) (hdis : ∀ c, (w.caches c).enabled = false)
    (hlist : ∀ t, (t ++ META_EXT).head? ≠ some '.' → w.fs.node ((t ++ META_EXT) :: env.inbox w.fs) ≠ none →
      Legible env w.fs t)
    (hf : Short env w.fs) :
    ∃ ch names, (⟨⟨.listFiles, .readdir env.uploadDir⟩, ch, .ok names⟩ : Ev) ∈ tr ∧
      names.Perm (['.'] :: ['.', '.'] :: w.fs.children (env.inbox w.fs)) ∧
      o = .ret ((found env w.fs topic (stems names)).take (env.maxQuery + 1)) ∧
      ∃ seen rest, stems names = seen ++ rest ∧ scanned tr = seen.map (fun t => env.upload (t ++ META_EXT)) ∧
        ((found env w.fs topic (stems names)).length ≤ env.maxQuery → rest = []) ∧
        Swept w.fs w'.fs (env.inbox w.fs) (env.grave w.fs) (rotten env w.fs topic seen) := by
  rcases run_bind.1 h with ⟨files, w₁, tr₁, tr₂, h₁, h₂, rfl⟩ | ⟨e, h₁, rfl⟩ | ⟨x, h₁, rfl⟩
  · obtain ⟨ha₁, ha₂⟩ := h₁.along.1 ha
    obtain ⟨rfl, hscan, ch, names, hmem, hperm, hfiles⟩ := run_listUploads h₁ ha₁ (hdis _)
    cases hfiles
    obtain ⟨hnd, hentry⟩ := stems_listed hperm
    obtain ⟨ho, seen, rest, hsplit, hscan₂, hall, hswept⟩ :=
      run_filesInfoLoop h₂ ha₂ hnd (fun t ht => hlist t (hentry t ht).1 (hentry t ht).2) hf (hdis _) (Nat.zero_le _)
    refine ⟨ch, names, List.mem_append_left _ hmem, hperm, ho, seen, rest, hsplit, ?_, fun hle => hall ?_, hswept⟩
    · rw [scanned_append, hscan, List.nil_append, hscan₂]
    · simpa using hle
  · obtain ⟨_, _, _, _, _, _, ho⟩ := run_listUploads h₁ ha (hdis _)
    cases ho
  · obtain ⟨_, _, _, _, _, _, ho⟩ := run_listUploads h₁ ha (hdis _)
    cases ho

/-- Entries with another topic stay where they are, with all that is below them. -/
theorem Swept.others_stay {fs fs' : FS} {seen : List Str} {t : Str} {tm : TransferMeta}
    (h : Swept fs fs' (env.inbox fs) (env.grave fs) (rotten env fs topic seen)) (hm : metaOf env fs t = some tm)
    (htopic : tm.topic ≠ topic)
    {e : Str} (he : IsExt e) {l : Loc} (hl : (t ++ e) :: env.inbox fs <:+ l) : fs'.node l = fs.node l := by
  obtain ⟨hne, hlen⟩ : env.inbox fs ≠ env.grave fs ∧ _ := inbox_grave fs
  refine h.others l fun t' ht' e' he' => ?_
  have hdiff : t' ++ e' ≠ t ++ e := by
    refine stem_ne (fun heq => ?_) he' he
    have hother : OortAgent.appraise env fs topic t = .other := by
      rw [OortAgent.appraise, hm]
      exact if_pos htopic
    have hbad : (OortAgent.appraise env fs topic t').isBad = true := (List.mem_filter.1 ht').2
    rw [heq, hother] at hbad
    cases hbad
  have heq : ∀ {E : Loc}, E.length = (env.inbox fs).length → (t' ++ e') :: E <:+ l → False := by
    intro E hE hs
    rcases List.suffix_or_suffix_of_suffix hs hl with hsub | hsub
    · exact hdiff (suffix_entries hE hsub).1
    · exact hdiff (suffix_entries hE.symm hsub).1.symm
  exact ⟨heq rfl, heq hlen.symm⟩

/-- **A query is exact.** Let `stems names` be the entries that match, in the order of the directory. The report has
the first `maxQuery` of the files whose metadata can be parsed, has the topic and the checksum of the data, and
tells whether there are more; entries of another topic stay; and the entries whose metadata was opened (all, if
there are not too many files) that cannot be parsed, or have the topic and no regular data with the checksum, were
moved to the dead-letter directory. -/
theorem queryAvailable_exact {o : Outcome Exn (Response AvailableFilesResponse)}
    (h : Run Machine (queryAvailable env topic) w tr o w') (ha : Along Machine Fine w tr)
    (hdis : ∀ c, (w.caches c).enabled = false)
    (hlist : ∀ t, (t ++ META_EXT).head? ≠ some '.' → w.fs.node ((t ++ META_EXT) :: env.inbox w.fs) ≠ none →
      Legible env w.fs t)
    (hf : Short env w.fs) :
    ∃ ch names, (⟨⟨.listFiles, .readdir env.uploadDir⟩, ch, .ok names⟩ : Ev) ∈ tr ∧
      names.Perm (['.'] :: ['.', '.'] :: w.fs.children (env.inbox w.fs)) ∧ (stems names).Nodup ∧
      o = .ret (.Ok (report env.maxQuery (found env w.fs topic (stems names)))) ∧
      (∀ t tm, metaOf env w.fs t = some tm → tm.topic ≠ topic → ∀ e, IsExt e → ∀ l, (t ++ e) :: env.inbox w.fs <:+ l →
        w'.fs.node l = w.fs.node l) ∧
      ∃ seen rest, stems names = seen ++ rest ∧ scanned tr = seen.map (fun t => env.upload (t ++ META_EXT)) ∧
        ((found env w.fs topic (stems names)).length ≤ env.maxQuery → rest = []) ∧
        Swept w.fs w'.fs (env.inbox w.fs) (env.grave w.fs) (rotten env w.fs topic seen) := by
  rcases run_bind.1 h with ⟨files, w₁, tr₁, tr₂, h₁, h₂, rfl⟩ | ⟨e, h₁, rfl⟩ | ⟨x, h₁, rfl⟩
  · obtain ⟨ch, names, hmem, hperm, hfiles, seen, rest, hsplit, hscan, hall, hswept⟩ :=
      run_filesInfo h₁ (h₁.along.1 ha).1 hdis hlist hf
    cases hfiles
    have hend : o = .ret (.Ok (report env.maxQuery (found env w.fs topic (stems names)))) ∧ w' = w₁ ∧ tr₂ = [] := by
      rw [List.length_take] at h₂
      unfold report
      by_cases hover : env.maxQuery < (found env w.fs topic (stems names)).length
      · have hlast : min (min (env.maxQuery + 1) (found env w.fs topic (stems names)).length - 1) (env.maxQuery + 1) =
            env.maxQuery := by
          omega
        rw [if_pos (by omega), List.dropLast_eq_take, List.length_take, List.take_take, hlast] at h₂
        obtain ⟨rfl, rfl, rfl⟩ := run_ret.1 h₂
        rw [if_pos hover]
        exact ⟨rfl, rfl, rfl⟩
      · rw [if_neg (by omega), List.take_of_length_le (by omega)] at h₂
        obtain ⟨rfl, rfl, rfl⟩ := run_ret.1 h₂
        rw [if_neg hover, List.take_of_length_le (by omega)]
        exact ⟨rfl, rfl, rfl⟩
    obtain ⟨ho, rfl, rfl⟩ := hend
    rw [List.append_nil]
    exact ⟨ch, names, hmem, hperm, (stems_listed hperm).1, ho, fun t tm hm htopic e he l hl =>
      hswept.others_stay hm htopic he hl,
      seen, rest, hsplit, hscan, hall, hswept⟩
  · obtain ⟨_, _, _, _, ho, _⟩ := run_filesInfo h₁ ha hdis hlist hf
    cases ho
  · obtain ⟨_, _, _, _, ho, _⟩ := run_filesInfo h₁ ha hdis hlist hf
    cases ho

end Query

namespace Sample

/-- The pair of the id `f`, and metadata that nothing can be made of. -/
def heapFs : FS := pairFs.putFile "g.meta.oort".toList ["uploads".toList, "w".toList] ⟨[120], true, 0, 0⟩

def heap : World := { world with fs := heapFs }

def wideEnv : Env := { env codec with fuel := 400 }

/-- The order of the directory. -/
def heapOrder : List Name := [['.'], ['.', '.'], "g.meta.oort".toList, "f.meta.oort".toList, "f.data.oort".toList]

/-- A test for the hypotheses about `uploads`. -/
def heapTest (env : Env) (fs : FS) : Bool := (fs.children (env.inbox fs)).all fun n =>
    match fs.node (n :: env.inbox fs) with
  | some (.file i) => decide ((fs.inode i).data.length < env.fuel) && decide ('/' ∉ n)
  | _ => false

theorem heapTest_sound {env : Env} {fs : FS} (h : heapTest env fs = true) :
    Short env fs ∧ ∀ t, fs.node ((t ++ META_EXT) :: env.inbox fs) ≠ none → Legible env fs t := by
  have hall := List.all_eq_true.1 h
  refine ⟨fun n i hn => ?_, fun t ht => ?_⟩
  · have hn' := hall n (FS.mem_children.2 (by simp [hn]))
    simp only [hn, Bool.and_eq_true, decide_eq_true_eq] at hn'
    exact hn'.1
  · have ht' := hall _ (FS.mem_children.2 ht)
    split at ht'
    · rename_i i hi
      simp only [Bool.and_eq_true, decide_eq_true_eq, List.mem_append, not_or] at ht'
      exact ⟨ht'.2.1, i, hi⟩
    · cases ht'

end Sample

/-- A query that reports a file, with an entry for the quarantine. -/
theorem queryAvailable_exact_sample : ∃ tr o w' names,
    Run Machine (queryAvailable Sample.wideEnv "t".toList) Sample.heap tr o w' ∧
    o = .ret (.Ok (report 50 (found Sample.wideEnv Sample.heapFs "t".toList (stems names)))) ∧
    found Sample.wideEnv Sample.heapFs "t".toList ["g".toList, "f".toList] = [Sample.tm.fileInfo] ∧
    rotten Sample.wideEnv Sample.heapFs "t".toList ["g".toList, "f".toList] = ["g".toList] := by
  have h : (exec? Machine (queryAvailable Sample.wideEnv "t".toList)
      ([Sample.calm, { order := Sample.heapOrder }] ++ List.replicate 13 Sample.calm) Sample.heap).map
      (fun x => alongTest Machine (fun w e => e.call.op.fine e.res w.fs) Sample.heap x.1) = some true := by
    rw [Sample.wideEnv, Sample.heap, Sample.heapFs, Sample.pairFs, Sample.codec, Sample.metaText_eq]
    decide +kernel
  obtain ⟨⟨tr, o, w'⟩, hx, hfine⟩ := Option.map_eq_some_iff.1 h
  have hrun := exec?_sound hx
  obtain ⟨hshort, hlist⟩ :=
    Sample.heapTest_sound (by decide +kernel : Sample.heapTest Sample.wideEnv Sample.heapFs = true)
  obtain ⟨ch, names, -, -, -, ho, -⟩ := queryAvailable_exact hrun (alongTest_sound (fun _ _ hc => hc) hfine)
    (fun _ => rfl)
    (fun t _ => hlist t) hshort
  refine ⟨tr, o, w', names, hrun, ho, ?_, ?_⟩
  all_goals
    rw [Sample.wideEnv, Sample.heapFs, Sample.pairFs, Sample.codec, Sample.metaText_eq]
    decide +kernel

end OortAgent
