import OortAgent.Affixes
import OortAgent.Published
import OortAgent.Replies
import OortAgent.Undisturbed

/-!
# Questions that nothing disturbs

What a query and the information for the collector show in a clean run when the pairs are sound. Neither changes
a file.

* `run_queryAvailable_calm`: a query reports the pairs with its topic.
* `run_collectorInfo_calm`: the information names the files of `transfers`.
-/

namespace OortAgent

open Lib

/-! ## Listings -/

section Listings

variable {env : Env} {s : Site} {w w' : World} {tr : List Ev} {dir : Str} {D : Loc}

/-- The listing of a directory that is there. -/
theorem calm_listFiles {ext : Str} {o : Outcome Exn (List Name)} (h : Run Machine (listFiles s dir ext) w tr o w')
    (ha : Along Machine Clean w tr) (hD : w.fs.resolve dir = .ok D) (hd : w.fs.isDir D = true) :
    w' = w ∧ ∃ names : List Name, names.Perm (['.'] :: ['.', '.'] :: w.fs.children D) ∧
      o = .ret (names.filter fun n => decide (n.head? ≠ some '.') && (decide (ext = []) || endsWith n ext)) := by
  obtain ⟨ch, r, w₁, tr', he, hk, rfl⟩ := run_call.1 h
  obtain ⟨⟨herr, -⟩, -⟩ := (along_cons he).1 ha
  have hw := exec_looks he rfl
  subst hw
  have hentries : w₁.fs.pathEntries dir = .ok (['.'] :: ['.', '.'] :: w₁.fs.children D) := by
    rw [FS.pathEntries, hD]
    exact if_pos hd
  cases r with
  | error e =>
    simp only [Op.exec, inject_calm herr, hentries] at he
    split at he <;> cases he
  | ok names =>
    obtain ⟨ns, hns, hperm, -⟩ := exec_readdir he
    rw [hentries] at hns
    cases hns
    obtain ⟨-, rfl, rfl⟩ := run_ret.1 hk
    exact ⟨rfl, names, hperm, rfl⟩

/-- `fileStat` accepts files, and throws for what is no file. -/
theorem calm_fileStat {file : Str} {o : Outcome Exn Stat} (h : Run Machine (fileStat env s file) w tr o w')
    (ha : Along Machine Clean w tr) : ((∃ st, o = .ret st) ∨ ∃ e, o = .throw e ∧ e.isRuntime = true) ∧
      ∀ l, w.fs.resolve file = .ok l → ((∃ st, o = .ret st) ↔ ∃ k, w.fs.node l = some (.file k)) := by
  obtain ⟨ch, r, w₁, tr', he, hk, rfl⟩ := run_call.1 h
  obtain ⟨⟨herr, -⟩, -⟩ := (along_cons he).1 ha
  have hr : r = w.fs.pathStat file (ch.ticks 0) := by
    rw [← inject_calm herr (w.fs.pathStat file (ch.ticks 0))]
    exact (Prod.mk.inj (Option.some.inj he)).1.symm
  have hreg : (∃ st, r = .ok st ∧ st.isReg = true ∧ o = .ret st) ∨ (∀ st, r = .ok st → st.isReg = false) ∧
      ∃ e, o = .throw e ∧ e.isRuntime = true := by
    cases r with
    | error e =>
      obtain ⟨-, rfl, -⟩ := run_throw.1 hk
      exact .inr ⟨by simp, _, rfl, rfl⟩
    | ok st =>
      dsimp only at hk
      split at hk
      · rename_i hst
        obtain ⟨-, rfl, -⟩ := run_ret.1 hk
        exact .inl ⟨st, rfl, hst, rfl⟩
      · rename_i hst
        obtain ⟨-, rfl, -⟩ := run_throw.1 hk
        refine .inr ⟨fun st' he => ?_, _, rfl, rfl⟩
        cases he
        simpa using hst
  obtain ⟨st, rfl, hst, rfl⟩ | ⟨hno, e, rfl, he⟩ := hreg
  · refine ⟨.inl ⟨st, rfl⟩, fun l hl => ⟨fun _ => ?_, fun _ => ⟨st, rfl⟩⟩⟩
    obtain ⟨k, hl', hk', -⟩ := FS.pathStat_reg hr.symm hst
    rw [hl] at hl'
    cases hl'
    exact ⟨k, hk'⟩
  · refine ⟨.inr ⟨e, rfl, he⟩, fun l hl => ⟨?_, ?_⟩⟩
    · rintro ⟨st, hst⟩
      cases hst
    · rintro ⟨k, hk'⟩
      rw [FS.pathStat, hl] at hr
      simp only [hk'] at hr
      cases hno _ hr

/-- One name of `Files::file_names`. -/
theorem calm_statName {f : Name} {o : Outcome Exn (List Name)} (hD : w.fs.resolve dir = .ok D)
    (hd : w.fs.isDir D = true)
    (h : Run Machine ((do let _ ← fileStat env s (dir ++ '/' :: f); return [f] : Prog (List Name)).handle fun e =>
      if e.isRuntime then return [] else .throw e) w tr o w') (ha : Along Machine Clean w tr) :
    ∃ out, o = .ret out ∧ ∀ n, Plain n → (n ∈ out ↔ n = f ∧ ∃ k, w.fs.node (n :: D) = some (.file k)) := by
  rcases run_try.1 h with ⟨st, h₁, rfl⟩ | ⟨x, h₁, rfl⟩ | ⟨e, w₁, tr₁, tr₂, h₁, h₂, rfl⟩
  · obtain ⟨-, hiff⟩ := calm_fileStat h₁ ha
    refine ⟨[f], rfl, fun n hn => ?_⟩
    rw [List.mem_singleton]
    refine ⟨?_, And.left⟩
    rintro rfl
    exact ⟨rfl, (hiff _ (FS.resolve_child hD hd hn)).1 ⟨st, rfl⟩⟩
  · obtain ⟨⟨st, he⟩ | ⟨e, he, -⟩, -⟩ := calm_fileStat h₁ ha
    · cases he
    · cases he
  · obtain ⟨⟨st, he⟩ | ⟨e', he, hr⟩, hiff⟩ := calm_fileStat h₁ (h₁.along.1 ha).1
    · cases he
    · cases he
      rw [if_pos hr] at h₂
      obtain ⟨-, rfl, -⟩ := run_ret.1 h₂
      refine ⟨[], rfl, fun n hn => ⟨fun hm => absurd hm List.not_mem_nil, ?_⟩⟩
      rintro ⟨rfl, hk⟩
      obtain ⟨st, hst⟩ := (hiff _ (FS.resolve_child hD hd hn)).2 hk
      cases hst

/-- The files among the names: induction over the names. -/
theorem calm_statNames (hD : w.fs.resolve dir = .ok D) (hd : w.fs.isDir D = true) :
    ∀ {files : List Name} {tr : List Ev} {o : Outcome Exn (List Name)} {w' : World},
      Run Machine (statNames env s dir files) w tr o w' → Along Machine Clean w tr → ∃ out, o = .ret out ∧
        ∀ n, Plain n → (n ∈ out ↔ n ∈ files ∧ ∃ k, w.fs.node (n :: D) = some (.file k))
  | [], _, _, _, h, _ => by
    obtain ⟨-, rfl, -⟩ := run_ret.1 h
    exact ⟨[], rfl, by simp⟩
  | f :: files, tr, o, w', h, ha => by
    obtain ⟨here, w₁, tr₁, tr₂, h₁, ha₁, h₂, ha₂, rfl⟩ := h.bind_along ha fun h ha =>
      (calm_statName hD hd h ha).imp fun _ => And.left
    obtain ⟨out, ho, hout⟩ := calm_statName hD hd h₁ ha₁
    cases ho
    have hw₁ : w₁ = w := by
      refine (Run.looks (s := s) h₁ (Proc.Calls.handle ((fileStat_calls _).bind fun _ => trivial) fun e => ?_)).1
      split <;> trivial
    rw [hw₁] at h₂ ha₂
    obtain ⟨rest, w₂, tr₃, tr₄, h₃, ha₃, h₄, -, rfl⟩ := h₂.bind_along ha₂ fun h ha =>
      (calm_statNames hD hd h ha).imp fun _ => And.left
    obtain ⟨rest', hr, hrest⟩ := calm_statNames hD hd h₃ ha₃
    cases hr
    obtain ⟨-, rfl, -⟩ := run_ret.1 h₄
    refine ⟨_, rfl, fun n hn => ?_⟩
    rw [List.mem_append, hout n hn, hrest n hn, List.mem_cons, ← or_and_right]

/-- `Files::file_names` finds the files whose names have no dot in front. -/
theorem calm_fileNames {o : Outcome Exn (List Name)} (h : Run Machine (fileNames env s dir) w tr o w')
    (ha : Along Machine Clean w tr) (hD : w.fs.resolve dir = .ok D) (hd : w.fs.isDir D = true) : ∃ out, o = .ret out ∧
      ∀ n, Plain n → (n ∈ out ↔ n.head? ≠ some '.' ∧ ∃ k, w.fs.node (n :: D) = some (.file k)) := by
  obtain ⟨files, w₁, tr₁, tr₂, h₁, ha₁, h₂, ha₂, rfl⟩ := h.bind_along ha fun h ha => by
    obtain ⟨-, names, -, ho⟩ := calm_listFiles h ha hD hd
    exact ⟨_, ho⟩
  obtain ⟨rfl, names, hperm, ho⟩ := calm_listFiles h₁ ha₁ hD hd
  cases ho
  obtain ⟨out, ho, hout⟩ := calm_statNames hD hd h₂ ha₂
  refine ⟨out, ho, fun n hn => ?_⟩
  rw [hout n hn, List.mem_filter, hperm.mem_iff]
  refine ⟨?_, ?_⟩
  · rintro ⟨⟨-, hdot⟩, hk⟩
    exact ⟨of_decide_eq_true (Bool.and_eq_true_iff.1 hdot).1, hk⟩
  · rintro ⟨hdot, k, hk⟩
    refine ⟨⟨?_, by simp [hdot]⟩, k, hk⟩
    exact List.mem_cons_of_mem _ (List.mem_cons_of_mem _ (FS.mem_children.2 (by simp [hk])))

end Listings

/-! ## A query -/

section Asking

variable {env : Env} {w w' : World} {tr : List Ev} {t topic : Str} {tm : TransferMeta} {data : Bytes}

/-- A sound pair is reported to those who ask for its topic. -/
theorem SoundPair.appraise {fs : FS} (h : SoundPair env fs (env.inbox fs) t tm data) :
    appraise env fs topic t = if tm.topic ≠ topic then .other else .good tm.fileInfo := by
  obtain ⟨text, htext, hparse⟩ := h.note
  obtain ⟨i, hi, rfl, -⟩ := FS.look_eq_file.1 htext
  obtain ⟨k, hk, hkd, -⟩ := FS.look_eq_file.1 h.file
  have hmeta : metaOf env fs t = some tm := by
    rw [metaAt] at hi
    rw [metaOf, hi]
    exact hparse
  have hhas : dataHas env fs t tm.fileInfo.crc32 = true := by
    rw [dataAt] at hk
    rw [dataHas, hk]
    exact decide_eq_true (hkd ▸ h.crc)
  rw [OortAgent.appraise, hmeta]
  dsimp only
  rw [if_pos hhas]

/-- The path of the data of an entry. -/
theorem dataFile_entry {d : Str} : dataFile (d ++ '/' :: (t ++ META_EXT)) = some (d ++ '/' :: (t ++ DATA_EXT)) := by
  have hsplit : d ++ '/' :: (t ++ META_EXT) = (d ++ '/' :: t) ++ META_EXT := by simp
  rw [hsplit, dataFile_append]
  simp

/-- The `try` block for a pair that is there. -/
theorem calm_filesInfoEntry {o : Outcome Exn Entry}
    (h : Run Machine (filesInfoEntry env env.uploadDir topic (t ++ META_EXT)) w tr o w') (ha : Along Machine Clean w tr)
    (hU : Open w.fs env.uploadDir) (ht : '/' ∉ t) (hP : KnownPair env w env.uploadDir t tm data)
    (hfit : Fits env w.fs) :
    o = .ret (if tm.topic ≠ topic then .skip else .push tm.fileInfo) ∧ w'.fs = w.fs ∧
      Learns (Current env w.fs) w w' := by
  have hres : w.fs.resolve (env.uploadDir ++ '/' :: (t ++ DATA_EXT)) = .ok ((t ++ DATA_EXT) :: env.inbox w.fs) :=
    FS.resolve_child hU.resolve (FS.isDir_of_writable hU.writable) (IsExt.plain (.inr rfl) ht)
  obtain ⟨k, hk, hkd, hkr⟩ := FS.look_eq_file.1 hP.sound.file
  obtain ⟨tm', w₁, tr₁, tr₂, h₁, ha₁, h₂, ha₂, rfl⟩ := h.bind_along ha fun h ha =>
    ⟨_, (calm_readKnown (.inr rfl) ht h ha hU hP hfit).1⟩
  obtain ⟨ho, hfs, hL⟩ := calm_readKnown (.inr rfl) ht h₁ ha₁ hU hP hfit
  cases ho
  split at h₂
  · rename_i htopic
    obtain ⟨-, rfl, rfl⟩ := run_ret.1 h₂
    rw [if_pos htopic]
    exact ⟨rfl, hfs, hL⟩
  rename_i htopic
  rw [dataFile_entry] at h₂
  -- the data has the checksum
  have hinfo : ∀ {tr : List Ev} {o : Outcome Exn FileInfo} {w' : World},
      Run Machine (fileInfo env .entryInfo (env.uploadDir ++ '/' :: (t ++ DATA_EXT))) w₁ tr o w' →
      Along Machine Clean w₁ tr →
      o = .ret (infoOf (env.uploadDir ++ '/' :: (t ++ DATA_EXT)) (w.fs.inode k)) ∧ w' = w₁ := by
    rw [← hfs] at hres hk hkr hfit ⊢
    exact fun h ha => calm_fileInfo h ha hres hk hkr (hfit _ _ hk)
  have h₂' : Run Machine ((fileInfo env .entryInfo (env.uploadDir ++ '/' :: (t ++ DATA_EXT))).bind fun fi =>
      if tm.fileInfo.crc32 ≠ fi.crc32 then do
        endeaden env (env.uploadDir ++ '/' :: (t ++ META_EXT))
        return .skip
      else return .push tm.fileInfo) w₁ tr₂ o w' := h₂
  obtain ⟨fi, w₂, tr₃, tr₄, h₃, ha₃, h₄, -, rfl⟩ := h₂'.bind_along ha₂ fun h ha => ⟨_, (hinfo h ha).1⟩
  obtain ⟨ho, rfl⟩ := hinfo h₃ ha₃
  cases ho
  rw [if_neg (by rw [hP.sound.crc, ← hkd]; simp [infoOf])] at h₄
  obtain ⟨-, rfl, rfl⟩ := run_ret.1 h₄
  rw [if_neg htopic]
  exact ⟨rfl, hfs, hL⟩

/-- One round for a pair that is gone: even if the cache has its metadata, there is no data. -/
theorem calm_filesInfoRound_gone {o : Outcome Exn Entry}
    (h : Run Machine (filesInfoRound env env.uploadDir topic (t ++ META_EXT)) w tr o w') (ha : Along Machine Clean w tr)
    (hU : Open w.fs env.uploadDir) (ht : '/' ∉ t) (hno : NoPair w.fs (env.inbox w.fs) t) :
    (o = .ret .skip ∨ o = .ret .caught) ∧ w'.fs = w.fs ∧ Learns (Current env w.fs) w w' := by
  have hentry : ∀ {tr : List Ev} {o : Outcome Exn Entry} {w' : World},
      Run Machine (filesInfoEntry env env.uploadDir topic (t ++ META_EXT)) w tr o w' → Along Machine Clean w tr →
      (o = .ret .skip ∨ ∃ e, o = .throw e ∧ e.isRuntime = true) ∧ w'.fs = w.fs ∧ Learns (Current env w.fs) w w' := by
    intro tr o w' h ha
    rcases run_bind.1 h with ⟨tm', w₁, tr₁, tr₂, h₁, h₂, rfl⟩ | ⟨e, h₁, rfl⟩ | ⟨x, h₁, rfl⟩
    · obtain ⟨ha₁, ha₂⟩ := h₁.along.1 ha
      obtain ⟨hfs, hL, -⟩ := calm_readGone uploadDir_ne_nil ht h₁ ha₁ hU hno
      split at h₂
      · obtain ⟨-, rfl, rfl⟩ := run_ret.1 h₂
        exact ⟨.inl rfl, hfs, hL⟩
      rw [dataFile_entry] at h₂
      have hlead : ∀ k, ¬ Leads w₁.fs (env.uploadDir ++ '/' :: (t ++ DATA_EXT)) k := by
        rintro k ⟨-, hk⟩
        rw [hfs, norm_child uploadDir_ne_nil (IsExt.plain (.inr rfl) ht)] at hk
        cases (hno.node (.inr rfl)).symm.trans hk
      have hinfo : ∀ {tr : List Ev} {o : Outcome Exn FileInfo} {w' : World},
          Run Machine (fileInfo env .entryInfo (env.uploadDir ++ '/' :: (t ++ DATA_EXT))) w₁ tr o w' →
          Along Machine Clean w₁ tr →
          w' = w₁ ∧ ∃ e, o = .throw e ∧ e.isRuntime = true := by
        intro tr o w' h ha
        obtain ⟨hw, ⟨he, -⟩ | ⟨k, hk, -⟩⟩ := calm_fileInfo_or h ha fun k hk => by
          rw [hfs, norm_child uploadDir_ne_nil (IsExt.plain (.inr rfl) ht)] at hk
          cases (hno.node (.inr rfl)).symm.trans hk
        · exact ⟨hw, he⟩
        · exact absurd hk (hlead k)
      have h₂' : Run Machine ((fileInfo env .entryInfo (env.uploadDir ++ '/' :: (t ++ DATA_EXT))).bind fun fi =>
          if tm'.fileInfo.crc32 ≠ fi.crc32 then do
            endeaden env (env.uploadDir ++ '/' :: (t ++ META_EXT))
            return .skip
          else return .push tm'.fileInfo) w₁ tr₂ o w' := h₂
      rcases run_bind.1 h₂' with ⟨fi, w₂, tr₃, tr₄, h₃, h₄, rfl⟩ | ⟨e, h₃, rfl⟩ | ⟨x, h₃, rfl⟩
      · obtain ⟨-, _, he, -⟩ := hinfo h₃ (h₃.along.1 ha₂).1
        cases he
      · obtain ⟨rfl, _, he, hr⟩ := hinfo h₃ ha₂
        cases he
        exact ⟨.inr ⟨_, rfl, hr⟩, hfs, hL⟩
      · obtain ⟨-, _, he, -⟩ := hinfo h₃ ha₂
        cases he
    · obtain ⟨hfs, hL, ⟨e', he, hr⟩ | ⟨-, _, he, -⟩⟩ := calm_readGone uploadDir_ne_nil ht h₁ ha hU hno
      · cases he
        exact ⟨.inr ⟨_, rfl, hr⟩, hfs, hL⟩
      · cases he
    · obtain ⟨-, -, ⟨e', he, -⟩ | ⟨-, _, he, -⟩⟩ := calm_readGone uploadDir_ne_nil ht h₁ ha hU hno <;> cases he
  rcases run_handle.1 h with ⟨a, h₁, rfl⟩ | ⟨x, h₁, rfl⟩ | ⟨e, w₁, tr₁, tr₂, h₁, h₂, rfl⟩
  · obtain ⟨ho | ⟨e, he, -⟩, hfs, hL⟩ := hentry h₁ ha
    · exact ⟨.inl ho, hfs, hL⟩
    · cases he
  · obtain ⟨ho | ⟨e, he, -⟩, -⟩ := hentry h₁ ha
    · cases ho
    · cases he
  · obtain ⟨ho | ⟨e', he, hr⟩, hfs, hL⟩ := hentry h₁ (h₁.along.1 ha).1
    · cases ho
    cases he
    rw [if_pos hr] at h₂
    rw [← hfs] at hno
    rcases run_bind.1 h₂ with ⟨u, w₂, tr₃, tr₄, h₃, h₄, rfl⟩ | ⟨e', h₃, -⟩ | ⟨x, h₃, -⟩
    · obtain ⟨-, rfl⟩ := endeaden_nothing uploadDir_ne_nil ht h₃ (hno.node (.inl rfl)) (hno.node (.inr rfl))
      obtain ⟨-, rfl, rfl⟩ := run_ret.1 h₄
      exact ⟨.inr rfl, hfs, hL⟩
    · cases (endeaden_nothing uploadDir_ne_nil ht h₃ (hno.node (.inl rfl)) (hno.node (.inr rfl))).1
    · cases (endeaden_nothing uploadDir_ne_nil ht h₃ (hno.node (.inl rfl)) (hno.node (.inr rfl))).1

/-- A pair that is gone is not reported. -/
theorem NoPair.appraise {fs : FS} (h : NoPair fs (env.inbox fs) t) : appraise env fs topic t = .bad := by
  have hmeta : metaOf env fs t = none := by rw [metaOf, h.node (.inl rfl)]
  rw [OortAgent.appraise, hmeta]

/-- The names are those of pairs, which are there or not. -/
def AllWhole (env : Env) (w : World) (ts : List Str) : Prop := ∀ t ∈ ts, '/' ∉ t ∧ WholePair env w env.uploadDir t

/-- The loop over pairs: induction over the names. -/
theorem calm_filesInfoLoop : ∀ {ts : List Str} {flist : List FileInfo} {w w' : World} {tr : List Ev}
    {o : Outcome Exn (List FileInfo)},
    Run Machine (filesInfoLoop env env.uploadDir topic (ts.map (· ++ META_EXT)) flist) w tr o w' →
    Along Machine Clean w tr →
    Open w.fs env.uploadDir → Fits env w.fs → AllWhole env w ts → flist.length ≤ env.maxQuery →
    o = .ret (flist ++ (found env w.fs topic ts).take (env.maxQuery + 1 - flist.length)) ∧ w'.fs = w.fs ∧
      Learns (Current env w.fs) w w'
  | [], flist, w, w', tr, o, h, _, _, _, _, _ => by
    obtain ⟨-, rfl, rfl⟩ := run_ret.1 h
    exact ⟨by simp [found], rfl, .refl⟩
  | t :: ts, flist, w, w', tr, o, h, ha, hU, hfit, hall, hlen => by
    obtain ⟨ht, hpair⟩ := hall t List.mem_cons_self
    -- the other names, after this round
    have hnext : ∀ {flist' : List FileInfo} {w₁ w' : World} {tr : List Ev} {o : Outcome Exn (List FileInfo)},
        Run Machine (filesInfoLoop env env.uploadDir topic (ts.map (· ++ META_EXT)) flist') w₁ tr o w' →
        Along Machine Clean w₁ tr → w₁.fs = w.fs → Learns (Current env w.fs) w w₁ → flist'.length ≤ env.maxQuery →
        o = .ret (flist' ++ (found env w.fs topic ts).take (env.maxQuery + 1 - flist'.length)) ∧ w'.fs = w.fs ∧
          Learns (Current env w.fs) w w' := by
      intro flist' w₁ w' tr o h ha hfs hL hlen
      obtain ⟨ho, hfs', hL'⟩ := calm_filesInfoLoop h ha (by rw [hfs]; exact hU) (by rw [hfs]; exact hfit)
        (fun x hx => by
          obtain ⟨hs, hw⟩ := hall x (List.mem_cons_of_mem _ hx)
          exact ⟨hs, hw.learns hs hL hfs⟩) hlen
      rw [hfs] at ho hL'
      exact ⟨ho, hfs'.trans hfs, hL.trans hL'⟩
    obtain hno | ⟨tm, data, hP⟩ := hpair
    · have hskip : found env w.fs topic (t :: ts) = found env w.fs topic ts := found_skip (by rw [hno.appraise]; rfl)
      rw [hskip]
      obtain ⟨r, w₁, tr₁, tr₂, h₁, ha₁, h₂, ha₂, rfl⟩ := h.bind_along ha fun h ha =>
        (calm_filesInfoRound_gone h ha hU ht hno).1.elim (⟨_, ·⟩) (⟨_, ·⟩)
      obtain ⟨hr | hr, hfs, hL⟩ := calm_filesInfoRound_gone h₁ ha₁ hU ht hno
      · cases hr
        exact hnext h₂ ha₂ hfs hL hlen
      · cases hr
        dsimp only at h₂
        rw [if_neg (Nat.not_lt.2 hlen)] at h₂
        exact hnext h₂ ha₂ hfs hL hlen
    · have hround : ∀ {tr : List Ev} {o : Outcome Exn Entry} {w' : World},
          Run Machine (filesInfoRound env env.uploadDir topic (t ++ META_EXT)) w tr o w' → Along Machine Clean w tr →
          o = .ret (if tm.topic ≠ topic then .skip else .push tm.fileInfo) ∧ w'.fs = w.fs ∧
            Learns (Current env w.fs) w w' := by
        intro tr o w' h ha
        rcases run_handle.1 h with ⟨a, h₁, rfl⟩ | ⟨x, h₁, rfl⟩ | ⟨e, w₁, tr₁, tr₂, h₁, h₂, rfl⟩
        · exact calm_filesInfoEntry h₁ ha hU ht hP hfit
        · cases (calm_filesInfoEntry h₁ ha hU ht hP hfit).1
        · cases (calm_filesInfoEntry h₁ (h₁.along.1 ha).1 hU ht hP hfit).1
      obtain ⟨r, w₁, tr₁, tr₂, h₁, ha₁, h₂, ha₂, rfl⟩ := h.bind_along ha fun h ha => ⟨_, (hround h ha).1⟩
      obtain ⟨hr, hfs, hL⟩ := hround h₁ ha₁
      by_cases htopic : tm.topic ≠ topic
      · rw [if_pos htopic] at hr
        cases hr
        rw [found_skip (by rw [hP.sound.appraise, if_pos htopic]; rfl)]
        exact hnext h₂ ha₂ hfs hL hlen
      · rw [if_neg htopic] at hr
        cases hr
        have hgood : OortAgent.appraise env w.fs topic t = .good tm.fileInfo := by
          rw [hP.sound.appraise, if_neg htopic]
        rw [found_good hgood]
        dsimp only at h₂
        by_cases hfull : (flist ++ [tm.fileInfo]).length > env.maxQuery
        · rw [if_pos hfull] at h₂
          obtain ⟨-, rfl, rfl⟩ := run_ret.1 h₂
          have hone : env.maxQuery + 1 - flist.length = 1 := by
            rw [List.length_append, List.length_singleton] at hfull
            omega
          rw [hone, List.take_succ_cons, List.take_zero]
          exact ⟨rfl, hfs, hL⟩
        · rw [if_neg hfull] at h₂
          rw [List.length_append, List.length_singleton] at hfull
          obtain ⟨ho, hrest⟩ := hnext h₂ ha₂ hfs hL (by rw [List.length_append, List.length_singleton]; omega)
          have hone : env.maxQuery + 1 - flist.length = env.maxQuery + 1 - (flist ++ [tm.fileInfo]).length + 1 := by
            rw [List.length_append, List.length_singleton]
            omega
          rw [hone, List.take_succ_cons]
          exact ⟨by rw [ho, List.append_assoc, List.singleton_append], hrest⟩

/-- What a query goes through: a listing that the cache has, or that of the directory. -/
def Browsed (env : Env) (w : World) (ts : List Str) : Prop :=
  ((w.caches .metafile).enabled = true ∧ w.Holds .metafile env.uploadDir (ts.map (· ++ META_EXT))) ∨
    ∃ names : List Name, names.Perm (['.'] :: ['.', '.'] :: w.fs.children (env.inbox w.fs)) ∧ ts = stems names

/-- **A calm query.** The files of the pairs that are listed, are there and have the topic are reported, and no file
changes. -/
theorem run_queryAvailable_calm {o : Outcome Exn (Response AvailableFilesResponse)}
    (h : Run Machine (queryAvailable env topic) w tr o w') (ha : Along Machine Clean w tr)
    (hU : Open w.fs env.uploadDir) (hfit : Fits env w.fs)
    (hheld : ∀ files, w.Holds .metafile env.uploadDir files → ∃ ts : List Str, files = ts.map (· ++ META_EXT))
    (hall : ∀ ts, Browsed env w ts → AllWhole env w ts) :
    w'.fs = w.fs ∧ Learns (Current env w.fs) w w' ∧
      ∃ ts, Browsed env w ts ∧ o = .ret (.Ok (report env.maxQuery (found env w.fs topic ts))) := by
  have hfiles : ∀ {tr : List Ev} {o : Outcome Exn (List FileInfo)} {w' : World},
      Run Machine (filesInfo env env.uploadDir topic) w tr o w' → Along Machine Clean w tr →
      w'.fs = w.fs ∧ Learns (Current env w.fs) w w' ∧
        ∃ ts, Browsed env w ts ∧ o = .ret ((found env w.fs topic ts).take (env.maxQuery + 1)) := by
    intro tr o w' h ha
    have hlist : ∀ {tr : List Ev} {o : Outcome Exn (CacheId.Val .metafile)} {w' : World},
        Run Machine (cacheGet .metafile env.uploadDir (listFiles .listFiles env.uploadDir META_EXT)) w tr o w' →
        Along Machine Clean w tr → w'.fs = w.fs ∧ Learns (Current env w.fs) w w' ∧
          ∃ ts, Browsed env w ts ∧ o = .ret (ts.map (· ++ META_EXT)) := by
      intro tr o w' h₁ ha₁
      have hfn : Finds w.fs (c := .metafile) (listFiles .listFiles env.uploadDir META_EXT) fun o =>
          ∃ names : List Name, names.Perm (['.'] :: ['.', '.'] :: w.fs.children (env.inbox w.fs)) ∧
            o = .ret ((stems names).map (· ++ META_EXT)) := by
        intro w₁ tr₁ o₁ w₂ hfs h₂ ha₂
        obtain ⟨hw, names, hperm, ho⟩ := calm_listFiles h₂ ha₂ (by rw [hfs]; exact hU.resolve)
          (by rw [hfs]; exact FS.isDir_of_writable hU.writable)
        rw [hfs] at hperm
        refine ⟨hw, names, hperm, ?_⟩
        rw [stems_map, ho]
        rfl
      obtain ⟨hL, hfs, ⟨names, hperm, ho⟩ | ⟨hen, v, ho, hv⟩⟩ := calm_cacheGet (P := Current env w.fs) h₁ ha₁ hfn
        (fun v hv => by
          obtain ⟨names, hperm, ho⟩ := hv
          cases ho
          exact ⟨rfl, names, hperm, rfl⟩)
        (fun x hx => by
          obtain ⟨_, -, ho⟩ := hx
          cases ho)
      · exact ⟨hfs, hL, _, .inr ⟨names, hperm, rfl⟩, ho⟩
      · obtain ⟨ts, rfl⟩ := hheld v hv
        exact ⟨hfs, hL, ts, .inl ⟨hen, hv⟩, ho⟩
    obtain ⟨files, w₁, tr₁, tr₂, h₁, ha₁, h₂, ha₂, rfl⟩ := h.bind_along ha fun h ha => by
      obtain ⟨-, -, ts, -, ho⟩ := hlist h ha
      exact ⟨_, ho⟩
    obtain ⟨hfs, hL, ts, hts, hnames⟩ := hlist h₁ ha₁
    cases hnames
    obtain ⟨ho, hfs', hL'⟩ := calm_filesInfoLoop h₂ ha₂ (by rw [hfs]; exact hU) (by rw [hfs]; exact hfit)
      (fun t ht => by
        obtain ⟨hs, hw⟩ := hall ts hts t ht
        exact ⟨hs, hw.learns hs hL hfs⟩) (Nat.zero_le _)
    rw [hfs] at ho hL'
    exact ⟨hfs'.trans hfs, hL.trans hL', ts, hts, by simpa using ho⟩
  obtain ⟨files, w₁, tr₁, tr₂, h₁, ha₁, h₂, -, rfl⟩ := h.bind_along ha fun h ha => by
    obtain ⟨-, -, ts, -, ho⟩ := hfiles h ha
    exact ⟨_, ho⟩
  obtain ⟨hfs, hL, ts, hts, ho⟩ := hfiles h₁ ha₁
  cases ho
  rw [List.length_take] at h₂
  unfold report
  by_cases hover : env.maxQuery < (found env w.fs topic ts).length
  · have hlast : min (min (env.maxQuery + 1) (found env w.fs topic ts).length - 1) (env.maxQuery + 1) =
        env.maxQuery := by
      omega
    rw [if_pos (by omega), List.dropLast_eq_take, List.length_take, List.take_take, hlast] at h₂
    obtain ⟨-, rfl, rfl⟩ := run_ret.1 h₂
    exact ⟨hfs, hL, ts, hts, by rw [if_pos hover]⟩
  · rw [if_neg (by omega), List.take_of_length_le (by omega)] at h₂
    obtain ⟨-, rfl, rfl⟩ := run_ret.1 h₂
    exact ⟨hfs, hL, ts, hts, by rw [if_neg hover, List.take_of_length_le (by omega)]⟩

end Asking

/-! ## Information for the collector -/

section Info

variable {env : Env} {w w' : World} {tr : List Ev}

/-- What does not change files leaves them, and the ids. -/
theorem Run.still {α : Type} {p : Prog α} {o : Outcome Exn α} (h : Run Machine p w tr o w') (hp : p.Calls Still) :
    w'.fs = w.fs ∧ w'.uuids = w.uuids :=
  h.keeps (I := fun x => x.fs = w.fs ∧ x.uuids = w.uuids)
    (fun _ _ _ _ _ hc he hI => ⟨(exec_still hc he).1.trans hI.1, (exec_still hc he).2.trans hI.2⟩) hp ⟨rfl, rfl⟩

/-- `Files::file_names` of a directory that may be missing. -/
theorem calm_fileNames_or {s : Site} {dir : Str} {o : Outcome Exn (List Name)}
    (h : Run Machine (fileNames env s dir) w tr o w')
    (ha : Along Machine Clean w tr) : w' = w ∧
    (((∃ e, o = .throw e) ∧ ∀ D, w.fs.resolve dir = .ok D → w.fs.isDir D = false) ∨
      ∃ names, o = .ret names ∧ Current env w.fs .dir dir names) := by
  refine ⟨(Run.looks h (fileNames_calls dir)).1, ?_⟩
  by_cases hdir : ∃ D, w.fs.resolve dir = .ok D ∧ w.fs.isDir D = true
  · obtain ⟨D, hD, hd⟩ := hdir
    obtain ⟨names, ho, hnames⟩ := calm_fileNames h ha hD hd
    exact .inr ⟨names, ho, D, hD, hnames⟩
  have hno : ∀ D, w.fs.resolve dir = .ok D → w.fs.isDir D = false := fun D hD => by
    by_contra hd
    exact hdir ⟨D, hD, by simpa using hd⟩
  have hlist : ∀ {tr : List Ev} {o : Outcome Exn (List Name)} {w' : World}, Run Machine (listFiles s dir []) w tr o w' →
      ∃ e, o = .throw e := by
    intro tr o w' h
    obtain ⟨ch, r, w₁, tr', he, hk, rfl⟩ := run_call.1 h
    cases r with
    | error e =>
      obtain ⟨-, rfl, -⟩ := run_throw.1 hk
      exact ⟨_, rfl⟩
    | ok names =>
      obtain ⟨ns, hns, -⟩ := exec_readdir he
      rw [FS.pathEntries] at hns
      split at hns
      · cases hns
      · rename_i D hD
        rw [if_neg (by simp [hno D hD])] at hns
        cases hns
  refine .inl ⟨?_, hno⟩
  rcases run_bind.1 h with ⟨files, w₁, tr₁, tr₂, h₁, -, rfl⟩ | ⟨e, h₁, rfl⟩ | ⟨x, h₁, rfl⟩
  · obtain ⟨e, he⟩ := hlist h₁
    cases he
  · exact ⟨e, rfl⟩
  · obtain ⟨e, he⟩ := hlist h₁
    cases he

/-- The names of the files of a directory, which the cache may have. -/
theorem calm_cachedNames {s : Site} {dir : Str} {o : Outcome Exn (List Name)}
    (h : Run Machine (cacheGet .dir dir (fileNames env s dir)) w tr o w') (ha : Along Machine Clean w tr) :
    w'.fs = w.fs ∧ Learns (Current env w.fs) w w' ∧
    (((∃ e, o = .throw e) ∧ ∀ D, w.fs.resolve dir = .ok D → w.fs.isDir D = false) ∨ ∃ names, o = .ret names ∧
      (Current env w.fs .dir dir names ∨ (w.caches .dir).enabled = true ∧ w.Holds .dir dir names)) := by
  have hfn : Finds w.fs (c := .dir) (fileNames env s dir) fun o =>
      ((∃ e, o = .throw e) ∧ ∀ D, w.fs.resolve dir = .ok D → w.fs.isDir D = false) ∨
        ∃ names, o = .ret names ∧ Current env w.fs .dir dir names := by
    intro w₁ tr₁ o₁ w₂ hfs h₁ ha₁
    rw [← hfs]
    exact calm_fileNames_or h₁ ha₁
  obtain ⟨hL, hfs, hO | ⟨hen, v, ho, hv⟩⟩ := calm_cacheGet (P := Current env w.fs) h ha hfn
    (fun v hv => by
      obtain ⟨⟨_, ho⟩, -⟩ | ⟨names, ho, hnames⟩ := hv
      · cases ho
      · cases ho
        exact hnames)
    (fun x hx => by
      obtain ⟨⟨_, ho⟩, -⟩ | ⟨names, ho, -⟩ := hx <;> cases ho)
  · refine ⟨hfs, hL, hO.imp_right ?_⟩
    rintro ⟨names, ho, hnames⟩
    exact ⟨names, ho, .inl hnames⟩
  · exact ⟨hfs, hL, .inr ⟨v, ho, .inr ⟨hen, hv⟩⟩⟩

/-- **Calm information.** It names the files of `transfers`, or those that the cache has, and no file changes. -/
theorem run_collectorInfo_calm {req : InfoRequest} {r : Response InfoResponse}
    (h : Run Machine (collectorInfo env req) w tr (.ret r) w')
    (ha : Along Machine Clean w tr) : w'.fs = w.fs ∧ Learns (Current env w.fs) w w' ∧ ∃ info, r = .Ok info ∧
      (Current env w.fs .dir env.transferDir info.files ∨ (w.caches .dir).enabled = true ∧
        w.Holds .dir env.transferDir info.files) := by
  obtain ⟨_, w₁, tr₁, tr₂, h₁, h₂, rfl⟩ := run_bind_ret.1 h
  have hw₁ : w₁.fs = w.fs ∧ w₁.uuids = w.uuids ∧ w₁.locked = w.locked ∧ w₁.caches = w.caches := by
    cases hreq : req.topics with
    | none =>
      rw [hreq] at h₁
      obtain ⟨-, -, rfl⟩ := run_ret.1 h₁
      exact ⟨rfl, rfl, rfl, rfl⟩
    | some ts =>
      rw [hreq] at h₁
      obtain ⟨ch, r', w₂, tr', he, hk, rfl⟩ := run_sys.1 h₁
      obtain ⟨-, -, rfl⟩ := run_ret.1 hk
      cases he
      exact ⟨rfl, rfl, rfl, rfl⟩
  obtain ⟨hfs₁, hids₁, hlocked₁, hcaches₁⟩ := hw₁
  have hL₁ : Learns (Current env w.fs) w w₁ := .of_caches (by rw [hfs₁]) hids₁ hlocked₁ hcaches₁
  have ha₂ := (h₁.along.1 ha).2
  obtain ⟨sysinfo, w₂, tr₃, tr₄, h₃, h₄, rfl⟩ := run_bind_ret.1 h₂
  obtain ⟨ch, vfs, w₂', tr₅, e₃, h₃', rfl⟩ := run_call.1 h₃
  have hw₂ := exec_looks e₃ rfl
  subst hw₂
  obtain ⟨-, -, rfl⟩ := run_ret.1 h₃'
  have ha₄ := (h₃.along.1 ha₂).2
  obtain ⟨ch', topics, w₃, tr₆, e₄, h₅, rfl⟩ := run_call.1 h₄
  have ha₅ := ((along_cons e₄).1 ha₄).2
  have hw₃ := exec_looks e₄ rfl
  subst hw₃
  obtain ⟨files, w₄, tr₇, tr₈, h₆, h₇, rfl⟩ := run_bind_ret.1 h₅
  obtain ⟨ha₆, ha₇⟩ := h₆.along.1 ha₅
  obtain ⟨hfs₄, hL₄, ⟨⟨_, ho⟩, -⟩ | ⟨names, ho, hnames⟩⟩ := calm_cachedNames h₆ ha₆
  · cases ho
  cases ho
  obtain ⟨dead, w₅, tr₁₀, tr₁₁, h₉, h₁₀, rfl⟩ := run_bind_ret.1 h₇
  obtain ⟨hfs₅, hL₅, -⟩ := calm_cachedNames h₉ (h₉.along.1 ha₇).1
  obtain ⟨-, hr, rfl⟩ := run_ret.1 h₁₀
  cases hr
  rw [hfs₄, hfs₁] at hL₅
  rw [hfs₁] at hL₄ hnames
  refine ⟨(hfs₅.trans hfs₄).trans hfs₁, (hL₁.trans hL₄).trans hL₅, _, rfl, ?_⟩
  rw [World.Holds, hcaches₁] at hnames
  exact hnames

end Info

end OortAgent
