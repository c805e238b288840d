import OortAgent.Cleaner
import OortAgent.Pair

/-!
# What a cleanup run removes

`Files::oldFiles` compares the times of the files with a limit that went through an `int`; `Cleaner::cleanOldFiles`
makes two passes over the list, and its second pass sees what its first pass did.

- `run_oldFiles`: the list, from the answers of `stat`;
- `oldFiles_exact_iff`: it is the list of unbounded integers exactly while the limit is an `int`;
- `run_cleanMetas`, `run_cleanOrphans`: what each pass removes;
- `cleanOldFiles_exact`: a run removes exactly the expired files.
-/

namespace OortAgent

open Lib

/-! ## The old files -/

/-- What a `stat` found. -/
def Op.stated : (op : Op) → op.Res → Option (Str × Stat)
  | .stat p, .ok st => some (p, st)
  | _, _ => none

/-- What the `stat`s of a run found, in their order. -/
def stats (tr : List Ev) : List (Str × Stat) := tr.filterMap fun e => e.call.op.stated e.res

@[simp] theorem stats_nil : stats [] = [] := rfl

@[simp] theorem stats_cons {e : Ev} {tr : List Ev} : stats (e :: tr) = (e.call.op.stated e.res).toList ++ stats tr := by
  unfold stats
  rw [List.filterMap_cons]
  cases e.call.op.stated e.res <;> rfl

/-- The path that a `stat` failed for. -/
def Op.missed : (op : Op) → op.Res → Option Str
  | .stat p, .error _ => some p
  | _, _ => none

/-- The paths that the `stat`s of a run failed for. -/
def misses (tr : List Ev) : List Str := tr.filterMap fun e => e.call.op.missed e.res

/-- An entry of the directory that is no dotfile. -/
def IsEntry (w : World) (dir : Str) (p : Str) : Prop :=
  ∃ ns n, w.fs.pathEntries dir = .ok ns ∧ n ∈ ns ∧ n.head? ≠ some '.' ∧ p = dir ++ '/' :: n

/-- An entry of the directory that is no dotfile, and what `stat` said of it in the run. -/
def Statted (w : World) (dir : Str) (tr : List Ev) (p : Str) (st : Stat) : Prop :=
  IsEntry w dir p ∧ (p, st) ∈ stats tr ∧ ∃ touched, w.fs.pathStat p touched = .ok st

/-- No call of the run was made to fail. -/
def NoFault (tr : List Ev) : Prop := ∀ e ∈ tr, e.choice.err = none

/-- The clock showed `now` in the run. -/
def ClockAt (tr : List Ev) (now : Int) : Prop := ∃ ch : Choice, (⟨⟨.cleanTime, .time⟩, ch, now⟩ : Ev) ∈ tr

/-- The list of the entries that are older than `limit`, each of them once; only those are missing that `stat`
failed for. -/
structure OldList (w : World) (dir : Str) (tr : List Ev) (limit : Int) (L : List Str) : Prop where
  mem : ∀ p, p ∈ L ↔ ∃ st, Statted w dir tr p st ∧ st.mtime < limit
  nodup : L.Nodup
  seen : ∀ p, IsEntry w dir p → p ∉ misses tr → ∃ st, Statted w dir tr p st
  missed : NoFault tr → ∀ p ∈ misses tr, ∃ touched e, w.fs.pathStat p touched = .error e

section OldFiles

variable {dir : Str} {age limit : Int} {w w' : World} {tr : List Ev}

/-- The names that are no dotfiles, as paths. -/
def entryPaths (dir : Str) (names : List Name) : List Str :=
  (names.filter fun n => decide (n.head? ≠ some '.')).map fun n => dir ++ '/' :: n

theorem mem_entryPaths {names : List Name} {p : Str} :
    p ∈ entryPaths dir names ↔ ∃ n ∈ names, n.head? ≠ some '.' ∧ p = dir ++ '/' :: n := by
  simp only [entryPaths, List.mem_map, List.mem_filter, decide_eq_true_eq, and_assoc]
  exact exists_congr fun n => and_congr_right fun _ => and_congr_right fun _ => eq_comm

/-- The `stat`s of a run looked at each of the paths. -/
structure Looked (fs : FS) (paths : List Str) (tr : List Ev) : Prop where
  sub : ((stats tr).map Prod.fst).Sublist paths
  all : ∀ p ∈ paths, p ∉ misses tr → ∃ st, (p, st) ∈ stats tr
  told : ∀ p st, (p, st) ∈ stats tr → ∃ touched, fs.pathStat p touched = .ok st
  failed : NoFault tr → ∀ p ∈ misses tr, p ∈ paths ∧ ∃ touched e, fs.pathStat p touched = .error e

theorem Looked.error {fs : FS} {paths : List Str} {p : Str} {ch : Choice} {e : Errno} {touched : Int}
    (h : Looked fs paths tr)
    (he : ch.inject (fs.pathStat p touched) = .error e) :
    Looked fs (p :: paths) (⟨⟨.cleanStat, .stat p⟩, ch, .error e⟩ :: tr) := by
  refine ⟨h.sub.cons _, fun q hq hm => ?_, h.told, fun hf q hq => ?_⟩
  · rcases List.mem_cons.1 hq with rfl | hq
    · exact absurd List.mem_cons_self hm
    · exact h.all q hq fun hm' => hm (List.mem_cons_of_mem _ hm')
  · rcases List.mem_cons.1 hq with rfl | hq
    · have hnone : ch.err = none := hf _ List.mem_cons_self
      rw [Choice.inject, hnone] at he
      exact ⟨List.mem_cons_self, touched, e, he⟩
    · obtain ⟨hp, hfail⟩ := h.failed (fun e he => hf e (List.mem_cons_of_mem _ he)) q hq
      exact ⟨List.mem_cons_of_mem _ hp, hfail⟩

theorem Looked.ok {fs : FS} {paths : List Str} {p : Str} {ch : Choice} {st : Stat} {touched : Int}
    (h : Looked fs paths tr)
    (hst : fs.pathStat p touched = .ok st) : Looked fs (p :: paths) (⟨⟨.cleanStat, .stat p⟩, ch, .ok st⟩ :: tr) := by
  refine ⟨h.sub.cons_cons _, fun q hq hm => ?_, fun q st' hq => ?_, fun hf q hq => ?_⟩
  · rcases List.mem_cons.1 hq with rfl | hq
    · exact ⟨st, List.mem_cons_self⟩
    · obtain ⟨st', hs⟩ := h.all q hq hm
      exact ⟨st', List.mem_cons_of_mem _ hs⟩
  · rcases List.mem_cons.1 hq with he | hq
    · cases he
      exact ⟨touched, hst⟩
    · exact h.told q st' hq
  · obtain ⟨hp, hfail⟩ := h.failed (fun e he => hf e (List.mem_cons_of_mem _ he)) q hq
    exact ⟨List.mem_cons_of_mem _ hp, hfail⟩

/-- The loop lists what `stat` found to be old. -/
theorem run_oldFilesLoop {o : Outcome Exn (List Str)} {names : List Name}
    (h : Run Machine (oldFilesLoop dir limit names) w tr o w') :
    w' = w ∧ AllAt (· = .cleanStat) tr ∧ Looked w.fs (entryPaths dir names) tr ∧
      o = .ret (((stats tr).filter fun x => decide (x.2.mtime < limit)).map Prod.fst) := by
  induction names generalizing w w' tr o with
  | nil =>
    obtain ⟨rfl, rfl, rfl⟩ := run_ret.1 h
    refine ⟨rfl, allAt_nil, ⟨.refl _, fun p hp => ?_, fun p st hs => ?_, fun _ p hp => ?_⟩, rfl⟩
    · cases hp
    · cases hs
    · cases hp
  | cons n names ih =>
    unfold oldFilesLoop at h
    split at h
    · rename_i hdot
      obtain ⟨hw, hat, hlook, ho⟩ := ih h
      refine ⟨hw, hat, ?_, ho⟩
      simpa [entryPaths, List.filter_cons, hdot] using hlook
    rename_i hdot
    have hpaths : entryPaths dir (n :: names) = (dir ++ '/' :: n) :: entryPaths dir names := by
      simp [entryPaths, hdot]
    rw [hpaths]
    obtain ⟨ch, r, w₁, tr₁, e₁, h₁, rfl⟩ := run_call.1 h
    have hw₁ := exec_looks e₁ rfl
    subst hw₁
    cases r with
    | error e =>
      obtain ⟨hw, hat, hlook, ho⟩ := ih h₁
      exact ⟨hw, by simp [hat], hlook.error (Prod.mk.inj (Option.some.inj e₁)).1, ho⟩
    | ok buf =>
      have hst := (inject_ok (Prod.mk.inj (Option.some.inj e₁)).1).2
      rcases run_bind.1 h₁ with ⟨L, w₂, tr₂, tr₃, h₂, h₃, rfl⟩ | ⟨e, h₂, -⟩ | ⟨x, h₂, -⟩
      · obtain ⟨rfl, hat, hlook, ho⟩ := ih h₂
        cases ho
        split at h₃
        · rename_i hold
          obtain ⟨rfl, rfl, rfl⟩ := run_ret.1 h₃
          rw [List.append_nil]
          exact ⟨rfl, by simp [hat], hlook.ok hst, by simp [Op.stated, hold]⟩
        · rename_i hold
          obtain ⟨rfl, rfl, rfl⟩ := run_ret.1 h₃
          rw [List.append_nil]
          exact ⟨rfl, by simp [hat], hlook.ok hst, by simp [Op.stated, hold]⟩
      · obtain ⟨-, -, -, ho⟩ := ih h₂
        cases ho
      · obtain ⟨-, -, -, ho⟩ := ih h₂
        cases ho

/-- The directory was listed, and the clock read. -/
theorem run_oldFiles {o : Outcome Exn (List Str)} (h : Run Machine (oldFiles dir age) w tr o w') :
    ∃ now, ClockAt tr now ∧ (∀ now', ClockAt tr now' → now' = now) ∧ w' = w ∧
      ((o = .stop .crash ∧ failedAt .cleanList tr = true) ∨
        ∃ ns names, w.fs.pathEntries dir = .ok ns ∧ names.Perm ns ∧
          Looked w.fs (entryPaths dir names) tr ∧
          o = .ret (((stats tr).filter fun x => decide (x.2.mtime < wrap32 (wrap32 now - age))).map Prod.fst)) := by
  obtain ⟨ch, now, w₁, tr₁, e₁, h₁, rfl⟩ := run_call.1 h
  have hw₁ := exec_looks e₁ rfl
  subst hw₁
  obtain ⟨ch₂, r, w₂, tr₂, e₂, h₂, rfl⟩ := run_call.1 h₁
  have hw₂ := exec_looks e₂ rfl
  subst hw₂
  have honly : ∀ {tr₃ : List Ev}, AllAt (· = .cleanStat) tr₃ → ∀ now', ClockAt
      (⟨⟨.cleanTime, .time⟩, ch, now⟩ :: ⟨⟨.cleanList, .readdir dir⟩, ch₂, r⟩ :: tr₃) now' → now' = now := by
    intro tr₃ hat now' hc
    obtain ⟨ch', hm⟩ := hc
    rcases List.mem_cons.1 hm with he | hm
    · cases he
      rfl
    rcases List.mem_cons.1 hm with he | hm
    · cases he
    · cases hat _ hm
  refine ⟨now, ⟨ch, List.mem_cons_self⟩, ?_⟩
  cases r with
  | error e =>
    obtain ⟨rfl, rfl, rfl⟩ := run_stop.1 h₂
    exact ⟨honly allAt_nil, rfl, .inl ⟨rfl, by simp [Op.refused]⟩⟩
  | ok names =>
    obtain ⟨rfl, hat, hlook, ho⟩ := run_oldFilesLoop h₂
    refine ⟨honly hat, rfl, .inr ?_⟩
    obtain ⟨ns, hns, hperm, -⟩ := exec_readdir e₂
    have hfailed : NoFault (⟨⟨.cleanTime, .time⟩, ch, now⟩ :: ⟨⟨.cleanList, .readdir dir⟩, ch₂, .ok names⟩ :: tr₂) →
        NoFault tr₂ :=
      fun hf e he => hf e (List.mem_cons_of_mem _ (List.mem_cons_of_mem _ he))
    exact ⟨ns, names, hns, hperm, ⟨hlook.sub, hlook.all, hlook.told, fun hf => hlook.failed (hfailed hf)⟩, ho⟩

/-- The entries of a directory are listed once. -/
theorem entryPaths_nodup {ns names : List Name} (h : w.fs.pathEntries dir = .ok ns) (hp : names.Perm ns) :
    (entryPaths dir names).Nodup := by
  refine List.Nodup.map (fun a b hab => by simpa using hab) ?_
  refine (hp.filter _).nodup_iff.2 ?_
  unfold FS.pathEntries at h
  split at h
  · cases h
  · split at h
    · cases h
      simpa using (FS.children_nodup _ _).filter _
    · cases h

/-- What an `int` makes of the limit. -/
theorem wrap32_limit (now age : Int) : wrap32 (wrap32 now - age) = wrap32 (now - age) := by
  unfold wrap32
  rw [Int.bmod_sub_bmod]

/-- The list of a run that opened the directory: the limit is an `int`. -/
theorem oldList_of_run {o : Outcome Exn (List Str)} {now : Int} (h : Run Machine (oldFiles dir age) w tr o w')
    (hopen : failedAt .cleanList tr = false) (hc : ClockAt tr now) :
    ((stats tr).map Prod.fst).Nodup ∧ ∃ L, o = .ret L ∧ OldList w dir tr (wrap32 (now - age)) L := by
  obtain ⟨now', -, honly, -, ⟨-, hbad⟩ | ⟨ns, names, hns, hperm, hlook, ho⟩⟩ := run_oldFiles h
  · rw [hopen] at hbad
    cases hbad
  rw [← honly now hc, wrap32_limit] at ho
  have hentry : ∀ p, p ∈ entryPaths dir names ↔ IsEntry w dir p := by
    intro p
    rw [mem_entryPaths]
    constructor
    · rintro ⟨n, hn, hdot, hp⟩
      exact ⟨ns, n, hns, hperm.mem_iff.1 hn, hdot, hp⟩
    · rintro ⟨ns', n, hns', hn, hdot, hp⟩
      rw [hns] at hns'
      cases hns'
      exact ⟨n, hperm.mem_iff.2 hn, hdot, hp⟩
  have hstat : ∀ p st, (p, st) ∈ stats tr → Statted w dir tr p st := fun p st hst =>
    ⟨(hentry p).1 (hlook.sub.subset (List.mem_map_of_mem hst)), hst, hlook.told p st hst⟩
  have honce := hlook.sub.nodup (entryPaths_nodup hns hperm)
  refine ⟨honce, _, ho, fun p => ?_, ?_, fun p hp hm => ?_, fun hf p hp => (hlook.failed hf p hp).2⟩
  · simp only [List.mem_map, List.mem_filter, decide_eq_true_eq, Prod.exists, exists_and_right, exists_eq_right]
    exact exists_congr fun st => and_congr_left fun _ => ⟨hstat p st, fun hs => hs.2.1⟩
  · exact (List.filter_sublist.map _).nodup honce
  · obtain ⟨st, hst⟩ := hlook.all p ((hentry p).2 hp) hm
    exact ⟨st, hstat p st hst⟩

/-- Two limits give the same list exactly if no entry is between them. -/
theorem OldList.limit_iff {limit' : Int} {L : List Str} (h : OldList w dir tr limit L)
    (honce : ((stats tr).map Prod.fst).Nodup) (hle : limit ≤ limit') :
    OldList w dir tr limit' L ↔ ∀ p st, Statted w dir tr p st → ¬ (limit ≤ st.mtime ∧ st.mtime < limit') := by
  constructor
  · rintro h' p st hst ⟨hlo, hhi⟩
    obtain ⟨st', hst', hlt⟩ := (h.mem p).1 ((h'.mem p).2 ⟨st, hst, hhi⟩)
    have hsame := List.inj_on_of_nodup_map honce hst.2.1 hst'.2.1 rfl
    rw [Prod.mk.injEq] at hsame
    rw [hsame.2] at hlo
    omega
  · intro hnone
    refine ⟨fun p => (h.mem p).trans (exists_congr fun st => and_congr_right fun hst => ?_), h.nodup, h.seen, h.missed⟩
    have := hnone p st hst
    omega

/-- A limit is at least what an `int` makes of it. -/
theorem wrap32_limit_le {now : Int} (hnow : 0 ≤ now) (hage : age < 2147483648) : wrap32 (now - age) ≤ now - age := by
  by_cases hbig : now - age < 2147483648
  · rw [wrap32_of_int (by omega) hbig]
  · exact Int.le_of_lt (wrap32_lt (by omega))

end OldFiles

namespace Sample

/-- The file `/d/x` was changed at the time `m`. -/
def agedFs (m : Int) : FS := ((FS.base 1).putDir "d".toList [] 1 true).putFile "x".toList ["d".toList] ⟨[], true, m, 0⟩

def agedWorld (m : Int) : World := { world with fs := agedFs m }

end Sample

/-- The directory of that file is listed at any time. -/
theorem run_oldFiles_aged (now age m : Int) : ∃ tr o w',
    Run Machine (oldFiles "/d".toList age) (Sample.agedWorld m) tr o w' ∧
    failedAt .cleanList tr = false ∧ ClockAt tr now ∧
    Statted (Sample.agedWorld m) "/d".toList tr "/d/x".toList ⟨true, 0, m, 0⟩ := by
  have hlist : (Sample.agedFs m).pathEntries "/d".toList = .ok [['.'], ['.', '.'], "x".toList] := by rfl
  have hstat : (Sample.agedFs m).pathStat "/d/x".toList 0 = .ok ⟨true, 0, m, 0⟩ := by rfl
  let L : List Str := if m < wrap32 (wrap32 now - age) then ["/d/x".toList] else []
  have hloop : Run Machine (oldFilesLoop "/d".toList (wrap32 (wrap32 now - age)) [['.'], ['.', '.'], "x".toList])
      (Sample.agedWorld m) [⟨⟨.cleanStat, .stat "/d/x".toList⟩, Sample.calm, .ok ⟨true, 0, m, 0⟩⟩] (.ret L)
      (Sample.agedWorld m) := by
    refine run_call.2 ⟨Sample.calm, .ok ⟨true, 0, m, 0⟩, Sample.agedWorld m, [], rfl, ?_, rfl⟩
    show Run Machine (if m < wrap32 (wrap32 now - age) then _ else _) _ _ _ _
    unfold L
    split
    · exact run_ret.2 ⟨rfl, rfl, rfl⟩
    · exact run_ret.2 ⟨rfl, rfl, rfl⟩
  refine ⟨_, .ret L, Sample.agedWorld m, run_call.2 ⟨{ ticks := fun _ => now }, now, Sample.agedWorld m, _, rfl,
    run_call.2 ⟨{ order := [['.'], ['.', '.'], "x".toList] }, .ok [['.'], ['.', '.'], "x".toList],
      Sample.agedWorld m, _, rfl,
      hloop, rfl⟩, rfl⟩, rfl, ⟨{ ticks := fun _ => now }, List.mem_cons_self⟩, ?_⟩
  exact ⟨⟨_, "x".toList, hlist, by simp, by simp, rfl⟩, by simp [stats, Op.stated], 0, hstat⟩

/-- **The age of files.** For a time and an age, `oldFiles` lists exactly the entries that were last changed before
`now - age`, of every directory that can be opened and whatever `stat` fails for, if and only if `now - age` is an
`int`. After that time a list is still right exactly if no entry is between the limit and what an `int` makes of
it. -/
theorem oldFiles_exact_iff {now age : Int} (hnow : 0 ≤ now ∧ now < 9223372036854775808)
    (hage : 0 ≤ age ∧ age < 2147483648) :
    ((∀ dir w tr o w', Run Machine (oldFiles dir age) w tr o w' → failedAt .cleanList tr = false → ClockAt tr now →
      ∃ L, o = .ret L ∧ OldList w dir tr (now - age) L) ↔ now - age < 2147483648) ∧
    ∀ dir w tr o w', Run Machine (oldFiles dir age) w tr o w' → failedAt .cleanList tr = false → ClockAt tr now →
      ((∃ L, o = .ret L ∧ OldList w dir tr (now - age) L) ↔
        now - age < 2147483648 ∨
        ∀ p st, Statted w dir tr p st → ¬ (wrap32 (now - age) ≤ st.mtime ∧ st.mtime < now - age)) := by
  have hle := wrap32_limit_le hnow.1 hage.2
  have hsmall : now - age < 2147483648 → wrap32 (now - age) = now - age := fun h => wrap32_of_int (by omega) h
  have heach : ∀ dir w tr o w', Run Machine (oldFiles dir age) w tr o w' → failedAt .cleanList tr = false →
      ClockAt tr now →
      ((∃ L, o = .ret L ∧ OldList w dir tr (now - age) L) ↔
        ∀ p st, Statted w dir tr p st → ¬ (wrap32 (now - age) ≤ st.mtime ∧ st.mtime < now - age)) := by
    intro dir w tr o w' hrun hopen hc
    obtain ⟨honce, L, rfl, hL⟩ := oldList_of_run hrun hopen hc
    rw [← hL.limit_iff honce hle]
    constructor
    · rintro ⟨L', ho, hL'⟩
      cases ho
      exact hL'
    · intro hL'
      exact ⟨L, rfl, hL'⟩
  refine ⟨⟨fun hall => ?_, fun hlt dir w tr o w' hrun hopen hc => ?_⟩, fun dir w tr o w' hrun hopen hc => ?_⟩
  · -- a file that was changed just before the limit
    by_contra hbig
    obtain ⟨tr, o, w', hrun, hopen, hc, hst⟩ := run_oldFiles_aged now age (now - age - 1)
    have hlt := wrap32_lt (x := now - age) (by omega)
    refine (heach _ _ _ _ _ hrun hopen hc).1 (hall _ _ _ _ _ hrun hopen hc) _ _ hst ⟨?_, ?_⟩
    · show wrap32 (now - age) ≤ now - age - 1
      omega
    · show now - age - 1 < now - age
      omega
  · refine (heach dir w tr o w' hrun hopen hc).2 fun p st _ hbetween => ?_
    rw [hsmall hlt] at hbetween
    omega
  · rw [heach dir w tr o w' hrun hopen hc]
    refine ⟨Or.inr, fun hor => hor.elim (fun hlt p st _ hbetween => ?_) id⟩
    rw [hsmall hlt] at hbetween
    omega

/-- It is right on the last day of the `int` and wrong on the next. -/
theorem oldFiles_exact_iff_sample :
    (∀ dir w tr o w', Run Machine (oldFiles dir 0) w tr o w' → failedAt .cleanList tr = false → ClockAt tr 2147483647 →
      ∃ L, o = .ret L ∧ OldList w dir tr (2147483647 - 0) L) ∧
    ¬ ∀ dir w tr o w', Run Machine (oldFiles dir 0) w tr o w' → failedAt .cleanList tr = false → ClockAt tr 2147483648 →
      ∃ L, o = .ret L ∧ OldList w dir tr (2147483648 - 0) L :=
  ⟨(oldFiles_exact_iff (by decide) (by decide)).1.2 (by decide),
    fun h => absurd ((oldFiles_exact_iff (by decide) (by decide)).1.1 h) (by decide)⟩

/-- In 2038 a file that was last changed in 1970 is not old for an age of one day. -/
theorem oldFiles_misses_old : ∃ tr L w', Run Machine (oldFiles "/d".toList 86400) (Sample.agedWorld 0) tr (.ret L) w' ∧
    failedAt .cleanList tr = false ∧ ClockAt tr 2147570048 ∧
    Statted (Sample.agedWorld 0) "/d".toList tr "/d/x".toList ⟨true, 0, 0, 0⟩ ∧
    ¬ OldList (Sample.agedWorld 0) "/d".toList tr (2147570048 - 86400) L := by
  obtain ⟨tr, o, w', hrun, hopen, hc, hst⟩ := run_oldFiles_aged 2147570048 86400 0
  obtain ⟨honce, L, rfl, hL⟩ := oldList_of_run hrun hopen hc
  refine ⟨tr, L, w', hrun, hopen, hc, hst, fun hL' => ?_⟩
  exact (hL.limit_iff honce (by decide)).1 hL' _ _ hst (by decide)

/-! ## The two passes -/

/-- A writable directory of readable regular files with proper names. -/
structure FileDir (fs : FS) (dir : Str) (D : Loc) : Prop where
  found : fs.resolve dir = .ok D
  isDir : fs.isDir D = true
  writable : fs.writable D = true
  files : ∀ n, fs.node (n :: D) ≠ none → Plain n ∧ ∃ i, fs.node (n :: D) = some (.file i) ∧ (fs.inode i).readable = true

/-- The filesystem without the names in `G`. -/
structure Without (fs : FS) (G : Loc → Prop) (fs' : FS) : Prop where
  gone : ∀ l, G l → fs'.node l = none
  kept : ∀ l, ¬ G l → fs'.node l = fs.node l
  inode : fs'.inode = fs.inode
  cwd : fs'.cwd = fs.cwd

/-- The file at the name was last changed before `limit`. -/
def Old (fs : FS) (limit : Int) (l : Loc) : Prop := ∃ i, fs.node l = some (.file i) ∧ (fs.inode i).mtime < limit

/-- What a cleanup run removes from the directory `D`: old metadata, and old data whose metadata is absent or old as
well. No dotfiles. -/
inductive Due (fs : FS) (D : Loc) (limit : Int) : Loc → Prop
  | metadata {x : Str} : (x ++ META_EXT).head? ≠ some '.' → Old fs limit ((x ++ META_EXT) :: D) →
    Due fs D limit ((x ++ META_EXT) :: D)
  | data {x : Str} : (x ++ DATA_EXT).head? ≠ some '.' → Old fs limit ((x ++ DATA_EXT) :: D) →
    fs.node ((x ++ META_EXT) :: D) = none ∨ Old fs limit ((x ++ META_EXT) :: D) →
    Due fs D limit ((x ++ DATA_EXT) :: D)

section Passes

variable {fs fs' fs'' : FS} {dir : Str} {D : Loc} {G G' : Loc → Prop} {w w' : World} {tr : List Ev}

theorem Without.refl (hG : ∀ l, G l → fs.node l = none) : Without fs G fs := ⟨hG, fun _ _ => rfl, rfl, rfl⟩

theorem Without.trans (h : Without fs G fs') (h' : Without fs' G' fs'') : Without fs (fun l => G l ∨ G' l) fs'' := by
  refine ⟨fun l hl => ?_, fun l hl => ?_, h'.inode.trans h.inode, h'.cwd.trans h.cwd⟩
  · by_cases hg : G' l
    · exact h'.gone l hg
    · rw [h'.kept l hg, h.gone l (hl.resolve_right hg)]
  · rw [h'.kept l fun hg => hl (.inr hg), h.kept l fun hg => hl (.inl hg)]

theorem Without.congr (h : Without fs G fs') (hG : ∀ l, G l ↔ G' l) : Without fs G' fs' :=
  ⟨fun l hl => h.gone l ((hG l).2 hl), fun l hl => h.kept l fun hg => hl ((hG l).1 hg), h.inode, h.cwd⟩

/-- Some of its entries are gone. -/
theorem FileDir.without (hd : FileDir fs dir D) (h : Without fs G fs') (hG : ∀ l, G l → ∃ n, l = n :: D) :
    FileDir fs' dir D := by
  have hD : ¬ G D := by
    intro hg
    obtain ⟨n, hn⟩ := hG D hg
    exact absurd (congrArg List.length hn) (by simp)
  have hdirs : ∀ l, fs.isDir l = true → fs'.isDir l = true := by
    intro l hl
    have hnot : ¬ G l := by
      intro hg
      obtain ⟨n, rfl⟩ := hG l hg
      obtain ⟨v, b, hv⟩ := FS.isDir_iff.1 hl
      obtain ⟨-, i, hi, -⟩ := hd.files n (by simp [hv])
      rw [hi] at hv
      cases hv
    rw [FS.isDir_iff, h.kept l hnot]
    exact FS.isDir_iff.1 hl
  refine ⟨FS.resolve_mono hdirs h.cwd hd.found, hdirs D hd.isDir, ?_, fun n hn => ?_⟩
  · unfold FS.writable
    rw [h.kept D hD]
    exact hd.writable
  · by_cases hg : G (n :: D)
    · exact absurd (h.gone _ hg) hn
    · rw [h.kept _ hg] at hn ⊢
      rw [h.inode]
      exact hd.files n hn

theorem FileDir.resolve (hd : FileDir fs dir D) {n : Name} (hn : Plain n) :
    fs.resolve (dir ++ '/' :: n) = .ok (n :: D) :=
  FS.resolve_child hd.found hd.isDir hn

/-- One `unlink` that nothing makes fail: afterwards the name is gone. -/
theorem FileDir.unlink {n : Name} {ch : Choice} {r : Except Errno Unit} (hd : FileDir w.fs dir D) (hn : Plain n)
    (he : (Op.unlink (dir ++ '/' :: n)).exec ch w = some (r, w')) (hch : ch.err = none) :
    Without w.fs (· = n :: D) w'.fs := by
  rcases exec_unlink he with ⟨fs₁, -, hu, rfl⟩ | ⟨e, -, rfl, hu⟩
  · unfold FS.pathUnlink at hu
    rw [hd.resolve hn] at hu
    obtain ⟨hinode, -, hcwd⟩ := FS.unlink_frame hu
    refine ⟨fun l hl => ?_, fun l hl => ?_, hinode, hcwd⟩
    · rw [FS.node_unlink hu, if_pos hl]
    · rw [FS.node_unlink hu, if_neg hl]
  · -- the only reason is that there is no such file
    rw [Choice.inject, hch] at hu
    unfold FS.pathUnlink at hu
    rw [hd.resolve hn] at hu
    refine .refl ?_
    rintro l rfl
    by_contra hsome
    obtain ⟨-, i, hi, -⟩ := hd.files n hsome
    simp only [FS.unlink, hi, List.tail_cons, hd.writable, if_true] at hu
    cases hu

/-- One `access` that nothing makes fail tells whether the name is there. -/
theorem FileDir.access {n : Name} {ch : Choice} {r : Except Errno Unit} (hd : FileDir w.fs dir D) (hn : Plain n)
    (he : (Op.access (dir ++ '/' :: n) .R_OK).exec ch w = some (r, w')) (hch : ch.err = none) :
    (∃ e, r = .error e) ↔ w.fs.node (n :: D) = none := by
  have hr : r = w.fs.pathAccess (dir ++ '/' :: n) .R_OK := by
    have := (Prod.mk.inj (Option.some.inj he)).1
    rw [Choice.inject, hch] at this
    exact this.symm
  rw [hr]
  unfold FS.pathAccess
  rw [hd.resolve hn]
  cases hnode : w.fs.node (n :: D) with
  | none => simp [hnode]
  | some x =>
    obtain ⟨-, i, hi, hread⟩ := hd.files n (by simp [hnode])
    simp [hi, hread]

/-- The directory is opened. -/
theorem FileDir.opened {age : Int} {o : Outcome Exn (List Str)} (hd : FileDir w.fs dir D)
    (h : Run Machine (oldFiles dir age) w tr o w') (hf : NoFault tr) : failedAt .cleanList tr = false := by
  obtain ⟨ch, now, w₁, tr₁, e₁, h₁, rfl⟩ := run_call.1 h
  have hw₁ := exec_looks e₁ rfl
  subst hw₁
  obtain ⟨ch₂, r, w₂, tr₂, e₂, h₂, rfl⟩ := run_call.1 h₁
  cases r with
  | error e =>
    have hch : ch₂.err = none := hf _ (List.mem_cons_of_mem _ List.mem_cons_self)
    simp [Op.exec, Choice.inject, hch, FS.pathEntries, hd.found, hd.isDir] at e₂
  | ok names =>
    have hat := (run_oldFilesLoop h₂).2.1
    simp [Op.refused, failedAt_of_allAt (s := .cleanList) hat (by decide)]

/-- The list is one of entries of the directory. -/
def Entries (dir : Str) (L : List Str) : Prop := ∀ p ∈ L, ∃ n, Plain n ∧ p = dir ++ '/' :: n

theorem path_inj {ext x y : Str} : dir ++ '/' :: (x ++ ext) = dir ++ '/' :: (y ++ ext) ↔ x = y := by simp

section Calls

variable {C : Call → Prop}

theorem cleanMetas_calls (h : ∀ p, C ⟨.cleanMeta, .unlink p⟩) : ∀ L : List Str, (cleanMetas L).Calls C
  | [] => trivial
  | p :: L => by
    unfold cleanMetas
    split
    · exact calls_call.2 ⟨h p, fun _ => cleanMetas_calls h L⟩
    · exact cleanMetas_calls h L

theorem cleanOrphans_calls (ha : ∀ p, C ⟨.cleanAccess, .access p .R_OK⟩) (h : ∀ p, C ⟨.cleanData, .unlink p⟩) :
    ∀ L : List Str, (cleanOrphans L).Calls C
  | [] => trivial
  | p :: L => by
    unfold cleanOrphans
    split
    · cases metaFile p with
      | none => trivial
      | some q =>
        refine calls_call.2 ⟨ha q, fun r => ?_⟩
        cases r with
        | ok _ => exact cleanOrphans_calls ha h L
        | error e => exact calls_call.2 ⟨h p, fun _ => cleanOrphans_calls ha h L⟩
    · exact cleanOrphans_calls ha h L

theorem oldFilesLoop_calls {dir : Str} {limit : Int} (h : ∀ p, C ⟨.cleanStat, .stat p⟩) :
    ∀ names : List Name, (oldFilesLoop dir limit names).Calls C
  | [] => trivial
  | n :: names => by
    unfold oldFilesLoop
    split
    · exact oldFilesLoop_calls h names
    · refine calls_call.2 ⟨h _, fun r => ?_⟩
      cases r with
      | error e => exact oldFilesLoop_calls h names
      | ok st =>
        refine (oldFilesLoop_calls h names).bind fun rest => ?_
        split <;> trivial

/-- The calls of a cleanup: those that only look, and removals. -/
theorem doCleanup_calls {env : Env} {maxAge : Int} (hq : ∀ s op, op.quiet = true → C ⟨s, op⟩)
    (hu : ∀ s p, C ⟨s, .unlink p⟩) :
    (doCleanup env maxAge).Calls C := by
  have hdir : ∀ dir, (cleanOldFiles maxAge dir).Calls C := by
    intro dir
    refine Proc.Calls.bind (calls_call.2 ⟨hq _ _ rfl, fun now => calls_call.2 ⟨hq _ _ rfl, fun r => ?_⟩⟩) fun L =>
      (cleanMetas_calls (fun p => hu _ p) L).bind fun _ => cleanOrphans_calls (fun _ => hq _ _ rfl) (fun p => hu _ p) L
    cases r with
    | error e => trivial
    | ok names => exact oldFilesLoop_calls (fun _ => hq _ _ rfl) names
  have hdirs : ∀ dirs, (cleanDirs maxAge dirs).Calls C := by
    intro dirs
    induction dirs with
    | nil => trivial
    | cons d dirs ih => exact (hdir d).bind fun _ => ih
  exact hdirs _

end Calls

/-- The first pass removes the metadata on the list. -/
theorem run_cleanMetas {o : Outcome Exn Unit} {L : List Str} (h : Run Machine (cleanMetas L) w tr o w')
    (hd : FileDir w.fs dir D) (hL : Entries dir L) (hf : NoFault tr) :
    o = .ret () ∧ Without w.fs (fun l => ∃ x, dir ++ '/' :: (x ++ META_EXT) ∈ L ∧ l = (x ++ META_EXT) :: D) w'.fs := by
  induction L generalizing w tr with
  | nil =>
    obtain ⟨-, rfl, rfl⟩ := run_ret.1 h
    exact ⟨rfl, .refl fun l hl => by simp at hl⟩
  | cons p L ih =>
    have hL' : Entries dir L := fun q hq => hL q (List.mem_cons_of_mem _ hq)
    obtain ⟨n, hn, rfl⟩ := hL p List.mem_cons_self
    unfold cleanMetas at h
    split at h
    · rename_i hends
      obtain ⟨x, rfl⟩ := entry_ends (.inl rfl) hends
      obtain ⟨ch, r, w₁, tr₁, e₁, h₁, rfl⟩ := run_call.1 h
      have hw := hd.unlink hn e₁ (hf _ List.mem_cons_self)
      have hd₁ := hd.without hw fun l hl => ⟨_, hl⟩
      obtain ⟨rfl, hrest⟩ := ih h₁ hd₁ hL' fun e he => hf e (List.mem_cons_of_mem _ he)
      refine ⟨rfl, (hw.trans hrest).congr fun l => ?_⟩
      simp only [List.mem_cons, path_inj, or_and_right, exists_or, exists_eq_left]
    · rename_i hends
      obtain ⟨rfl, hrest⟩ := ih h hd hL' hf
      refine ⟨rfl, hrest.congr fun l => exists_congr fun x => and_congr_left fun _ => ?_⟩
      rw [List.mem_cons]
      refine (or_iff_right fun he => hends ?_).symm
      rw [← he]
      exact endsWith_iff.2 ⟨dir ++ '/' :: x, by simp⟩

/-- The second pass removes the data on the list that has no metadata. -/
theorem run_cleanOrphans {o : Outcome Exn Unit} {L : List Str} (h : Run Machine (cleanOrphans L) w tr o w')
    (hd : FileDir w.fs dir D) (hL : Entries dir L) (hf : NoFault tr) :
    o = .ret () ∧ Without w.fs (fun l => ∃ x, dir ++ '/' :: (x ++ DATA_EXT) ∈ L ∧
      w.fs.node ((x ++ META_EXT) :: D) = none ∧ l = (x ++ DATA_EXT) :: D) w'.fs := by
  induction L generalizing w tr with
  | nil =>
    obtain ⟨-, rfl, rfl⟩ := run_ret.1 h
    exact ⟨rfl, .refl fun l hl => by simp at hl⟩
  | cons p L ih =>
    have hL' : Entries dir L := fun q hq => hL q (List.mem_cons_of_mem _ hq)
    obtain ⟨n, hn, rfl⟩ := hL p List.mem_cons_self
    unfold cleanOrphans at h
    split at h
    · rename_i hends
      obtain ⟨x, rfl⟩ := entry_ends (.inr rfl) hends
      have hx : '/' ∉ x := fun hs => hn.2.2.2 (List.mem_append_left _ hs)
      have htwin : metaFile (dir ++ '/' :: (x ++ DATA_EXT)) = some (dir ++ '/' :: (x ++ META_EXT)) := by
        have hsplit : dir ++ '/' :: (x ++ DATA_EXT) = (dir ++ '/' :: x) ++ DATA_EXT := by simp
        rw [metaFile, hsplit, chop_append]
        simp
      rw [htwin] at h
      obtain ⟨ch, r, w₁, tr₁, e₁, h₁, rfl⟩ := run_call.1 h
      have hw₁ := exec_looks e₁ rfl
      subst hw₁
      have hf₁ : NoFault tr₁ := fun e he => hf e (List.mem_cons_of_mem _ he)
      have hacc := hd.access (IsExt.plain (.inl rfl) hx) e₁ (hf _ List.mem_cons_self)
      cases r with
      | ok _ =>
        have hthere : w₁.fs.node ((x ++ META_EXT) :: D) ≠ none := by
          intro hnone
          obtain ⟨e, he⟩ := hacc.2 hnone
          cases he
        obtain ⟨rfl, hrest⟩ := ih h₁ hd hL' hf₁
        refine ⟨rfl, hrest.congr fun l => exists_congr fun y => ?_⟩
        rw [List.mem_cons, path_inj]
        refine ⟨fun hy => ⟨.inr hy.1, hy.2⟩, fun hy => ⟨hy.1.resolve_left ?_, hy.2⟩⟩
        rintro rfl
        exact hthere hy.2.1
      | error e =>
        have hnone := hacc.1 ⟨e, rfl⟩
        obtain ⟨ch₂, r₂, w₂, tr₂, e₂, h₂, rfl⟩ := run_call.1 h₁
        have hw := hd.unlink hn e₂ (hf₁ _ List.mem_cons_self)
        have hd₂ := hd.without hw fun l hl => ⟨_, hl⟩
        obtain ⟨rfl, hrest⟩ := ih h₂ hd₂ hL' fun e he => hf₁ e (List.mem_cons_of_mem _ he)
        refine ⟨rfl, (hw.trans hrest).congr fun l => ?_⟩
        -- no metadata is removed by this pass
        have hsame : ∀ y, w₂.fs.node ((y ++ META_EXT) :: D) = w₁.fs.node ((y ++ META_EXT) :: D) := fun y =>
          hw.kept _ fun he => ext_ne (List.cons.inj he).1
        simp only [hsame, List.mem_cons, path_inj, or_and_right, exists_or, exists_eq_left, hnone, true_and]
    · rename_i hends
      obtain ⟨rfl, hrest⟩ := ih h hd hL' hf
      refine ⟨rfl, hrest.congr fun l => exists_congr fun x => and_congr_left fun _ => ?_⟩
      rw [List.mem_cons]
      refine (or_iff_right fun he => hends ?_).symm
      rw [← he]
      exact endsWith_iff.2 ⟨dir ++ '/' :: x, by simp⟩

/-- The stat of an entry of such a directory. -/
theorem FileDir.pathStat_entry {fs : FS} {dir : Str} {D : Loc} (hd : FileDir fs dir D) {n : Name} (hn : Plain n)
    (touched : Int) :
    fs.pathStat (dir ++ '/' :: n) touched = match fs.node (n :: D) with
      | none => .error .ENOENT
      | some (.dir _ _) => .ok ⟨false, 0, touched, touched⟩
      | some (.file i) => .ok ⟨true, (fs.inode i).data.length, (fs.inode i).mtime, (fs.inode i).ctime⟩ := by
  unfold FS.pathStat
  rewrite [hd.resolve hn]
  rfl

/-- A path of an entry is on the list of old files exactly if the file is old and no dotfile. -/
theorem OldList.mem_iff {limit : Int} {L : List Str} (h : OldList w dir tr limit L) (hd : FileDir w.fs dir D)
    (hf : NoFault tr) {n : Name} (hn : Plain n) :
    dir ++ '/' :: n ∈ L ↔ n.head? ≠ some '.' ∧ Old w.fs limit (n :: D) := by
  have hstat := hd.pathStat_entry hn
  rw [h.mem]
  constructor
  · rintro ⟨st, ⟨⟨ns, m, -, -, hdot, hm⟩, -, touched, hst⟩, hlt⟩
    have hmn : n = m := (List.cons.inj (List.append_cancel_left hm)).2
    subst hmn
    refine ⟨hdot, ?_⟩
    cases hnode : w.fs.node (n :: D) with
    | none =>
      rw [hstat, hnode] at hst
      cases hst
    | some x =>
      obtain ⟨-, i, hi, -⟩ := hd.files n (by simp [hnode])
      rw [hstat, hi] at hst
      cases hst
      exact ⟨i, hi, hlt⟩
  · rintro ⟨hdot, i, hi, hlt⟩
    have hentry : IsEntry w dir (dir ++ '/' :: n) := by
      refine ⟨['.'] :: ['.', '.'] :: w.fs.children D, n, ?_, ?_, hdot, rfl⟩
      · unfold FS.pathEntries
        rw [hd.found]
        simp [hd.isDir]
      · simp [FS.mem_children, hi]
    have hseen : dir ++ '/' :: n ∉ misses tr := by
      intro hm
      obtain ⟨touched, e, he⟩ := h.missed hf _ hm
      rw [hstat, hi] at he
      cases he
    obtain ⟨st, hst⟩ := h.seen _ hentry hseen
    refine ⟨st, hst, ?_⟩
    obtain ⟨-, -, touched, ht⟩ := hst
    rw [hstat, hi] at ht
    cases ht
    exact hlt

/-- The list that a run over the directory starts from. -/
theorem FileDir.oldFiles {age : Int} {o : Outcome Exn (List Str)} (hd : FileDir w.fs dir D)
    (h : Run Machine (oldFiles dir age) w tr o w') (hf : NoFault tr) :
    w' = w ∧ ∃ now L, (∀ t, ClockAt tr t → t = now) ∧ o = .ret L ∧ OldList w dir tr (wrap32 (now - age)) L ∧
      Entries dir L := by
  obtain ⟨now, hc, honly, hw, -⟩ := run_oldFiles h
  obtain ⟨-, L, ho, hL⟩ := oldList_of_run h (hd.opened h hf) hc
  refine ⟨hw, now, L, honly, ho, hL, fun p hp => ?_⟩
  obtain ⟨st, ⟨⟨ns, n, hns, hn, hdot, rfl⟩, -, -⟩, -⟩ := (hL.mem p).1 hp
  refine ⟨n, ?_, rfl⟩
  have hchild : n ∈ w.fs.children D := by
    unfold FS.pathEntries at hns
    rw [hd.found] at hns
    simp only [hd.isDir, if_true] at hns
    cases hns
    rcases List.mem_cons.1 hn with rfl | hn
    · exact absurd rfl hdot
    rcases List.mem_cons.1 hn with rfl | hn
    · exact absurd rfl hdot
    · exact hn
  exact (hd.files n (FS.mem_children.1 hchild)).1

/-- The names of the two files of a pair start alike. -/
theorem nondot_pair {x : Str} : (x ++ DATA_EXT).head? ≠ some '.' ↔ (x ++ META_EXT).head? ≠ some '.' := by
  cases x with
  | nil => decide
  | cons c x => simp

/-- The two passes over the list of old files remove what has expired. -/
theorem run_passes {L : List Str} {limit : Int} {tr₁ : List Ev} {o : Outcome Exn Unit}
    (h : Run Machine ((cleanMetas L).bind fun _ => cleanOrphans L) w tr o w') (hd : FileDir w.fs dir D)
    (hf : NoFault tr)
    (hL : OldList w dir tr₁ limit L) (hf₁ : NoFault tr₁) (hentries : Entries dir L) :
    o = .ret () ∧ Without w.fs (Due w.fs D limit) w'.fs := by
  rcases run_bind.1 h with ⟨_, w₂, tr₂, tr₃, h₂, h₃, rfl⟩ | ⟨e, h₂, -⟩ | ⟨x, h₂, -⟩
  swap
  · cases (run_cleanMetas h₂ hd hentries hf).1
  swap
  · cases (run_cleanMetas h₂ hd hentries hf).1
  obtain ⟨-, hw₁⟩ := run_cleanMetas h₂ hd hentries fun e he => hf e (List.mem_append_left _ he)
  have hd₂ := hd.without hw₁ fun l hl => by
    obtain ⟨x, -, rfl⟩ := hl
    exact ⟨_, rfl⟩
  obtain ⟨rfl, hw₂⟩ := run_cleanOrphans h₃ hd₂ hentries fun e he => hf e (List.mem_append_right _ he)
  have hon : ∀ {n : Name}, dir ++ '/' :: n ∈ L ↔ n.head? ≠ some '.' ∧ Old w.fs limit (n :: D) := by
    intro n
    constructor
    · intro hm
      obtain ⟨n', hn, he⟩ := hentries _ hm
      have hnn : n = n' := (List.cons.inj (List.append_cancel_left he)).2
      exact (hL.mem_iff hd hf₁ (hnn ▸ hn)).1 hm
    · rintro ⟨hdot, hold⟩
      obtain ⟨i, hi, -⟩ := id hold
      exact (hL.mem_iff hd hf₁ (hd.files _ (by simp [hi])).1).2 ⟨hdot, hold⟩
  -- what the second pass sees of the metadata
  have hsees : ∀ {x : Str}, (x ++ META_EXT).head? ≠ some '.' → (w₂.fs.node ((x ++ META_EXT) :: D) = none ↔
      w.fs.node ((x ++ META_EXT) :: D) = none ∨ Old w.fs limit ((x ++ META_EXT) :: D)) := by
    intro x hdot
    by_cases hm : dir ++ '/' :: (x ++ META_EXT) ∈ L
    · rw [hw₁.gone _ ⟨x, hm, rfl⟩]
      exact iff_of_true rfl (.inr (hon.1 hm).2)
    · have hkept := hw₁.kept ((x ++ META_EXT) :: D) (by
        rintro ⟨y, hy, he⟩
        rw [← (List.cons.inj he).1] at hy
        exact hm hy)
      rw [hkept]
      refine (or_iff_left fun hold => hm (hon.2 ⟨hdot, hold⟩)).symm
  refine ⟨rfl, (hw₁.trans hw₂).congr fun l => ⟨?_, fun hl => ?_⟩⟩
  · rintro (⟨x, hm, rfl⟩ | ⟨x, hm, hnone, rfl⟩)
    · obtain ⟨hdot, hold⟩ := hon.1 hm
      exact .metadata hdot hold
    · obtain ⟨hdot, hold⟩ := hon.1 hm
      exact .data hdot hold ((hsees (nondot_pair.1 hdot)).1 hnone)
  · cases hl with
    | metadata hdot hold => exact .inl ⟨_, hon.2 ⟨hdot, hold⟩, rfl⟩
    | data hdot hold horphan =>
      exact .inr ⟨_, hon.2 ⟨hdot, hold⟩, (hsees (nondot_pair.1 hdot)).2 horphan, rfl⟩

/-- Metadata that is left has its data. -/
theorem Without.pair {limit : Int} {x : Str} (h : Without fs (Due fs D limit) fs')
    (hm : fs'.node ((x ++ META_EXT) :: D) ≠ none) :
    fs'.node ((x ++ DATA_EXT) :: D) = fs.node ((x ++ DATA_EXT) :: D) := by
  refine h.kept _ fun hexp => ?_
  generalize hl : (x ++ DATA_EXT) :: D = l at hexp
  cases hexp with
  | metadata hdot hold => exact ext_ne (List.cons.inj hl).1.symm
  | @data y hdot hold horphan =>
    have hxy : x = y := List.append_cancel_right (List.cons.inj hl).1
    subst hxy
    by_cases hexp' : Due fs D limit ((x ++ META_EXT) :: D)
    · exact hm (h.gone _ hexp')
    · rcases horphan with hnone | hold'
      · rw [h.kept _ hexp'] at hm
        exact hm hnone
      · exact hexp' (.metadata (nondot_pair.1 hdot) hold')

/-- **Cleanup.** A run over a directory of regular files that nothing makes fail, at a time and for an age whose
difference is an `int`, returns and removes exactly the expired files: old metadata, and old data whose metadata is
absent or old too. So no metadata that is left has lost its data. -/
theorem cleanOldFiles_exact {age now : Int} {o : Outcome Exn Unit} (h : Run Machine (cleanOldFiles age dir) w tr o w')
    (hd : FileDir w.fs dir D) (hf : NoFault tr) (hc : ClockAt tr now)
    (hlimit : -2147483648 ≤ now - age ∧ now - age < 2147483648) :
    o = .ret () ∧ Without w.fs (Due w.fs D (now - age)) w'.fs ∧
    ∀ x, w'.fs.node ((x ++ META_EXT) :: D) ≠ none →
      w'.fs.node ((x ++ DATA_EXT) :: D) = w.fs.node ((x ++ DATA_EXT) :: D) := by
  rcases run_bind.1 h with ⟨L, w₁, tr₁, tr₂, h₁, h₂, rfl⟩ | ⟨e, h₁, -⟩ | ⟨x, h₁, -⟩
  swap
  · obtain ⟨-, _, _, -, ho, -⟩ := hd.oldFiles h₁ hf
    cases ho
  swap
  · obtain ⟨-, _, _, -, ho, -⟩ := hd.oldFiles h₁ hf
    cases ho
  have hf₁ : NoFault tr₁ := fun e he => hf e (List.mem_append_left _ he)
  have hf₂ : NoFault tr₂ := fun e he => hf e (List.mem_append_right _ he)
  obtain ⟨rfl, now', L', honly, ho, hL, hentries⟩ := hd.oldFiles h₁ hf₁
  cases ho
  have hpasses : ((cleanMetas L).bind fun _ => cleanOrphans L).Calls (fun c : Call => c.site ≠ .cleanTime) :=
    (cleanMetas_calls (fun _ => by simp) L).bind fun _ => cleanOrphans_calls (fun _ => by simp) (fun _ => by simp) L
  have hsites : AllAt (· ≠ .cleanTime) tr₂ := h₂.calls hpasses
  have hnow : now = now' := by
    obtain ⟨ch, hm⟩ := hc
    rcases List.mem_append.1 hm with hm | hm
    · exact honly now ⟨ch, hm⟩
    · exact absurd rfl (hsites _ hm)
  subst hnow
  rw [wrap32_of_int hlimit.1 hlimit.2] at hL
  obtain ⟨rfl, hw⟩ := run_passes h₂ hd hf₂ hL hf₁ hentries
  exact ⟨rfl, hw, fun x hm => hw.pair hm⟩

end Passes

namespace Sample

/-- Is it a directory of readable regular files? -/
def fileDirTest (fs : FS) (dir : Str) (D : Loc) : Bool :=
  (match fs.resolve dir with
    | .ok l => decide (l = D)
    | .error _ => false) && fs.isDir D && fs.writable D &&
    (fs.children D).all fun n => decide (Plain n) && match fs.node (n :: D) with
      | some (.file i) => (fs.inode i).readable
      | _ => false

theorem fileDirTest_sound {fs : FS} {dir : Str} {D : Loc} (h : fileDirTest fs dir D = true) : FileDir fs dir D := by
  simp only [fileDirTest, Bool.and_eq_true, List.all_eq_true, decide_eq_true_eq] at h
  obtain ⟨⟨⟨hfound, hdir⟩, hwrite⟩, hfiles⟩ := h
  refine ⟨?_, hdir, hwrite, fun n hn => ?_⟩
  · split at hfound
    · rename_i l hl
      rw [hl, of_decide_eq_true hfound]
    · cases hfound
  · obtain ⟨hp, hf⟩ := hfiles n (FS.mem_children.2 hn)
    split at hf
    · rename_i i hi
      exact ⟨hp, i, hi, hf⟩
    · cases hf

/-- A directory with an old pair `a`, the metadata of `b` still young, and an old orphan `c`. -/
def sweptFs : FS :=
  (((((((FS.base 1).putDir "d".toList [] 1 true).putFile "a.meta.oort".toList ["d".toList] ⟨[], true, 10, 0⟩).putFile
    "a.data.oort".toList ["d".toList] ⟨[], true, 10, 0⟩).putFile "b.meta.oort".toList ["d".toList] ⟨[],
    true, 99, 0⟩).putFile
    "b.data.oort".toList ["d".toList] ⟨[], true, 10, 0⟩).putFile "c.data.oort".toList ["d".toList] ⟨[],
    true, 10, 0⟩).putFile
    "x".toList ["d".toList] ⟨[], true, 10, 0⟩

def sweptWorld : World := { world with fs := sweptFs }

/-- What the environment decides in a run over it at the time 100. -/
def sweepChoices : List Choice :=
  [{ ticks := fun _ => 100 }, { order := [['.'], ['.', '.']] ++ sweptFs.children ["d".toList] }] ++
    List.replicate 13 calm

end Sample

/-- The call reads the clock, which shows `t`. -/
def Ev.clocks (t : Int) : Ev → Bool
  | ⟨⟨.cleanTime, .time⟩, _, now⟩ => decide ((now : Int) = t)
  | _ => false

theorem clockAt_of_head {t : Int} {e : Ev} (h : e.clocks t = true) (tr : List Ev) : ClockAt (e :: tr) t := by
  unfold Ev.clocks at h
  split at h
  · rename_i ch now
    have ht : (now : Int) = t := of_decide_eq_true h
    exact ⟨ch, ht ▸ List.mem_cons_self⟩
  · cases h

/-- The old pair and the orphan go; the data of the young metadata stays. -/
theorem cleanOldFiles_exact_sample : ∃ tr w',
    Run Machine (cleanOldFiles 50 "/d".toList) Sample.sweptWorld tr (.ret ()) w' ∧
    Without Sample.sweptFs (Due Sample.sweptFs ["d".toList] 50) w'.fs ∧
    w'.fs.children ["d".toList] = ["x".toList, "b.data.oort".toList, "b.meta.oort".toList] := by
  have h : (exec? Machine (cleanOldFiles 50 "/d".toList) Sample.sweepChoices Sample.sweptWorld).map (fun x =>
        x.1.all (fun e => decide (e.choice.err = none)) &&
        x.1.head?.any (Ev.clocks 100) &&
        decide (x.2.2.fs.children ["d".toList] = ["x".toList, "b.data.oort".toList, "b.meta.oort".toList])) =
          some true := by
    decide +kernel
  obtain ⟨⟨tr, o, w'⟩, hx, he⟩ := Option.map_eq_some_iff.1 h
  simp only [Bool.and_eq_true, List.all_eq_true, decide_eq_true_eq] at he
  obtain ⟨⟨hf, hclock⟩, hleft⟩ := he
  have hrun := exec?_sound hx
  have hc : ClockAt tr 100 := by
    cases tr with
    | nil => cases hclock
    | cons e tr => exact clockAt_of_head hclock tr
  obtain ⟨ho, hw, -⟩ := cleanOldFiles_exact (D := ["d".toList]) hrun
    (Sample.fileDirTest_sound (by decide +kernel)) hf hc (by decide)
  simp only at ho hrun
  subst ho
  exact ⟨tr, w', hrun, hw, hleft⟩

end OortAgent
