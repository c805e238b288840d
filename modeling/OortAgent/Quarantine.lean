import OortAgent.Pair

/-!
# What a quarantine moves

`Agent::endeaden` tests its path as a text, renames the file and its twin into the dead-letter directory, and only
logs a failure. The test does not look at `..` or at the slash after the name of a directory, and `rename` replaces
what is there.

- `run_endeaden`: the two renames of a run;
- `endeaden_pair_iff`: exactly when a quarantine moves the pair and nothing else.
-/

namespace OortAgent

open Lib

theorem norm_upgradeDir {env : Env} {cwd : Loc} : norm cwd env.upgradeDir = "upgrades".toList :: env.home cwd :=
  norm_workdir (by decide)

/-- The other file of a pair. -/
def twin (p : Str) : Option Str :=
  if endsWith p META_EXT then dataFile p else if endsWith p DATA_EXT then metaFile p else none

theorem twin_cases {p q : Str} (h : twin p = some q) :
    ∃ s e e', p = s ++ e ∧ q = s ++ e' ∧ IsExt e ∧ IsExt e' ∧ e ≠ e' := by
  unfold twin at h
  split at h
  · rename_i hm
    obtain ⟨s, rfl⟩ := endsWith_iff.1 hm
    rw [dataFile, chop_append] at h
    cases h
    exact ⟨s, _, _, rfl, rfl, .inl rfl, .inr rfl, by decide⟩
  · split at h
    · rename_i hd
      obtain ⟨s, rfl⟩ := endsWith_iff.1 hd
      rw [metaFile, chop_append] at h
      cases h
      exact ⟨s, _, _, rfl, rfl, .inr rfl, .inl rfl, by decide⟩
    · cases h

/-- What `endeaden` does, by its two tests. -/
theorem endeaden_eq (env : Env) (p : Str) : endeaden env p =
    if env.covers p then match twin p with
      | some q => endeadenPair env p q
      | none => return ()
    else return () := by
  by_cases hm : endsWith p META_EXT = true
  · obtain ⟨s, rfl⟩ := endsWith_iff.1 hm
    rw [endeaden_meta, twin, if_pos hm, dataFile, chop_append]
    rfl
  · by_cases hd : endsWith p DATA_EXT = true
    · obtain ⟨s, rfl⟩ := endsWith_iff.1 hd
      rw [endeaden_data, twin, if_neg hm, if_pos hd, metaFile, chop_append]
      rfl
    · rw [twin, if_neg hm, if_neg hd]
      unfold endeaden
      rw [if_neg hm, if_neg hd, ite_self, ite_self]

/-- The directories that a quarantine takes files from. -/
def Env.boxes (env : Env) : List Str := [env.transferDir, env.uploadDir, env.upgradeDir]

/-- The location of the dead-letter directory. -/
def Env.grave (env : Env) (fs : FS) : Loc := norm fs.cwd env.deadletterDir

/-- The path lies directly in one of the directories. -/
def Env.Holds (env : Env) (fs : FS) (p : Str) : Prop := ∃ d ∈ env.boxes, ∃ n, norm fs.cwd p = n :: norm fs.cwd d

/-- A file and its twin. -/
def pairOf (p : Str) : List Str := p :: (twin p).toList

/-- Nothing has changed. -/
def Same (fs fs' : FS) : Prop := (∀ l, fs'.node l = fs.node l) ∧ fs'.inode = fs.inode

/-- The path is a file of a pair directly in one of the directories; it and its twin, as far as they were there, are
in the dead-letter directory under their own names, and every other file, also one of the dead-letter directory, is
as it was. -/
structure Quarantined (env : Env) (p : Str) (fs fs' : FS) : Prop where
  direct : env.Holds fs p
  ext : endsWith p META_EXT = true ∨ endsWith p DATA_EXT = true
  moved : ∀ q ∈ pairOf p, ∀ l, fs.locate q = some l → fs'.node (tailname q :: env.grave fs) = fs.node l ∧
    fs'.node l = none
  others : ∀ l, (∀ q ∈ pairOf p, ∀ k, fs.locate q = some k → l ≠ k ∧ l ≠ tailname q :: env.grave fs) →
    fs'.node l = fs.node l
  kept : ∀ n i, fs.node (n :: env.grave fs) = some (.file i) → fs'.node (n :: env.grave fs) = some (.file i)
  bytes : fs'.inode = fs.inode

/-- No call failed but a rename of something that was not there. -/
def Smooth (fs : FS) (tr : List Ev) : Prop :=
  ∀ site a b ch e, (⟨⟨site, .rename a b⟩, ch, .error e⟩ : Ev) ∈ tr → fs.locate a = none

/-- What is there of the pair is the dead-letter directory's own entry. -/
def Buried (env : Env) (fs : FS) (p : Str) : Prop :=
  ∀ q ∈ pairOf p, ∀ l, fs.locate q = some l → l = tailname q :: env.grave fs

/-- No file of the dead-letter directory has the name of a file of the pair that is there, and nothing is below that
one. -/
def Spared (env : Env) (fs : FS) (p : Str) : Prop :=
  ∀ q ∈ pairOf p, ∀ l, fs.locate q = some l →
    fs.children l = [] ∧ ∀ i, fs.node (tailname q :: env.grave fs) ≠ some (.file i)

/-! ## The two renames -/

section Renames

variable {env : Env} {p q : Str} {w w' : World} {tr : List Ev} {o : Outcome Exn Unit}

/-- The two renames of a run, the second one in what the first one left. -/
theorem run_endeaden (h : Run Machine (endeaden env p) w tr o w') (hs : Smooth w.fs tr) (hc : env.covers p = true)
    (ht : twin p = some q) : o = .ret () ∧ ∃ fs₁,
      (w.fs.pathRename p (env.deadletterDir ++ '/' :: tailname p) = .ok fs₁ ∨ w.fs.locate p = none ∧ fs₁ = w.fs) ∧
      (fs₁.pathRename q (env.deadletterDir ++ '/' :: tailname q) = .ok w'.fs ∨ w.fs.locate q = none ∧ w'.fs = fs₁) := by
  rw [endeaden_eq, if_pos hc, ht] at h
  obtain ⟨ch₁, r₁, w₁, tr₁, e₁, h₁, rfl⟩ := run_sys.1 h
  obtain ⟨ch₂, r₂, w₂, tr₂, e₂, h₂, rfl⟩ := run_sys.1 h₁
  obtain ⟨-, rfl, rfl⟩ := run_ret.1 h₂
  refine ⟨rfl, w₁.fs, ?_, ?_⟩
  · rcases exec_rename e₁ with ⟨fs, -, -, hr, rfl⟩ | ⟨e, rfl, rfl, -⟩
    · exact .inl hr
    · exact .inr ⟨hs _ _ _ ch₁ e List.mem_cons_self, rfl⟩
  · rcases exec_rename e₂ with ⟨fs, -, -, hr, rfl⟩ | ⟨e, rfl, rfl, -⟩
    · exact .inl hr
    · exact .inr ⟨hs _ _ _ ch₂ e (List.mem_cons_of_mem _ List.mem_cons_self), rfl⟩

/-- The files of a pair that passes the tests are two entries of one directory. -/
theorem pair_entries (hc : env.covers p = true) (ht : twin p = some q) :
    ∃ d n m, p = d ++ '/' :: n ∧ q = d ++ '/' :: m ∧ Plain n ∧ Plain m ∧ n ≠ m := by
  obtain ⟨s, e, e', rfl, rfl, he, he', hne⟩ := twin_cases ht
  have hmem : '/' ∈ s ++ e := by
    simp only [covers_iff, startsWith_iff] at hc
    rcases hc with ⟨x, hx⟩ | ⟨x, hx⟩ | ⟨x, hx⟩ <;> rw [hx] <;> simp [Env.transferDir, Env.uploadDir, Env.upgradeDir]
  have hslash : '/' ∈ s := by
    refine (List.mem_append.1 hmem).resolve_right ?_
    rcases he with rfl | rfl <;> decide
  refine ⟨dirname s, tailname s ++ e, tailname s ++ e', ?_, ?_, he.plain (slash_notMem_tailname s),
    he'.plain (slash_notMem_tailname s), fun h => hne (List.append_cancel_left h)⟩
  · conv_lhs => rw [dirname_tailname hslash]
    simp
  · conv_lhs => rw [dirname_tailname hslash]
    simp

/-- The renames of a pair of entries `n` and `m` of the directory `D` into the directory `G`. -/
structure Moves (fs fs₁ fs' : FS) (p q : Str) (D G : Loc) (n m : Name) : Prop where
  ne : n ≠ m
  first : fs.locate p = some (n :: D) ∧ fs.rename (n :: D) (n :: G) = .ok fs₁ ∨ fs.locate p = none ∧ fs₁ = fs
  second : fs.locate q = some (m :: D) ∧ fs₁.rename (m :: D) (m :: G) = .ok fs' ∨ fs.locate q = none ∧ fs' = fs₁

/-- A rename into another directory binds no other name of the old one. -/
theorem free_sibling {fs fs' : FS} {D G : Loc} {n m : Name} (h : fs.rename (n :: D) (n :: G) = .ok fs') (hne : m ≠ n)
    (hm : fs.node (m :: D) = none) : fs'.node (m :: D) = none := by
  refine FS.free_rename h hm (fun e => hne (List.cons.inj e).1) fun _ hnot _ hsuf => ?_
  rcases List.suffix_cons_iff.1 hsuf with e | hsuf
  · exact hne (List.cons.inj e).1.symm
  · exact hnot (hsuf.trans (List.suffix_cons n D))

/-- The run of a quarantine, as renames of locations. -/
theorem run_endeaden_moves (h : Run Machine (endeaden env p) w tr o w') (hs : Smooth w.fs tr) (hc : env.covers p = true)
    (ht : twin p = some q) : ∃ D fs₁, norm w.fs.cwd p = tailname p :: D ∧
      Moves w.fs fs₁ w'.fs p q D (env.grave w.fs) (tailname p) (tailname q) := by
  obtain ⟨-, fs₁, hfirst, hsecond⟩ := run_endeaden h hs hc ht
  obtain ⟨d, n, m, rfl, rfl, hn, hm, hne⟩ := pair_entries hc ht
  rw [tailname_child hn.2.2.2] at hfirst
  rw [tailname_child hm.2.2.2] at hsecond
  rw [tailname_child hn.2.2.2, tailname_child hm.2.2.2]
  have hp : norm w.fs.cwd (d ++ '/' :: n) = n :: (norm w.fs.cwd (d ++ '/' :: n)).tail := norm_sibling hn hn
  have hq : norm w.fs.cwd (d ++ '/' :: m) = m :: (norm w.fs.cwd (d ++ '/' :: n)).tail := norm_sibling hm hn
  generalize (norm w.fs.cwd (d ++ '/' :: n)).tail = D at hp hq
  have hdead : ∀ {k : Name}, Plain k → norm w.fs.cwd (env.deadletterDir ++ '/' :: k) = k :: env.grave w.fs :=
    fun hk => norm_child deadletterDir_ne_nil hk
  refine ⟨D, fs₁, hp, hne, ?_, ?_⟩
  · rcases hfirst with hr | hnone
    · obtain ⟨hres, -, hren⟩ := FS.pathRename_ok hr
      rw [hp] at hres hren
      rw [hdead hn] at hren
      exact .inl ⟨FS.locate_eq_some.2 ⟨hres, FS.rename_src hren⟩, hren⟩
    · exact .inr hnone
  · rcases hsecond with hr | hnone
    · obtain ⟨hres, -, hren⟩ := FS.pathRename_ok hr
      have hcwd : fs₁.cwd = w.fs.cwd := by
        rcases hfirst with hr₁ | ⟨-, rfl⟩
        · exact FS.rename_cwd (FS.pathRename_ok hr₁).2.2
        · rfl
      rw [hcwd, hq] at hres hren
      rw [hdead hm] at hren
      refine .inl ⟨FS.locate_eq_some.2 ?_, hren⟩
      rcases hfirst with hr₁ | ⟨-, rfl⟩
      · -- the directory was there for the first rename
        obtain ⟨hres₁, -, hren₁⟩ := FS.pathRename_ok hr₁
        rw [hp] at hres₁ hren₁
        rw [hdead hn] at hren₁
        exact ⟨FS.resolve_sibling hn hm hres₁, fun hz => FS.rename_src hren (free_sibling hren₁ hne.symm hz)⟩
      · exact ⟨hres, FS.rename_src hren⟩
    · exact .inr hnone

end Renames

/-! ## What they change -/

section Moves

variable {fs fs₁ fs' : FS} {p q : Str} {D G : Loc} {n m : Name}

theorem mem_pairOf {x : Str} (ht : twin p = some q) : x ∈ pairOf p ↔ x = p ∨ x = q := by
  simp [pairOf, ht]

/-- A rename to the same name does nothing. -/
theorem rename_self {a : Loc} (h : fs.rename a a = .ok fs') : fs' = fs := by
  obtain ⟨-, -, -, -, -, ⟨-, rfl, -⟩ | ⟨i, -, hne, -⟩ | ⟨-, hne, -⟩⟩ := FS.rename_cases h
  · rfl
  · exact absurd rfl hne
  · exact absurd (List.suffix_refl a) hne

theorem Moves.inode (h : Moves fs fs₁ fs' p q D G n m) : fs'.inode = fs.inode := by
  have h₁ : fs₁.inode = fs.inode := by
    rcases h.first with ⟨-, hr⟩ | ⟨-, rfl⟩
    · exact (FS.rename_frame hr).1
    · rfl
  rcases h.second with ⟨-, hr⟩ | ⟨-, rfl⟩
  · rw [(FS.rename_frame hr).1, h₁]
  · exact h₁

/-- Within one directory, or if nothing is there, nothing changes. -/
theorem Moves.same (h : Moves fs fs₁ fs' p q D G n m) (hidle : D = G ∨ fs.locate p = none ∧ fs.locate q = none) :
    Same fs fs' := by
  suffices he : fs' = fs by rw [he]; exact ⟨fun _ => rfl, rfl⟩
  rcases hidle with rfl | ⟨hp, hq⟩
  · have h₁ : fs₁ = fs := by
      rcases h.first with ⟨-, hr⟩ | ⟨-, e⟩
      · exact rename_self hr
      · exact e
    rcases h.second with ⟨-, hr⟩ | ⟨-, e⟩
    · rw [rename_self hr, h₁]
    · rw [e, h₁]
  · rcases h.first with ⟨hsome, -⟩ | ⟨-, rfl⟩
    · rw [hp] at hsome
      cases hsome
    · rcases h.second with ⟨hsome, -⟩ | ⟨-, rfl⟩
      · rw [hq] at hsome
        cases hsome
      · rfl

/-- Otherwise a name is gone. -/
theorem Moves.not_same (h : Moves fs fs₁ fs' p q D G n m) (hDG : D ≠ G)
    (hthere : fs.locate p ≠ none ∨ fs.locate q ≠ none) :
    ¬ Same fs fs' := by
  have hne : ∀ {k : Name}, k :: D ≠ k :: G := fun e => hDG (List.cons.inj e).2
  rintro ⟨hsame, -⟩
  rcases h.first with ⟨hp, hr⟩ | ⟨hp, rfl⟩
  · have hgone : fs'.node (n :: D) = none := by
      rcases h.second with ⟨-, hr₂⟩ | ⟨-, rfl⟩
      · exact free_sibling hr₂ h.ne (FS.rename_frees hr hne)
      · exact FS.rename_frees hr hne
    rw [hsame] at hgone
    exact (FS.locate_eq_some.1 hp).2 hgone
  · rcases h.second with ⟨hq, hr₂⟩ | ⟨hq, -⟩
    · have hgone := FS.rename_frees hr₂ hne
      rw [hsame] at hgone
      exact (FS.locate_eq_some.1 hq).2 hgone
    · rcases hthere with hp' | hq'
      · exact hp' hp
      · exact hq' hq

/-- One name with nothing below it was moved, if it was there. -/
structure Shifted (fs fs' : FS) (there : Prop) (a b : Loc) : Prop where
  moved : there → fs'.node b = fs.node a ∧ fs'.node a = none
  others : ∀ l, (there → l ≠ a ∧ l ≠ b) → fs'.node l = fs.node l

theorem shifted_of_rename {a b : Loc} {there : Prop} (h : fs.rename a b = .ok fs') (hab : a ≠ b)
    (hc : fs.children a = [])
    (ht : there) : Shifted fs fs' there a b := by
  refine ⟨fun _ => ⟨?_, ?_⟩, fun l hl => ?_⟩
  · rw [FS.node_rename_leaf h hab hc, if_pos rfl]
  · rw [FS.node_rename_leaf h hab hc, if_neg hab, if_pos rfl]
  · rw [FS.node_rename_leaf h hab hc, if_neg (hl ht).2, if_neg (hl ht).1]

theorem shifted_of_none {a b : Loc} {there : Prop} (ht : ¬ there) : Shifted fs fs there a b :=
  ⟨fun h => absurd h ht, fun _ _ => rfl⟩

/-- The two moves, if nothing is below the names. -/
theorem Moves.shifted (h : Moves fs fs₁ fs' p q D G n m) (hDG : D ≠ G) (hlen : D.length = G.length)
    (hp : fs.locate p ≠ none → fs.children (n :: D) = []) (hq : fs.locate q ≠ none → fs.children (m :: D) = []) :
    Shifted fs fs₁ (fs.locate p ≠ none) (n :: D) (n :: G) ∧ Shifted fs₁ fs' (fs.locate q ≠ none) (m :: D) (m :: G) := by
  have hne : ∀ {k : Name}, k :: D ≠ k :: G := fun e => hDG (List.cons.inj e).2
  have hfirst : Shifted fs fs₁ (fs.locate p ≠ none) (n :: D) (n :: G) := by
    rcases h.first with ⟨hsome, hr⟩ | ⟨hnone, rfl⟩
    · have hthere : fs.locate p ≠ none := by simp [hsome]
      exact shifted_of_rename hr hne (hp hthere) hthere
    · exact shifted_of_none (not_not.2 hnone)
  refine ⟨hfirst, ?_⟩
  rcases h.second with ⟨hsome, hr⟩ | ⟨hnone, rfl⟩
  · have hthere : fs.locate q ≠ none := by simp [hsome]
    refine shifted_of_rename hr hne ?_ hthere
    -- the first move made nothing below the second name
    rw [List.eq_nil_iff_forall_not_mem]
    intro c hc
    have hlong : ∀ {k : Name} {E : Loc}, E.length = G.length → c :: m :: D ≠ k :: E := by
      intro k E hE e
      have hl := congrArg List.length e
      simp only [List.length_cons] at hl
      omega
    have hold : fs.node (c :: m :: D) ≠ none := by
      rw [← hfirst.others _ fun _ => ⟨hlong hlen, hlong rfl⟩]
      exact FS.mem_children.1 hc
    rw [← FS.mem_children, hq hthere] at hold
    cases hold
  · exact shifted_of_none (not_not.2 hnone)

end Moves

/-! ## Exactly the pair -/

section Exactly

variable {env : Env} {fs fs₁ fs' : FS} {p q : Str} {D : Loc}

/-- A directory that files are taken from is not the dead-letter directory, and as deep. -/
theorem Env.Holds.dir (h : env.Holds fs p) (hp : norm fs.cwd p = tailname p :: D) :
    D ≠ env.grave fs ∧ D.length = (env.grave fs).length := by
  obtain ⟨d, hd, n, hn⟩ := h
  rw [hp] at hn
  obtain ⟨-, rfl⟩ := List.cons.inj hn
  rw [Env.grave, norm_deadletterDir]
  simp only [Env.boxes, List.mem_cons, List.not_mem_nil, or_false] at hd
  rcases hd with rfl | rfl | rfl
  · rw [norm_transferDir]
    exact ⟨by simp, rfl⟩
  · rw [norm_uploadDir]
    exact ⟨by simp, rfl⟩
  · rw [norm_upgradeDir]
    exact ⟨by simp, rfl⟩

/-- Where a file of the pair is. -/
theorem Moves.locate (h : Moves fs fs₁ fs' p q D (env.grave fs) (tailname p) (tailname q)) {x : Str} {l : Loc}
    (hx : x = p ∨ x = q) (hl : fs.locate x = some l) : l = tailname x :: D := by
  rcases hx with rfl | rfl
  · rcases h.first with ⟨hsome, -⟩ | ⟨hnone, -⟩
    · exact Option.some.inj (hl.symm.trans hsome)
    · cases hl.symm.trans hnone
  · rcases h.second with ⟨hsome, -⟩ | ⟨hnone, -⟩
    · exact Option.some.inj (hl.symm.trans hsome)
    · cases hl.symm.trans hnone

theorem Moves.quarantined (h : Moves fs fs₁ fs' p q D (env.grave fs) (tailname p) (tailname q)) (ht : twin p = some q)
    (hp : norm fs.cwd p = tailname p :: D) (hdir : env.Holds fs p) (hsp : Spared env fs p) :
    Quarantined env p fs fs' := by
  obtain ⟨hDG, hlen⟩ := hdir.dir hp
  have hleaf : ∀ {x : Str}, x = p ∨ x = q → fs.locate x ≠ none → fs.children (tailname x :: D) = [] ∧
      ∀ i, fs.node (tailname x :: env.grave fs) ≠ some (.file i) := by
    intro x hx hthere
    obtain ⟨l, hl⟩ := Option.ne_none_iff_exists'.1 hthere
    rw [← h.locate hx hl]
    exact hsp x ((mem_pairOf ht).2 hx) l hl
  obtain ⟨h₁, h₂⟩ := h.shifted hDG hlen (fun hthere => (hleaf (.inl rfl) hthere).1)
    (fun hthere => (hleaf (.inr rfl) hthere).1)
  have hcons : ∀ {E F : Loc}, tailname p :: E ≠ tailname q :: F := fun e => h.ne (List.cons.inj e).1
  refine ⟨hdir, ?_, fun x hx l hl => ?_, fun l hl => ?_, fun k i hk => ?_, h.inode⟩
  · obtain ⟨s, e, -, rfl, -, he, -⟩ := twin_cases ht
    rcases he with rfl | rfl
    · exact .inl (endsWith_meta s)
    · exact .inr (endsWith_data s)
  · have hx' := (mem_pairOf ht).1 hx
    have hthere : fs.locate x ≠ none := by simp [hl]
    rw [h.locate hx' hl]
    rcases hx' with rfl | rfl
    · rw [h₂.others _ fun _ => ⟨hcons, hcons⟩, h₂.others _ fun _ => ⟨hcons, hcons⟩]
      exact h₁.moved hthere
    · rw [← h₁.others (tailname x :: D) fun _ => ⟨hcons.symm, hcons.symm⟩]
      exact h₂.moved hthere
  · have haway : ∀ {x : Str}, x = p ∨ x = q → fs.locate x ≠ none → l ≠ tailname x :: D ∧
        l ≠ tailname x :: env.grave fs := by
      intro x hx hthere
      obtain ⟨k, hk⟩ := Option.ne_none_iff_exists'.1 hthere
      have := hl x ((mem_pairOf ht).2 hx) k hk
      rwa [h.locate hx hk] at this
    rw [h₂.others l (haway (.inr rfl)), h₁.others l (haway (.inl rfl))]
  · have haway : ∀ {x : Str}, x = p ∨ x = q → fs.locate x ≠ none →
        k :: env.grave fs ≠ tailname x :: D ∧ k :: env.grave fs ≠ tailname x :: env.grave fs := by
      intro x hx hthere
      refine ⟨fun e => hDG (List.cons.inj e).2.symm, fun e => ?_⟩
      rw [e] at hk
      exact (hleaf hx hthere).2 i hk
    rw [h₂.others _ (haway (.inr rfl)), h₁.others _ (haway (.inl rfl)), hk]

theorem Quarantined.spared (h : Quarantined env p fs fs')
    (hm : Moves fs fs₁ fs' p q D (env.grave fs) (tailname p) (tailname q))
    (ht : twin p = some q) (hp : norm fs.cwd p = tailname p :: D) : Spared env fs p := by
  obtain ⟨hDG, hlen⟩ := h.direct.dir hp
  intro x hx l hl
  obtain ⟨hto, hfrom⟩ := h.moved x hx l hl
  have hloc := hm.locate ((mem_pairOf ht).1 hx) hl
  refine ⟨?_, fun i hi => ?_⟩
  · -- what is below a moved name moves too
    rw [List.eq_nil_iff_forall_not_mem]
    intro c hc
    have hstay : fs'.node (c :: l) = fs.node (c :: l) := by
      refine h.others _ fun y hy k hk => ?_
      rw [hm.locate ((mem_pairOf ht).1 hy) hk, hloc]
      constructor <;> intro e <;> have hlen' :=
        congrArg List.length e <;> simp only [List.length_cons] at hlen' <;> omega
    rw [FS.mem_children, ← hstay] at hc
    obtain ⟨v, b, hdir⟩ := fs'.tree c l hc
    rw [← FS.node, hfrom] at hdir
    cases hdir
  · have hfile : fs.node l = some (.file i) := by rw [← hto, h.kept _ i hi]
    have he := fs.single _ _ i hfile hi
    rw [hloc] at he
    exact hDG (List.cons.inj he).2

/-- **Exactly when a quarantine moves the pair and nothing else**: the path does not pass the tests; or what is
there of the pair is already an entry of the dead-letter directory; or the path lies directly in one of the three
directories, no file of the dead-letter directory has the name of a file of the pair that is there, and that one is
no directory with something in it. -/
theorem endeaden_pair_iff {w w' : World} {tr : List Ev} {o : Outcome Exn Unit}
    (h : Run Machine (endeaden env p) w tr o w')
    (hs : Smooth w.fs tr) :
    (Same w.fs w'.fs ∨ Quarantined env p w.fs w'.fs) ↔
      env.covers p = false ∨ twin p = none ∨ Buried env w.fs p ∨ (env.Holds w.fs p ∧ Spared env w.fs p) := by
  by_cases hc : env.covers p = true
  · cases ht : twin p with
    | none =>
      rw [endeaden_eq, if_pos hc, ht] at h
      obtain ⟨-, -, rfl⟩ := run_ret.1 h
      exact ⟨fun _ => .inr (.inl rfl), fun _ => .inl ⟨fun _ => rfl, rfl⟩⟩
    | some q =>
      obtain ⟨D, fs₁, hp, hm⟩ := run_endeaden_moves h hs hc ht
      constructor
      · intro hprop
        refine .inr (.inr ?_)
        by_cases hidle : D = env.grave w.fs ∨ w.fs.locate p = none ∧ w.fs.locate q = none
        · refine .inl fun x hx l hl => ?_
          rw [hm.locate ((mem_pairOf ht).1 hx) hl]
          rcases hidle with rfl | ⟨hp', hq'⟩
          · rfl
          · rcases (mem_pairOf ht).1 hx with rfl | rfl
            · cases hl.symm.trans hp'
            · cases hl.symm.trans hq'
        · rw [not_or, not_and_or] at hidle
          have hquar := hprop.resolve_left (hm.not_same hidle.1 hidle.2)
          exact .inr ⟨hquar.direct, hquar.spared hm ht hp⟩
      · rintro (hno | hno | hburied | ⟨hdir, hsp⟩)
        · rw [hc] at hno
          cases hno
        · cases hno
        · refine .inl (hm.same ?_)
          by_cases hD : D = env.grave w.fs
          · exact .inl hD
          · have hnone : ∀ {x : Str}, x = p ∨ x = q → w.fs.locate x = none := by
              intro x hx
              by_contra hthere
              obtain ⟨l, hl⟩ := Option.ne_none_iff_exists'.1 hthere
              have he := hburied x ((mem_pairOf ht).2 hx) l hl
              rw [hm.locate hx hl] at he
              exact hD (List.cons.inj he).2
            exact .inr ⟨hnone (.inl rfl), hnone (.inr rfl)⟩
        · exact .inr (hm.quarantined ht hp hdir hsp)
  · rw [endeaden_eq, if_neg hc] at h
    obtain ⟨-, -, rfl⟩ := run_ret.1 h
    exact ⟨fun _ => .inl (by simpa using hc), fun _ => .inl ⟨fun _ => rfl, rfl⟩⟩

end Exactly

namespace Sample

theorem smooth_of_all {fs : FS} {tr : List Ev} (h : tr.all (fun e => !Ev.refused e) = true) : Smooth fs tr := by
  intro site a b ch e he
  have := List.all_eq_true.1 h _ he
  cases this

/-- The pair of the id `f` in `uploads` and next to it, and its data also in the dead-letter directory. -/
def strewnFs : FS :=
  ((pairFs.putFile "f.data.oort".toList ["dead".toList, "w".toList] ⟨[111], true, 0, 0⟩).putFile
    "g.data.oort".toList ["w".toList] ⟨[104], true, 0, 0⟩).putFile "g.meta.oort".toList ["w".toList] ⟨[], true, 0, 0⟩

def strewn : World := { world with fs := strewnFs }

/-- The data file of the pair in `uploads`. -/
def pairData : Str := "/w/uploads/f.data.oort".toList

/-- A path outside the three directories that starts with the text of one of them. -/
def outside : Str := "/w/uploads/../g.meta.oort".toList

theorem twin_pairData : twin pairData = some "/w/uploads/f.meta.oort".toList := by decide +kernel

theorem twin_outside : twin outside = some "/w/uploads/../g.data.oort".toList := by decide +kernel

/-- A test for `Spared`. -/
def sparedTest (env : Env) (fs : FS) (p : Str) : Bool := (pairOf p).all fun q => match fs.locate q with
  | none => true
  | some l => decide (fs.children l = []) && decide (fs.node (tailname q :: env.grave fs) = none)

theorem spared_of_test {env : Env} {fs : FS} {p : Str} (h : sparedTest env fs p = true) : Spared env fs p := by
  intro q hq l hl
  have hq' := List.all_eq_true.1 h q hq
  rw [hl] at hq'
  simp only [Bool.and_eq_true, decide_eq_true_eq] at hq'
  refine ⟨hq'.1, fun i hi => ?_⟩
  rw [hq'.2] at hi
  cases hi

end Sample

/-- The pair of the sample is moved, and nothing else. -/
theorem endeaden_pair_sample :
    ∃ tr w', Run Machine (endeaden (Sample.env Sample.codec) Sample.pairData) Sample.uploads tr (.ret ()) w' ∧
      (Same Sample.pairFs w'.fs ∨ Quarantined (Sample.env Sample.codec) Sample.pairData Sample.pairFs w'.fs) := by
  have h : (exec? Machine (endeaden (Sample.env Sample.codec) Sample.pairData)
      (List.replicate 2 Sample.calm) Sample.uploads).map
      (fun x => x.1.all fun e => !Ev.refused e) = some true := by
    decide +kernel
  obtain ⟨⟨tr, o, w'⟩, hx, hall⟩ := Option.map_eq_some_iff.1 h
  have hrun := exec?_sound hx
  have hs : Smooth Sample.uploads.fs tr := Sample.smooth_of_all hall
  have ho : o = .ret () := (run_endeaden hrun hs (by decide +kernel) Sample.twin_pairData).1
  subst ho
  refine ⟨tr, w', hrun,
    (endeaden_pair_iff hrun hs).2 (.inr (.inr (.inr ⟨⟨_, .tail _ (.head _), "f.data.oort".toList, ?_⟩, ?_⟩)))⟩
  · decide +kernel
  · exact Sample.spared_of_test (by decide +kernel)

/-- A file outside the three directories is moved, and a file of the dead-letter directory is replaced. -/
theorem endeaden_moves_others :
    (∃ tr w', Run Machine (endeaden (Sample.env Sample.codec) Sample.outside) Sample.strewn tr (.ret ()) w' ∧
      Smooth Sample.strewnFs tr ∧
      ¬ (Same Sample.strewnFs w'.fs ∨ Quarantined (Sample.env Sample.codec) Sample.outside Sample.strewnFs w'.fs)) ∧
    ∃ tr w', Run Machine (endeaden (Sample.env Sample.codec) Sample.pairData) Sample.strewn tr (.ret ()) w' ∧
      Smooth Sample.strewnFs tr ∧
      ¬ (Same Sample.strewnFs w'.fs ∨ Quarantined (Sample.env Sample.codec) Sample.pairData Sample.strewnFs w'.fs) := by
  constructor
  · have h : (exec? Machine (endeaden (Sample.env Sample.codec) Sample.outside)
        (List.replicate 2 Sample.calm) Sample.strewn).map
        (fun x => x.1.all (fun e => !Ev.refused e) &&
          decide (x.2.2.fs.node ["g.meta.oort".toList, "w".toList] ≠
            Sample.strewnFs.node ["g.meta.oort".toList, "w".toList])) =
          some true := by
      decide +kernel
    obtain ⟨⟨tr, o, w'⟩, hx, ht⟩ := Option.map_eq_some_iff.1 h
    simp only [Bool.and_eq_true, decide_eq_true_eq] at ht
    have hrun := exec?_sound hx
    have hs : Smooth Sample.strewn.fs tr := Sample.smooth_of_all ht.1
    have ho : o = .ret () := (run_endeaden hrun hs (by decide +kernel) Sample.twin_outside).1
    subst ho
    refine ⟨tr, w', hrun, hs, ?_⟩
    rintro (⟨hsame, -⟩ | hq)
    · exact ht.2 (hsame _)
    · obtain ⟨d, hd, n, hn⟩ := hq.direct
      have hlen : (norm Sample.strewnFs.cwd d).length = 2 := by
        simp only [Env.boxes, List.mem_cons, List.not_mem_nil, or_false] at hd
        rcases hd with rfl | rfl | rfl <;> decide +kernel
      have hl := congrArg List.length hn
      rw [List.length_cons, hlen] at hl
      revert hl
      decide +kernel
  · have h : (exec? Machine (endeaden (Sample.env Sample.codec) Sample.pairData)
        (List.replicate 2 Sample.calm) Sample.strewn).map
        (fun x => x.1.all (fun e => !Ev.refused e) &&
          decide (x.2.2.fs.node ["f.data.oort".toList, "dead".toList, "w".toList] ≠ some (.file 3))) = some true := by
      decide +kernel
    obtain ⟨⟨tr, o, w'⟩, hx, ht⟩ := Option.map_eq_some_iff.1 h
    simp only [Bool.and_eq_true, decide_eq_true_eq] at ht
    have hrun := exec?_sound hx
    have hs : Smooth Sample.strewn.fs tr := Sample.smooth_of_all ht.1
    have ho : o = .ret () := (run_endeaden hrun hs (by decide +kernel) Sample.twin_pairData).1
    subst ho
    have hold : Sample.strewnFs.node ["f.data.oort".toList, "dead".toList, "w".toList] = some (.file 3) := by
      decide +kernel
    refine ⟨tr, w', hrun, hs, ?_⟩
    rintro (⟨hsame, -⟩ | hq)
    · exact ht.2 ((hsame _).trans hold)
    · exact ht.2 (hq.kept "f.data.oort".toList 3 hold)

end OortAgent
