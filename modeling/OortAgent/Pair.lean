import OortAgent.Agent
import OortAgent.Lib.Utf8
import OortAgent.Trace

/-!
# The files of a pair

The paths of a data file and its metadata, and where they are in the tree. The working directory is taken as the
directory that holds `uploads`: `home`.

* `pair_path`: both files of an id are entries of one directory.
* `norm_dead`, `norm_uploads`: the entries of the dead-letter directory and of `uploads`.
-/

namespace OortAgent

open Lib

/-- The location of the working directory. -/
def Env.home (env : Env) (cwd : Loc) : Loc := (norm cwd env.uploadDir).tail

/-- An entry of a subdirectory of the working directory. -/
theorem norm_workdir {env : Env} {cwd : Loc} {n : Name} (hn : Plain n) :
    norm cwd (env.workdir ++ '/' :: n) = n :: env.home cwd := by
  have hu : Plain "uploads".toList := by decide
  have h : ∀ m, Plain m → norm cwd (env.workdir ++ '/' :: m) =
      m :: (if env.workdir = [] then [] else norm cwd env.workdir) := by
    intro m hm
    split
    · rename_i he; rw [he, List.nil_append, norm_root_child hm]
    · rename_i he; exact norm_child he hm
  rw [h n hn, Env.home, Env.uploadDir, show "/uploads".toList = '/' :: "uploads".toList from rfl, h _ hu,
    List.tail_cons]

theorem norm_uploadDir {env : Env} {cwd : Loc} : norm cwd env.uploadDir = "uploads".toList :: env.home cwd :=
  norm_workdir (by decide)

theorem norm_deadletterDir {env : Env} {cwd : Loc} : norm cwd env.deadletterDir = "dead".toList :: env.home cwd :=
  norm_workdir (by decide)

theorem norm_transferDir {env : Env} {cwd : Loc} : norm cwd env.transferDir = "transfers".toList :: env.home cwd :=
  norm_workdir (by decide)

theorem deadletterDir_ne_nil {env : Env} : env.deadletterDir ≠ [] := by simp [Env.deadletterDir]

theorem uploadDir_ne_nil {env : Env} : env.uploadDir ≠ [] := by simp [Env.uploadDir]

theorem transferDir_ne_nil {env : Env} : env.transferDir ≠ [] := by simp [Env.transferDir]

/-- A path outside the working directory. -/
def Outside (env : Env) (cwd : Loc) (path : Str) : Prop := ¬ env.home cwd <:+ norm cwd path

/-- The extension of a file of a pair. -/
def IsExt (ext : Str) : Prop := ext = META_EXT ∨ ext = DATA_EXT

theorem IsExt.plain {ext t : Str} (h : IsExt ext) (ht : '/' ∉ t) : Plain (t ++ ext) := by
  have hl : ext.length = 10 := by rcases h with rfl | rfl <;> rfl
  have hs : '/' ∉ ext := by rcases h with rfl | rfl <;> decide
  refine ⟨?_, ?_, ?_, by simp [ht, hs]⟩
  all_goals
    intro e
    have := congrArg List.length e
    simp [hl] at this

/-- The files of an id in `uploads` are entries of one directory, also if the id has slashes. -/
theorem pair_path (env : Env) (id : Str) : ∃ d t, d ≠ [] ∧ '/' ∉ t ∧
    ∀ ext, env.uploadDir ++ '/' :: (id ++ ext) = d ++ '/' :: (t ++ ext) := by
  have hs : '/' ∈ env.uploadDir ++ '/' :: id := by simp
  have hp := dirname_tailname hs
  refine ⟨dirname (env.uploadDir ++ '/' :: id), tailname (env.uploadDir ++ '/' :: id), fun hd => ?_,
    slash_notMem_tailname _, fun ext => ?_⟩
  · -- there are two slashes
    have ht : '/' ∉ (env.uploadDir ++ '/' :: id).tail := by
      rw [hp, hd, List.nil_append, List.tail_cons]
      exact slash_notMem_tailname _
    apply ht
    rw [Env.uploadDir]
    cases env.workdir <;> simp
  · calc env.uploadDir ++ '/' :: (id ++ ext) = (env.uploadDir ++ '/' :: id) ++ ext := by simp
      _ = _ := by conv_lhs => rw [hp]
                  simp

/-- The two extensions end different names. -/
theorem ext_ne {s t : Str} : s ++ META_EXT ≠ t ++ DATA_EXT := by
  intro h
  have hl : META_EXT.length = DATA_EXT.length := by decide
  have hne : META_EXT ≠ DATA_EXT := by decide
  exact hne (List.append_inj_right' h hl)

/-- A path of an entry that ends with an extension: so does the entry. -/
theorem entry_ends {d n ext : Str} (hx : IsExt ext) (h : endsWith (d ++ '/' :: n) ext = true) : ∃ t, n = t ++ ext := by
  obtain ⟨s, hs⟩ := endsWith_iff.1 h
  have hslash : '/' ∉ ext := by
    rcases hx with rfl | rfl <;> decide
  rcases List.append_eq_append_iff.1 hs with ⟨a, -, ha⟩ | ⟨a, -, ha⟩
  · cases a with
    | nil =>
      rw [List.nil_append] at ha
      exact absurd (ha ▸ List.mem_cons_self) hslash
    | cons c a =>
      obtain ⟨rfl, rfl⟩ := List.cons.inj ha
      exact ⟨a, rfl⟩
  · exact absurd (ha ▸ List.mem_append_right _ List.mem_cons_self) hslash

/-! ## Quarantine -/

theorem endsWith_meta (s : Str) : endsWith (s ++ META_EXT) META_EXT = true := endsWith_iff.2 ⟨s, rfl⟩

theorem endsWith_data (s : Str) : endsWith (s ++ DATA_EXT) DATA_EXT = true := endsWith_iff.2 ⟨s, rfl⟩

theorem not_endsWith_meta (s : Str) : endsWith (s ++ DATA_EXT) META_EXT = false := by
  rw [Bool.eq_false_iff]
  intro h
  obtain ⟨t, ht⟩ := endsWith_iff.1 h
  exact ext_ne ht.symm

/-- The path is in one of the directories that `endeaden` takes files from. -/
def Env.covers (env : Env) (f : Str) : Bool :=
  startsWith f env.transferDir || startsWith f env.uploadDir || startsWith f env.upgradeDir

theorem covers_iff {env : Env} {f : Str} : env.covers f = true ↔
    startsWith f env.transferDir ∨ startsWith f env.uploadDir ∨ startsWith f env.upgradeDir := by
  simp [Env.covers, or_assoc]

/-- Quarantine of a metadata file. -/
theorem endeaden_meta (env : Env) (s : Str) : endeaden env (s ++ META_EXT) =
    if env.covers (s ++ META_EXT) then endeadenPair env (s ++ META_EXT) (s ++ DATA_EXT) else return () := by
  unfold endeaden
  simp only [endsWith_meta, ← covers_iff]
  by_cases h : env.covers (s ++ META_EXT) = true
  · simp [h, dataFile, cut]
  · simp [h]

/-- Quarantine of a data file. -/
theorem endeaden_data (env : Env) (s : Str) : endeaden env (s ++ DATA_EXT) =
    if env.covers (s ++ DATA_EXT) then endeadenPair env (s ++ DATA_EXT) (s ++ META_EXT) else return () := by
  unfold endeaden
  simp only [endsWith_data, not_endsWith_meta, ← covers_iff]
  by_cases h : env.covers (s ++ DATA_EXT) = true
  · simp [h, metaFile, cut]
  · simp [h]

section Calls

variable {C : Call → Prop} {env : Env}

theorem endeadenPair_calls {f twin : Str}
    (h₁ : C ⟨.endeaden, .rename f (env.deadletterDir ++ '/' :: tailname f)⟩)
    (h₂ : C ⟨.endeadenTwin, .rename twin (env.deadletterDir ++ '/' :: tailname twin)⟩) :
    (endeadenPair env f twin).Calls C :=
  calls_call.2 ⟨h₁, fun _ => calls_call.2 ⟨h₂, fun _ => trivial⟩⟩

/-- The calls of the quarantine of either file of a pair. -/
theorem endeaden_calls {s ext : Str} (hx : IsExt ext)
    (h : ∀ site e, IsExt e → C ⟨site, .rename (s ++ e) (env.deadletterDir ++ '/' :: tailname (s ++ e))⟩) :
    (endeaden env (s ++ ext)).Calls C := by
  rcases hx with rfl | rfl
  · rw [endeaden_meta]
    split
    · exact endeadenPair_calls (h _ _ (.inl rfl)) (h _ _ (.inr rfl))
    · trivial
  · rw [endeaden_data]
    split
    · exact endeadenPair_calls (h _ _ (.inr rfl)) (h _ _ (.inl rfl))
    · trivial

theorem readRound_calls {s : Site} {h : Handle} (text : Bytes) (hC : ∀ off n, C ⟨s, .fill h off n⟩) :
    (readRound s h text).Calls C := by
  refine calls_call.2 ⟨hC _ _, fun r => ?_⟩
  obtain ⟨b, bad⟩ := r
  dsimp only
  split
  · trivial
  · split <;> trivial

theorem readTransferMeta_calls {file : Str} (ho : C ⟨.readMeta, .openRead file⟩)
    (hf : ∀ h off n, C ⟨.readMeta, .fill h off n⟩) (hq : (endeaden env file).Calls C) :
    (readTransferMeta env file).Calls C := by
  refine calls_call.2 ⟨ho, fun r => ?_⟩
  cases r with
  | error e => exact hq.bind fun _ => trivial
  | ok h =>
    refine (Proc.Calls.loop (fun text => readRound_calls text (hf h)) _ _).bind fun text => ?_
    split
    · trivial
    · exact hq.bind fun _ => trivial

theorem cacheGet_calls {c : CacheId} {key : Str} {fn : Prog c.Val} (hc : ∀ op, op.quiet = true → C ⟨.cache, op⟩)
    (hfn : fn.Calls C) : (cacheGet c key fn).Calls C := by
  refine calls_call.2 ⟨hc _ rfl, fun enabled => ?_⟩
  split
  · exact hfn
  · refine calls_call.2
      ⟨hc _ rfl, fun _ => Proc.Calls.ensure (calls_call.2 ⟨hc _ rfl, fun r => ?_⟩) ⟨hc _ rfl, fun _ => trivial⟩⟩
    cases r with
    | inl v => trivial
    | inr now =>
      refine hfn.bind fun v => calls_call.2 ⟨hc _ rfl, fun r => ?_⟩
      cases r <;> trivial

section Sites

variable {P : Site → Prop} (h₁ : P .endeaden) (h₂ : P .endeadenTwin)
include h₁ h₂

/-- The places of the calls of a quarantine. -/
theorem endeaden_sites (file : Str) : (endeaden env file).Calls (fun c : Call => P c.site) := by
  have hcut : ∀ x : Option Str, ((cut x).bind fun t => endeadenPair env file t).Calls (fun c : Call => P c.site) := by
    intro x
    cases x with
    | none => trivial
    | some t => exact endeadenPair_calls h₁ h₂
  unfold endeaden
  split
  · trivial
  · split
    · exact hcut _
    · split
      · exact hcut _
      · trivial

/-- The places of the calls that read metadata. -/
theorem readTransferMetaCached_sites (hc : P .cache) (hr : P .readMeta) (file : Str) :
    (readTransferMetaCached env file).Calls (fun c : Call => P c.site) :=
  cacheGet_calls (fun _ _ => hc) (readTransferMeta_calls hr (fun _ _ _ => hr) (endeaden_sites h₁ h₂ file))

end Sites

end Calls

/-- A temporary name has neither extension. -/
theorem picked_ne_ext {pick t ext : Str} (hp : FS.Pick pick) (h : IsExt ext) :
    "file_move_".toList ++ pick ≠ t ++ ext := by
  intro e
  have hdot : '.' ∈ t ++ ext := by
    refine List.mem_append.2 (.inr ?_)
    rcases h with rfl | rfl <;> decide
  rw [← e] at hdot
  rcases List.mem_append.1 hdot with hm | hm
  · revert hm; decide
  · have := List.all_eq_true.1 hp.2 _ hm
    revert this; decide

/-! ## The shape of a retrieval -/

section Retrieve

variable {ι γ : Type} [DecidableEq ι] {R : Proto Calls World Choice ι γ} {i : ι} {g : γ} {env : Env}

/-- What holds of the ghost value of a request that returned `Ok`, and of one that ended in any other way. -/
def Ended {α : Type} (P N : γ → Prop) (g : γ) : Outcome Exn (Response α) → Prop
  | .ret (.Ok _) => P g
  | _ => N g

/-- The rule for `retrieveFile`: `T` is known of the metadata it reads, `P` holds once the file is moved, `N`
whenever it ends without that. -/
theorem follows_retrieve {req : RetrieveFileRequest} {P N : γ → Prop} {T : TransferMeta → Prop} {src metaPath : Str}
    (hsrc : src = env.uploadDir ++ '/' :: (req.id ++ DATA_EXT))
    (hmeta : metaPath = env.uploadDir ++ '/' :: (req.id ++ META_EXT)) (hinit : N g)
    (hacc : Follows R i (sys .accessMeta (.access metaPath .R_OK)) g (fun g' _ => g' = g))
    (hread : Follows R i (readTransferMetaCached env metaPath) g (fun g' o => match o with
      | .ret tm => g' = g ∧ T tm
      | .throw e => Follows R i (retrieveCatch env src e) g' (Ended P N)
      | .stop _ => True))
    (hmove : ∀ tm, '/' ∈ req.savePath → T tm → Follows R i (moveFile env src req.savePath tm.fileInfo) g
      (fun g' o => match o with
        | .ret _ => P g'
        | .throw e => Follows R i (retrieveCatch env src e) g' (Ended P N)
        | .stop _ => True))
    (hrem : ∀ g', P g' → Follows R i (sys .removeMeta (.unlink metaPath)) g' (fun g'' _ => P g'')) :
    Follows R i (retrieveFile env req) g (Ended P N) := by
  subst hsrc hmeta
  unfold retrieveFile
  split
  · exact hinit
  rename_i hpath
  have hs : '/' ∈ req.savePath := by
    have : req.savePath.head? = some '/' := by simpa [checkPath] using hpath
    exact List.mem_of_mem_head? this
  refine follows_sys_bind hacc fun g' r hg => ?_
  subst hg
  cases r with
  | error e => exact hinit
  | ok _ =>
    refine Follows.bind (Follows.mono (Q := Ended P N) (fun g' o ho => ?_) (Follows.handle (Follows.bind
      (hread.mono fun g' o ho => ?_))))
    · cases o with
      | throw e => exact ho
      | stop x => trivial
      | ret r => cases r with
        | Bad_Request message => exact ho
        | Ok fi => exact follows_sys_bind (hrem g' ho) fun g' r hP => hP
    · cases o with
      | throw e => exact ho
      | stop x => trivial
      | ret tm =>
        obtain ⟨rfl, hT⟩ := ho
        refine Follows.bind ((hmove tm hs hT).mono fun g' o ho => ?_)
        cases o with
        | ret u => exact ho
        | throw e => exact ho
        | stop x => trivial

/-- The handlers never give an `Ok`. -/
theorem follows_retrieveCatch {src : Str} {e : Exn} {P N : γ → Prop} (hN : N g)
    (hq : e.isSystem = false → e.isRuntime = true → Follows R i (endeaden env src) g (fun g' _ => N g')) :
    Follows R i (retrieveCatch env src e) g (Ended P N) := by
  unfold retrieveCatch
  split
  · exact hN
  rename_i hsys
  split
  · rename_i hrun
    refine Follows.bind ((hq (by simpa using hsys) hrun).mono fun g' o ho => ?_)
    cases o with
    | ret u => exact ho
    | throw e => exact ho
    | stop x => trivial
  · exact hN

end Retrieve

/-! ## A pair in the small world -/

namespace Sample

/-- The metadata of the file, as it was sent. -/
def tm : TransferMeta where
  metaVersion := []
  topic := "t".toList
  destination := []
  node := []
  time := 0
  fileInfo := { info with id := "f".toList }
  sendOptions := {}

/-- Its text. -/
def metaText : Bytes :=
  ("\x7b\"destination\":\"\",\"file_info\":\x7b\"crc32\":\"d8932aac\",\"created\":0,\"id\":\"f\",\"modified\":0," ++
    "\"path\":\"/a/x\",\"size\":2\x7d,\"meta_version\":\"\",\"node\":\"\",\"send_options\":\x7b\"TTLParams\":\x7b" ++
    "\"bulk\":43200,\"surplus\":172800,\"urgent\":9000\x7d,\"reliable\":true\x7d,\"time\":0," ++
    "\"topic\":\"t\"\x7d").toUTF8.toList

/-- Its bytes. -/
theorem metaText_eq : metaText =
    [123, 34, 100, 101, 115, 116, 105, 110, 97, 116, 105, 111, 110, 34, 58, 34, 34, 44, 34, 102, 105, 108, 101, 95,
      105, 110, 102, 111, 34, 58, 123, 34, 99, 114, 99, 51, 50, 34, 58, 34, 100, 56, 57, 51, 50, 97, 97, 99, 34, 44,
      34, 99, 114, 101, 97, 116, 101, 100, 34, 58, 48, 44, 34, 105, 100, 34, 58, 34, 102, 34, 44, 34, 109, 111, 100,
      105, 102, 105, 101, 100, 34, 58, 48, 44, 34, 112, 97, 116, 104, 34, 58, 34, 47, 97, 47, 120, 34, 44, 34, 115,
      105, 122, 101, 34, 58, 50, 125, 44, 34, 109, 101, 116, 97, 95, 118, 101, 114, 115, 105, 111, 110, 34, 58, 34,
      34, 44, 34, 110, 111, 100, 101, 34, 58, 34, 34, 44, 34, 115, 101, 110, 100, 95, 111, 112, 116, 105, 111, 110,
      115, 34, 58, 123, 34, 84, 84, 76, 80, 97, 114, 97, 109, 115, 34, 58, 123, 34, 98, 117, 108, 107, 34, 58, 52,
      51, 50, 48, 48, 44, 34, 115, 117, 114, 112, 108, 117, 115, 34, 58, 49, 55, 50, 56, 48, 48, 44, 34, 117, 114,
      103, 101, 110, 116, 34, 58, 57, 48, 48, 48, 125, 44, 34, 114, 101, 108, 105, 97, 98, 108, 101, 34, 58, 116,
      114, 117, 101, 125, 44, 34, 116, 105, 109, 101, 34, 58, 48, 44, 34, 116, 111, 112, 105, 99, 34, 58, 34, 116,
      34, 125] := by
  rw [metaText, toList_toUTF8]
  rw [String.toByteArray_append, String.toByteArray_append, String.toByteArray_append,
    ByteArray.toList_data_append, ByteArray.toList_data_append, ByteArray.toList_data_append]
  decide +kernel

def codec : Codec := Codec.sample tm metaText

/-- The filesystem with the pair of the id `f` in `uploads`. -/
def pairFs : FS :=
  (fs.putFile "f.data.oort".toList ["uploads".toList, "w".toList] ⟨[104, 105], true, 0, 0⟩).putFile
    "f.meta.oort".toList ["uploads".toList, "w".toList] ⟨metaText, true, 0, 0⟩

/-- The world with that pair. -/
def uploads : World := { world with fs := pairFs }

end Sample

end OortAgent
