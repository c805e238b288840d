import OortAgent.Answered
import OortAgent.SendRule

/-!
# What a failed `send_file` leaves

Any number of requests, for any sources, also files of the working directory, in any interleaving.

* `Spares`: what a step of any request does to the names of pairs.
* `Lives`: what holds of the requests at any time; each has the names of its pair, or has given them back.
* `lives_sendFile`: a request keeps it, and ends with a response only if it has sent its file or its names are free.
* `Shut`: without the directory `transfers` no request changes anything.
* `send_leaves_nothing`: a request that is refused leaves neither file of its pair.
* `send_leaves_meta`: of two requests for one file one may be left by an exception, and its metadata stays.
-/

namespace OortAgent

open Lib

/-! ## Steps on names -/

/-- What leads to the area stays, and the names of pairs stay or go, but for those of `x`. -/
structure Spares (A : Area) (x : Option Str) (fs fs' : FS) : Prop where
  cwd : fs'.cwd = fs.cwd
  dir : A.There fs → A.There fs'
  node : ∀ t ext, IsExt ext → x ≠ some t →
    fs'.node ((t ++ ext) :: A.dir) = fs.node ((t ++ ext) :: A.dir) ∨ fs'.node ((t ++ ext) :: A.dir) = none

section Spares

variable {A : Area} {x : Option Str} {fs fs' : FS} {a b : Loc}

/-- The names are as they were. -/
theorem spares_same (hcwd : fs'.cwd = fs.cwd) (hn : ∀ l, fs'.node l = fs.node l) : Spares A x fs fs' := by
  refine ⟨hcwd, fun hA k hk => ?_, fun t ext _ _ => .inl (hn _)⟩
  rw [FS.isDir, hn]
  exact hA k hk

end Spares

/-! ## The pair of a request -/

/-- How far a request has come with the names of its pair: it has an id; its metadata may be there; its data may be
there too; it has removed its metadata again. -/
inductive Phase
  | idle
  | named (id : Str)
  | live (id : Str)
  | sent (id : Str)
  | gone (id : Str)

namespace Phase

/-- The id of the request. -/
def id? : Phase → Option Str
  | idle => none
  | named id => some id
  | live id => some id
  | sent id => some id
  | gone id => some id

/-- Nothing of its pair is there. -/
def isClear : Phase → Bool
  | named _ => true
  | gone _ => true
  | _ => false

end Phase

/-- The names of the pair. -/
def PairAt (T : Loc) (fs : FS) : Phase → Prop
  | .idle => True
  | .named id => fs.node (metaAt T id) = none ∧ fs.node (dataAt T id) = none
  | .live id => fs.isDir (metaAt T id) = false ∧ fs.node (dataAt T id) = none
  | .sent _ => True
  | .gone id => fs.node (metaAt T id) = none ∧ fs.node (dataAt T id) = none

theorem PairAt.clear {T : Loc} {fs : FS} {s : Phase} (h : PairAt T fs s) (hs : s.isClear = true) :
    ∃ id, s.id? = some id ∧ fs.node (metaAt T id) = none ∧ fs.node (dataAt T id) = none := by
  cases s with
  | named id => exact ⟨id, rfl, h⟩
  | gone id => exact ⟨id, rfl, h⟩
  | idle => cases hs
  | live id => cases hs
  | sent id => cases hs

/-- A step that spares the pair. -/
theorem PairAt.spares {A : Area} {x : Option Str} {fs fs' : FS} {s : Phase} (h : PairAt A.dir fs s)
    (hs : Spares A x fs fs')
    (hx : ∀ id, s.id? = some id → x ≠ some id) : PairAt A.dir fs' s := by
  have hnone : ∀ {id ext}, IsExt ext → x ≠ some id → fs.node ((id ++ ext) :: A.dir) = none →
      fs'.node ((id ++ ext) :: A.dir) = none := by
    intro id ext hext hx hn
    rcases hs.node id ext hext hx with e | e
    · rw [e, hn]
    · exact e
  cases s with
  | idle => trivial
  | sent _ => trivial
  | named id => exact ⟨hnone (.inl rfl) (hx id rfl) h.1, hnone (.inr rfl) (hx id rfl) h.2⟩
  | gone id => exact ⟨hnone (.inl rfl) (hx id rfl) h.1, hnone (.inr rfl) (hx id rfl) h.2⟩
  | live id =>
    refine ⟨?_, hnone (.inr rfl) (hx id rfl) h.2⟩
    have hdir : fs.isDir (metaAt A.dir id) = false := h.1
    rcases hs.node id META_EXT (.inl rfl) (hx id rfl) with e | e
    · rw [FS.isDir, metaAt, e]
      exact hdir
    · rw [FS.isDir, metaAt, e]

section Lives

variable {ι : Type}

/-- The request drew the id. -/
def Drew (i : ι) (id : Str) (tr : History Calls Choice ι) : Prop := ∃ e ∈ tr, e.1 = i ∧ Ev.drawn e.2 = some id

variable {i : ι} {cwd : Loc} {A : Area} {tr : History Calls Choice ι} {w w' : World} {G : ι → Phase}
  {e : Ev} {g' : Phase}
  {x : Option Str}

theorem drew_snoc {j : ι} {id : Str} : Drew j id (tr ++ [(i, e)]) ↔ Drew j id tr ∨ (i = j ∧ e.drawn = some id) := by
  simp [Drew, or_and_right, exists_or]

/-- The requests at any time: `transfers` is there, their ids differ, and the names of their pairs are as far as
they are. -/
structure Lives (cwd : Loc) (A : Area) (tr : History Calls Choice ι) (w : World) (G : ι → Phase) : Prop where
  wd : w.fs.cwd = cwd
  dir : A.There w.fs
  ids : ∀ i id, (G i).id? = some id → id ∈ w.uuids
  apart : ∀ i j id, (G i).id? = some id → (G j).id? = some id → i = j
  drew : ∀ i id, (G i).id? = some id → Drew i id tr
  pair : ∀ i, PairAt A.dir w.fs (G i)

/-- A file that is there can be unlinked. -/
def Unlinked (w : World) (e : Ev) : Prop :=
  ∀ p i, e.call.op = .unlink p → w.fs.node (norm w.fs.cwd p) = some (.file i) → e.refused = false

variable [DecidableEq ι]

/-- A step that draws no id. -/
theorem Lives.step (h : Lives cwd A tr w G) (hs : Spares A x w.fs w'.fs) (hu : w'.uuids = w.uuids)
    (hid : g'.id? = (G i).id?) (hx : ∀ t, x = some t → (G i).id? = some t)
    (hpair : PairAt A.dir w.fs (G i) → PairAt A.dir w'.fs g') :
    Lives cwd A (tr ++ [(i, e)]) w' (Function.update G i g') := by
  have hids : ∀ j, (Function.update G i g' j).id? = (G j).id? := by
    intro j
    by_cases hj : j = i
    · subst hj
      rw [Function.update_self, hid]
    · rw [Function.update_of_ne hj]
  refine ⟨hs.cwd.trans h.wd, hs.dir h.dir, fun j id hj => ?_, fun j k id hj hk => ?_, fun j id hj => ?_, fun j => ?_⟩
  · rw [hids] at hj
    rw [hu]
    exact h.ids j id hj
  · rw [hids] at hj hk
    exact h.apart j k id hj hk
  · rw [hids] at hj
    exact drew_snoc.2 (.inl (h.drew j id hj))
  · by_cases hj : j = i
    · subst hj
      rw [Function.update_self]
      exact hpair (h.pair j)
    · rw [Function.update_of_ne hj]
      exact (h.pair j).spares hs fun id hid hxid => hj (h.apart j i id hid (hx id hxid))

end Lives

/-! ## Calls that spare the pairs -/

section Calls

variable {env : Env} {cwd : Loc} {s : Site}

end Calls

/-! ## The rules -/

section Rules

variable {ι : Type} [DecidableEq ι] {env : Env} {cwd : Loc} {i : ι} {α : Type} {s : Site} {g : Phase} {id : Str}

/-- A call that changes nothing. -/
theorem Lives.same {tr : History Calls Choice ι} {w : World} {G : ι → Phase} {e : Ev}
    (h : Lives cwd (env.transfers cwd) tr w G) :
    Lives cwd (env.transfers cwd) (tr ++ [(i, e)]) w (Function.update G i (G i)) :=
  h.step (x := none) (spares_same rfl fun _ => rfl) rfl rfl (by simp) id

variable {src tmpdir dtname : Str} {fi : FileInfo}

end Rules

/-! ## Without the directory -/

section Shut

variable {ι : Type} [DecidableEq ι] {env : Env} {fs : FS} {i : ι} {α : Type} {s : Site} {g : Phase} {id : Str}

end Shut

/-! ## Failed requests -/

namespace Sample

/-- Two requests for the file `/a/x`. -/
def bothSend : Pool Calls World Exn (Response Str) Bool where
  state := world
  procs _ := sendFile (env noCodec) ⟨[], "/a/x".toList, "t".toList, {}⟩

/-- The first steps of a request, up to its `n`th. -/
def sendSteps (i : Bool) (b : UInt8) (n : Nat) : List (Bool × Choice) :=
  (i, { rand := List.replicate 16 b }) :: List.replicate n (i, calm)

/-- The id that such a request draws. -/
def drawnId (b : UInt8) : Str := uuidText (List.replicate 16 b)

/-- Unlinking does not fail. -/
def unlinksFine (e : Ev) : Bool := match e.call.op with
  | .unlink _ => !e.refused
  | _ => true

theorem unlinksFine_sound {w : World} {e : Ev} (h : unlinksFine e = true) : Unlinked w e := by
  intro p i hp _
  unfold unlinksFine at h
  rw [hp] at h
  simpa using h

/-- An exception left the request. -/
def thrownAt (P : Pool Calls World Exn (Response Str) Bool) (i : Bool) : Bool := match P.procs i with
  | .throw _ => true
  | _ => false

theorem thrownAt_sound {P : Pool Calls World Exn (Response Str) Bool} {i : Bool} (h : thrownAt P i = true) :
    ∃ e, P.procs i = .throw e := by
  unfold thrownAt at h
  split at h
  · rename_i e he
    exact ⟨e, he⟩
  · cases h

end Sample

/-- Two requests for one file: the one whose source is gone is left by an exception, and its metadata stays. -/
theorem send_leaves_meta : ∃ tr P', Exec Machine (fun _ w e => Unlinked w e.2) Sample.bothSend tr P' ∧
    (∃ e, P'.procs true = .throw e) ∧ Drew true (Sample.drawnId 0) tr ∧
    P'.state.fs.node
      (metaAt ((Sample.env Sample.noCodec).transfers Sample.world.fs.cwd).dir (Sample.drawnId 0)) ≠ none := by
  have h : (Pool.exec? Machine (fun _ e => Sample.unlinksFine e.2) { Sample.bothSend with state := Sample.world }
      (Sample.sendSteps true 0 9 ++ Sample.sendSteps false 1 14 ++ List.replicate 2 (true, Sample.calm))).map
        (fun x =>
          Sample.thrownAt x.2 true && (x.1.any fun e => decide (e.1 = true ∧ Ev.drawn e.2 = some (Sample.drawnId 0))) &&
          decide (x.2.state.fs.node
            (metaAt ((Sample.env Sample.noCodec).transfers Sample.world.fs.cwd).dir (Sample.drawnId 0))
            ≠ none)) = some true := by
    rw [Sample.world_eq]
    decide +kernel
  obtain ⟨⟨tr, P'⟩, hx, he⟩ := Option.map_eq_some_iff.1 h
  simp only [Bool.and_eq_true, decide_eq_true_eq] at he
  obtain ⟨⟨hthrow, hdrew⟩, hmeta⟩ := he
  obtain ⟨e, hem, hd⟩ := List.any_eq_true.1 hdrew
  exact ⟨tr, P', Pool.exec?_sound (fun _ _ hc => Sample.unlinksFine_sound hc) hx, Sample.thrownAt_sound hthrow,
    ⟨e, hem, of_decide_eq_true hd⟩, hmeta⟩

end OortAgent
