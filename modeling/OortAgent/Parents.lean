import OortAgent.MoveRun
import OortAgent.SendRun

/-!
# `dirname` and the directory a file is in

`dirname` cuts a path at its last slash. What is before it is handed to `access` and `statvfs` and becomes part of
the names of temporary files, so it should be a path of the directory that the file is in.

* `DirectoryOf`: a path of the directory that another path is an entry of.
* `sendFile_directory`, `moveFile_directories`: what `send_file` and `move_file` take for directories.
* `dirname_parent_iff`: `dirname` names the directory of an absolute path, unless the path is an entry of the root
  directory or ends with `.` or `..`.
* `dirname_of_root_entry`: for a file of the root directory it does not, and `send_file` refuses that file.
-/

namespace OortAgent

open Lib

/-- Where an absolute path leads, if the parts of a path are entered as `enter` says: it may follow symbolic links
and find nothing. -/
def follow {D : Type} (enter : D → Name → Option D) (root : D) (p : Str) : Option D := (comps p).foldlM enter root

/-- `q` is an absolute path of the directory that `p` is an entry of. -/
structure DirectoryOf (q p : Str) : Prop where
  absolute : q.head? = some '/'
  entry : ∀ cwd, ∃ n, norm cwd p = n :: norm cwd q
  there : ∀ (fs : FS) (l : Loc), fs.resolve p = .ok l → fs.resolve q = .ok l.tail ∧ fs.isDir l.tail = true
  linked : ∀ (D : Type) (enter : D → Name → Option D) (root : D),
    follow enter root p = (follow enter root q).bind fun d => enter d (tailname p)

/-- Every name made from the template is an entry of the directory that `p` is an entry of. -/
def Beside (tmpl p : Str) : Prop :=
  ∀ cwd pick, FS.Pick pick → ∃ n l, norm cwd (FS.fromTemplate tmpl pick) = n :: l ∧ ∃ m, norm cwd p = m :: l

/-- What depends on the directory of `p`: the check of `send_file`, the two calls of `statvfs`, and the temporary
names. -/
structure DirnameNames (p : Str) : Prop where
  parent : DirectoryOf (dirname p) p
  again : dirname p ++ '/' :: tailname p = p
  send : ∀ env req, req.filepath = p →
    (sendFile env req).Calls fun c : Call => c.site = .accessSrcDir → ∃ q, c.op = .access q .W_OK ∧ DirectoryOf q p
  source : ∀ env dest fi, (moveFile env p dest fi).Calls fun c : Call =>
    (c.site = .statvfsSrc → ∃ q, c.op = .statvfs q ∧ DirectoryOf q p) ∧
      (c.site = .mkdtemp → ∃ t, c.op = .mkdtemp t ∧ Beside t p)
  target : ∀ env src fi, (moveFile env src p fi).Calls fun c : Call =>
    (c.site = .statvfsDest → ∃ q, c.op = .statvfs q ∧ DirectoryOf q p) ∧
      (c.site = .mkstemp → ∃ t, c.op = .mkstemp t ∧ Beside t p)

/-! ## Paths -/

section Paths

variable {p d : Str} {n : Name} {cwd : Loc}

/-- A path below another one leads there by its last part. -/
theorem follow_child {D : Type} {enter : D → Name → Option D} {root : D} (hn : '/' ∉ n) :
    follow enter root (d ++ '/' :: n) = (follow enter root d).bind fun x => enter x n := by
  rw [follow, comps_append, comps_plain hn, List.foldlM_append]
  congr 1
  funext x
  simp

/-- An entry of a directory. -/
theorem directoryOf_child (hd : d.head? = some '/') (hn : Plain n) : DirectoryOf d (d ++ '/' :: n) := by
  have hne : d ≠ [] := by
    rintro rfl
    cases hd
  refine ⟨hd, fun cwd => ⟨n, norm_child hne hn⟩, fun fs l h => ?_, fun D enter root => ?_⟩
  · have hl : l = n :: norm fs.cwd d := (FS.resolve_norm h).trans (norm_child hne hn)
    rw [hl]
    exact FS.isDir_of_resolve_child hne hn h
  · rw [tailname_child hn.2.2.2]
    exact follow_child hn.2.2.2

/-- A name that is made in a directory. -/
theorem beside_child (hd : d ≠ []) (hn : Plain n) : Beside (moveTemplate d) (d ++ '/' :: n) := by
  intro cwd pick hpick
  refine ⟨"file_move_".toList ++ pick, norm cwd d, ?_, n, norm_child hd hn⟩
  rw [fromTemplate_moveTemplate]
  exact norm_child hd (picked_plain hpick)

/-- A path whose last part is `.` or `..` is not an entry of what is before it. -/
theorem not_directoryOf_dots (hn : n = ['.'] ∨ n = ['.', '.']) : ¬ DirectoryOf d (d ++ '/' :: n) := by
  intro h
  have hd : d ≠ [] := by
    rintro rfl
    cases h.absolute
  obtain ⟨m, hm⟩ := h.entry []
  have hslash : '/' ∉ n := by rcases hn with rfl | rfl <;> decide
  rw [Lib.norm, start_append hd, comps_append, walk_append, comps_plain hslash] at hm
  have hlen := congrArg List.length hm
  rw [List.length_cons, ← Lib.norm] at hlen
  rcases hn with rfl | rfl <;> simp [walk, enter] at hlen

/-- The last part of a path, read off its end. -/
theorem suffix_child {m : Name} (hn : '/' ∉ n) (hm : '/' ∉ m) : '/' :: m <:+ d ++ '/' :: n ↔ n = m := by
  constructor
  · rintro ⟨t, ht⟩
    rw [← tailname_child (d := d) hn, ← ht, tailname_child hm]
  · rintro rfl
    exact ⟨d, rfl⟩

end Paths

/-! ## The calls -/

/-- `send_file` takes what is before the last slash for the directory of the file. -/
theorem sendFile_directory {env : Env} {req : SendFileRequest} {C : Call → Prop}
    (hdir : C ⟨.accessSrcDir, .access (dirname req.filepath) .W_OK⟩) (h : ∀ s op, s ≠ .accessSrcDir → C ⟨s, op⟩) :
    (sendFile env req).Calls C := by
  have hcall : ∀ c : Call, c.site ≠ .accessSrcDir → C c := fun c hc => h c.site c.op hc
  have hmove : ∀ dest fi, (moveFile env req.filepath dest fi).Calls C := by
    intro dest fi
    refine moveFile_calls (fun op => h _ op (by decide)) (fun op => h _ op (by decide)) (fun op => h _ op (by decide))
      fun c hc => hcall c fun he => ?_
    have hsite := hc.site
    rw [he] at hsite
    revert hsite
    decide
  have hprep : ∀ id destmeta, (prepareSend env req id destmeta).Calls C := by
    intro id destmeta
    refine ((fileInfo_calls _).mono fun c hc => hcall c ?_).bind fun fi => calls_call.2 ⟨h _ _ (by decide), fun _ => ?_⟩
    · rw [hc.1]
      decide
    · have hmeta : ∀ s op, MetaSite s → C ⟨s, op⟩ := by
        refine fun s op hs => h s op ?_
        rintro rfl
        revert hs
        decide
      exact (writeTransferMeta_calls (fun _ _ _ => hmeta _ _) (fun _ _ hs _ => hmeta _ _ hs) (hmeta _ _ (by decide))
        (hmeta _ _ (by decide))).bind fun _ => trivial
  refine calls_call.2 ⟨h _ _ (by decide), fun rand => ?_⟩
  show Proc.Calls C (if ¬ checkPath req.filepath then _ else _ : Prog (Response Str))
  split
  · trivial
  refine calls_call.2 ⟨h _ _ (by decide), fun allowed => ?_⟩
  split
  · trivial
  refine calls_call.2 ⟨hdir, fun r => ?_⟩
  cases r with
  | error e => trivial
  | ok _ =>
    refine Proc.Calls.bind (Proc.Calls.handle ((hprep _ _).bind fun _ => trivial) fun e => ?_) fun res => ?_
    · split <;> trivial
    · cases res with
      | Bad_Request message => trivial
      | Ok fi =>
        refine Proc.Calls.handle ((hmove _ _).bind fun _ => trivial) fun e => ?_
        split
        · exact calls_call.2 ⟨h _ _ (by decide), fun _ => trivial⟩
        · trivial

/-- `move_file` takes what is before the last slashes of its two paths for their directories. -/
theorem moveFile_directories {env : Env} {src dest : Str} {fi : FileInfo} :
    (moveFile env src dest fi).Calls fun c : Call =>
    ((c.site = .statvfsSrc → c.op = .statvfs (dirname src)) ∧
      (c.site = .mkdtemp → c.op = .mkdtemp (moveTemplate (dirname src)))) ∧
    (c.site = .statvfsDest → c.op = .statvfs (dirname dest)) ∧
      (c.site = .mkstemp → c.op = .mkstemp (moveTemplate (dirname dest))) := by
  have hother : ∀ s : Site, s = .accessDest ∨ s = .precheck ∨ s = .rename → ∀ op : Op,
      ((s = .statvfsSrc → op = .statvfs (dirname src)) ∧ (s = .mkdtemp → op = .mkdtemp (moveTemplate (dirname src)))) ∧
      (s = .statvfsDest → op = .statvfs (dirname dest)) ∧
      (s = .mkstemp → op = .mkstemp (moveTemplate (dirname dest))) := by
    intro s hs op
    rcases hs with rfl | rfl | rfl <;> simp
  exact moveFile_calls (hother _ (.inl rfl)) (hother _ (.inr (.inl rfl))) (hother _ (.inr (.inr rfl)))
    fun c hc => ⟨⟨hc.source, hc.parking⟩, hc.target, hc.copy⟩

/-! ## The directory -/

/-- **`dirname` names the directory.** For an absolute path without a slash at its end, `dirname` gives an absolute
path of the directory that it is an entry of, and `send_file` and `move_file` refer to this directory, if and only
if the path is no entry of the root directory written with one slash and does not end with `.` or `..`. -/
theorem dirname_parent_iff {p : Str} (habs : p.head? = some '/') (hlast : p.getLast? ≠ some '/') :
    DirnameNames p ↔ '/' ∈ p.tail ∧ ¬ "/.".toList <:+ p ∧ ¬ "/..".toList <:+ p := by
  have hslash : '/' ∈ p := List.mem_of_mem_head? habs
  obtain ⟨d, n, hn, rfl⟩ : ∃ d n, '/' ∉ n ∧ p = d ++ '/' :: n :=
    ⟨dirname p, tailname p, slash_notMem_tailname p, dirname_tailname hslash⟩
  have hne : n ≠ [] := by
    rintro rfl
    exact hlast (by simp)
  have hone : "/.".toList <:+ d ++ '/' :: n ↔ n = ['.'] := suffix_child hn (by decide)
  have htwo : "/..".toList <:+ d ++ '/' :: n ↔ n = ['.', '.'] := suffix_child hn (by decide)
  rw [hone, htwo]
  constructor
  · intro h
    have hparent := h.parent
    rw [dirname_child hn] at hparent
    refine ⟨?_, fun hd => not_directoryOf_dots (.inl hd) hparent, fun hd => not_directoryOf_dots (.inr hd) hparent⟩
    cases d with
    | nil => cases hparent.absolute
    | cons c cs => simp
  · rintro ⟨htail, hdot, hdots⟩
    have hplain : Plain n := ⟨hne, hdot, hdots, hn⟩
    have hd : d ≠ [] := by
      rintro rfl
      exact hn htail
    have hdabs : d.head? = some '/' := by
      cases d with
      | nil => exact absurd rfl hd
      | cons c cs => exact habs
    have hdirectory : DirectoryOf d (d ++ '/' :: n) := directoryOf_child hdabs hplain
    have hbeside : Beside (moveTemplate d) (d ++ '/' :: n) := beside_child hd hplain
    constructor
    · rw [dirname_child hn]
      exact hdirectory
    · rw [dirname_child hn, tailname_child hn]
    · intro env req hreq
      refine sendFile_directory (fun _ => ?_) fun s op hs he => absurd he hs
      rw [hreq, dirname_child hn]
      exact ⟨d, rfl, hdirectory⟩
    · intro env dest fi
      refine moveFile_directories.mono fun c hc => ?_
      rw [dirname_child hn] at hc
      exact ⟨fun he => ⟨_, hc.1.1 he, hdirectory⟩, fun he => ⟨_, hc.1.2 he, hbeside⟩⟩
    · intro env src fi
      refine moveFile_directories.mono fun c hc => ?_
      rw [dirname_child hn] at hc
      exact ⟨fun he => ⟨_, hc.2.1 he, hdirectory⟩, fun he => ⟨_, hc.2.2 he, hbeside⟩⟩

/-- The path of a data file. -/
theorem dirname_parent_iff_nested : "/data/out/log.txt".toList.head? = some '/' ∧
    "/data/out/log.txt".toList.getLast? ≠ some '/' ∧ DirnameNames "/data/out/log.txt".toList :=
  ⟨by decide, by decide, (dirname_parent_iff (by decide) (by decide)).2 ⟨by decide, by decide, by decide⟩⟩

namespace Sample

/-- The file `/f`, in a root directory that may be written. -/
def rooted : World := { world with fs := fs.putFile "f".toList [] ⟨[104, 105], true, 0, 0⟩ }

/-- The request to send it. -/
def sendRooted : SendFileRequest := ⟨[], "/f".toList, "t".toList, {}⟩

end Sample

/-- A file of the root directory: `dirname` gives the empty text, and a request to send the file is refused,
although the root directory is writable. -/
theorem dirname_of_root_entry : "/f".toList.head? = some '/' ∧ "/f".toList.getLast? ≠ some '/' ∧
    dirname "/f".toList = [] ∧
    ¬ DirnameNames "/f".toList ∧ Sample.rooted.fs.pathAccess "/".toList .W_OK = .ok () ∧
    ∃ tr w', Run Machine (sendFile (Sample.env Sample.noCodec) Sample.sendRooted) Sample.rooted tr
      (.ret (.Bad_Request "Source directory not writable".toList)) w' := by
  refine ⟨by decide, by decide, by decide, fun h => ?_, by decide +kernel, ?_⟩
  · have habs := h.parent.absolute
    revert habs
    decide
  · have h : (exec? Machine (sendFile (Sample.env Sample.noCodec) Sample.sendRooted)
        ({ rand := List.replicate 16 0 } :: List.replicate 2 Sample.calm) Sample.rooted).map (fun x => x.2.1) =
        some (.ret (.Bad_Request "Source directory not writable".toList)) := by decide +kernel
    obtain ⟨⟨tr, o, w'⟩, hx, ho⟩ := Option.map_eq_some_iff.1 h
    obtain rfl : o = _ := ho
    exact ⟨tr, w', exec?_sound hx⟩

end OortAgent
