import OortAgent.Asked
import OortAgent.Lib.Mailbox

/-!
# The agent as a post office

What the agent is for: a file that is sent gets an id that nobody had, is carried from `transfers` to `uploads`, is
reported to those who ask for its topic, and is given away once. `Office` says this with a mailbox, and the requests
of the agent refine it as long as the runs are clean and the requests fair. What comes from a cache may be out of
date: it is about letters that there were.

* `Office.Step`: what may happen to the letters of a post office and to the files of its clients.
* `Performs`: an answered request of the agent, or the pair of an id moved from `transfers` to `uploads`.
* `houses_step`: what the agent performs, the post office may do.
-/

namespace OortAgent

open Lib

/-! ## The post office -/

/-- What is sent: the metadata and the bytes. -/
structure Letter where
  note : TransferMeta
  data : Bytes

/-- The metadata says what was asked for. -/
structure Letter.Describes (x : Letter) (req : SendFileRequest) (id : Str) : Prop where
  topic : x.note.topic = req.topic
  destination : x.note.destination = req.destination
  options : x.note.sendOptions = req.options
  id : x.note.fileInfo.id = id
  path : x.note.fileInfo.path = req.filepath
  size : x.note.fileInfo.size = wrap32 x.data.length
  crc : x.note.fileInfo.crc32 = crcText x.data

/-- The letters of a post office, a copy of each that was ever posted, and the files of its clients. -/
structure Office where
  box : Mailbox Str Letter
  archive : Str → Option Letter
  files : Loc → Option Bytes

/-- What happens: a request is answered, or a letter is carried to where it can be retrieved. -/
inductive Deed
  | request (req : Request) (reply : Reply)
  | deliver (id : Str)

/-- The information about the file of a letter. -/
def Office.info (o : Office) (id : Str) : Option FileInfo := (o.box.slot id).map fun x => x.2.note.fileInfo

/-- What may happen: paths lead to the files of the clients by `place`, a query reports `max` files, and some
answers may come from a cache. -/
inductive Office.Step (max : Nat) (cached : CacheId → Bool) (place : Str → Loc) : Steps Office Deed
  | sent {o : Office} {req : SendFileRequest} {id : Str} {x : Letter} : id ∉ o.box.used →
    o.files (place req.filepath) = some x.data → x.Describes req id →
    Step max cached place o (.request (.send req) (.send (.Ok id))) ⟨o.box.set id (some (.posted, x)),
      Function.update o.archive id (some x), Function.update o.files (place req.filepath) none⟩
  | delivered {o : Office} {id : Str} {x : Letter} : o.box.slot id = some (.posted, x) →
    Step max cached place o (.deliver id) ⟨o.box.set id (some (.delivered, x)), o.archive, o.files⟩
  | retrieved {o : Office} {req : RetrieveFileRequest} {x : Letter} : o.box.slot req.id = some (.delivered, x) →
    o.files (place req.savePath) = none →
    Step max cached place o (.request (.retrieve req) (.retrieve (.Ok x.note.fileInfo)))
      ⟨o.box.set req.id none, o.archive, Function.update o.files (place req.savePath) (some x.data)⟩
  | reported {o : Office} {topic : Str} {ids : List Str} : ids.Nodup →
    (∀ id ∈ ids, ∃ x, o.box.slot id = some (.delivered, x) ∧ x.note.topic = topic) →
    (cached .metafile = false → ∀ id x, o.box.slot id = some (.delivered, x) → x.note.topic = topic → id ∈ ids) →
    Step max cached place o (.request (.query topic) (.query (.Ok (report max (ids.filterMap o.info))))) o
  | shown {o : Office} {id : Str} {x : Letter} : o.archive id = some x →
    (cached .metainfo = false → o.box.slot id = some (.posted, x)) →
    Step max cached place o (.request (.metainfo id) (.metainfo (.Ok x.note))) o
  | unknown {o : Office} {id text : Str} : (∀ x, o.box.slot id ≠ some (.posted, x)) →
    Step max cached place o (.request (.metainfo id) (.metainfo (.Bad_Request text))) o
  | informed {o : Office} {req : InfoRequest} {info : InfoResponse} :
    (∀ id ext, '/' ∉ id → IsExt ext → id ++ ext ∈ info.files → o.archive id ≠ none) →
    (cached .dir = false → ∀ id ext, '/' ∉ id → IsExt ext →
      (id ++ ext ∈ info.files ↔ ∃ x, o.box.slot id = some (.posted, x))) →
    Step max cached place o (.request (.info req) (.info (.Ok info))) o
  | notSent {o : Office} {req : SendFileRequest} {text : Str} :
    Step max cached place o (.request (.send req) (.send (.Bad_Request text))) o
  | notRetrieved {o : Office} {req : RetrieveFileRequest} {text : Str} :
    Step max cached place o (.request (.retrieve req) (.retrieve (.Bad_Request text))) o

/-- Clients keep out of the working directory, do not save directly in the root directory, and ask for ids without
slashes. A file that is sent can be read. -/
def Request.Fair (env : Env) (fs : FS) : Request → Prop
  | .send req => Outside env fs.cwd req.filepath ∧
      ∀ k, fs.node (norm fs.cwd req.filepath) = some (.file k) → (fs.inode k).readable = true
  | .retrieve req => '/' ∉ req.id ∧ Outside env fs.cwd req.savePath ∧ dirname req.savePath ≠ []
  | .metainfo id => '/' ∉ id
  | .query _ => True
  | .info _ => True

/-- What the agent and the collector do: a fair request is answered in a clean run, or the two files of a pair are
moved from `transfers` to `uploads`. -/
inductive Performs (env : Env) : Steps World Deed
  | request {w w' : World} {tr : List Ev} {req : Request} {reply : Reply} :
    Run Machine (serve env req) w tr (.ret reply) w' →
    Along Machine Clean w tr → req.Fair env w.fs → Fits env w.fs → Performs env w (.request req reply) w'
  | deliver {w : World} {fs₁ fs₂ : FS} {id : Str} : '/' ∉ id →
    w.fs.pathRename (env.transferDir ++ '/' :: (id ++ DATA_EXT)) (env.uploadDir ++ '/' :: (id ++ DATA_EXT)) = .ok fs₁ →
    fs₁.pathRename (env.transferDir ++ '/' :: (id ++ META_EXT)) (env.uploadDir ++ '/' :: (id ++ META_EXT)) = .ok fs₂ →
    Performs env w (.deliver id) { w with fs := fs₂ }

/-- What is seen of a letter. -/
def Lies (env : Env) (fs : FS) (id : Str) : Option (Place × Letter) → Prop
  | none => NoPair fs (norm fs.cwd env.transferDir) id ∧ NoPair fs (norm fs.cwd env.uploadDir) id
  | some (.posted, x) => SoundPair env fs (norm fs.cwd env.transferDir) id x.note x.data ∧
    NoPair fs (norm fs.cwd env.uploadDir) id
  | some (.delivered, x) => NoPair fs (norm fs.cwd env.transferDir) id ∧
    SoundPair env fs (norm fs.cwd env.uploadDir) id x.note x.data

/-- What a cache has is about letters that there were. -/
def Recalls (env : Env) (archive : Str → Option Letter) : (c : CacheId) → Str → c.Val → Prop
  | .metainfo, key, tm => ∃ d id x, '/' ∉ id ∧ key = d ++ '/' :: (id ++ META_EXT) ∧ archive id = some x ∧ tm = x.note
  | .metafile, _, files => ∃ ts : List Str, files = ts.map (· ++ META_EXT) ∧ ts.Nodup ∧ ∀ t ∈ ts, archive t ≠ none
  | .dir, key, names => key = env.transferDir → ∀ id ext, '/' ∉ id → IsExt ext → id ++ ext ∈ names → archive id ≠ none

/-- The working directory holds the letters of the office, and the caches recall nothing else. -/
structure Houses (env : Env) (cached : CacheId → Bool) (cwd : Loc) (w : World) (o : Office) : Prop where
  wd : w.fs.cwd = cwd
  caches : ∀ c, (w.caches c).enabled = cached c
  recalls : ∀ c key v, w.Holds c key v → Recalls env o.archive c key v
  transfers : Open w.fs env.transferDir
  uploads : Open w.fs env.uploadDir
  slot : ∀ id, Lies env w.fs id (o.box.slot id)
  archived : ∀ id p x, o.box.slot id = some (p, x) → o.archive id = some x
  named : ∀ id, o.archive id ≠ none → id ≠ [] ∧ '/' ∉ id ∧ '.' ∉ id
  filed : ∀ id, o.archive id ≠ none → id ∈ w.uuids
  used : ∀ id ∈ o.box.used, id ∈ w.uuids
  files : ∀ l, ¬ env.home cwd <:+ l → o.files l = w.fs.text l

section Frames

variable {env : Env} {fs fs' : FS} {D : Loc} {id : Str} {tm : TransferMeta} {data : Bytes} {d : Str}

/-- A pair is what is seen at its names. -/
theorem SoundPair.congr (h : SoundPair env fs D id tm data)
    (hl : ∀ ext, IsExt ext → fs'.look ((id ++ ext) :: D) = fs.look ((id ++ ext) :: D)) :
    SoundPair env fs' D id tm data := by
  obtain ⟨text, htext, hparse⟩ := h.note
  exact ⟨⟨text, (hl META_EXT (.inl rfl)).trans htext, hparse⟩, (hl DATA_EXT (.inr rfl)).trans h.file, h.crc⟩

theorem SoundPair.there (h : SoundPair env fs D id tm data) {ext : Str} (hx : IsExt ext) :
    ∃ k, fs.node ((id ++ ext) :: D) = some (.file k) := by
  obtain ⟨text, htext, -⟩ := h.note
  rcases hx with rfl | rfl
  · obtain ⟨k, hk, -⟩ := FS.look_eq_file.1 htext
    exact ⟨k, hk⟩
  · obtain ⟨k, hk, -⟩ := FS.look_eq_file.1 h.file
    exact ⟨k, hk⟩

theorem NoPair.not_sound (h : NoPair fs D id) : ¬ SoundPair env fs D id tm data := fun hP => by
  obtain ⟨k, hk⟩ := hP.there (.inl rfl)
  rw [h.node (.inl rfl)] at hk
  cases hk

theorem NoPair.congr (h : NoPair fs D id)
    (hl : ∀ ext, IsExt ext → fs'.look ((id ++ ext) :: D) = fs.look ((id ++ ext) :: D)) :
    NoPair fs' D id := fun ext hx => (hl ext hx).trans (h ext hx)

theorem Lies.congr {s : Option (Place × Letter)} (h : Lies env fs id s) (hc : fs'.cwd = fs.cwd)
    (hl : ∀ ext, IsExt ext → ∀ d, d = env.transferDir ∨ d = env.uploadDir →
      fs'.look ((id ++ ext) :: norm fs.cwd d) = fs.look ((id ++ ext) :: norm fs.cwd d)) : Lies env fs' id s := by
  have hT : ∀ ext, IsExt ext → _ := fun ext hx => hl ext hx _ (.inl rfl)
  have hU : ∀ ext, IsExt ext → _ := fun ext hx => hl ext hx _ (.inr rfl)
  unfold Lies at h ⊢
  rw [hc]
  split
  · exact ⟨h.1.congr hT, h.2.congr hU⟩
  · exact ⟨h.1.congr hT, h.2.congr hU⟩
  · exact ⟨h.1.congr hT, h.2.congr hU⟩

/-- A directory stays as it is where directories look as before. -/
theorem Open.congr (h : Open fs d) (hc : fs'.cwd = fs.cwd) (hl : ∀ l, fs.isDir l = true → fs'.look l = fs.look l) :
    Open fs' d := by
  refine ⟨?_, ?_⟩
  · rw [hc]
    exact FS.resolve_mono (fun l hd => by rw [FS.isDir_of_look (hl l hd)]; exact hd) hc h.resolve
  · have hw := h.writable
    obtain ⟨v, b, hv⟩ := FS.isDir_iff.1 (FS.isDir_of_writable hw)
    rw [FS.writable, hv] at hw
    have hb : b = true := hw
    rw [hc]
    exact FS.writable_eq_look (v := v) (by rw [hl _ (FS.isDir_of_writable h.writable), FS.look_eq_dir, hv, hb])

theorem Open.there {w : World} (h : Open w.fs env.transferDir) : (env.transfers w.fs.cwd).There w.fs :=
  FS.isDir_ways h.resolve (FS.isDir_of_writable h.writable)

/-- The names of pairs are in the working directory. -/
theorem home_suffix {cwd : Loc} {n : Name} : env.home cwd <:+ n :: norm cwd env.transferDir ∧
    env.home cwd <:+ n :: norm cwd env.uploadDir := by
  rw [norm_transferDir, norm_uploadDir]
  exact ⟨⟨[n, "transfers".toList], rfl⟩, [n, "uploads".toList], rfl⟩

theorem transfers_ne_uploads {cwd : Loc} : norm cwd env.transferDir ≠ norm cwd env.uploadDir := by
  rw [norm_transferDir, norm_uploadDir]
  simp

theorem text_congr {l : Loc} (h : fs'.look l = fs.look l) : fs'.text l = fs.text l := by
  rw [FS.text, FS.text, h]

end Frames

/-- The names of a pair have no dot in front. -/
theorem head_name {id ext : Str} (h : id ≠ [] ∧ '/' ∉ id ∧ '.' ∉ id) : (id ++ ext).head? ≠ some '.' := by
  obtain ⟨hne, -, hdot⟩ := h
  cases id with
  | nil => exact absurd rfl hne
  | cons c id =>
    rintro hc
    cases hc
    exact hdot List.mem_cons_self

/-- What a listing matches. -/
theorem mem_stems {names : List Name} {fs : FS} {D : Loc}
    (hperm : names.Perm (['.'] :: ['.', '.'] :: fs.children D)) {t : Str} :
    t ∈ stems names ↔ (t ++ META_EXT).head? ≠ some '.' ∧ fs.node ((t ++ META_EXT) :: D) ≠ none := by
  refine ⟨(stems_listed hperm).2 t, ?_⟩
  rintro ⟨hdot, hn⟩
  have hmem : t ++ META_EXT ∈ (stems names).map (· ++ META_EXT) := by
    rw [stems_map, List.mem_filter, hperm.mem_iff]
    refine ⟨List.mem_cons_of_mem _ (List.mem_cons_of_mem _ (FS.mem_children.2 hn)), ?_⟩
    rw [Bool.and_eq_true]
    exact ⟨decide_eq_true hdot, endsWith_iff.2 ⟨t, rfl⟩⟩
  obtain ⟨t', ht', he⟩ := List.mem_map.1 hmem
  rwa [← List.append_cancel_right he]

/-! ## One request at a time -/

section Requests

variable {env : Env} {cached : CacheId → Bool} {cwd : Loc} {w w' : World} {tr : List Ev} {o : Office} {id : Str}

/-- An id that was not drawn has no letter. -/
theorem Houses.fresh (h : Houses env cached cwd w o) (hid : id ∉ w.uuids) :
    id ∉ o.box.used ∧ o.box.slot id = none ∧ o.archive id = none := by
  have hu : id ∉ o.box.used := fun hin => hid (h.used id hin)
  refine ⟨hu, ?_, ?_⟩
  · by_contra hne
    exact hu (o.box.known id hne)
  · by_contra hne
    exact hid (h.filed id hne)

/-- What is recalled goes on to be so when letters are added. -/
theorem Recalls.mono {archive archive' : Str → Option Letter} {c : CacheId} {key : Str} {v : c.Val}
    (h : Recalls env archive c key v)
    (ha : ∀ id x, archive id = some x → archive' id = some x) : Recalls env archive' c key v := by
  have hne : ∀ {id : Str}, archive id ≠ none → archive' id ≠ none := by
    intro id hid
    obtain ⟨x, hx⟩ := Option.ne_none_iff_exists'.1 hid
    rw [ha id x hx]
    simp
  cases c with
  | metainfo =>
    obtain ⟨d, id, x, hid, hkey, hx, hv⟩ := h
    exact ⟨d, id, x, hid, hkey, ha _ _ hx, hv⟩
  | metafile =>
    obtain ⟨ts, hv, hnodup, hts⟩ := h
    exact ⟨ts, hv, hnodup, fun t ht => hne (hts t ht)⟩
  | dir => exact fun hkey id ext hid hext hin => hne (h hkey id ext hid hext hin)

/-- A letter that is posted, and one that is delivered. -/
theorem Houses.posted (h : Houses env cached cwd w o) {x : Letter} (hs : o.box.slot id = some (.posted, x)) :
    SoundPair env w.fs (norm w.fs.cwd env.transferDir) id x.note x.data ∧
      NoPair w.fs (norm w.fs.cwd env.uploadDir) id := by
  have := h.slot id
  rwa [hs] at this

theorem Houses.delivered (h : Houses env cached cwd w o) {x : Letter} (hs : o.box.slot id = some (.delivered, x)) :
    NoPair w.fs (norm w.fs.cwd env.transferDir) id ∧
      SoundPair env w.fs (norm w.fs.cwd env.uploadDir) id x.note x.data := by
  have := h.slot id
  rwa [hs] at this

/-- Something of the id in `transfers` or in `uploads` is a letter there. -/
theorem Houses.in_transfers (h : Houses env cached cwd w o) {ext : Str} (hx : IsExt ext)
    (hn : w.fs.node ((id ++ ext) :: norm w.fs.cwd env.transferDir) ≠ none) :
    ∃ x, o.box.slot id = some (.posted, x) := by
  have hs := h.slot id
  rcases hsl : o.box.slot id with _ | ⟨_ | _, x⟩
  · rw [hsl] at hs
    exact absurd (hs.1.node hx) hn
  · exact ⟨x, rfl⟩
  · exact absurd ((h.delivered hsl).1.node hx) hn

theorem Houses.in_uploads (h : Houses env cached cwd w o) {ext : Str} (hx : IsExt ext)
    (hn : w.fs.node ((id ++ ext) :: norm w.fs.cwd env.uploadDir) ≠ none) :
    ∃ x, o.box.slot id = some (.delivered, x) := by
  have hs := h.slot id
  rcases hsl : o.box.slot id with _ | ⟨_ | _, x⟩
  · rw [hsl] at hs
    exact absurd (hs.2.node hx) hn
  · exact absurd ((h.posted hsl).2.node hx) hn
  · exact ⟨x, rfl⟩

/-- What the cache has for a letter is its metadata. -/
theorem Houses.held (h : Houses env cached cwd w o) {p : Place} {x : Letter} (hs : o.box.slot id = some (p, x))
    {d : Str} {tm : TransferMeta}
    (hv : w.Holds .metainfo (d ++ '/' :: (id ++ META_EXT)) tm) : tm = x.note := by
  have hx := h.archived id p x hs
  obtain ⟨d', id', x', hid', hkey, hx', rfl⟩ := h.recalls _ _ _ hv
  obtain ⟨-, rfl⟩ := metaPath_inj (h.named id (by rw [hx]; simp)).2.1 hid' hkey
  rw [hx] at hx'
  cases hx'
  rfl

/-- In `transfers` and in `uploads` there are whole pairs. -/
theorem Houses.whole (h : Houses env cached cwd w o) (id : Str) : WholePair env w env.transferDir id ∧
    WholePair env w env.uploadDir id := by
  have hs := h.slot id
  rcases hsl : o.box.slot id with _ | ⟨_ | _, x⟩
  · rw [hsl] at hs
    exact ⟨.inl hs.1, .inl hs.2⟩
  · obtain ⟨hP, hno⟩ := h.posted hsl
    exact ⟨.inr ⟨_, _, hP, fun tm hv => h.held hsl hv⟩, .inl hno⟩
  · obtain ⟨hno, hP⟩ := h.delivered hsl
    exact ⟨.inl hno, .inr ⟨_, _, hP, fun tm hv => h.held hsl hv⟩⟩

/-- In `uploads` there is a whole pair of an id where there is metadata. -/
theorem Houses.known_in_uploads (h : Houses env cached cwd w o)
    (hn : w.fs.node (metaAt (norm w.fs.cwd env.uploadDir) id) ≠ none) :
    ∃ tm data, KnownPair env w env.uploadDir id tm data := by
  obtain hno | hP := (h.whole id).2
  · exact absurd (hno.node (.inl rfl)) hn
  · exact hP

/-- What the caches learn now is about letters. -/
theorem Houses.current (h : Houses env cached cwd w o) {c : CacheId} {key : Str} {v : c.Val}
    (hv : Current env w.fs c key v) :
    Recalls env o.archive c key v := by
  have hne : ∀ {id : Str} {p : Place} {x : Letter}, o.box.slot id = some (p, x) → o.archive id ≠ none := by
    intro id p x hx
    rw [h.archived id p x hx]
    simp
  cases c with
  | metainfo =>
    obtain ⟨d, id, data, hd, hid, hkey, hP⟩ := hv
    obtain ⟨k, hk⟩ := hP.there (.inl rfl)
    have hthere : w.fs.node ((id ++ META_EXT) :: norm w.fs.cwd d) ≠ none := by rw [hk]; simp
    refine ⟨d, id, ?_⟩
    rcases hd with rfl | rfl
    · obtain ⟨x, hx⟩ := h.in_transfers (.inl rfl) hthere
      exact ⟨x, hid, hkey, h.archived _ _ _ hx, (hP.unique (h.posted hx).1).1⟩
    · obtain ⟨x, hx⟩ := h.in_uploads (.inl rfl) hthere
      exact ⟨x, hid, hkey, h.archived _ _ _ hx, (hP.unique (h.delivered hx).2).1⟩
  | metafile =>
    obtain ⟨-, names, hperm, rfl⟩ := hv
    refine ⟨stems names, rfl, (stems_listed hperm).1, fun t ht => ?_⟩
    obtain ⟨x, hx⟩ := h.in_uploads (.inl rfl) ((stems_listed hperm).2 t ht).2
    exact hne hx
  | dir =>
    rintro rfl id ext hid hext hin
    obtain ⟨D, hD, hnames⟩ := hv
    cases h.transfers.resolve.symm.trans hD
    obtain ⟨-, k, hk⟩ := (hnames _ (hext.plain hid)).1 hin
    obtain ⟨x, hx⟩ := h.in_transfers hext (by rw [hk]; simp)
    exact hne hx

theorem Houses.learns (h : Houses env cached cwd w o) (hL : Learns (Current env w.fs) w w') {c : CacheId}
    {key : Str} {v : c.Val}
    (hv : w'.Holds c key v) : Recalls env o.archive c key v := by
  obtain hv | ⟨-, hv⟩ := hL.holds c key v hv
  · exact h.recalls c key v hv
  · exact h.current hv

/-- Where everything looks the same, nothing has happened. -/
theorem Houses.same (h : Houses env cached cwd w o) (hL : Learns (Current env w.fs) w w')
    (hlook : w'.fs.look = w.fs.look) :
    Houses env cached cwd w' o where
  wd := hL.cwd.trans h.wd
  caches c := (hL.enabled c).trans (h.caches c)
  recalls _ _ _ hv := h.learns hL hv
  transfers := h.transfers.congr hL.cwd fun l _ => congrFun hlook l
  uploads := h.uploads.congr hL.cwd fun l _ => congrFun hlook l
  slot i := (h.slot i).congr hL.cwd fun _ _ _ _ => congrFun hlook _
  archived := h.archived
  named := h.named
  filed i hi := by
    rw [hL.uuids]
    exact h.filed i hi
  used i hi := by
    rw [hL.uuids]
    exact h.used i hi
  files l hl := (h.files l hl).trans (text_congr (congrFun hlook l)).symm

/-- An id that was drawn and not used. -/
theorem Houses.drawn (h : Houses env cached cwd w o) : Houses env cached cwd { w with uuids := id :: w.uuids } o :=
  { h with
    filed := fun i hi => List.mem_cons_of_mem _ (h.filed i hi)
    used := fun i hi => List.mem_cons_of_mem _ (h.used i hi) }

/-- The metadata that `send_file` makes describes the letter. -/
theorem transferMeta_describes {req : SendFileRequest} {y : Inode} {time : Int} :
    Letter.Describes ⟨transferMeta env req { infoOf req.filepath y with id := id } time, y.data⟩ req id := by
  constructor <;> simp [transferMeta, infoOf]

/-- A file that is sent. -/
theorem houses_send {req : SendFileRequest} {r : Response Str} (hJ : env.codec.Inverse) (hH : Houses env cached cwd w o)
    (h : Run Machine (sendFile env req) w tr (.ret r) w') (ha : Along Machine Clean w tr)
    (hfair : (Request.send req).Fair env w.fs)
    (hfit : Fits env w.fs) :
    ∃ o', Office.Step env.maxQuery cached (norm cwd) o (.request (.send req) (.send r)) o' ∧
      Houses env cached cwd w' o' := by
  obtain ⟨hout, hread⟩ := hfair
  have hlegal : Legal env w.fs (norm w.fs.cwd req.filepath) := fun k hk => ⟨hread k hk, hfit _ _ hk⟩
  -- a request that is answered has written its metadata, if it came to that
  have hspeaks : MetaSpeaks env req tr := ((run_sendFile_reply h (by simp)).1 ⟨r, rfl⟩).2.2.2
  obtain ⟨id, hid, hne, hslash, hdot, hof, hend⟩ :=
    run_sendFile_calm h ha hH.transfers.there hH.transfers.writable hlegal hspeaks
  obtain ⟨hunused, hnone, hnew⟩ := hH.fresh hid
  have hL : Learns (Current env w.fs) { w with uuids := id :: w.uuids } w' := hof.learns
  have hids : ∀ i, i = id ∨ i ∈ w.uuids → i ∈ w'.uuids := by
    rw [hL.uuids]
    exact fun i hi => List.mem_cons.2 hi
  obtain ⟨k, time, ho, -, htexts, hk, hm, hd, hlook⟩ | ⟨⟨text, ho⟩, -, hlook⟩ := hend
  swap
  · cases ho
    exact ⟨o, .notSent, hH.drawn.same hL hlook⟩
  cases ho
  have hcwd := hH.wd
  subst hcwd
  have hc : w'.fs.cwd = w.fs.cwd := hL.cwd
  change w.fs.node (metaAt (norm w.fs.cwd env.transferDir) id) = none at hm
  change w.fs.node (dataAt (norm w.fs.cwd env.transferDir) id) = none at hd
  change w'.fs.look = sentLook w.fs (norm w.fs.cwd req.filepath) (dataAt (norm w.fs.cwd env.transferDir) id)
    (metaAt (norm w.fs.cwd env.transferDir) id) _ at hlook
  obtain ⟨-, hfree⟩ : NoPair w.fs (norm w.fs.cwd env.transferDir) id ∧
      NoPair w.fs (norm w.fs.cwd env.uploadDir) id := by
    have := hH.slot id
    rwa [hnone] at this
  set x : Letter :=
    ⟨transferMeta env req { infoOf req.filepath (w.fs.inode k) with id := id } time, (w.fs.inode k).data⟩ with hx
  -- the file is none of the names of pairs, and these keep what they show but for the new ones
  have hinside : ∀ {n : Name} {d : Str}, d = env.transferDir ∨ d = env.uploadDir →
      n :: norm w.fs.cwd d ≠ norm w.fs.cwd req.filepath := by
    rintro n d hd' e
    refine hout ?_
    rw [← e]
    rcases hd' with rfl | rfl
    · exact home_suffix.1
    · exact home_suffix.2
  have hkeep : ∀ {l : Loc}, l ≠ dataAt (norm w.fs.cwd env.transferDir) id →
      l ≠ metaAt (norm w.fs.cwd env.transferDir) id →
      l ≠ norm w.fs.cwd req.filepath → w'.fs.look l = w.fs.look l := by
    intro l h₁ h₂ h₃
    rw [hlook]
    exact (if_neg h₁).trans ((if_neg h₂).trans (if_neg h₃))
  have hdirs : ∀ l, w.fs.isDir l = true → w'.fs.look l = w.fs.look l := by
    intro l hl
    refine hkeep ?_ ?_ ?_
    all_goals
      rintro rfl
      simp [FS.isDir, hk, hm, hd] at hl
  have hup : ∀ {n : Name} {t ext : Str}, n :: norm w.fs.cwd env.uploadDir ≠ (t ++ ext) ::
      norm w.fs.cwd env.transferDir :=
    fun e => transfers_ne_uploads (List.cons.inj e).2.symm
  -- the archive has the letters that it had, and the new one
  have hkept : ∀ i y, o.archive i = some y → Function.update o.archive id (some x) i = some y := by
    intro i y hy
    have hi : i ≠ id := by
      rintro rfl
      cases hnew.symm.trans hy
    rw [Function.update_of_ne hi, hy]
  have harchive : ∀ i, Function.update o.archive id (some x) i ≠ none → i = id ∨ i ≠ id ∧ o.archive i ≠ none := by
    intro i hi
    by_cases e : i = id
    · exact .inl e
    · rw [Function.update_of_ne e] at hi
      exact .inr ⟨e, hi⟩
  refine ⟨_, .sent (x := x) hunused ?_ ?_, hc, fun c => (hL.enabled c).trans (hH.caches c),
    fun c key v hv => (hH.drawn.learns hL hv).mono hkept, hH.transfers.congr hc hdirs, hH.uploads.congr hc hdirs,
    fun j => ?_,
    fun j p y hs => ?_, fun j hj => ?_, fun j hj => ?_, fun j hj => ?_, fun l hl => ?_⟩
  · rw [hH.files _ hout, FS.text_eq_some, FS.look_file hk, hread k hk]
  · exact transferMeta_describes
  · by_cases hj : j = id
    · subst hj
      rw [Mailbox.slot_set]
      have hsound : SoundPair env w'.fs (norm w.fs.cwd env.transferDir) j x.note x.data := by
        refine ⟨⟨env.codec.dump x.note, ?_, hJ _ htexts⟩, ?_, rfl⟩
        · rw [hlook]
          exact (if_neg metaAt_ne_dataAt).trans (if_pos rfl)
        · rw [hlook, sentLook, if_pos rfl, FS.look_file hk, hread k hk]
      have hno : NoPair w'.fs (norm w.fs.cwd env.uploadDir) j :=
        hfree.congr fun ext _ => hkeep hup hup (hinside (.inr rfl))
      show _ ∧ _
      rw [hc]
      exact ⟨hsound, hno⟩
    · rw [Mailbox.slot_set_ne hj]
      refine (hH.slot j).congr hc fun ext hext d hd' => hkeep ?_ ?_ (hinside hd')
      · intro e
        exact hj (pair_inj hext (.inr rfl) (List.cons.inj e).1).1
      · intro e
        exact hj (pair_inj hext (.inl rfl) (List.cons.inj e).1).1
  · by_cases h' : j = id
    · subst h'
      rw [Mailbox.slot_set] at hs
      obtain ⟨-, he⟩ := Prod.mk.inj (Option.some.inj hs)
      rw [← he]
      exact Function.update_self ..
    · rw [Mailbox.slot_set_ne h'] at hs
      exact hkept _ _ (hH.archived j p y hs)
  · obtain rfl | ⟨-, hj⟩ := harchive j hj
    · exact ⟨hne, hslash, hdot⟩
    · exact hH.named j hj
  · exact hids j ((harchive j hj).imp_right fun hj => hH.filed j hj.2)
  · exact hids j ((Mailbox.mem_used_set.1 hj).imp_right (hH.used j))
  · have hpair : ∀ {t ext : Str}, l ≠ (t ++ ext) :: norm w.fs.cwd env.transferDir := by
      rintro t ext rfl
      exact hl home_suffix.1
    by_cases hla : l = norm w.fs.cwd req.filepath
    · subst hla
      have hgone : w'.fs.look (norm w.fs.cwd req.filepath) = none := by
        rw [hlook]
        exact (if_neg hpair).trans ((if_neg hpair).trans (if_pos rfl))
      rw [FS.text, hgone]
      exact Function.update_self ..
    · rw [text_congr (hkeep hpair hpair hla), ← hH.files l hl]
      exact Function.update_of_ne hla ..

/-- A file that is retrieved. -/
theorem houses_retrieve {req : RetrieveFileRequest} {r : Response FileInfo} (hH : Houses env cached cwd w o)
    (h : Run Machine (retrieveFile env req) w tr (.ret r) w') (ha : Along Machine Clean w tr)
    (hfair : (Request.retrieve req).Fair env w.fs) (hfit : Fits env w.fs) :
    ∃ o', Office.Step env.maxQuery cached (norm cwd) o (.request (.retrieve req) (.retrieve r)) o' ∧
      Houses env cached cwd w' o' := by
  obtain ⟨hslash, hout, hroot⟩ := hfair
  obtain ⟨hL, hend⟩ := run_retrieveFile_calm h ha hH.uploads hslash hH.known_in_uploads hfit hroot
  obtain ⟨tm, data, ho, hP, hfree, -, hlook⟩ | ⟨⟨text, ho⟩, -, hlook⟩ := hend
  swap
  · cases ho
    exact ⟨o, .notRetrieved, hH.same hL hlook⟩
  cases ho
  have hcwd := hH.wd
  subst hcwd
  obtain ⟨km, hkm⟩ := hP.there (.inl rfl)
  obtain ⟨kd, hkd⟩ := hP.there (.inr rfl)
  obtain ⟨x, hs⟩ : ∃ x, o.box.slot req.id = some (.delivered, x) := hH.in_uploads (.inl rfl) (by rw [hkm]; simp)
  obtain ⟨rfl, rfl⟩ := hP.unique (hH.delivered hs).2
  have hnone := (hH.delivered hs).1
  have hb : ∀ {n : Name} {d : Str}, d = env.transferDir ∨ d = env.uploadDir →
      n :: norm w.fs.cwd d ≠ norm w.fs.cwd req.savePath := by
    rintro n d hd' e
    refine hout ?_
    rw [← e]
    rcases hd' with rfl | rfl
    · exact home_suffix.1
    · exact home_suffix.2
  have hkeep : ∀ {l : Loc}, l ≠ norm w.fs.cwd req.savePath → l ≠ dataAt (norm w.fs.cwd env.uploadDir) req.id →
      l ≠ metaAt (norm w.fs.cwd env.uploadDir) req.id → w'.fs.look l = w.fs.look l := by
    intro l h₁ h₂ h₃
    rw [hlook]
    exact (if_neg h₁).trans (if_neg (not_or.2 ⟨h₂, h₃⟩))
  have hdirs : ∀ l, w.fs.isDir l = true → w'.fs.look l = w.fs.look l := by
    intro l hl
    refine hkeep ?_ ?_ ?_
    · rintro rfl
      simp [FS.isDir, hfree] at hl
    · rintro rfl
      simp [FS.isDir, dataAt, hkd] at hl
    · rintro rfl
      simp [FS.isDir, metaAt, hkm] at hl
  have hup : ∀ {n : Name} {t ext : Str}, n :: norm w.fs.cwd env.transferDir ≠ (t ++ ext) ::
      norm w.fs.cwd env.uploadDir :=
    fun e => transfers_ne_uploads (List.cons.inj e).2
  have hc := hL.cwd
  refine ⟨_, .retrieved hs ?_, hc, fun c => (hL.enabled c).trans (hH.caches c), fun c key v hv => hH.learns hL hv,
    hH.transfers.congr hc hdirs, hH.uploads.congr hc hdirs, fun j => ?_, fun j p y hj => ?_, hH.named, fun j hj => ?_,
    fun j hj => ?_, fun l hl => ?_⟩
  · rw [hH.files _ hout, FS.text, FS.look_eq_none.2 hfree]
    rfl
  · by_cases hj : j = req.id
    · subst hj
      rw [Mailbox.slot_set]
      show _ ∧ _
      rw [hc]
      refine ⟨hnone.congr fun ext _ => hkeep (hb (.inl rfl)) hup hup, fun ext hext => ?_⟩
      rw [hlook]
      refine (if_neg (hb (.inr rfl))).trans (if_pos ?_)
      rcases hext with rfl | rfl
      · exact .inr rfl
      · exact .inl rfl
    · rw [Mailbox.slot_set_ne hj]
      refine (hH.slot j).congr hc fun ext hext d hd' => hkeep (hb hd') ?_ ?_
      · intro e
        exact hj (pair_inj hext (.inr rfl) (List.cons.inj e).1).1
      · intro e
        exact hj (pair_inj hext (.inl rfl) (List.cons.inj e).1).1
  · by_cases h' : j = req.id
    · subst h'
      rw [Mailbox.slot_set] at hj
      cases hj
    · rw [Mailbox.slot_set_ne h'] at hj
      exact hH.archived j p y hj
  · rw [hL.uuids]
    exact hH.filed j hj
  · rw [hL.uuids]
    obtain rfl | hj := Mailbox.mem_used_set.1 hj
    · exact hH.used _ (o.box.known _ (by rw [hs]; simp))
    · exact hH.used j hj
  · have hpair : ∀ {t ext : Str}, l ≠ (t ++ ext) :: norm w.fs.cwd env.uploadDir := by
      rintro t ext rfl
      exact hl home_suffix.2
    by_cases hlb : l = norm w.fs.cwd req.savePath
    · subst hlb
      have hthere : w'.fs.text (norm w.fs.cwd req.savePath) = some x.data := by
        rw [FS.text_eq_some, hlook]
        exact (if_pos rfl).trans hP.file
      rw [hthere]
      exact Function.update_self ..
    · rw [text_congr (hkeep hlb hpair hpair), ← hH.files l hl]
      exact Function.update_of_ne hlb ..

/-- A pair that is moved. -/
theorem houses_deliver {fs₁ fs₂ : FS} (hH : Houses env cached cwd w o) (hslash : '/' ∉ id)
    (hdata : w.fs.pathRename (env.transferDir ++ '/' :: (id ++ DATA_EXT)) (env.uploadDir ++ '/' :: (id ++ DATA_EXT)) =
      .ok fs₁)
    (hmeta : fs₁.pathRename (env.transferDir ++ '/' :: (id ++ META_EXT)) (env.uploadDir ++ '/' :: (id ++ META_EXT)) =
      .ok fs₂) :
    ∃ o', Office.Step env.maxQuery cached (norm cwd) o (.deliver id) o' ∧
      Houses env cached cwd { w with fs := fs₂ } o' := by
  have hcwd := hH.wd
  subst hcwd
  have hpath : ∀ {c : Loc} {e : Str}, IsExt e → norm c (env.transferDir ++ '/' :: (id ++ e)) =
      (id ++ e) :: norm c env.transferDir ∧
      norm c (env.uploadDir ++ '/' :: (id ++ e)) = (id ++ e) :: norm c env.uploadDir := fun he =>
    ⟨norm_child transferDir_ne_nil (he.plain hslash), norm_child uploadDir_ne_nil (he.plain hslash)⟩
  obtain ⟨-, -, hr₁⟩ := FS.pathRename_ok hdata
  rw [(hpath (.inr rfl)).1, (hpath (.inr rfl)).2] at hr₁
  have hc₁ := FS.rename_cwd hr₁
  obtain ⟨-, -, hr₂⟩ := FS.pathRename_ok hmeta
  rw [(hpath (.inl rfl)).1, (hpath (.inl rfl)).2, hc₁] at hr₂
  have hc : fs₂.cwd = w.fs.cwd := (FS.rename_cwd hr₂).trans hc₁
  obtain ⟨x, hx⟩ := hH.in_transfers (.inr rfl) (FS.rename_src hr₁)
  obtain ⟨hP, hno⟩ := hH.posted hx
  obtain ⟨kd, hkd⟩ := hP.there (.inr rfl)
  obtain ⟨km, hkm⟩ := hP.there (.inl rfl)
  have hTU : ∀ {n m : Name}, n :: norm w.fs.cwd env.transferDir ≠ m :: norm w.fs.cwd env.uploadDir :=
    fun e => transfers_ne_uploads (List.cons.inj e).2
  -- what is seen after one rename, and after both
  have hlook₁ : ∀ {l : Loc}, fs₁.look l = w.fs.renamedLook _ _ l := fun {l} => congrFun (FS.look_rename hr₁ hkd) l
  have hext : id ++ META_EXT ≠ id ++ DATA_EXT := fun e => ext_ne e
  have hkm₁ : fs₁.node ((id ++ META_EXT) :: norm w.fs.cwd env.transferDir) = some (.file km) := by
    rw [(FS.rename_file hr₁ hkd).1, if_neg hTU, if_neg fun e => hext (List.cons.inj e).1, hkm]
  have hlook : ∀ {l : Loc}, fs₂.look l = fs₁.renamedLook _ _ l := fun {l} => congrFun (FS.look_rename hr₂ hkm₁) l
  have hkeep : ∀ {l : Loc}, (∀ e, IsExt e → l ≠ (id ++ e) :: norm w.fs.cwd env.transferDir ∧
      l ≠ (id ++ e) :: norm w.fs.cwd env.uploadDir) → fs₂.look l = w.fs.look l := by
    intro l hl
    rw [hlook]
    refine (if_neg (hl _ (.inl rfl)).2).trans ((if_neg (hl _ (.inl rfl)).1).trans ?_)
    rw [hlook₁]
    exact (if_neg (hl _ (.inr rfl)).2).trans (if_neg (hl _ (.inr rfl)).1)
  have hgone : NoPair fs₂ (norm w.fs.cwd env.transferDir) id := by
    intro e he
    rw [hlook]
    refine (if_neg hTU).trans ?_
    rcases he with rfl | rfl
    · exact if_pos rfl
    · refine (if_neg fun e => hext (List.cons.inj e).1.symm).trans ?_
      rw [hlook₁]
      exact (if_neg hTU).trans (if_pos rfl)
  have hmoved : ∀ e, IsExt e → fs₂.look ((id ++ e) :: norm w.fs.cwd env.uploadDir) =
      w.fs.look ((id ++ e) :: norm w.fs.cwd env.transferDir) := by
    intro e he
    rw [hlook]
    rcases he with rfl | rfl
    · refine (if_pos rfl).trans ?_
      rw [hlook₁]
      exact (if_neg hTU).trans (if_neg fun e => hext (List.cons.inj e).1)
    · refine (if_neg fun e => hext (List.cons.inj e).1.symm).trans ((if_neg hTU.symm).trans ?_)
      rw [hlook₁]
      exact if_pos rfl
  have hdirs : ∀ l, w.fs.isDir l = true → fs₂.look l = w.fs.look l := by
    intro l hl
    refine hkeep fun e he => ⟨?_, ?_⟩
    · rintro rfl
      obtain ⟨k, hk⟩ := hP.there he
      simp [FS.isDir, hk] at hl
    · rintro rfl
      simp [FS.isDir, hno.node he] at hl
  refine ⟨_, .delivered hx, hc, hH.caches, hH.recalls, hH.transfers.congr hc hdirs, hH.uploads.congr hc hdirs,
    fun j => ?_,
    fun j p y hj => ?_, hH.named, hH.filed, fun j hj => ?_, fun l hl => ?_⟩
  · by_cases hj : j = id
    · subst hj
      rw [Mailbox.slot_set]
      show _ ∧ _
      rw [hc]
      obtain ⟨text, htext, hparse⟩ := hP.note
      exact ⟨hgone, ⟨text, (hmoved _ (.inl rfl)).trans htext, hparse⟩, (hmoved _ (.inr rfl)).trans hP.file, hP.crc⟩
    · rw [Mailbox.slot_set_ne hj]
      refine (hH.slot j).congr hc fun ext hext d _ => hkeep fun e he => ⟨?_, ?_⟩
      · intro e'
        exact hj (pair_inj hext he (List.cons.inj e').1).1
      · intro e'
        exact hj (pair_inj hext he (List.cons.inj e').1).1
  · by_cases h' : j = id
    · subst h'
      rw [Mailbox.slot_set] at hj
      cases hj
      exact hH.archived j _ x hx
    · rw [Mailbox.slot_set_ne h'] at hj
      exact hH.archived j p y hj
  · obtain rfl | hj := Mailbox.mem_used_set.1 hj
    · exact hH.used _ (o.box.known _ (by rw [hx]; simp))
    · exact hH.used j hj
  · refine (hH.files l hl).trans (text_congr (hkeep fun e _ => ⟨?_, ?_⟩)).symm
    · rintro rfl
      exact hl home_suffix.1
    · rintro rfl
      exact hl home_suffix.2

/-- What a query goes through are letters that there were. -/
theorem Houses.browsed (hH : Houses env cached cwd w o) {ts : List Str} (hts : Browsed env w ts) :
    ts.Nodup ∧ ∀ t ∈ ts, o.archive t ≠ none := by
  have hrecall : ∀ {files : List Name}, Recalls env o.archive .metafile env.uploadDir files →
      files = ts.map (· ++ META_EXT) →
      ts.Nodup ∧ ∀ t ∈ ts, o.archive t ≠ none := by
    rintro files ⟨ts', rfl, hnodup, hts'⟩ he
    obtain rfl : ts' = ts := (List.append_left_injective META_EXT).list_map he
    exact ⟨hnodup, hts'⟩
  obtain ⟨-, hv⟩ | ⟨names, hperm, rfl⟩ := hts
  · exact hrecall (hH.recalls _ _ _ hv) rfl
  · exact hrecall (hH.current ⟨rfl, names, hperm, rfl⟩) rfl

theorem Houses.allWhole (hH : Houses env cached cwd w o) {ts : List Str} (hts : Browsed env w ts) :
    AllWhole env w ts := fun t ht =>
  ⟨(hH.named t ((hH.browsed hts).2 t ht)).2.1, (hH.whole t).2⟩

/-- What the cache has are names of metadata. -/
theorem Houses.held_names (hH : Houses env cached cwd w o) {files : List Name}
    (hv : w.Holds .metafile env.uploadDir files) :
    ∃ ts : List Str, files = ts.map (· ++ META_EXT) := by
  obtain ⟨ts, hts, -⟩ := hH.recalls _ _ _ hv
  exact ⟨ts, hts⟩

/-- A query. -/
theorem houses_query {topic : Str} {r : Response AvailableFilesResponse} (hH : Houses env cached cwd w o)
    (h : Run Machine (queryAvailable env topic) w tr (.ret r) w') (ha : Along Machine Clean w tr)
    (hfit : Fits env w.fs) :
    ∃ o', Office.Step env.maxQuery cached (norm cwd) o (.request (.query topic) (.query r)) o' ∧
      Houses env cached cwd w' o' := by
  obtain ⟨hfs, hL, ts, hts, ho⟩ := run_queryAvailable_calm h ha hH.uploads hfit (fun _ hv => hH.held_names hv)
    fun _ => hH.allWhole
  cases ho
  -- the entries with the topic
  have hdel : ∀ {t : Str} {x : Letter}, o.box.slot t = some (.delivered, x) →
      appraise env w.fs topic t = if x.note.topic ≠ topic then .other else .good x.note.fileInfo := fun hx =>
    (hH.delivered hx).2.appraise
  have happ : ∀ t, ((appraise env w.fs topic t).file?).isSome ↔ ∃ x, o.box.slot t = some (.delivered, x) ∧
      x.note.topic = topic := by
    intro t
    obtain hno | ⟨tm, data, hP⟩ := (hH.whole t).2
    · rw [hno.appraise]
      refine ⟨fun h => (by cases h), ?_⟩
      rintro ⟨x, hx, -⟩
      exact absurd (hH.delivered hx).2 hno.not_sound
    · obtain ⟨k, hk⟩ := hP.sound.there (.inl rfl)
      obtain ⟨x, hx⟩ := hH.in_uploads (.inl rfl) (by rw [hk]; simp)
      rw [hdel hx]
      split_ifs with htopic
      · refine ⟨fun h => (by cases h), ?_⟩
        rintro ⟨y, hy, he⟩
        rw [hx] at hy
        cases hy
        exact absurd he htopic
      · exact ⟨fun _ => ⟨x, hx, not_not.1 htopic⟩, fun _ => rfl⟩
  have hfound : found env w.fs topic ts =
      (ts.filter fun t => ((appraise env w.fs topic t).file?).isSome).filterMap o.info := by
    rw [List.filterMap_filter, found]
    refine List.filterMap_congr fun t ht => ?_
    by_cases hs : ((appraise env w.fs topic t).file?).isSome
    · obtain ⟨x, hx, htopic⟩ := (happ t).1 hs
      rw [if_pos hs, Office.info, hx, hdel hx, if_neg (not_not.2 htopic)]
      rfl
    · rw [if_neg hs]
      simpa using hs
  refine ⟨o, ?_, hH.same hL (by rw [hfs])⟩
  rw [hfound]
  refine .reported ((hH.browsed hts).1.filter _) (fun t ht => (happ t).1 (List.mem_filter.1 ht).2)
    fun hoff t x hx htopic => ?_
  refine List.mem_filter.2 ⟨?_, (happ t).2 ⟨x, hx, htopic⟩⟩
  -- without a cache the listing is up to date
  obtain ⟨hen, -⟩ | ⟨names, hperm, rfl⟩ := hts
  · rw [hH.caches, hoff] at hen
    cases hen
  · obtain ⟨k, hk⟩ := (hH.delivered hx).2.there (.inl rfl)
    have hne : o.archive t ≠ none := by
      rw [hH.archived _ _ _ hx]
      simp
    refine (mem_stems hperm).2 ⟨head_name (hH.named t hne), ?_⟩
    show w.fs.node ((t ++ META_EXT) :: norm w.fs.cwd env.uploadDir) ≠ none
    rw [hk]
    simp

/-- A request for metadata. -/
theorem houses_meta {r : Response TransferMeta} (hH : Houses env cached cwd w o)
    (h : Run Machine (metaRequest env id) w tr (.ret r) w')
    (ha : Along Machine Clean w tr) (hslash : '/' ∉ id) (hfit : Fits env w.fs) :
    ∃ o', Office.Step env.maxQuery cached (norm cwd) o (.request (.metainfo id) (.metainfo r)) o' ∧
      Houses env cached cwd w' o' := by
  obtain ⟨hfs, hL, hend⟩ := run_metaRequest_calm h ha hH.transfers hslash hfit (hH.whole id).1
  refine ⟨o, ?_, hH.same hL (by rw [hfs])⟩
  obtain ⟨tm, data, ho, hP⟩ | ⟨hen, tm, ho, hv⟩ | ⟨⟨text, ho⟩, hno⟩ := hend
  · cases ho
    obtain ⟨k, hk⟩ := hP.there (.inl rfl)
    obtain ⟨x, hx⟩ : ∃ x, o.box.slot id = some (.posted, x) := hH.in_transfers (.inl rfl) (by rw [hk]; simp)
    obtain ⟨rfl, -⟩ := hP.unique (hH.posted hx).1
    exact .shown (hH.archived _ _ _ hx) fun _ => hx
  · cases ho
    obtain ⟨d', id', x, hid', hkey, hx, rfl⟩ := hH.recalls _ _ _ hv
    obtain ⟨-, rfl⟩ := metaPath_inj hslash hid' hkey
    refine .shown hx fun hoff => ?_
    rw [hH.caches, hoff] at hen
    cases hen
  · cases ho
    exact .unknown fun x hx => hno.not_sound (hH.posted hx).1

/-- Information for the collector. -/
theorem houses_info {req : InfoRequest} {r : Response InfoResponse} (hH : Houses env cached cwd w o)
    (h : Run Machine (collectorInfo env req) w tr (.ret r) w') (ha : Along Machine Clean w tr) :
    ∃ o', Office.Step env.maxQuery cached (norm cwd) o (.request (.info req) (.info r)) o' ∧
      Houses env cached cwd w' o' := by
  obtain ⟨hfs, hL, info, rfl, hinfo⟩ := run_collectorInfo_calm h ha
  refine ⟨o, .informed ?_ fun hoff id ext hslash hext => ?_, hH.same hL (by rw [hfs])⟩
  · obtain hinfo | ⟨-, hv⟩ := hinfo
    · exact hH.current hinfo rfl
    · exact hH.recalls _ _ _ hv rfl
  obtain ⟨D, hD, hnames⟩ | ⟨hen, -⟩ := hinfo
  swap
  · rw [hH.caches, hoff] at hen
    cases hen
  cases hH.transfers.resolve.symm.trans hD
  rw [hnames _ (hext.plain hslash)]
  refine ⟨?_, ?_⟩
  · rintro ⟨-, k, hk⟩
    exact hH.in_transfers hext (by rw [hk]; simp)
  · rintro ⟨x, hx⟩
    have hne : o.archive id ≠ none := by
      rw [hH.archived _ _ _ hx]
      simp
    exact ⟨head_name (hH.named id hne), (hH.posted hx).1.there hext⟩

/-- Whatever the agent performs, the post office may do. -/
theorem houses_step (hJ : env.codec.Inverse) {d : Deed} (hH : Houses env cached cwd w o) (h : Performs env w d w') :
    ∃ o', Office.Step env.maxQuery cached (norm cwd) o d o' ∧ Houses env cached cwd w' o' := by
  cases h with
  | deliver hslash hdata hmeta => exact houses_deliver hH hslash hdata hmeta
  | @request _ _ tr req reply h ha hfair hfit =>
    -- the request and the answer that it is wrapped in
    have hwrap : ∀ {α : Type} {p : Prog α} (f : α → Reply),
        Run Machine (p.bind fun a => .ret (f a)) w tr (.ret reply) w' →
        ∃ a tr₁, reply = f a ∧ Run Machine p w tr₁ (.ret a) w' ∧ Along Machine Clean w tr₁ := by
      intro α p f h
      obtain ⟨a, w₁, tr₁, tr₂, h₁, h₂, rfl⟩ := run_bind_ret.1 h
      obtain ⟨-, hr, rfl⟩ := run_ret.1 h₂
      cases hr
      exact ⟨a, tr₁, rfl, h₁, (h₁.along.1 ha).1⟩
    cases req with
    | query topic =>
      obtain ⟨r, tr₁, rfl, h₁, ha₁⟩ := hwrap Reply.query h
      exact houses_query hH h₁ ha₁ hfit
    | send sreq =>
      obtain ⟨r, tr₁, rfl, h₁, ha₁⟩ := hwrap Reply.send h
      exact houses_send hJ hH h₁ ha₁ hfair hfit
    | retrieve rreq =>
      obtain ⟨r, tr₁, rfl, h₁, ha₁⟩ := hwrap Reply.retrieve h
      exact houses_retrieve hH h₁ ha₁ hfair hfit
    | info ireq =>
      obtain ⟨r, tr₁, rfl, h₁, ha₁⟩ := hwrap Reply.info h
      exact houses_info hH h₁ ha₁
    | metainfo id =>
      obtain ⟨r, tr₁, rfl, h₁, ha₁⟩ := hwrap Reply.metainfo h
      exact houses_meta hH h₁ ha₁ hfair hfit

end Requests

end OortAgent
