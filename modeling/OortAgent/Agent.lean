import OortAgent.Move

/-!
# The agent (`Agent.cpp`)

The requests of the SDK and of the collector as programs: `queryAvailable`, `sendFile`, `retrieveFile`,
`collectorInfo` and `metaRequest`, with what they use: the quarantine `endeaden`, `readTransferMeta`, `filesInfo`
and the metadata stream `sync_ofstream`. `serve` runs any of them.
-/

namespace OortAgent

open Lib

/-- The text of an exception (`e.what()`). -/
def Exn.what (env : Env) : Exn → Str
  | .system c what => what ++ ": ".toList ++ env.strerror c
  | .runtime _ what => what
  | .json what => what
  | .logic what => what

/-- The value of `errno` that a handler of the exception sees. -/
def Exn.errno : Exn → Errno
  | .system c _ => c
  | .runtime e _ => e
  | .json _ => .other 0
  | .logic _ => .other 0

/-- `meta_file`: the metadata file of a data file. -/
def metaFile (datafile : Str) : Option Str := (chop datafile DATA_EXT).map (· ++ META_EXT)

/-- `data_file`: the data file of a metadata file. -/
def dataFile (metafile : Str) : Option Str := (chop metafile META_EXT).map (· ++ DATA_EXT)

/-- A text that `substr` may have refused to cut. -/
def cut : Option Str → Prog Str
  | some s => return s
  | none => .throw (.logic "basic_string::substr".toList)

/-! ## Quarantine -/

/-- The pair of renames of `endeaden`; failures are only logged. -/
def endeadenPair (env : Env) (filepath twin : Str) : Prog Unit := do
  let _ ← sys .endeaden (.rename filepath (env.deadletterDir ++ '/' :: tailname filepath))
  let _ ← sys .endeadenTwin (.rename twin (env.deadletterDir ++ '/' :: tailname twin))
  return ()

/-- `Agent::endeaden`. -/
def endeaden (env : Env) (filepath : Str) : Prog Unit :=
  if ¬ (startsWith filepath env.transferDir ∨ startsWith filepath env.uploadDir ∨
    startsWith filepath env.upgradeDir) then
    return ()
  else if endsWith filepath META_EXT then do
    let twin ← cut (dataFile filepath)
    endeadenPair env filepath twin
  else if endsWith filepath DATA_EXT then do
    let twin ← cut (metaFile filepath)
    endeadenPair env filepath twin
  else return ()

/-! ## Metadata -/

/-- One round of reading a stream to its end: the text so far. An error while the parser reads comes out of it as
`ios_base::failure`, which is a `system_error`. -/
def readRound (s : Site) (h : Handle) (text : Bytes) : Prog (Bytes ⊕ Bytes) := do
  let (b, bad) ← sys s (.fill h text.length 8191)
  if bad then .throw (.system ioError "basic_filebuf::underflow error reading the file".toList)
  else if b.length < 8191 then return .inr (text ++ b)
  else return .inl (text ++ b)

/-- Read a stream to its end, a buffer at a time. -/
def readAll (env : Env) (s : Site) (h : Handle) : Prog Bytes := Proc.loop env.fuel (readRound s h) []

/-- `Agent::read_transfer_meta`. -/
def readTransferMeta (env : Env) (file : Str) : Prog TransferMeta := do
  match ← sys .readMeta (.openRead file) with
  | .error e =>
    endeaden env file
    .throw (.runtime e "error reading metadata".toList)
  | .ok h =>
    let text ← readAll env .readMeta h
    match env.codec.parse text with
    | some tm => return tm
    | none =>
      endeaden env file
      .throw (.runtime (.other 0) "error parsing metadata".toList)

/-- `Cache::get(key, fn)`. -/
def cacheGet (c : CacheId) (key : Str) (fn : Prog c.Val) : Prog c.Val := do
  let enabled ← sys .cache (.cacheEnabled c)
  if ¬ enabled then fn
  else
    sys .cache (.cacheLock c)
    (do
      match ← sys .cache (.cacheFind c key) with
      | .inl v => return v
      | .inr now =>
        let v ← fn
        match ← sys .cache (.cacheStore c key now v) with
        | some v => return v
        | none => .throw (.logic "unordered_map::at".toList) : Prog c.Val).ensure (sys .cache (.cacheUnlock c))

/-- `Agent::read_transfer_meta_cached`. -/
def readTransferMetaCached (env : Env) (file : Str) : Prog TransferMeta :=
  cacheGet .metainfo file (readTransferMeta env file)

/-- `Agent::transfer_meta`. -/
def transferMeta (env : Env) (req : SendFileRequest) (fi : FileInfo) (time : Int) : TransferMeta where
  metaVersion := env.apiVersion
  topic := req.topic
  destination := req.destination
  node := env.nodename
  time := wrap32 time
  fileInfo := fi
  sendOptions := req.options

/-! ## The files for a topic -/

/-- What one round of the loop of `files_info` does: go on at once, add a file, or handle an exception. -/
inductive Entry
  | skip
  | push (fi : FileInfo)
  | caught

/-- The `try` block of the loop of `files_info`. -/
def filesInfoEntry (env : Env) (dir topic : Str) (it : Name) : Prog Entry := do
  let tm ← readTransferMetaCached env (dir ++ '/' :: it)
  if tm.topic ≠ topic then return .skip
  else
    let data ← cut (dataFile (dir ++ '/' :: it))
    let fi ← fileInfo env .entryInfo data
    if tm.fileInfo.crc32 ≠ fi.crc32 then
      endeaden env (dir ++ '/' :: it)
      return .skip
    else return .push tm.fileInfo

/-- One round of the loop of `files_info`, with its handler. -/
def filesInfoRound (env : Env) (dir topic : Str) (it : Name) : Prog Entry :=
  (filesInfoEntry env dir topic it).handle fun e =>
    if e.isRuntime then do
      endeaden env (dir ++ '/' :: it)
      return .caught
    else .throw e

/-- The loop of `files_info` over the metadata files. -/
def filesInfoLoop (env : Env) (dir topic : Str) : List Name → List FileInfo → Prog (List FileInfo)
  | [], flist => return flist
  | it :: rest, flist => do
    match ← filesInfoRound env dir topic it with
    | .skip => filesInfoLoop env dir topic rest flist
    | .push fi =>
      if (flist ++ [fi]).length > env.maxQuery then return flist ++ [fi]
      else filesInfoLoop env dir topic rest (flist ++ [fi])
    | .caught => if flist.length > env.maxQuery then return flist else filesInfoLoop env dir topic rest flist

/-- `Agent::files_info`. -/
def filesInfo (env : Env) (dir topic : Str) : Prog (List FileInfo) := do
  let metaFiles ← cacheGet .metafile dir (listFiles .listFiles dir META_EXT)
  filesInfoLoop env dir topic metaFiles []

/-- `Agent::query_available`. -/
def queryAvailable (env : Env) (topic : Str) : Prog (Response AvailableFilesResponse) := do
  let files ← filesInfo env env.uploadDir topic
  if files.length > env.maxQuery then return .Ok { files := files.dropLast, overflow := some true }
  else return .Ok { files }

/-- `Agent::meta`. -/
def metaRequest (env : Env) (uuid : Str) : Prog (Response TransferMeta) :=
  (do
    let tm ← readTransferMetaCached env (env.transferDir ++ '/' :: (uuid ++ META_EXT))
    return .Ok tm : Prog (Response TransferMeta)).handle fun e =>
      if e.isRuntime then return .Bad_Request (e.what env) else .throw e

/-! ## Sending a file -/

/-- `Agent::checkTopic`: the topic matches `^[-_[:alnum:]]+$` and is allowed, if any topics are set. -/
def checkTopic (allowed : List Str) (topic : Str) : Bool :=
  decide (topic ≠ []) && topic.all (fun c => c.isAlphanum || decide (c = '-') || decide (c = '_')) &&
    (decide (allowed = []) || allowed.contains topic)

/-- The error of a call, which is in `errno` until another call fails. -/
def errorOf : Except Errno Unit → Option Errno
  | .error e => some e
  | .ok _ => none

/-- One round of the write loop of a stream: it goes on after a short write and gives up at an error. -/
def xwriteRound (s : Site) (fd : Ino) (rest : Bytes) : Prog (Bytes ⊕ Option Errno) := do
  if rest = [] then return .inr none
  else
    match ← sys s (.write fd rest) with
    | .error e => return .inr (some e)
    | .ok n => return .inl (rest.drop n)

/-- The write loop of a stream: the error of the write that failed, or everything is written. -/
def xwrite (s : Site) (fd : Ino) (text : Bytes) : Prog (Option Errno) :=
  Proc.loop (text.length + 1) (xwriteRound s fd) text

/-- `meta << text` on an open stream: a long text is written at once, a short one is kept for later. The text left in
the buffer, and the error if the stream failed. -/
def insertText (env : Env) (fd : Ino) (text : Bytes) : Prog (Bytes × Option Errno) := do
  if env.streamBuf ≤ text.length then
    let failed ← xwrite .insertMeta fd text
    return ([], failed)
  else return (text, none)

/-- The destructors of `sync_ofstream`: flush and `fsync`, then close, which flushes again what could not be
written. All errors are ignored; the last one is left in `errno`. -/
def closeStream (fd : Ino) (pending : Bytes) : Prog (Option Errno) := do
  let failed ← xwrite .flushMeta fd pending
  let synced ← sys .fsyncMeta (.fsync fd)
  if failed.isNone then
    let closed ← sys .closeMeta .close
    return errorOf closed <|> errorOf synced
  else
    let again ← xwrite .flushClose fd pending
    let closed ← sys .closeMeta .close
    return errorOf closed <|> again <|> errorOf synced <|> failed

/-- Write the metadata file through a `sync_ofstream`: the state of the stream is looked at once, before the destructors
run. The handler prints `errno`, which is that of the last call that failed. -/
def writeMeta (env : Env) (destmeta : Str) (text : Bytes) : Prog Unit := do
  match ← sys .openMeta (.openWrite destmeta) with
  | .error e =>
    let removed ← sys .unlinkBadMeta (.unlink destmeta)
    .throw (.runtime ((errorOf removed).getD e) "error writing metadata".toList)
  | .ok fd =>
    let (pending, failed) ← insertText env fd text
    match failed with
    | some e =>
      let removed ← sys .unlinkBadMeta (.unlink destmeta)
      let last ← closeStream fd pending
      .throw (.runtime ((last <|> errorOf removed).getD e) "error writing metadata".toList)
    | none =>
      let _ ← closeStream fd pending
      return ()

/-- What `json::dump` throws at a text that is not well-formed UTF-8. -/
def notUtf8 : Exn := .json "invalid UTF-8 byte".toList

/-- `to_jsonstr` throws while the metadata is written: the stream is open, and its destructors leave an empty file. -/
def abandonMeta (destmeta : Str) : Prog Unit := do
  match ← sys .openMeta (.openWrite destmeta) with
  | .error _ => .throw notUtf8
  | .ok fd =>
    let _ ← closeStream fd []
    .throw notUtf8

/-- `meta << to_jsonstr(tm)` on a new stream, and what follows it. -/
def writeTransferMeta (env : Env) (destmeta : Str) (tm : TransferMeta) : Prog Unit :=
  if tm.texts.all utf8 then writeMeta env destmeta (env.codec.dump tm) else abandonMeta destmeta

/-- The first `try` block of `send_file`: the file's information, and its metadata written. -/
def prepareSend (env : Env) (req : SendFileRequest) (id destmeta : Str) : Prog FileInfo := do
  let fi ← fileInfo env .sendInfo req.filepath
  let fi := { fi with id := id }
  let time ← sys .time .time
  writeTransferMeta env destmeta (transferMeta env req fi time)
  return fi

/-- The first `try` block with its handler. -/
def startSend (env : Env) (req : SendFileRequest) (id destmeta : Str) : Prog (Response FileInfo) :=
  (do
    let fi ← prepareSend env req id destmeta
    return .Ok fi : Prog (Response FileInfo)).handle fun e =>
      if e.isRuntime then
        return .Bad_Request
          ("Error getting info on ".toList ++ req.filepath ++ ": ".toList ++ env.strerror e.errno)
      else .throw e

/-- `send_file` from its second `try` block on. -/
def finishSend (env : Env) (req : SendFileRequest) (id dest destmeta : Str) (fi : FileInfo) : Prog (Response Str) :=
  (do
    moveFile env req.filepath dest fi
    return .Ok id : Prog (Response Str)).handle fun e =>
      if e.isSystem then do
        let _ ← sys .unlinkMeta (.unlink destmeta)
        return .Bad_Request (e.what env)
      else .throw e

/-- `mkUUID`. -/
def mkUUID : Prog Str := do
  let rand ← sys .mkUUID .urandom
  return uuidText rand

/-- `Agent::send_file`; the result is the id of the transfer. -/
def sendFile (env : Env) (req : SendFileRequest) : Prog (Response Str) := do
  let id ← mkUUID
  let dest := env.transferDir ++ '/' :: (id ++ DATA_EXT)
  let destmeta := env.transferDir ++ '/' :: (id ++ META_EXT)
  if ¬ checkPath req.filepath then
    return .Bad_Request ("File path ".toList ++ req.filepath ++ " is not absolute".toList)
  else
    let allowed ← sys .checkTopic .getTopics
    if ¬ checkTopic allowed req.topic then
      return .Bad_Request ("Topic ".toList ++ req.topic ++ " is not allowed".toList)
    else
      match ← sys .accessSrcDir (.access (dirname req.filepath) .W_OK) with
      | .error _ => return .Bad_Request "Source directory not writable".toList
      | .ok _ =>
        match ← startSend env req id destmeta with
        | .Bad_Request message => return .Bad_Request message
        | .Ok fi => finishSend env req id dest destmeta fi

/-! ## Retrieving a file -/

/-- The handlers of `retrieve_file`: a system error leaves the file alone, any other `runtime_error` quarantines it. -/
def retrieveCatch (env : Env) (srcfile : Str) (e : Exn) : Prog (Response FileInfo) :=
  if e.isSystem then return .Bad_Request (e.what env)
  else if e.isRuntime then do
    endeaden env srcfile
    return .Bad_Request (e.what env)
  else .throw e

/-- The `try` block of `retrieve_file` with its handlers. -/
def retrieveMove (env : Env) (srcfile srcMeta dest : Str) : Prog (Response FileInfo) :=
  (do
    let tm ← readTransferMetaCached env srcMeta
    moveFile env srcfile dest tm.fileInfo
    return .Ok tm.fileInfo : Prog (Response FileInfo)).handle (retrieveCatch env srcfile)

/-- `Agent::retrieve_file`. -/
def retrieveFile (env : Env) (req : RetrieveFileRequest) : Prog (Response FileInfo) := do
  let srcfile := env.uploadDir ++ '/' :: (req.id ++ DATA_EXT)
  let srcMeta := env.uploadDir ++ '/' :: (req.id ++ META_EXT)
  if ¬ checkPath req.savePath then
    return .Bad_Request ("Destination path ".toList ++ req.savePath ++ " is not absolute".toList)
  else
    match ← sys .accessMeta (.access srcMeta .R_OK) with
    | .error e => return .Bad_Request ("meta file unreadable for ".toList ++ req.id ++ ": ".toList ++ env.strerror e)
    | .ok _ =>
      match ← retrieveMove env srcfile srcMeta req.savePath with
      | .Bad_Request message => return .Bad_Request message
      | .Ok fi =>
        let _ ← sys .removeMeta (.unlink srcMeta)
        return .Ok fi

/-! ## Collector information -/

/-- `Agent::getSysinfo`. -/
def getSysinfo (env : Env) : Prog SystemInfo := do
  let vfs ← sys .sysinfo (.statvfs env.workdir)
  return { version := env.releaseVersion, build := env.buildVersion, diskfree := diskFree vfs.2,
           workdir := env.transferDir, uploads := env.uploadDir, agentUpgrades := env.upgradeDir,
           dead := env.deadletterDir, username := env.username, nodename := env.nodename, machine := env.machine }

/-- The topics of an `InfoRequest` replace the allowed ones, if they are set. -/
def replaceTopics : Option (List Str) → Prog Unit
  | some ts => sys .setTopics (.setTopics ts)
  | none => return ()

/-- `Agent::collector_info`. -/
def collectorInfo (env : Env) (req : InfoRequest) : Prog (Response InfoResponse) := do
  replaceTopics req.topics
  let sysinfo ← getSysinfo env
  let topics ← sys .getTopics .getTopics
  let files ← cacheGet .dir env.transferDir (fileNames env .fileNames env.transferDir)
  let dead ← cacheGet .dir env.deadletterDir (fileNames env .fileNames env.deadletterDir)
  return .Ok { sysinfo, topics, files, dead }

/-! ## Requests -/

/-- A request to the agent. -/
inductive Request
  | query (topic : Str)
  | send (req : SendFileRequest)
  | retrieve (req : RetrieveFileRequest)
  | info (req : InfoRequest)
  | metainfo (uuid : Str)

/-- Its response. -/
inductive Reply
  | query (r : Response AvailableFilesResponse)
  | send (r : Response Str)
  | retrieve (r : Response FileInfo)
  | info (r : Response InfoResponse)
  | metainfo (r : Response TransferMeta)
  deriving DecidableEq

/-- The program of a request. -/
def serve (env : Env) : Request → Prog Reply
  | .query topic => do return .query (← queryAvailable env topic)
  | .send req => do return .send (← sendFile env req)
  | .retrieve req => do return .retrieve (← retrieveFile env req)
  | .info req => do return .info (← collectorInfo env req)
  | .metainfo uuid => do return .metainfo (← metaRequest env uuid)

end OortAgent
