import OortAgent.Sys
import OortAgent.Text

/-!
# File utilities (`Files.cpp`, `getCrc`)

The programs that look at files: `getCrc` reads a file in blocks of 1024 bytes, `fileInfo` builds a `FileInfo` from
`stat` and `getCrc`, `listFiles` and `fileNames` list a directory. `Env` holds the configuration of an agent and the
parameters of the model.
-/

namespace OortAgent

open Lib

/-- An agent's configuration, the build constants, the JSON library, and two parameters of the model: the number of
characters from which a stream writes at once instead of buffering (`streamBuf`), and the bound on the rounds of loops
that read a file to its end (`fuel`). -/
structure Env where
  workdir : Str
  nodename : Str := []
  machine : Str := []
  username : Str := []
  releaseVersion : Str := []
  buildVersion : Str := []
  apiVersion : Str := []
  strerror : Errno → Str := fun _ => []
  minFreeDisk : Int := -1
  minFreePct : Int := -1
  maxQuery : Nat := 50
  codec : Codec
  streamBuf : Nat := 1024
  fuel : Nat

namespace Env

/-- The directory of files to send. -/
def transferDir (env : Env) : Str := env.workdir ++ "/transfers".toList

/-- The directory of received files. -/
def uploadDir (env : Env) : Str := env.workdir ++ "/uploads".toList

/-- The directory of upgrades. -/
def upgradeDir (env : Env) : Str := env.workdir ++ "/upgrades".toList

/-- The dead-letter directory. -/
def deadletterDir (env : Env) : Str := env.workdir ++ "/dead".toList

end Env

/-- One round of the loop of `getCrc`: the offset and the checksum so far. -/
def crcRound (s : Site) (h : Handle) : Nat × Nat → Prog (Nat × Nat ⊕ Nat)
  | (off, crc) => do
    let (b, bad) ← sys s (.fill h off 1024)
    let crc := crc32 crc b
    if bad ∨ b.length < 1024 then return .inr crc else return .inl (off + b.length, crc)

/-- `getCrc`: a file that cannot be opened, or only in part be read, has the checksum of what was read. -/
def getCrc (env : Env) (s : Site) (file : Str) : Prog Str := do
  match ← sys s (.openRead file) with
  | .error _ => return hex8 (crc32 0 [])
  | .ok h =>
    let crc ← Proc.loop env.fuel (crcRound s h) (0, 0)
    return hex8 crc

/-- `Files::file_stat`. -/
def fileStat (env : Env) (s : Site) (file : Str) : Prog Stat := do
  match ← sys s (.stat file) with
  | .error e => .throw (.runtime e ("stat error: ".toList ++ env.strerror e))
  | .ok buf =>
    if buf.isReg then return buf
    else .throw (.runtime (.other 0) ("stat error: ".toList ++ file ++ " is not a regular file".toList))

/-- `Files::file_info`. -/
def fileInfo (env : Env) (s : Site) (file : Str) : Prog FileInfo := do
  let buf ← fileStat env s file
  let crc ← getCrc env s file
  return { id := tailname file, path := file, created := wrap32 buf.ctime, modified := wrap32 buf.mtime,
           size := wrap32 buf.size, crc32 := crc }

/-- `Files::list_files`: no dotfiles, and only files with the extension if one is given. -/
def listFiles (s : Site) (dir ext : Str) : Prog (List Name) := do
  match ← sys s (.readdir dir) with
  | .error e => .throw (.system e "opendir".toList)
  | .ok names => return names.filter fun n => decide (n.head? ≠ some '.') && (decide (ext = []) || endsWith n ext)

/-- The files among the names that `fileStat` accepts. -/
def statNames (env : Env) (s : Site) (dir : Str) : List Name → Prog (List Name)
  | [] => return []
  | f :: files => do
    let here ← (do let _ ← fileStat env s (dir ++ '/' :: f); return [f]).handle fun e =>
      if e.isRuntime then return [] else .throw e
    let rest ← statNames env s dir files
    return here ++ rest

/-- `Files::file_names`. -/
def fileNames (env : Env) (s : Site) (dir : Str) : Prog (List Name) := do
  let files ← listFiles s dir []
  statNames env s dir files

/-- The loop of `Files::oldFiles`: no dotfiles, and errors of `stat` are ignored. -/
def oldFilesLoop (dir : Str) (limit : Int) : List Name → Prog (List Str)
  | [] => return []
  | n :: names => do
    if n.head? = some '.' then oldFilesLoop dir limit names
    else
      match ← sys .cleanStat (.stat (dir ++ '/' :: n)) with
      | .error _ => oldFilesLoop dir limit names
      | .ok buf =>
        let rest ← oldFilesLoop dir limit names
        if buf.mtime < limit then return (dir ++ '/' :: n) :: rest else return rest

/-- `Files::oldFiles`. The result of `opendir` is not looked at. -/
def oldFiles (dir : Str) (age : Int) : Prog (List Str) := do
  let now ← sys .cleanTime .time
  match ← sys .cleanList (.readdir dir) with
  | .error _ => .stop .crash
  | .ok names => oldFilesLoop dir (wrap32 (wrap32 now - age)) names

/-- `Files::checkPath`: the path is absolute. -/
def checkPath (path : Str) : Bool := decide (path.head? = some '/')

end OortAgent
