import OortAgent.Agent

/-!
# The cleanup (`Cleaner.cpp`)

A cleanup run over a directory lists the files that have not changed for a given time, removes the metadata among
them, and then the data among them whose metadata cannot be read.
-/

namespace OortAgent

open Lib

/-- The first pass of `Cleaner::cleanOldFiles`: old metadata is removed. -/
def cleanMetas : List Str → Prog Unit
  | [] => return ()
  | f :: flist => do
    if endsWith f META_EXT then
      let _ ← sys .cleanMeta (.unlink f)
      cleanMetas flist
    else cleanMetas flist

/-- The second pass: old data is removed if its metadata cannot be read. -/
def cleanOrphans : List Str → Prog Unit
  | [] => return ()
  | f :: flist => do
    if endsWith f DATA_EXT then
      let metaPath ← cut (metaFile f)
      match ← sys .cleanAccess (.access metaPath .R_OK) with
      | .ok _ => cleanOrphans flist
      | .error _ =>
        let _ ← sys .cleanData (.unlink f)
        cleanOrphans flist
    else cleanOrphans flist

/-- `Cleaner::cleanOldFiles`. -/
def cleanOldFiles (maxAge : Int) (dir : Str) : Prog Unit := do
  let flist ← oldFiles dir maxAge
  cleanMetas flist
  cleanOrphans flist

/-- The directories that the agent makes, and cleans. -/
def Env.allDirs (env : Env) : List Str := [env.transferDir, env.uploadDir, env.upgradeDir, env.deadletterDir]

/-- The loop of `Cleaner::doCleanup`. -/
def cleanDirs (maxAge : Int) : List Str → Prog Unit
  | [] => return ()
  | dir :: dirs => do
    cleanOldFiles maxAge dir
    cleanDirs maxAge dirs

/-- `Cleaner::doCleanup`. -/
def doCleanup (env : Env) (maxAge : Int) : Prog Unit := cleanDirs maxAge env.allDirs

/-- What the threads of the agent do to `transfers`: requests to send a file, and cleanup runs. -/
inductive Task
  | send (req : SendFileRequest)
  | clean

/-- The program of a task. -/
def Task.run (env : Env) (maxAge : Int) : Task → Prog (Option (Response Str))
  | .send req => do return some (← sendFile env req)
  | .clean => do
    cleanOldFiles maxAge env.transferDir
    return none

end OortAgent
