import OortAgent.Files

/-!
# Moving a file (`Agent::move_file`)

A rename where that is possible; across devices a copy: the source is parked in a temporary directory beside it
(`copyAcross`), copied block by block into a temporary file beside the destination and checked (`copyParked`), and the
temporary file is renamed. If the part after the parking throws, the source is put back.
-/

namespace OortAgent

open Lib

/-- `Agent::diskFree`: `unsigned long` arithmetic, read as `int64_t`. -/
def diskFree (vfs : Vfs) : Int := wrap64 (vfs.f_frsize * vfs.f_bavail)

/-- `Agent::diskSize`. -/
def diskSize (vfs : Vfs) : Int := wrap64 (vfs.f_frsize * vfs.f_blocks)

/-- `Agent::checkDiskFree(sz, vfs)`. The megabytes are multiplied as `int`, the percentage as `int64_t`. -/
def checkDiskFree (env : Env) (sz : Int) (vfs : Vfs) : Bool :=
  let needed := if env.minFreeDisk > 0 then wrap64 (sz + wrap32 (wrap32 (env.minFreeDisk * 1024) * 1024)) else sz
  let needed := if env.minFreePct > 0 then
    max needed (wrap64 (sz + (wrap64 (env.minFreePct * diskSize vfs)).tdiv 100)) else needed
  decide (diskFree vfs ≥ needed)

/-- `int blksize = min(srcvfs.f_bsize, destvfs.f_bsize)`. -/
def blockSize (srcvfs destvfs : Vfs) : Int := wrap32 (min srcvfs.f_bsize destvfs.f_bsize)

/-- The name that the parked source gets in its temporary directory. -/
def parkedName (tmpdir : Str) : Str := tmpdir ++ "/file_move".toList

/-- The template of a temporary name in a directory. -/
def moveTemplate (dir : Str) : Str := dir ++ "/file_move_XXXXXX".toList

/-- One round of the copy loop, at an offset: it ends at the end of the file or at a read error, and goes on after a
short or failed write. -/
def copyRound (srcfd : Handle) (destfd : Ino) (blksize : Nat) (off : Nat) : Prog (Nat ⊕ Unit) := do
  match ← sys .copyRead (.read srcfd off blksize) with
  | .error _ => return .inr ()
  | .ok [] => return .inr ()
  | .ok (b :: bs) =>
    let _ ← sys .copyWrite (.write destfd (b :: bs))
    return .inl (off + (b :: bs).length)

/-- The copy loop. -/
def copyBlocks (env : Env) (srcfd : Handle) (destfd : Ino) (blksize : Nat) : Prog Unit :=
  Proc.loop env.fuel (copyRound srcfd destfd blksize) 0

/-- The end of the `try` block of `move_file`: no outcome is looked at. -/
def publishCopy (tmpdir dest dtname : Str) : Prog Unit := do
  let _ ← sys .publish (.rename dtname dest)
  let _ ← sys .unlinkParked (.unlink (parkedName tmpdir))
  let _ ← sys .rmdirParked (.rmdir tmpdir)
  return ()

/-- The `try` block of `move_file` from the opening of the parked source on. -/
def copyInto (env : Env) (tmpdir dest : Str) (fi : FileInfo) (blksize : Int) (dtname : Str) (destfd : Ino) :
    Prog Unit := do
  match ← sys .openParked (.openRead (parkedName tmpdir)) with
  | .error e => .throw (.system e "open error (xdev)".toList)
  | .ok srcfd =>
    -- `vector<char> buffer(blksize)`
    if blksize < 0 then .throw (.logic "cannot create std::vector larger than max_size()".toList)
    else
      copyBlocks env srcfd destfd blksize.toNat
      let _ ← sys .closeSrc .close
      let _ ← sys .fsyncDest (.fsync destfd)
      let _ ← sys .closeDest .close
      let destfi ← fileInfo env .verify dtname
      if destfi.crc32 ≠ fi.crc32 then
        .throw (.runtime (.other 0) "move_file: CRC Check failed on written file".toList)
      else publishCopy tmpdir dest dtname

/-- The body of the `try` block of `move_file`. -/
def copyParked (env : Env) (tmpdir dest : Str) (fi : FileInfo) (blksize : Int) : Prog Unit := do
  match ← sys .mkstemp (.mkstemp (moveTemplate (dirname dest))) with
  | .error e => .throw (.system e "mkstemp error (xdev)".toList)
  | .ok (dtname, destfd) => copyInto env tmpdir dest fi blksize dtname destfd

/-- The handler of the `try` block: put the source back, and throw again. -/
def undoPark (src tmpdir : Str) (e : Exn) : Prog Unit := do
  let _ ← sys .undo (.rename (parkedName tmpdir) src)
  let _ ← sys .rmdirUndo (.rmdir tmpdir)
  .throw e

/-- The branch of `move_file` for different devices, once there is a temporary directory. -/
def parkAndCopy (env : Env) (src dest : Str) (fi : FileInfo) (blksize : Int) (tmpdir : Str) : Prog Unit := do
  match ← sys .park (.rename src (parkedName tmpdir)) with
  | .error e => .throw (.system e "rename error (xdev)".toList)
  | .ok _ => (copyParked env tmpdir dest fi blksize).handle (undoPark src tmpdir)

/-- The branch of `move_file` for different devices. The structs that `statvfs` fills are not initialized, and its
status is not looked at. A failed `mkdtemp` returns a null pointer, and the check of its first character
dereferences it. -/
def copyAcross (env : Env) (src dest : Str) (fi : FileInfo) : Prog Unit := do
  let srcvfs ← sys .statvfsSrc (.statvfs (dirname src))
  let destvfs ← sys .statvfsDest (.statvfs (dirname dest))
  if ¬ checkDiskFree env fi.size destvfs.2 then
    .throw (.system .EDQUOT "insufficient disk space for destination file".toList)
  else
    match ← sys .mkdtemp (.mkdtemp (moveTemplate (dirname src))) with
    | .error _ => .stop .crash
    | .ok tmpdir => parkAndCopy env src dest fi (blockSize srcvfs.2 destvfs.2) tmpdir

/-- `Agent::move_file`. -/
def moveFile (env : Env) (src dest : Str) (fi : FileInfo) : Prog Unit := do
  match ← sys .accessDest (.access dest .F_OK) with
  | .ok _ => .throw (.system .EEXIST "move_file error - file exists".toList)
  | .error _ =>
    let precheck ← fileInfo env .precheck src
    if precheck.crc32 ≠ fi.crc32 then
      .throw (.runtime (.other 0) "move_file: CRC Check failed on source file".toList)
    else
      match ← sys .rename (.rename src dest) with
      | .ok _ => return ()
      | .error .EXDEV => copyAcross env src dest fi
      | .error e => .throw (.system e "Error renaming".toList)

end OortAgent
