import OortAgent.Files

/-!
# The configuration of an agent (`Config.cpp`)

`AgentConfig::parseOptions` goes through the arguments with `getopt`, checks and stores each option, and fills in
the defaults at the end. `newAgent` is what the constructor `Agent::Agent` takes from the configuration: the members
for the free space that is to be kept, `min_free_disk` and `min_free_pct`, have setters, which neither the
constructor nor `main` calls.
-/

namespace OortAgent

open Lib

/-- What `stat` says of a directory. -/
structure DirStat where
  isDir : Bool
  uid : Nat
  mode : Nat

/-- What the process finds when it starts. -/
structure Startup where
  stat : Str → Option DirStat
  euid : Nat

/-- `AgentConfig::checkDir`: why the directory does not do. The mode must have all of `S_IRWXU`. -/
def checkDir (su : Startup) (dir : Str) : Option Str :=
  if ¬ checkPath dir then some "directory not absolute".toList
  else match su.stat dir with
    | none => some "directory not found".toList
    | some buf =>
      if ¬ buf.isDir then some "not a directory".toList
      else if buf.uid ≠ su.euid then some "directory not owned by current user".toList
      else if buf.mode &&& 448 ≠ 448 then some "incorrect permissions on directory (must be u=rwx)".toList
      else none

/-! ## Numbers -/

/-- Why `stoul` throws. -/
inductive NumError
  | invalid_argument
  | out_of_range
  deriving DecidableEq

/-- The white space that `strtoul` skips. -/
def isSpace (c : Char) : Bool := [' ', '\t', '\n', '\x0b', '\x0c', '\r'].contains c

/-- The value of a string of decimal digits. -/
def digitsValue (ds : Str) : Nat := ds.foldl (fun n c => 10 * n + (c.toNat - 48)) 0

/-- The sign of a number: is it a minus, how long is it, and what follows. -/
def takeSign : Str → Bool × Nat × Str
  | '-' :: r => (true, 1, r)
  | '+' :: r => (false, 1, r)
  | r => (false, 0, r)

/-- `stoul(s, &pos)`: the `unsigned long` and the position behind it. A minus sign negates the value. -/
def stoul (s : Str) : Except NumError (Nat × Nat) :=
  let (minus, sign, rest) := takeSign (s.dropWhile isSpace)
  let ds := rest.takeWhile Char.isDigit
  let v := digitsValue ds
  if ds = [] then .error .invalid_argument
  else if 18446744073709551616 ≤ v then .error .out_of_range
  else .ok (if minus then (18446744073709551616 - v) % 18446744073709551616 else v,
    (s.takeWhile isSpace).length + sign + ds.length)

/-! ## Options -/

/-- The options; each of them takes an argument. -/
def optstring : Str := "wtifsmplcnN".toList

/-- What `getopt` gives: an option with its argument, or `?`. -/
inductive Opt
  | opt (c : Char) (arg : Str)
  | unknown
  deriving DecidableEq

/-- `getopt`, from an option that still waits for its argument. Arguments that are no options are passed over. -/
def getopt (pending : Option Char) : List Str → List Opt
  | [] => match pending with
    | some _ => [.unknown]
    | none => []
  | x :: rest => match pending with
    | some c => .opt c x :: getopt none rest
    | none =>
      if x = "--".toList then []
      else match x with
        | '-' :: c :: more =>
          if ¬ optstring.contains c then [.unknown]
          else if more = [] then getopt (some c) rest
          else .opt c more :: getopt none rest
        | _ => getopt none rest

/-- The settings for which the default is to be used. -/
structure UseDefaults where
  minfree : Bool := true
  interval : Bool := true
  maxage : Bool := true
  port : Bool := true
  shim_node_id : Bool := true
  deriving DecidableEq

/-- The configuration. -/
structure AgentConfig where
  workdir : Str := []
  minFreeMb : Int := -1
  minFreePct : Int := -1
  cleanupInterval : Int := 0
  maxAge : Int := 0
  port : Int := 0
  can_interface : Str := []
  can_interface_enabled : Bool := false
  uavcan_node_id : Nat := 0
  shim_node_id : Nat := 0
  use_defaults : UseDefaults := {}
  deriving DecidableEq

/-- Why the options are not accepted: a message, the usage, or an exception that nobody catches. -/
inductive Refusal
  | message (text : Str)
  | usage
  | uncaught
  deriving DecidableEq

/-- The number of an option; its text is quoted in the message if it is no number. -/
def numberArg (message arg : Str) : Except Refusal Nat :=
  match stoul arg with
  | .ok (n, _) => .ok n
  | .error .invalid_argument => .error (.message (message ++ arg))
  | .error .out_of_range => .error .uncaught

/-- An option `-m`: a number with its unit. -/
def minFreeArg (c : AgentConfig) (arg : Str) : Except Refusal AgentConfig :=
  let unsupported := Refusal.message ("Unsupported min_free setting '".toList ++ arg ++ "'".toList)
  match stoul arg with
  | .error .out_of_range => .error .uncaught
  | .error .invalid_argument => .error unsupported
  | .ok (n, pos) =>
    let unit := arg.getD pos '\x00'
    let use_defaults := { c.use_defaults with minfree := false }
    if unit = 'M' then .ok { c with minFreeMb := wrap32 n, use_defaults }
    else if unit = '%' then .ok { c with minFreePct := wrap32 n, use_defaults }
    else .error unsupported

/-- The names of the log levels. -/
def levelNames : List Str := ["debug".toList, "info".toList, "warn".toList, "error".toList]

/-- The `switch` of `parseOptions`. What it does to the logger is left out. -/
def applyOption (su : Startup) (c : AgentConfig) : Opt → Except Refusal AgentConfig
  | .unknown => .error .usage
  | .opt 'w' arg => match checkDir su arg with
    | some what => .error (.message ("Invalid directory ".toList ++ arg ++ ": ".toList ++ what))
    | none => .ok { c with workdir := arg }
  | .opt 't' arg => do
    let n ← numberArg "Invalid age ".toList arg
    return { c with maxAge := wrap32 n, use_defaults := { c.use_defaults with maxage := false } }
  | .opt 'i' arg => do
    let n ← numberArg "Invalid timeout ".toList arg
    return { c with cleanupInterval := wrap32 n, use_defaults := { c.use_defaults with interval := false } }
  | .opt 'f' _ => .error (.message "Config file processing is not yet implemented".toList)
  | .opt 's' _ => .ok c
  | .opt 'm' arg => minFreeArg c arg
  | .opt 'p' arg => do
    let n ← numberArg "Invalid port ".toList arg
    return { c with port := wrap32 n, use_defaults := { c.use_defaults with port := false } }
  | .opt 'l' arg =>
    if levelNames.contains arg then .ok c else .error (.message ("Invalid log level ".toList ++ arg))
  | .opt 'c' arg => .ok { c with can_interface := arg, can_interface_enabled := true }
  | .opt 'n' arg => do
    let n ← numberArg "Invalid UAVCAN node ID ".toList arg
    return { c with uavcan_node_id := n % 4294967296 }
  | .opt 'N' arg => do
    let n ← numberArg "Invalid shim node ID ".toList arg
    return { c with shim_node_id := n % 4294967296, use_defaults := { c.use_defaults with shim_node_id := false } }
  | .opt _ _ => .error (.message "Unknown option".toList)

/-- The options one after the other. -/
def applyOptions (su : Startup) (c : AgentConfig) : List Opt → Except Refusal AgentConfig
  | [] => .ok c
  | o :: rest => do
    let c ← applyOption su c o
    applyOptions su c rest

/-- The defaults of `AgentConfig`; the free space to keep is a percentage. -/
def AgentConfig.applyDefaults (c : AgentConfig) : AgentConfig :=
  { c with
    cleanupInterval := if c.use_defaults.interval then 3600 else c.cleanupInterval
    maxAge := if c.use_defaults.maxage then 86400 else c.maxAge
    minFreePct := if c.use_defaults.minfree then 20 else c.minFreePct
    port := if c.use_defaults.port then 2005 else c.port
    shim_node_id := if c.use_defaults.shim_node_id then 50 else c.shim_node_id }

/-- `AgentConfig::parseOptions(argc, argv)` on a new configuration; the first argument is the program. -/
def parseOptions (su : Startup) (argv : List Str) : Except Refusal AgentConfig := do
  let c ← applyOptions su {} (getopt none argv.tail)
  if c.workdir = [] then .error (.message "Workdir must be specified".toList)
  else if c.can_interface_enabled ∧ c.uavcan_node_id = 0 then
    .error (.message "If the CAN interface is enabled, a UAVCAN node id must be specified".toList)
  else return c.applyDefaults

/-- The agent that `main` builds: the rest of `program` is what the constructor asks the system for, and constants. -/
def newAgent (program : Env) (cfg : AgentConfig) : Env :=
  { program with workdir := cfg.workdir, minFreeDisk := -1, minFreePct := -1 }

/-! ## The free space to keep -/

/-- The free space that the configuration asks for on a filesystem: megabytes, or a percentage of its size. -/
def AgentConfig.reserve (cfg : AgentConfig) (vfs : Vfs) : Int :=
  max (if 0 < cfg.minFreeMb then cfg.minFreeMb * 1048576 else 0)
    (if 0 < cfg.minFreePct then cfg.minFreePct * (vfs.f_frsize * vfs.f_blocks) / 100 else 0)

/-- The free space of a filesystem. -/
def Vfs.free (vfs : Vfs) : Int := vfs.f_frsize * vfs.f_bavail

namespace Sample

/-- The arguments of a start with a working directory only. -/
def argv : List Str := ["oort-agent".toList, "-w".toList, "/w".toList]

/-- The start: `/w` belongs to the user. -/
def startup : Startup where
  stat p := if p = "/w".toList then some ⟨true, 1000, 448⟩ else none
  euid := 1000

/-- The configuration that they give. -/
def config : AgentConfig :=
  { workdir := "/w".toList, minFreePct := 20, cleanupInterval := 3600, maxAge := 86400, port :=
    2005, shim_node_id := 50 }

end Sample

end OortAgent
