import Mathlib.Logic.Equiv.List
import OortAgent.Lib.FS
import OortAgent.Lib.Utf8

/-!
# Requests, responses and metadata

The records of the OpenAPI files, with integers as the generated models hold them (`int32_t` for `type: integer`), the
exceptions that the agent tells apart, and what a request can be answered with.

The generated `to_json`/`from_json` and the JSON library are not part of the repository: `Codec` is their place.
Writing JSON throws if a text is not well-formed UTF-8: `texts` are the texts of a record that are written.
-/

namespace OortAgent

open Lib (Str Bytes Errno utf8)

/-- Conversion to `int32_t`: modulo `2 ^ 32`. -/
def wrap32 (x : Int) : Int := Int.bmod x 4294967296

/-- Conversion to `int64_t`: modulo `2 ^ 64`. -/
def wrap64 (x : Int) : Int := Int.bmod x 18446744073709551616

/-- An `int` is not changed by the conversion. -/
theorem wrap32_of_int {x : Int} (h : -2147483648 ≤ x) (h' : x < 2147483648) : wrap32 x = x := by
  unfold wrap32
  rw [Int.bmod_def]
  split <;> omega

/-- A number that is no `int` and not negative gets less. -/
theorem wrap32_lt {x : Int} (h : 2147483648 ≤ x) : wrap32 x < x := by
  unfold wrap32
  rw [Int.bmod_def]
  split <;> omega

theorem wrap32_bounds (x : Int) : -2147483648 ≤ wrap32 x ∧ wrap32 x < 2147483648 := by
  unfold wrap32
  rw [Int.bmod_def]
  split <;> omega

/-- An `int64_t` is not changed by the conversion. -/
theorem wrap64_of_int {x : Int} (h : -9223372036854775808 ≤ x) (h' : x < 9223372036854775808) : wrap64 x = x := by
  unfold wrap64
  rw [Int.bmod_def]
  split <;> omega

theorem wrap64_lt (x : Int) : wrap64 x < 9223372036854775808 := by
  unfold wrap64
  rw [Int.bmod_def]
  split <;> omega

/-- An `int64_t` is never more than the number it was cut from, if that is not negative. -/
theorem wrap64_le {x : Int} (h : 0 ≤ x) : wrap64 x ≤ x := by
  unfold wrap64
  rw [Int.bmod_def]
  split <;> omega

/-- `FileInfo`: information about a file and its transfer. -/
structure FileInfo where
  id : Str
  path : Str
  size : Int
  modified : Int
  created : Int
  crc32 : Str
  extra : List (Str × Str) := []
  deriving DecidableEq

/-- `SendOptions` with its `TTLParams`. -/
structure SendOptions where
  urgent : Int := 9000
  bulk : Int := 43200
  surplus : Int := 172800
  reliable : Bool := true
  deriving DecidableEq

/-- `TransferMeta`: the contents of a metadata file. -/
structure TransferMeta where
  metaVersion : Str
  topic : Str
  destination : Str
  node : Str
  time : Int
  fileInfo : FileInfo
  sendOptions : SendOptions
  extra : List (Str × Str) := []
  deriving DecidableEq

/-- `SendFileRequest`. -/
structure SendFileRequest where
  destination : Str
  filepath : Str
  topic : Str
  options : SendOptions := {}
  deriving DecidableEq

/-- `RetrieveFileRequest`. -/
structure RetrieveFileRequest where
  id : Str
  savePath : Str
  deriving DecidableEq

/-- `AvailableFilesResponse`; the overflow flag is set only when there are more files. -/
structure AvailableFilesResponse where
  files : List FileInfo
  overflow : Option Bool := none
  deriving DecidableEq

/-- `InfoRequest`. -/
structure InfoRequest where
  topics : Option (List Str) := none
  deriving DecidableEq

/-- `SystemInfo`. -/
structure SystemInfo where
  version : Str
  build : Str
  diskfree : Int
  workdir : Str
  uploads : Str
  agentUpgrades : Str
  dead : Str
  username : Str
  nodename : Str
  machine : Str
  deriving DecidableEq

/-- `InfoResponse` with its lists of available and dead files. -/
structure InfoResponse where
  sysinfo : SystemInfo
  topics : List Str
  files : List Str
  dead : List Str
  deriving DecidableEq

/-- The keys and values of further fields. -/
def extraTexts (l : List (Str × Str)) : List Str := l.flatMap fun x => [x.1, x.2]

/-- The texts of a `FileInfo`. -/
def FileInfo.texts (fi : FileInfo) : List Str := fi.id :: fi.path :: fi.crc32 :: extraTexts fi.extra

/-- The texts of a `TransferMeta`. -/
def TransferMeta.texts (tm : TransferMeta) : List Str :=
  tm.metaVersion :: tm.topic :: tm.destination :: tm.node :: (tm.fileInfo.texts ++ extraTexts tm.extra)

/-- The JSON text of metadata whose texts are well-formed, and its parser: `none` stands for a `json::exception`. -/
structure Codec where
  dump : TransferMeta → Bytes
  parse : Bytes → Option TransferMeta

/-- `to_json` and `from_json` are inverse. -/
def Codec.Inverse (J : Codec) : Prop := ∀ tm, tm.texts.all utf8 = true → J.parse (J.dump tm) = some tm

/-! ## A codec for examples -/

instance encodableChar : Encodable Char := Encodable.ofLeftInjection Char.toNat (fun n => some (Char.ofNat n))
    fun c => by simp

instance : Encodable FileInfo :=
  Encodable.ofLeftInjection (fun x => (x.id, x.path, x.size, x.modified, x.created, x.crc32, x.extra))
    (fun (a, b, c, d, e, f, g) => some ⟨a, b, c, d, e, f, g⟩) fun _ => rfl

instance : Encodable SendOptions :=
  Encodable.ofLeftInjection (fun x => (x.urgent, x.bulk, x.surplus, x.reliable))
    (fun (a, b, c, d) => some ⟨a, b, c, d⟩) fun _ => rfl

instance : Encodable TransferMeta :=
  Encodable.ofLeftInjection
    (fun x => (x.metaVersion, x.topic, x.destination, x.node, x.time, x.fileInfo, x.sendOptions, x.extra))
    (fun (a, b, c, d, e, f, g, h) => some ⟨a, b, c, d, e, f, g, h⟩) fun _ => rfl

/-- The codec with a given text for one metadata; the others have numbers for texts. -/
def Codec.sample (tm : TransferMeta) (text : Bytes) : Codec where
  dump x := if x = tm then text else 0 :: List.replicate (Encodable.encode x) 1
  parse b := if b = text then some tm else match b with
    | 0 :: ones => Encodable.decode ones.length
    | _ => none

theorem Codec.sample_inverse {tm : TransferMeta} {text : Bytes} (h : text.head? ≠ some 0) :
    (Codec.sample tm text).Inverse := by
  intro x _
  by_cases hx : x = tm
  · simp [Codec.sample, hx]
  · have hne : (0 : UInt8) :: List.replicate (Encodable.encode x) 1 ≠ text := by
      rintro rfl
      simp at h
    simp [Codec.sample, hx, hne]

/-- `EIO`. -/
def ioError : Errno := .other 5

/-- The exceptions: `std::system_error` and its base `std::runtime_error`, `json::exception`, `std::logic_error`.
`runtime` keeps the value of `errno` at the throw, which a handler may print. -/
inductive Exn
  | system (code : Errno) (what : Str)
  | runtime (errno : Errno) (what : Str)
  | json (what : Str)
  | logic (what : Str)
  deriving DecidableEq

/-- Caught by `catch (const system_error &)`. -/
def Exn.isSystem : Exn → Bool
  | .system _ _ => true
  | _ => false

/-- Caught by `catch (const runtime_error &)`: `system_error` derives from it. -/
def Exn.isRuntime : Exn → Bool
  | .system _ _ => true
  | .runtime _ _ => true
  | _ => false

theorem Exn.isRuntime_of_isSystem {e : Exn} (h : e.isSystem = true) : e.isRuntime = true := by
  cases e <;> first | rfl | cases h

theorem Exn.isSystem_of_isRuntime {e : Exn} (h : e.isRuntime = false) : e.isSystem = false := by
  cases e <;> first | rfl | cases h

/-- A `ResponseCode`: the result, or the message of a bad request. -/
inductive Response (α : Type)
  | Ok (result : α)
  | Bad_Request (message : Str)
  deriving DecidableEq

end OortAgent
