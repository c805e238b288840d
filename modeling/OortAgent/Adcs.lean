import OortAgent.Models

/-!
# ADCS requests (`Adaptor.cpp`, `AgentUAVCANClient.cpp`)

The requests to the attitude control: `adaptRequest` and `adaptResponse` translate between the API and the CAN messages,
`adcsClient` makes the blocking call, and `adcsCommand`, `adcsGet` and `tfrsGet` are the agent's methods.

The numbers of the API are in `D`, those of the messages in `F`. The call itself (`Bus.blockingCall`) is a parameter: it
throws, as the CAN driver does when all interfaces are down, or returns.
-/

namespace OortAgent

open Lib

/-- `Adcs_quat_t`, `QuatT`. -/
structure Quat (F : Type) where
  q1 : F
  q2 : F
  q3 : F
  q4 : F

/-- `Adcs_xyz_float_t`, `XyzFloatT`. -/
structure Xyz (F : Type) where
  x : F
  y : F
  z : F

/-- `AdcsTarget`, `TargetT`. -/
structure Target (F : Type) where
  lat : F
  lon : F

/-- `AdcsCommandRequest`. -/
structure AdcsCommandRequest (D : Type) where
  command : Str := []
  aperture : Option Str := none
  target : Option (Target D) := none
  angle : Option D := none
  quat : Option (Quat D) := none
  vector : Option (Xyz D) := none

/-- `PayloadAdcsCommand::Request`. -/
structure CanRequest (F : Type) where
  adcs_command : Nat
  aperture : Str := []
  target : List (Target F) := []
  angle : List F := []
  quat : List (Quat F) := []
  vector : List (Xyz F) := []

/-- `PayloadAdcsCommand::Response`. -/
structure CanResponse (F : Type) where
  status : Nat
  reason : Str
  mode : Nat
  target : List (Target F) := []
  quat : List (Quat F) := []
  vector : List (Xyz F) := []

/-- `AdcsCommandResponse`. -/
structure AdcsCommandResponse (D : Type) where
  status : Str := []
  reason : Str := []
  mode : Str := []
  target : Option (Target D) := none
  quat : Option (Quat D) := none
  vector : Option (Xyz D) := none

section Adapt

variable {D F : Type}

/-- `Adapt`, component by component. -/
def Quat.map (f : D → F) (q : Quat D) : Quat F := ⟨f q.q1, f q.q2, f q.q3, f q.q4⟩

@[inherit_doc Quat.map]
def Xyz.map (f : D → F) (v : Xyz D) : Xyz F := ⟨f v.x, f v.y, f v.z⟩

@[inherit_doc Quat.map]
def Target.map (f : D → F) (t : Target D) : Target F := ⟨f t.lat, f t.lon⟩

/-- `DecodeAcsMode`. -/
def decodeAcsMode : Nat → Str
  | 0 => "NO-OP".toList
  | 1 => "BDOT".toList
  | 2 => "DETUMBLE".toList
  | 3 => "SUNPOINT".toList
  | 4 => "NADIRPOINTYAW".toList
  | 5 => "SUNSPIN".toList
  | 6 => "NADIRPOINTSUN".toList
  | 7 => "SUNPOINTNADIR".toList
  | 8 => "LATLONTRACK".toList
  | 9 => "INERTIALPOINT".toList
  | _ => "UNKNOWN".toList

/-- The code of a command, if there is one. -/
def commandCode (mode : Str) : Option Nat :=
  if mode = "IDLE".toList then some 0
  else if mode = "NADIR".toList then some 1
  else if mode = "TRACK".toList then some 2
  else none

/-- A text that is read as a C string ends at its first zero byte. -/
def cString (s : Str) : Str := s.takeWhile fun c => decide (c ≠ '\x00')

/-- The aperture of a message: a C string of at most 25 bytes, `none` if it is longer. -/
def adaptAperture : Option Str → Option Str
  | none => some []
  | some ap => if 25 < ap.length then none else some (cString ap)

/-- `Adapt` of a request: the message, or the text of the exception. -/
def adaptRequest (narrow : D → F) (req : AdcsCommandRequest D) : Except Str (CanRequest F) :=
  match commandCode req.command with
  | none => .error ("Cannot translate command ".toList ++ req.command)
  | some code => match adaptAperture req.aperture with
    | none => .error "Invalid aperture specification".toList
    | some aperture => .ok
      { adcs_command := code, aperture, target := (req.target.map (Target.map narrow)).toList,
        angle := (req.angle.map narrow).toList, quat := (req.quat.map (Quat.map narrow)).toList,
        vector := (req.vector.map (Xyz.map narrow)).toList }

/-- The text of a status. -/
def adaptStatus : Nat → Str
  | 0 => "OK".toList
  | 1 => "FAIL".toList
  | _ => "UNKNOWN".toList

/-- `Adapt` of a response. The reason is read as a C string. -/
def adaptResponse (widen : F → D) (r : CanResponse F) : AdcsCommandResponse D where
  status := adaptStatus r.status
  reason := cString r.reason
  mode := decodeAcsMode r.mode
  target := r.target.head?.map (Target.map widen)
  quat := r.quat.head?.map (Quat.map widen)
  vector := r.vector.head?.map (Xyz.map widen)

end Adapt

/-- What the last message to the `AdcsManager` said, with its numbers in `ρ`. -/
structure AdcsFeed (ρ : Type) where
  acs_mode_active : Nat
  acs_mode_cmd : Nat
  readings : ρ

/-- `AdcsResponse`: without a message there are no readings yet. -/
structure AdcsResponse (ρ : Type) where
  mode : Str := []
  acsModeActive : Str := []
  acsModeCmd : Str := []
  readings : Option ρ := none

/-- What the agent finds of the attitude control at a request: the manager, if there is one (`adcs`), with the last
message (`feed`) and the navigation state (`tfrs`), the client, whether the latch is free, and what the CAN calls
answer. -/
structure Bus (D F ρ τ : Type) where
  adcs : Bool
  feed : Option (AdcsFeed ρ)
  tfrs : τ
  client : Bool
  latch : Bool
  narrow : D → F
  widen : F → D
  blockingCall : CanRequest F → Except Exn Int
  wasSuccessful : Bool
  getResponse : CanResponse F

/-- `std::to_string` of an `int`. -/
def toText (n : Int) : Str := (toString n).toList

section Agent

variable {D F ρ τ : Type}

/-- `AgentUAVCANClient::AdcsCommand`. The `what` of an exception is a C string. -/
def adcsClient (bus : Bus D F ρ τ) (req : AdcsCommandRequest D) : Except Exn (AdcsCommandResponse D) :=
  match adaptRequest bus.narrow req with
  | .error what => .ok { status := "FAIL".toList, reason := cString what }
  | .ok msg => match bus.blockingCall msg with
    | .error e => .error e
    | .ok can_stat =>
      if can_stat ≤ 0 ∨ ¬ bus.wasSuccessful then
        .ok { status := "FAIL".toList, reason := "Error contacting service: ".toList ++ toText can_stat }
      else .ok (adaptResponse bus.widen bus.getResponse)

/-- `Agent::adcs_command`. -/
def adcsCommand (bus : Bus D F ρ τ) (req : AdcsCommandRequest D) : Except Exn (Response (AdcsCommandResponse D)) :=
  if ¬ bus.client then .ok (.Bad_Request "Adcs interface is unavailable".toList)
  else if bus.latch then
    match adcsClient bus req with
    | .error e => .error e
    | .ok r => if r.status = "OK".toList then .ok (.Ok r) else .ok (.Bad_Request r.reason)
  else .ok (.Bad_Request "Request in progress".toList)

/-- `Agent::adcs_get`. -/
def adcsGet (bus : Bus D F ρ τ) : Response (AdcsResponse ρ) :=
  if ¬ bus.adcs then .Bad_Request "Adcs interface is unavailable".toList
  else .Ok <| match bus.feed with
    | none => {}
    | some m =>
      ⟨decodeAcsMode m.acs_mode_active, decodeAcsMode m.acs_mode_active, decodeAcsMode m.acs_mode_cmd, some m.readings⟩

/-- `Agent::tfrs_get`. -/
def tfrsGet (bus : Bus D F ρ τ) : Response τ :=
  if ¬ bus.adcs then .Bad_Request "Tfrs interface is unavailable".toList else .Ok bus.tfrs

end Agent

end OortAgent
