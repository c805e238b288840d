import OortAgent.Adcs

/-!
# Readings of the attitude control (`Adcs.cpp`)

An `AdcsManager` keeps the last reading of the attitude control and the last navigation state. `setAdcs` starts from
the reading that is there: `convert` sets its fields one after the other, and the derived fields are computed from
the message and from fields that are already set.

The numbers of the API are in `D`, those of the messages in `F`; their operations are not fixed, and neither are the
functions of the mathematical library.

* `convert_eq`: no field of the earlier reading is left.
* `manager_adcs`: after any calls the reading is that of the last message.
* `readings_of_last`: two histories with the same last message.
* `adcsGet_manager`: the reading as `adcs_get` replies it.
-/

namespace OortAgent.Readings

open Lib

/-- The conversions between numbers and the functions of `cmath`. -/
structure MathLib (F D : Type) where
  widen : F → D
  M_PI : D
  toInt : D → Int
  ofInt : Int → D
  fabs : D → D
  copysign : D → D → D
  fmod : D → D → D
  sqrt : D → D
  pow : D → D → D
  sin : D → D
  cos : D → D
  asin : D → D
  acos : D → D
  atan2 : D → D → D

/-- `Adcs_euler_t`. -/
structure Euler (D : Type) where
  roll : D
  pitch : D
  yaw : D

/-- `PayloadAdcsFeed`. -/
structure PayloadAdcsFeed (F D : Type) where
  acs_mode_active : Nat
  control_error_q : Quat F
  q_bo_est : Quat F
  latlontrack_lat : F
  lease_active : Bool
  eclipse_flag : Bool
  q_bi_est : Quat F
  latlontrack_lon : F
  r_eci : Xyz F
  latlontrack_body_vector : Xyz F
  omega_bo_est : Xyz F
  acs_mode_cmd : Nat
  v_eci : Xyz F
  qcf : Quat F
  lease_time_remaining : Nat
  unix_timestamp : D
  omega_bi_est : Xyz F
  control_error_omega : Xyz F

/-- `AdcsHk`: each field may be unset. -/
structure AdcsHk (D : Type) where
  control_error_angle_deg : Option D := none
  acs_mode_active : Option Str := none
  euler_angles : Option (Euler D) := none
  control_error_q : Option (Quat D) := none
  lat_deg : Option D := none
  q_bo_est : Option (Quat D) := none
  latlontrack_lat : Option D := none
  lease_active : Option Int := none
  lon_deg : Option D := none
  eclipse_flag : Option Int := none
  q_bi_est : Option (Quat D) := none
  latlontrack_lon : Option D := none
  r_eci : Option (Xyz D) := none
  altitude : Option D := none
  latlontrack_body_vector : Option (Xyz D) := none
  omega_bo_est : Option (Xyz D) := none
  acs_mode_cmd : Option Str := none
  v_eci : Option (Xyz D) := none
  qcf : Option (Quat D) := none
  lease_time_remaining : Option Int := none
  unix_timestamp : Option D := none
  omega_bi_est : Option (Xyz D) := none
  control_error_omega : Option (Xyz D) := none
  r_ecef : Option (Xyz D) := none

section Formulas

variable {F D : Type} [Add F] [Sub F] [Mul F] [Add D] [Sub D] [Mul D] [Div D] [Neg D] [LT D] [DecidableLT D]
  [OfScientific D]
variable (m : MathLib F D)

/-- The radius of the earth in meters. -/
def R_EARTH : D := 6371000.0

def rad2deg (a : D) : D := 180.0 / m.M_PI * a

def acos_safe (a : D) : D := if 1.0 < m.fabs a then m.acos (m.copysign 1.0 a) else m.acos a

def asin_safe (a : D) : D := if 1.0 < m.fabs a then m.asin (m.copysign 1.0 a) else m.asin a

/-- The Greenwich Hour Angle of a unix time. -/
def get_gha (unix_timestamp : D) : D :=
  let jd := unix_timestamp / 86400.0 + 2440587.5
  let C1 : D := 1.72027916940703639e-2
  let C1P2P := C1 + 2.0 * m.M_PI
  let THGR70 : D := 1.7321343856509374
  let FK5R : D := 5.07551419432269442e-15
  let days50 := jd - 2400000.5 - 33281.0
  let ts70 := days50 - 7305.0
  let ids70 := m.toInt (ts70 + 1.0e-8)
  let ds70 := m.ofInt ids70
  let trfac := ts70 - ds70
  let theta := THGR70 + C1 * ds70 + C1P2P * trfac + ts70 * ts70 * FK5R
  let theta := m.fmod theta (2.0 * m.M_PI)
  if theta < 0.0 then theta + 2.0 * m.M_PI else theta

def xyz_norm (v : Xyz D) : D := m.sqrt (m.pow v.x 2.0 + m.pow v.y 2.0 + m.pow v.z 2.0)

/-- `getREcef`: an unset vector is zero. -/
def AdcsHk.getREcef (hk : AdcsHk D) : Xyz D := hk.r_ecef.getD ⟨0.0, 0.0, 0.0⟩

def DeriveControlErrorAngleDeg (_ : AdcsHk D) (adcs : PayloadAdcsFeed F D) : D :=
  2.0 * rad2deg m (acos_safe m (m.widen adcs.control_error_q.q4))

/-- The products of components are taken before they are widened, except for the squares. -/
def DeriveEulerAngles (_ : AdcsHk D) (adcs : PayloadAdcsFeed F D) : Euler D :=
  let q := adcs.q_bo_est
  let sq x := m.pow (m.widen x) 2.0
  let dcm_00 := sq q.q4 + sq q.q1 - sq q.q2 - sq q.q3
  let dcm_01 := 2.0 * m.widen (q.q1 * q.q2 + q.q3 * q.q4)
  let dcm_02 := 2.0 * m.widen (q.q1 * q.q3 - q.q2 * q.q4)
  let dcm_12 := 2.0 * m.widen (q.q2 * q.q3 + q.q1 * q.q4)
  let dcm_22 := sq q.q4 - sq q.q1 - sq q.q2 + sq q.q3
  { roll := rad2deg m (m.atan2 dcm_12 dcm_22), pitch := rad2deg m (asin_safe m (-dcm_02)),
    yaw := rad2deg m (m.atan2 dcm_01 dcm_00) }

def DeriveLatDeg (hk : AdcsHk D) (_ : PayloadAdcsFeed F D) : D :=
  let r_ecef := hk.getREcef
  let r_sat := xyz_norm m r_ecef
  if R_EARTH < r_sat then rad2deg m (asin_safe m (r_ecef.z / r_sat)) else 0.0

def DeriveLonDeg (hk : AdcsHk D) (_ : PayloadAdcsFeed F D) : D :=
  let r_ecef := hk.getREcef
  let r_sat := xyz_norm m r_ecef
  if R_EARTH < r_sat then rad2deg m (m.atan2 (r_ecef.y / r_sat) (r_ecef.x / r_sat)) else 0.0

def DeriveAltitude (hk : AdcsHk D) (_ : PayloadAdcsFeed F D) : D :=
  let r_sat := xyz_norm m hk.getREcef
  if R_EARTH < r_sat then r_sat - R_EARTH else 0.0

def DeriveREcef (_ : AdcsHk D) (adcs : PayloadAdcsFeed F D) : Xyz D :=
  let gha := get_gha m adcs.unix_timestamp
  { x := m.cos gha * m.widen adcs.r_eci.x + m.sin gha * m.widen adcs.r_eci.y
    y := -m.sin gha * m.widen adcs.r_eci.x + m.cos gha * m.widen adcs.r_eci.y
    z := m.widen adcs.r_eci.z }

/-- `convert`: the setters in their order. -/
def convert (hk : AdcsHk D) (adcs : PayloadAdcsFeed F D) : AdcsHk D :=
  let hk := { hk with acs_mode_active := some (decodeAcsMode adcs.acs_mode_active) }
  let hk := { hk with control_error_q := some (adcs.control_error_q.map m.widen) }
  let hk := { hk with q_bo_est := some (adcs.q_bo_est.map m.widen) }
  let hk := { hk with latlontrack_lat := some (m.widen adcs.latlontrack_lat) }
  let hk := { hk with q_bi_est := some (adcs.q_bi_est.map m.widen) }
  let hk := { hk with latlontrack_lon := some (m.widen adcs.latlontrack_lon) }
  let hk := { hk with r_eci := some (adcs.r_eci.map m.widen) }
  let hk := { hk with latlontrack_body_vector := some (adcs.latlontrack_body_vector.map m.widen) }
  let hk := { hk with omega_bo_est := some (adcs.omega_bo_est.map m.widen) }
  let hk := { hk with acs_mode_cmd := some (decodeAcsMode adcs.acs_mode_cmd) }
  let hk := { hk with v_eci := some (adcs.v_eci.map m.widen) }
  let hk := { hk with qcf := some (adcs.qcf.map m.widen) }
  let hk := { hk with lease_time_remaining := some (wrap32 adcs.lease_time_remaining) }
  let hk := { hk with unix_timestamp := some adcs.unix_timestamp }
  let hk := { hk with omega_bi_est := some (adcs.omega_bi_est.map m.widen) }
  let hk := { hk with control_error_omega := some (adcs.control_error_omega.map m.widen) }
  let hk := { hk with eclipse_flag := some adcs.eclipse_flag.toInt }
  let hk := { hk with lease_active := some adcs.lease_active.toInt }
  let hk := { hk with r_ecef := some (DeriveREcef m hk adcs) }
  let hk := { hk with control_error_angle_deg := some (DeriveControlErrorAngleDeg m hk adcs) }
  let hk := { hk with euler_angles := some (DeriveEulerAngles m hk adcs) }
  let hk := { hk with lat_deg := some (DeriveLatDeg m hk adcs) }
  let hk := { hk with lon_deg := some (DeriveLonDeg m hk adcs) }
  { hk with altitude := some (DeriveAltitude m hk adcs) }

end Formulas

/-! ## The manager -/

/-- `AdcsResponse`. -/
structure AdcsResponse (D : Type) where
  mode : Str := []
  age : D
  hk : Option (AdcsHk D) := none

/-- The part of `ReceiverNavigationState` that is kept. -/
structure ReceiverNavigationState (F D : Type) where
  utc_time : Nat
  ecef_pos_x : D
  ecef_pos_y : D
  ecef_pos_z : D
  ecef_vel_x : F
  ecef_vel_y : F
  ecef_vel_z : F

/-- `TfrsResponse`. -/
structure TfrsResponse (D : Type) where
  utc_time : Int := 0
  ecef_pos_x : D
  ecef_pos_y : D
  ecef_pos_z : D
  ecef_vel_x : D
  ecef_vel_y : D
  ecef_vel_z : D
  age : D

/-- `AdcsManager`; the times are in ticks of the clock. -/
structure AdcsManager (D : Type) where
  m_adcs : AdcsResponse D
  m_adcs_mtime : Int := 0
  m_tfrs : TfrsResponse D
  m_tfrs_mtime : Int := 0

/-- The calls of a manager, each with the time of the clock. -/
inductive Call (F D : Type)
  | setAdcs (adcs : PayloadAdcsFeed F D) (now : Int)
  | getAdcs (now : Int)
  | setTfrs (tfrs : ReceiverNavigationState F D) (now : Int)
  | getTfrs (now : Int)

section Histories

variable {F D : Type}

/-- The message of a call to `setAdcs`. -/
def Call.feed? : Call F D → Option (PayloadAdcsFeed F D)
  | .setAdcs adcs _ => some adcs
  | _ => none

/-- The last message of a history. -/
def lastFeed (calls : List (Call F D)) : Option (PayloadAdcsFeed F D) := (calls.filterMap Call.feed?).getLast?

theorem lastFeed_append (calls : List (Call F D)) (c : Call F D) :
    lastFeed (calls ++ [c]) = c.feed?.or (lastFeed calls) := by
  rw [lastFeed, List.filterMap_append]
  cases h : c.feed? with
  | none => simp [h, lastFeed]
  | some adcs => simp [h]

/-- A history that ends with the message: only calls of the other kinds follow it. -/
theorem lastFeed_of_tail {calls tail : List (Call F D)} {adcs : PayloadAdcsFeed F D} {now : Int}
    (h : ∀ c ∈ tail, c.feed? = none) : lastFeed (calls ++ .setAdcs adcs now :: tail) = some adcs := by
  have htail : tail.filterMap Call.feed? = [] := by
    rw [List.filterMap_eq_nil_iff]
    exact h
  have hcons : (Call.setAdcs adcs now :: tail).filterMap Call.feed? = [adcs] := by
    rw [List.filterMap_cons_some (show (Call.setAdcs adcs now).feed? = some adcs from rfl), htail]
  rw [lastFeed, List.filterMap_append, hcons]
  simp

end Histories

section Manager

variable {F D : Type} [Add F] [Sub F] [Mul F] [Add D] [Sub D] [Mul D] [Div D] [Neg D] [LT D] [DecidableLT D]
  [OfScientific D]
variable (m : MathLib F D) (seconds : Int → D)

/-- A new manager. -/
def AdcsManager.new : AdcsManager D where
  m_adcs := { age := 0.0 }
  m_tfrs :=
    { ecef_pos_x := 0.0, ecef_pos_y := 0.0, ecef_pos_z := 0.0, ecef_vel_x := 0.0, ecef_vel_y := 0.0, ecef_vel_z := 0.0,
      age := 0.0 }

/-- `setAdcs`. -/
def AdcsManager.setAdcs (s : AdcsManager D) (adcs : PayloadAdcsFeed F D) (now : Int) : AdcsManager D :=
  let hk := s.m_adcs.hk.getD {}
  let hk := convert m hk adcs
  { s with m_adcs := { mode := hk.acs_mode_active.getD [], hk := some hk, age := 0.0 }, m_adcs_mtime := now }

/-- `getAdcs`: the reading with its age, which the manager keeps. -/
def AdcsManager.getAdcs (s : AdcsManager D) (now : Int) : AdcsManager D × AdcsResponse D :=
  let s := { s with m_adcs := { s.m_adcs with age := seconds (now - s.m_adcs_mtime) } }
  (s, s.m_adcs)

/-- `setTfrs`. -/
def AdcsManager.setTfrs (s : AdcsManager D) (tfrs : ReceiverNavigationState F D) (now : Int) : AdcsManager D :=
  { s with
    m_tfrs :=
      { utc_time := wrap32 tfrs.utc_time, ecef_pos_x := tfrs.ecef_pos_x, ecef_pos_y := tfrs.ecef_pos_y,
        ecef_pos_z := tfrs.ecef_pos_z, ecef_vel_x := m.widen tfrs.ecef_vel_x, ecef_vel_y := m.widen tfrs.ecef_vel_y,
        ecef_vel_z := m.widen tfrs.ecef_vel_z, age := 0.0 }
    m_tfrs_mtime := now }

/-- `getTfrs`. -/
def AdcsManager.getTfrs (s : AdcsManager D) (now : Int) : AdcsManager D × TfrsResponse D :=
  let s := { s with m_tfrs := { s.m_tfrs with age := seconds (now - s.m_tfrs_mtime) } }
  (s, s.m_tfrs)

/-- What a call leaves. -/
def AdcsManager.apply (s : AdcsManager D) : Call F D → AdcsManager D
  | .setAdcs adcs now => s.setAdcs m adcs now
  | .getAdcs now => (s.getAdcs seconds now).1
  | .setTfrs tfrs now => s.setTfrs m tfrs now
  | .getTfrs now => (s.getTfrs seconds now).1

/-- A new manager after a history of calls. -/
def after (calls : List (Call F D)) : AdcsManager D := calls.foldl (AdcsManager.apply m seconds) AdcsManager.new

/-! ## The last message -/

/-- `convert` leaves nothing of the reading it starts from. -/
theorem convert_eq (hk : AdcsHk D) (adcs : PayloadAdcsFeed F D) : convert m hk adcs = convert m {} adcs := rfl

/-- All fields are set. -/
structure AdcsHk.Complete (hk : AdcsHk D) : Prop where
  control_error_angle_deg : hk.control_error_angle_deg.isSome = true
  acs_mode_active : hk.acs_mode_active.isSome = true
  euler_angles : hk.euler_angles.isSome = true
  control_error_q : hk.control_error_q.isSome = true
  lat_deg : hk.lat_deg.isSome = true
  q_bo_est : hk.q_bo_est.isSome = true
  latlontrack_lat : hk.latlontrack_lat.isSome = true
  lease_active : hk.lease_active.isSome = true
  lon_deg : hk.lon_deg.isSome = true
  eclipse_flag : hk.eclipse_flag.isSome = true
  q_bi_est : hk.q_bi_est.isSome = true
  latlontrack_lon : hk.latlontrack_lon.isSome = true
  r_eci : hk.r_eci.isSome = true
  altitude : hk.altitude.isSome = true
  latlontrack_body_vector : hk.latlontrack_body_vector.isSome = true
  omega_bo_est : hk.omega_bo_est.isSome = true
  acs_mode_cmd : hk.acs_mode_cmd.isSome = true
  v_eci : hk.v_eci.isSome = true
  qcf : hk.qcf.isSome = true
  lease_time_remaining : hk.lease_time_remaining.isSome = true
  unix_timestamp : hk.unix_timestamp.isSome = true
  omega_bi_est : hk.omega_bi_est.isSome = true
  control_error_omega : hk.control_error_omega.isSome = true
  r_ecef : hk.r_ecef.isSome = true

/-- The derived position of a reading is that of the vector `r`. -/
structure Located (r : Xyz D) (hk : AdcsHk D) : Prop where
  r_ecef : hk.r_ecef = some r
  lat_deg : hk.lat_deg = some
    (if R_EARTH < xyz_norm m r then rad2deg m (asin_safe m (r.z / xyz_norm m r)) else 0.0)
  lon_deg : hk.lon_deg = some
    (if R_EARTH < xyz_norm m r then rad2deg m (m.atan2 (r.y / xyz_norm m r) (r.x / xyz_norm m r)) else 0.0)
  altitude : hk.altitude = some (if R_EARTH < xyz_norm m r then xyz_norm m r - R_EARTH else 0.0)

theorem convert_complete (hk : AdcsHk D) (adcs : PayloadAdcsFeed F D) : (convert m hk adcs).Complete := by
  constructor <;> rfl

/-- The derived fields are computed after the vector that they read was set from the message. -/
theorem convert_located (hk : AdcsHk D) (adcs : PayloadAdcsFeed F D) :
    Located m (DeriveREcef m hk adcs) (convert m hk adcs) := ⟨rfl, rfl, rfl, rfl⟩

theorem after_append (calls : List (Call F D)) (c : Call F D) :
    after m seconds (calls ++ [c]) = (after m seconds calls).apply m seconds c := by
  rw [after, List.foldl_append]
  rfl

/-- A call: the reading becomes that of its message, or stays. -/
theorem apply_adcs (s : AdcsManager D) (c : Call F D) :
    (s.apply m seconds c).m_adcs.hk = (c.feed?.map (convert m {})).or s.m_adcs.hk ∧
    (s.apply m seconds c).m_adcs.mode =
      (c.feed?.map fun adcs => decodeAcsMode adcs.acs_mode_active).getD s.m_adcs.mode := by
  cases c with
  | setAdcs adcs now => exact ⟨congrArg some (convert_eq m _ adcs), rfl⟩
  | getAdcs now => exact ⟨rfl, rfl⟩
  | setTfrs tfrs now => exact ⟨rfl, rfl⟩
  | getTfrs now => exact ⟨rfl, rfl⟩

/-- After any calls the manager has the reading of the last message, or none. -/
theorem manager_adcs (calls : List (Call F D)) :
    (after m seconds calls).m_adcs.hk = (lastFeed calls).map (convert m {}) ∧
    (after m seconds calls).m_adcs.mode =
      ((lastFeed calls).map fun adcs => decodeAcsMode adcs.acs_mode_active).getD [] := by
  induction calls using List.reverseRecOn with
  | nil => exact ⟨rfl, rfl⟩
  | append_singleton calls c ih =>
    obtain ⟨hhk, hmode⟩ := apply_adcs m seconds (after m seconds calls) c
    rw [after_append, lastFeed_append, hhk, hmode, ih.1, ih.2]
    cases c.feed? with
    | none => exact ⟨rfl, rfl⟩
    | some adcs => exact ⟨rfl, rfl⟩

/-- **Readings depend on the last message only.** After two histories whose last call to `setAdcs` has the same message,
`getAdcs` gives the same mode and the same reading; every field is set, the mode is that of the message, and latitude,
longitude and altitude are those of the vector derived from it. -/
theorem readings_of_last (calls₁ tail₁ calls₂ tail₂ : List (Call F D)) (adcs : PayloadAdcsFeed F D) (now₁ now₂ : Int)
    (h₁ : ∀ c ∈ tail₁, c.feed? = none) (h₂ : ∀ c ∈ tail₂, c.feed? = none) (t₁ t₂ : Int) :
    let r₁ := ((after m seconds (calls₁ ++ .setAdcs adcs now₁ :: tail₁)).getAdcs seconds t₁).2
    let r₂ := ((after m seconds (calls₂ ++ .setAdcs adcs now₂ :: tail₂)).getAdcs seconds t₂).2
    r₁.mode = r₂.mode ∧ r₁.hk = r₂.hk ∧ r₁.mode = decodeAcsMode adcs.acs_mode_active ∧
      ∃ hk, r₁.hk = some hk ∧ hk.Complete ∧ hk.acs_mode_active = some r₁.mode ∧
      Located m (DeriveREcef m {} adcs) hk := by
  intro r₁ r₂
  have hget : ∀ (s : AdcsManager D) (t : Int), (s.getAdcs seconds t).2.hk = s.m_adcs.hk ∧
      (s.getAdcs seconds t).2.mode = s.m_adcs.mode := fun s t => ⟨rfl, rfl⟩
  obtain ⟨hhk₁, hmode₁⟩ := manager_adcs m seconds (calls₁ ++ .setAdcs adcs now₁ :: tail₁)
  obtain ⟨hhk₂, hmode₂⟩ := manager_adcs m seconds (calls₂ ++ .setAdcs adcs now₂ :: tail₂)
  rw [lastFeed_of_tail h₁] at hhk₁ hmode₁
  rw [lastFeed_of_tail h₂] at hhk₂ hmode₂
  have hm₁ : r₁.mode = decodeAcsMode adcs.acs_mode_active := ((hget _ t₁).2).trans hmode₁
  have hk₁ : r₁.hk = some (convert m {} adcs) := ((hget _ t₁).1).trans hhk₁
  have hm₂ : r₂.mode = decodeAcsMode adcs.acs_mode_active := ((hget _ t₂).2).trans hmode₂
  have hk₂ : r₂.hk = some (convert m {} adcs) := ((hget _ t₂).1).trans hhk₂
  refine ⟨hm₁.trans hm₂.symm, hk₁.trans hk₂.symm, hm₁, convert m {} adcs, hk₁, convert_complete m {} adcs, ?_,
    convert_located m {} adcs⟩
  rw [hm₁]
  rfl

/-- The reply of `adcs_get`: for a manager after any calls it is the mode and the reading that `getAdcs` gives. -/
theorem adcsGet_manager {τ : Type} {bus : Bus D F (AdcsHk D) τ} {calls : List (Call F D)} (hadcs : bus.adcs = true)
    (hfeed : bus.feed = (lastFeed calls).map fun adcs => ⟨adcs.acs_mode_active, adcs.acs_mode_cmd, convert m {} adcs⟩)
    (t : Int) :
    ∃ r, adcsGet bus = .Ok r ∧ r.mode = ((after m seconds calls).getAdcs seconds t).2.mode ∧
      r.readings = ((after m seconds calls).getAdcs seconds t).2.hk := by
  obtain ⟨hhk, hmode⟩ := manager_adcs m seconds calls
  have hget : ((after m seconds calls).getAdcs seconds t).2.hk = (after m seconds calls).m_adcs.hk ∧
      ((after m seconds calls).getAdcs seconds t).2.mode = (after m seconds calls).m_adcs.mode := ⟨rfl, rfl⟩
  rw [hget.1, hget.2, hhk, hmode, adcsGet, hadcs, hfeed]
  cases lastFeed calls with
  | none => exact ⟨{}, rfl, rfl, rfl⟩
  | some adcs => exact ⟨_, rfl, rfl, rfl⟩

end Manager

namespace Sample

/-- The operations of the machine. -/
def libm : MathLib Float32 Float where
  widen := Float32.toFloat
  M_PI := 3.14159265358979323846
  toInt x := x.toInt32.toInt
  ofInt := Float.ofInt
  fabs := Float.abs
  copysign a b := if b < 0.0 then -a.abs else a.abs
  fmod a b := a - b * (if a / b < 0.0 then (a / b).ceil else (a / b).floor)
  sqrt := Float.sqrt
  pow := Float.pow
  sin := Float.sin
  cos := Float.cos
  asin := Float.asin
  acos := Float.acos
  atan2 := Float.atan2

/-- A message in a mode, from 7000 kilometers over the north pole. -/
def feed (mode : Nat) : PayloadAdcsFeed Float32 Float where
  acs_mode_active := mode
  control_error_q := ⟨0, 0, 0, 1⟩
  q_bo_est := ⟨0, 0, 0, 1⟩
  latlontrack_lat := 0
  lease_active := true
  eclipse_flag := false
  q_bi_est := ⟨0, 0, 0, 1⟩
  latlontrack_lon := 0
  r_eci := ⟨0, 0, 13371000⟩
  latlontrack_body_vector := ⟨0, 0, 1⟩
  omega_bo_est := ⟨0, 0, 0⟩
  acs_mode_cmd := mode
  v_eci := ⟨0, 0, 0⟩
  qcf := ⟨0, 0, 0, 1⟩
  lease_time_remaining := 4294967295
  unix_timestamp := 1628760852.0
  omega_bi_est := ⟨0, 0, 0⟩
  control_error_omega := ⟨0, 0, 0⟩

end Sample

/-- A new manager with one message, and one that had another message before and is asked in between. -/
theorem readings_of_last_sample :
    let s₁ := after Sample.libm Float.ofInt [.setAdcs (Sample.feed 4) 10]
    let s₂ := after Sample.libm Float.ofInt [.setAdcs (Sample.feed 9) 1, .setAdcs (Sample.feed 4) 20, .getAdcs 25]
    (s₁.getAdcs Float.ofInt 11).2.mode = (s₂.getAdcs Float.ofInt 30).2.mode ∧
      (s₁.getAdcs Float.ofInt 11).2.hk = (s₂.getAdcs Float.ofInt 30).2.hk := by
  have h := readings_of_last Sample.libm Float.ofInt [] [] [.setAdcs (Sample.feed 9) 1] [.getAdcs 25]
    (Sample.feed 4) 10 20
    (fun c hc => by cases hc) (fun c hc => by rw [List.mem_singleton.1 hc]; rfl) 11 30
  exact ⟨h.1, h.2.1⟩

end OortAgent.Readings
