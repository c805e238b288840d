import Mathlib.Data.List.TakeWhile
import OortAgent.Adcs

/-!
# Pointing commands

What `Adapt` keeps of a request, and what `adcs_command` makes of the CAN call.

The aperture of the API is a string of any bytes; on its way into the message it is a C string, which ends at the
first zero byte. The call gives the number of frames that were sent at once: zero if the frame was queued, though a
response may come to it all the same.

* `adaptRequest_translates_iff`: which requests are translated without loss.
* `adcsCommand_verdict_iff`: which calls are reported as they went.
-/

namespace OortAgent

open Lib

section Translation

variable {D F : Type}

/-- The aperture fits into a message. -/
def ApertureFits (req : AdcsCommandRequest D) : Prop := ∀ ap, req.aperture = some ap → ap.length ≤ 25

/-- The codes of the commands. -/
def IsCode (command : Str) (code : Nat) : Prop :=
  (command = "IDLE".toList ∧ code = 0) ∨ (command = "NADIR".toList ∧ code = 1) ∨ (command = "TRACK".toList ∧ code = 2)

/-- The message says what the request says. -/
structure Carries (narrow : D → F) (req : AdcsCommandRequest D) (msg : CanRequest F) : Prop where
  command : IsCode req.command msg.adcs_command
  aperture : msg.aperture = req.aperture.getD []
  target : msg.target = match req.target with
    | some t => [⟨narrow t.lat, narrow t.lon⟩]
    | none => []
  angle : msg.angle = match req.angle with
    | some a => [narrow a]
    | none => []
  quat : msg.quat = match req.quat with
    | some q => [⟨narrow q.q1, narrow q.q2, narrow q.q3, narrow q.q4⟩]
    | none => []
  vector : msg.vector = match req.vector with
    | some v => [⟨narrow v.x, narrow v.y, narrow v.z⟩]
    | none => []

/-- The request is translated without loss, and refused only if its command is unknown or its aperture too long. -/
def Translates (narrow : D → F) (req : AdcsCommandRequest D) : Prop :=
  ((∃ what, adaptRequest narrow req = .error what) ↔ (∀ code, ¬ IsCode req.command code) ∨ ¬ ApertureFits req) ∧
  ∀ msg, adaptRequest narrow req = .ok msg → Carries narrow req msg

theorem commandCode_eq_some {command : Str} {code : Nat} : commandCode command = some code ↔ IsCode command code := by
  unfold commandCode IsCode
  have h₁ : "NADIR".toList ≠ "IDLE".toList := by decide
  have h₂ : "TRACK".toList ≠ "IDLE".toList := by decide
  have h₃ : "TRACK".toList ≠ "NADIR".toList := by decide
  constructor
  · intro h
    split at h
    · rename_i hc
      exact .inl ⟨hc, (Option.some.inj h).symm⟩
    · split at h
      · rename_i hc
        exact .inr (.inl ⟨hc, (Option.some.inj h).symm⟩)
      · split at h
        · rename_i hc
          exact .inr (.inr ⟨hc, (Option.some.inj h).symm⟩)
        · cases h
  · rintro (⟨rfl, rfl⟩ | ⟨rfl, rfl⟩ | ⟨rfl, rfl⟩)
    · rw [if_pos rfl]
    · rw [if_neg h₁, if_pos rfl]
    · rw [if_neg h₂, if_neg h₃, if_pos rfl]

theorem commandCode_eq_none {command : Str} : commandCode command = none ↔ ∀ code, ¬ IsCode command code := by
  rw [Option.eq_none_iff_forall_not_mem]
  exact forall_congr' fun code => not_congr commandCode_eq_some

/-- A C string is the whole string exactly if it has no zero byte. -/
theorem cString_eq_iff {s : Str} : cString s = s ↔ '\x00' ∉ s := by
  rw [cString, List.takeWhile_eq_self_iff]
  constructor
  · intro h hmem
    simpa using h _ hmem
  · intro h c hc
    rw [decide_eq_true_eq]
    rintro rfl
    exact h hc

theorem adaptAperture_eq_none {req : AdcsCommandRequest D} : adaptAperture req.aperture = none ↔
    ¬ ApertureFits req := by
  unfold adaptAperture ApertureFits
  cases req.aperture with
  | none => simp
  | some ap =>
    dsimp only
    split
    · rename_i hlen
      exact iff_of_true rfl fun h => absurd (h ap rfl) (by omega)
    · rename_i hlen
      refine iff_of_false (by simp) (not_not_intro ?_)
      intro ap' h
      cases h
      omega

/-- The aperture of a message. -/
theorem adaptAperture_eq_some {req : AdcsCommandRequest D} {aperture : Str}
    (h : adaptAperture req.aperture = some aperture) :
    aperture = req.aperture.getD [] ↔ ∀ ap, req.aperture = some ap → '\x00' ∉ ap := by
  unfold adaptAperture at h
  cases hap : req.aperture with
  | none =>
    rw [hap] at h
    cases h
    exact iff_of_true rfl fun ap hap => by cases hap
  | some ap =>
    rw [hap] at h
    dsimp only at h
    split at h
    · cases h
    · obtain rfl := Option.some.inj h
      rw [Option.getD_some, cString_eq_iff]
      constructor
      · intro hz ap' he
        cases he
        exact hz
      · exact fun hz => hz ap rfl

/-- **ADCS requests.** A request is translated without loss, and refused only for its command or the length of its
aperture, if and only if the aperture is unset, has no zero byte or is too long, or the command is unknown. -/
theorem adaptRequest_translates_iff (narrow : D → F) (req : AdcsCommandRequest D) :
    Translates narrow req ↔
      ∀ ap, req.aperture = some ap → '\x00' ∉ ap ∨ 25 < ap.length ∨ ∀ code, ¬ IsCode req.command code := by
  unfold Translates
  cases hc : commandCode req.command with
  | none =>
    have hno := commandCode_eq_none.1 hc
    have hr : adaptRequest narrow req = .error ("Cannot translate command ".toList ++ req.command) := by
      rw [adaptRequest, hc]
    rw [hr]
    refine iff_of_true ⟨iff_of_true ⟨_, rfl⟩ (.inl hno), fun msg h => by cases h⟩ ?_
    exact fun ap _ => .inr (.inr hno)
  | some code =>
    have hcode := commandCode_eq_some.1 hc
    have hsome : ¬ ∀ code, ¬ IsCode req.command code := fun h => h code hcode
    cases ha : adaptAperture req.aperture with
    | none =>
      have hlong := adaptAperture_eq_none.1 ha
      have hr : adaptRequest narrow req = .error "Invalid aperture specification".toList := by
        rw [adaptRequest, hc]
        simp only [ha]
      rw [hr]
      refine iff_of_true ⟨iff_of_true ⟨_, rfl⟩ (.inr hlong), fun msg h => by cases h⟩ ?_
      intro ap hap
      refine .inr (.inl ?_)
      by_contra hle
      refine hlong fun ap' hap' => ?_
      rw [hap] at hap'
      cases hap'
      omega
    | some aperture =>
      have hfits : ApertureFits req := by
        by_contra h
        rw [adaptAperture_eq_none.2 h] at ha
        cases ha
      have hkept := adaptAperture_eq_some ha
      have hr : adaptRequest narrow req = .ok
          { adcs_command := code, aperture, target := (req.target.map (Target.map narrow)).toList,
            angle := (req.angle.map narrow).toList, quat := (req.quat.map (Quat.map narrow)).toList,
            vector := (req.vector.map (Xyz.map narrow)).toList } := by
        rw [adaptRequest, hc]
        simp only [ha]
      rw [hr]
      constructor
      · rintro ⟨-, h⟩ ap hap
        exact .inl (hkept.1 (h _ rfl).aperture ap hap)
      · intro h
        refine ⟨iff_of_false (by simp) (not_or.2 ⟨hsome, not_not_intro hfits⟩), ?_⟩
        intro msg hmsg
        cases hmsg
        refine ⟨hcode, hkept.2 fun ap hap => ?_, ?_, ?_, ?_, ?_⟩
        · rcases h ap hap with hz | hlong | hno
          · exact hz
          · have := hfits ap hap
            omega
          · exact absurd hno hsome
        · cases req.target <;> rfl
        · cases req.angle <;> rfl
        · cases req.quat <;> rfl
        · cases req.vector <;> rfl

end Translation

/-- The aperture `a\0b` becomes `a`. -/
theorem adaptRequest_cuts_aperture :
    let req : AdcsCommandRequest Int := { command := "TRACK".toList, aperture := some ['a', '\x00', 'b'] }
    (adaptRequest id req).toOption.map CanRequest.aperture = some ['a'] ∧ ¬ Translates (id : Int → Int) req := by
  refine ⟨rfl, ?_⟩
  rintro ⟨-, h⟩
  have ha := (h _ rfl).aperture
  exact absurd ha (by decide)

/-! ## Verdicts -/

section Verdict

variable {D F ρ τ : Type} {bus : Bus D F ρ τ} {req : AdcsCommandRequest D}

/-- The request was translated, and a response with status 0 came to it. -/
def Executed (bus : Bus D F ρ τ) (req : AdcsCommandRequest D) : Prop :=
  (∃ msg, adaptRequest bus.narrow req = .ok msg) ∧ bus.wasSuccessful = true ∧ bus.getResponse.status = 0

/-- The text for a call without a response. -/
def contactError (can_stat : Int) : Str := "Error contacting service: ".toList ++ toText can_stat

/-- Why a request was not executed: it is not translated, and `what` of the exception says why; no response came; or
the response says why. -/
inductive IsReason (bus : Bus D F ρ τ) (req : AdcsCommandRequest D) : Str → Prop
  | untranslatable {what : Str} : adaptRequest bus.narrow req = .error what → IsReason bus req (cString what)
  | silent {msg : CanRequest F} {can_stat : Int} : adaptRequest bus.narrow req = .ok msg →
      bus.blockingCall msg = .ok can_stat → bus.wasSuccessful = false → IsReason bus req (contactError can_stat)
  | refused {msg : CanRequest F} : adaptRequest bus.narrow req = .ok msg → bus.wasSuccessful = true →
      bus.getResponse.status ≠ 0 → IsReason bus req bus.getResponse.reason

/-- The reply tells what the spacecraft did. -/
def Verdict (bus : Bus D F ρ τ) (req : AdcsCommandRequest D) : Prop :=
  ((∃ r, adcsCommand bus req = .ok (.Ok r)) ↔ Executed bus req) ∧
  (¬ Executed bus req → ∃ what, adcsCommand bus req = .ok (.Bad_Request what) ∧ IsReason bus req what)

/-- The call returns; with a response to it, its result is positive if the response has status 0, and else the
reason of the response is what the result has the client say. -/
def CallFits (bus : Bus D F ρ τ) (msg : CanRequest F) : Prop :=
  ∃ can_stat, bus.blockingCall msg = .ok can_stat ∧ (bus.wasSuccessful = true →
    (bus.getResponse.status = 0 → 0 < can_stat) ∧
    (bus.getResponse.status ≠ 0 →
      (0 < can_stat ∧ '\x00' ∉ bus.getResponse.reason) ∨
      (can_stat ≤ 0 ∧ bus.getResponse.reason = contactError can_stat)))

theorem adaptStatus_eq_ok {n : Nat} : adaptStatus n = "OK".toList ↔ n = 0 := by
  unfold adaptStatus
  split
  · exact iff_of_true rfl rfl
  · exact iff_of_false (by decide) (by omega)
  · rename_i h₀ h₁
    exact iff_of_false (by decide) h₀

/-- With a client and the latch, the reply is that of the client. -/
theorem adcsCommand_eq (hclient : bus.client = true) (hlatch : bus.latch = true) :
    adcsCommand bus req = match adcsClient bus req with
      | .error e => .error e
      | .ok r => if r.status = "OK".toList then .ok (.Ok r) else .ok (.Bad_Request r.reason) := by
  rw [adcsCommand, hclient, hlatch]
  rfl

/-- A request that is not translated is refused. -/
theorem verdict_untranslatable (hclient : bus.client = true) (hlatch : bus.latch = true) {what : Str}
    (h : adaptRequest bus.narrow req = .error what) : Verdict bus req := by
  have hr : adcsCommand bus req = .ok (.Bad_Request (cString what)) := by
    rw [adcsCommand_eq hclient hlatch, adcsClient, h]
    rfl
  have hnot : ¬ Executed bus req := by
    rintro ⟨⟨msg, hm⟩, -⟩
    rw [h] at hm
    cases hm
  rw [Verdict, hr]
  exact ⟨iff_of_false (fun ⟨r, hr⟩ => by cases hr) hnot, fun _ => ⟨cString what, rfl, .untranslatable h⟩⟩

/-- What the reply to a translated request is. -/
theorem adcsCommand_translated (hclient : bus.client = true) (hlatch : bus.latch = true) {msg : CanRequest F}
    (h : adaptRequest bus.narrow req = .ok msg) {can_stat : Int} (hcall : bus.blockingCall msg = .ok can_stat) :
    adcsCommand bus req =
      if can_stat ≤ 0 ∨ ¬ bus.wasSuccessful then .ok (.Bad_Request (contactError can_stat))
      else if bus.getResponse.status = 0 then .ok (.Ok (adaptResponse bus.widen bus.getResponse))
      else .ok (.Bad_Request (adaptResponse bus.widen bus.getResponse).reason) := by
  rw [adcsCommand_eq hclient hlatch, adcsClient, h]
  simp only [hcall]
  by_cases hbad : can_stat ≤ 0 ∨ ¬ bus.wasSuccessful
  · rw [if_pos hbad, if_pos hbad]
    rfl
  · rw [if_neg hbad, if_neg hbad]
    have hstatus : (adaptResponse bus.widen bus.getResponse).status = "OK".toList ↔ bus.getResponse.status = 0 :=
      adaptStatus_eq_ok
    by_cases hs : bus.getResponse.status = 0
    · rw [if_pos hs]
      exact if_pos (hstatus.2 hs)
    · rw [if_neg hs]
      exact if_neg fun h => hs (hstatus.1 h)

/-- **The verdict on a pointing command.** With a client and a free latch the reply is Ok if and only if the request
was translated and a response with status 0 came, and else the refusal has the reason, exactly if every call to
which a response came returned a positive number, and responses with another status give their reason without a zero
byte (or, if the number is not positive, the very text that the client makes of it). -/
theorem adcsCommand_verdict_iff (hclient : bus.client = true) (hlatch : bus.latch = true) :
    Verdict bus req ↔ ∀ msg, adaptRequest bus.narrow req = .ok msg → CallFits bus msg := by
  cases h : adaptRequest bus.narrow req with
  | error what => exact iff_of_true (verdict_untranslatable hclient hlatch h) fun msg hm => by cases hm
  | ok msg =>
    have hall : (∀ m, Except.ok msg = (Except.ok m : Except Str (CanRequest F)) → CallFits bus m) ↔ CallFits bus msg :=
      ⟨fun hf => hf msg rfl, fun hf m hm => by cases hm; exact hf⟩
    rw [hall]
    cases hcall : bus.blockingCall msg with
    | error e =>
      have hr : adcsCommand bus req = .error e := by
        rw [adcsCommand_eq hclient hlatch, adcsClient, h]
        simp only [hcall]
      refine iff_of_false ?_ ?_
      · rintro ⟨hok, hno⟩
        rw [hr] at hok hno
        obtain ⟨what, hw, -⟩ := hno fun he => by
          obtain ⟨r, hr⟩ := hok.2 he
          cases hr
        cases hw
      · rintro ⟨n, hn, -⟩
        rw [hcall] at hn
        cases hn
    | ok can_stat =>
      have hr := adcsCommand_translated hclient hlatch h hcall
      have hfits : CallFits bus msg ↔ (bus.wasSuccessful = true →
          (bus.getResponse.status = 0 → 0 < can_stat) ∧ (bus.getResponse.status ≠ 0 →
            (0 < can_stat ∧ '\x00' ∉ bus.getResponse.reason) ∨
            (can_stat ≤ 0 ∧ bus.getResponse.reason = contactError can_stat))) := by
        constructor
        · rintro ⟨n, hn, hf⟩
          rw [hcall] at hn
          cases hn
          exact hf
        · exact fun hf => ⟨can_stat, hcall, hf⟩
      rw [hfits, Verdict, hr]
      by_cases hsucc : bus.wasSuccessful = true
      · have hreason : ∀ what, bus.getResponse.status ≠ 0 →
            (IsReason bus req what ↔ what = bus.getResponse.reason) := by
          intro what hs
          constructor
          · intro hw
            cases hw with
            | untranslatable he => cases h.symm.trans he
            | silent _ _ hno => cases hno.symm.trans hsucc
            | refused => rfl
          · rintro rfl
            exact .refused h hsucc hs
        by_cases hpos : can_stat ≤ 0
        · rw [if_pos (.inl hpos)]
          by_cases hs : bus.getResponse.status = 0
          · -- the frame was queued and the command executed
            have hex : Executed bus req := ⟨⟨msg, h⟩, hsucc, hs⟩
            refine iff_of_false ?_ ?_
            · rintro ⟨hok, -⟩
              obtain ⟨r, hr⟩ := hok.2 hex
              cases hr
            · intro hf
              have := (hf hsucc).1 hs
              omega
          · have hex : ¬ Executed bus req := fun he => hs he.2.2
            constructor
            · rintro ⟨-, hno⟩ -
              obtain ⟨what, hw, hi⟩ := hno hex
              cases hw
              exact ⟨fun h0 => absurd h0 hs, fun _ => .inr ⟨hpos, ((hreason _ hs).1 hi).symm⟩⟩
            · intro hf
              refine ⟨iff_of_false ?_ hex, fun _ => ⟨_, rfl, (hreason _ hs).2 ?_⟩⟩
              · rintro ⟨r, hr⟩
                cases hr
              · rcases (hf hsucc).2 hs with ⟨hp, -⟩ | ⟨-, he⟩
                · omega
                · exact he.symm
        · rw [if_neg (by simp [hpos, hsucc])]
          by_cases hs : bus.getResponse.status = 0
          · have hex : Executed bus req := ⟨⟨msg, h⟩, hsucc, hs⟩
            rw [if_pos hs]
            refine iff_of_true ⟨iff_of_true ⟨_, rfl⟩ hex, fun hno => absurd hex hno⟩ ?_
            exact fun _ => ⟨fun _ => by omega, fun hne => absurd hs hne⟩
          · have hex : ¬ Executed bus req := fun he => hs he.2.2
            have hcut : (adaptResponse bus.widen bus.getResponse).reason = bus.getResponse.reason ↔
                '\x00' ∉ bus.getResponse.reason := cString_eq_iff
            rw [if_neg hs]
            constructor
            · rintro ⟨-, hno⟩ -
              obtain ⟨what, hw, hi⟩ := hno hex
              cases hw
              exact ⟨fun h0 => absurd h0 hs, fun _ => .inl ⟨by omega, hcut.1 ((hreason _ hs).1 hi)⟩⟩
            · intro hf
              refine ⟨iff_of_false ?_ hex, fun _ => ⟨_, rfl, (hreason _ hs).2 ?_⟩⟩
              · rintro ⟨r, hr⟩
                cases hr
              · rcases (hf hsucc).2 hs with ⟨-, hz⟩ | ⟨hp, -⟩
                · exact hcut.2 hz
                · omega
      · have hno : bus.wasSuccessful = false := by simpa using hsucc
        have hex : ¬ Executed bus req := fun he => hsucc he.2.1
        rw [if_pos (.inr hsucc)]
        refine iff_of_true ⟨iff_of_false ?_ hex, fun _ => ⟨_, rfl, .silent h hcall hno⟩⟩ fun hs => absurd hs hsucc
        rintro ⟨r, hr⟩
        cases hr

end Verdict

namespace Sample

/-- A spacecraft that answers a call with status 0, and puts so many frames on the bus at once. -/
def bus (frames : Int) : Bus Int Int Unit Unit where
  adcs := true
  feed := none
  tfrs := ()
  client := true
  latch := true
  narrow := id
  widen := id
  blockingCall _ := .ok frames
  wasSuccessful := true
  getResponse := { status := 0, reason := [], mode := 9 }

end Sample

/-- A frame that is sent at once. -/
theorem adcsCommand_verdict_iff_sample : Verdict (Sample.bus 1) { command := "IDLE".toList } :=
  (adcsCommand_verdict_iff rfl rfl).2 fun msg _ => ⟨1, rfl, fun _ => ⟨fun _ => by decide, fun hne => absurd rfl hne⟩⟩

/-- A frame that is queued: the command is executed and reported as failed. -/
theorem adcsCommand_queued : Executed (Sample.bus 0) { command := "IDLE".toList } ∧
    (∃ what, adcsCommand (Sample.bus 0) { command := "IDLE".toList } = .ok (.Bad_Request what)) ∧
    ¬ Verdict (Sample.bus 0) { command := "IDLE".toList } := by
  have hex : Executed (Sample.bus 0) { command := "IDLE".toList } := ⟨⟨_, rfl⟩, rfl, rfl⟩
  have hr : adcsCommand (Sample.bus 0) { command := "IDLE".toList } = .ok (.Bad_Request (contactError 0)) := rfl
  refine ⟨hex, ⟨_, hr⟩, ?_⟩
  rintro ⟨hok, -⟩
  obtain ⟨r, hr'⟩ := hok.2 hex
  rw [hr] at hr'
  cases hr'

end OortAgent
