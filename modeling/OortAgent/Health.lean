import OortAgent.Json

/-!
# The health check of the payload (`AgentUAVCANServer.cpp`)

`healthCheckHandler` runs a command and fills a message from its output, a JSON document. `parseHealthcheckResponse`
first validates the document: version, types, and lengths of the arrays; then it stores field after field, element
after element. Nothing looks at the elements before they are converted, and nothing at the size of a number.

* `validate_ok_iff`: what a validated document tells.
* `fill_outcome`: all elements are stored, or those before the first that is neither a number nor a boolean.
* `healthCheck_failed_blank_iff`: when a failed check reports nothing.
* `healthCheck_ok_faithful_iff`: when the message of a successful check has the numbers of the document.
-/

namespace OortAgent

open Lib

/-- The response to a health check request. -/
structure HealthCheckResponse (F : Type) where
  response_code : Nat := 0
  health_state : Nat := 0
  schema_version : Nat := 0
  need_hard_reset : Bool := false
  timestamp : Nat := 0
  imetric_feeds : List Nat := []
  imetric : List Int := []
  fmetric_feeds : List Nat := []
  fmetric : List F := []

/-- What `parseHealthcheckResponse` throws. -/
inductive HealthError
  | json (e : JsonError)
  | runtime_error (what : Str)

/-- The response code that the handler of the exception sets. `json::out_of_range` is only an `std::exception`. -/
def HealthError.code : HealthError → Nat
  | .json .parse_error => 22
  | .json .type_error => 22
  | .json .out_of_range => 52
  | .runtime_error _ => 50

/-! ## Validation -/

/-- An exception of the library. -/
def ofJson {α : Type} : Except JsonError α → Except HealthError α
  | .ok a => .ok a
  | .error e => .error (.json e)

/-- `VALIDATE_ARRAY`. -/
def validateArray (j : Json) (name : Str) : Except HealthError Unit :=
  (ofJson (j.at name)).bind fun v => match v with
    | .array elements =>
      if 255 < elements.length then .error (.runtime_error ("Invalid array size for ".toList ++ name)) else .ok ()
    | _ => .error (.runtime_error ("Invalid type for ".toList ++ name))

/-- `is_number_unsigned`. -/
def Json.isNumberUnsigned : Json → Bool
  | .unsigned _ => true
  | _ => false

/-- `is_boolean`. -/
def Json.isBoolean : Json → Bool
  | .bool _ => true
  | _ => false

/-- The type of a field. -/
def validateType (j : Json) (name : Str) (is : Json → Bool) : Except HealthError Unit :=
  (ofJson (j.at name)).bind fun v =>
    if is v then .ok () else .error (.runtime_error ("Invalid type for ".toList ++ name))

section

variable {F : Type} (lib : JsonLib F)

/-- The first part of `parseHealthcheckResponse`. -/
def validate (j : Json) : Except HealthError Unit := do
  let version ← ofJson (j.at "version".toList)
  let iface_version ← ofJson (version.toInt64 lib)
  if iface_version ≠ 1 then .error (.runtime_error "Invalid version in JSON healthcheck response".toList)
  else do
    validateArray j "int_metrics".toList
    validateArray j "float_metrics".toList
    validateArray j "int_metric_counts".toList
    validateArray j "float_metric_counts".toList
    validateType j "schema_version".toList Json.isNumberUnsigned
    validateType j "payload_timestamp".toList Json.isNumberUnsigned
    validateType j "need_hard_reset".toList Json.isBoolean

/-! ## Filling -/

/-- A statement that changes the response or throws. -/
abbrev Statement (F : Type) := HealthCheckResponse F → Except JsonError (HealthCheckResponse F)

/-- Statements one after the other: the response as they leave it, with the exception if there is one. -/
def runStatements {F : Type} : List (Statement F) → HealthCheckResponse F → HealthCheckResponse F × Option JsonError
  | [], rsp => (rsp, none)
  | st :: rest, rsp => match st rsp with
    | .ok rsp => runStatements rest rsp
    | .error e => (rsp, some e)

/-- The arrays of the response. -/
inductive Slot
  | imetric | imetric_feeds | fmetric | fmetric_feeds

/-- `rsp.imetric.push_back(it)` and the like. -/
def push : Slot → Json → Statement F
  | .imetric, it, rsp => (it.toInt32 lib).map fun v => { rsp with imetric := rsp.imetric ++ [v] }
  | .imetric_feeds, it, rsp => (it.toUInt32 lib).map fun v => { rsp with imetric_feeds := rsp.imetric_feeds ++ [v] }
  | .fmetric, it, rsp => (it.toFloat lib).map fun v => { rsp with fmetric := rsp.fmetric ++ [v] }
  | .fmetric_feeds, it, rsp => (it.toUInt32 lib).map fun v => { rsp with fmetric_feeds := rsp.fmetric_feeds ++ [v] }

/-- The loop over an array of the document. -/
def pushEach (j : Json) (name : Str) (slot : Slot) : List (Statement F) :=
  match j.at name with
  | .ok v => v.items.map (push lib slot)
  | .error e => [fun _ => .error e]

/-- The conversion of a validated boolean. -/
def Json.toBool : Json → Except JsonError Bool
  | .bool b => .ok b
  | _ => .error .type_error

/-- The second part of `parseHealthcheckResponse`. -/
def fill (j : Json) : List (Statement F) :=
  [fun rsp => ((j.at "schema_version".toList).bind (Json.toUInt32 lib)).map fun v => { rsp with schema_version := v },
    fun rsp => ((j.at "payload_timestamp".toList).bind (Json.toUInt32 lib)).map fun v => { rsp with timestamp := v },
    fun rsp => ((j.at "need_hard_reset".toList).bind Json.toBool).map fun v => { rsp with need_hard_reset := v }] ++
  pushEach lib j "int_metrics".toList .imetric ++ pushEach lib j "int_metric_counts".toList .imetric_feeds ++
  pushEach lib j "float_metrics".toList .fmetric ++ pushEach lib j "float_metric_counts".toList .fmetric_feeds

/-- `parseHealthcheckResponse`. -/
def parseHealthcheckResponse (hk_output : Bytes) (rsp : HealthCheckResponse F) :
    HealthCheckResponse F × Option HealthError :=
  match ofJson (lib.parse hk_output) with
  | .error e => (rsp, some e)
  | .ok j => match validate lib j with
    | .error e => (rsp, some e)
    | .ok () => ((runStatements (fill lib j) rsp).1, (runStatements (fill lib j) rsp).2.map HealthError.json)

/-- `healthCheckHandler`, for what `runProcessGetOutput` gives: a status and the output, or a `system_error`. -/
def healthCheckHandler (child : Except (Errno × Str) (Nat × Bytes)) (rsp : HealthCheckResponse F) :
    HealthCheckResponse F :=
  match child with
  | .error _ => { rsp with response_code := 51 }
  | .ok (status, hk_output) =>
    match parseHealthcheckResponse lib hk_output { rsp with health_state := status % 256 } with
    | (rsp, none) => rsp
    | (rsp, some e) => { rsp with response_code := e.code }

end

/-! ## Documents -/

/-- What a document tells. -/
structure HealthReport where
  version : Json
  schema_version : Nat
  payload_timestamp : Nat
  need_hard_reset : Bool
  int_metrics : List Json
  int_metric_counts : List Json
  float_metrics : List Json
  float_metric_counts : List Json

/-- The value is an object with these members. -/
structure Tells (j : Json) (d : HealthReport) : Prop where
  version : j.at "version".toList = .ok d.version
  schema_version : j.at "schema_version".toList = .ok (.unsigned d.schema_version)
  payload_timestamp : j.at "payload_timestamp".toList = .ok (.unsigned d.payload_timestamp)
  need_hard_reset : j.at "need_hard_reset".toList = .ok (.bool d.need_hard_reset)
  int_metrics : j.at "int_metrics".toList = .ok (.array d.int_metrics)
  int_metric_counts : j.at "int_metric_counts".toList = .ok (.array d.int_metric_counts)
  float_metrics : j.at "float_metrics".toList = .ok (.array d.float_metrics)
  float_metric_counts : j.at "float_metric_counts".toList = .ok (.array d.float_metric_counts)

namespace HealthReport

/-- The version is converted to 1, and no array is longer than the message allows. -/
structure Checked {F : Type} (lib : JsonLib F) (d : HealthReport) : Prop where
  version : d.version.toInt64 lib = .ok 1
  int_metrics : d.int_metrics.length ≤ 255
  int_metric_counts : d.int_metric_counts.length ≤ 255
  float_metrics : d.float_metrics.length ≤ 255
  float_metric_counts : d.float_metric_counts.length ≤ 255

/-- The elements in the order in which they are stored. -/
def elements (d : HealthReport) : List Json :=
  d.int_metrics ++ d.int_metric_counts ++ d.float_metrics ++ d.float_metric_counts

/-- The numbers of the document are numbers of the message. -/
structure Fits (d : HealthReport) : Prop where
  version : d.version.number? = some 1
  schema_version : d.schema_version < 4294967296
  payload_timestamp : d.payload_timestamp < 4294967296
  int_metrics : ∀ x ∈ d.int_metrics, x.IsInt32
  int_metric_counts : ∀ x ∈ d.int_metric_counts, x.IsUInt32
  float_metric_counts : ∀ x ∈ d.float_metric_counts, x.IsUInt32

end HealthReport

theorem ofJson_ok_iff {α : Type} {x : Except JsonError α} {a : α} : ofJson x = .ok a ↔ x = .ok a := by
  cases x <;> simp [ofJson]

theorem bind_ok_iff {ε α β : Type} {x : Except ε α} {f : α → Except ε β} {b : β} :
    x.bind f = .ok b ↔ ∃ a, x = .ok a ∧ f a = .ok b := by
  cases x <;> simp [Except.bind]

theorem validateArray_ok_iff {j : Json} {name : Str} :
    validateArray j name = .ok () ↔ ∃ xs, j.at name = .ok (.array xs) ∧ xs.length ≤ 255 := by
  rw [validateArray, bind_ok_iff]
  constructor
  · rintro ⟨v, hv, h⟩
    cases v
    case array xs =>
      refine ⟨xs, ofJson_ok_iff.1 hv, ?_⟩
      by_contra hlen
      dsimp only at h
      rw [if_pos (by omega)] at h
      cases h
    all_goals cases h
  · rintro ⟨xs, hv, hlen⟩
    refine ⟨.array xs, ofJson_ok_iff.2 hv, ?_⟩
    dsimp only
    rw [if_neg (by omega)]

theorem validateType_ok_iff {j : Json} {name : Str} {is : Json → Bool} :
    validateType j name is = .ok () ↔ ∃ v, j.at name = .ok v ∧ is v = true := by
  rw [validateType, bind_ok_iff]
  constructor
  · rintro ⟨v, hv, h⟩
    refine ⟨v, ofJson_ok_iff.1 hv, ?_⟩
    by_contra his
    rw [if_neg his] at h
    cases h
  · rintro ⟨v, hv, his⟩
    exact ⟨v, ofJson_ok_iff.2 hv, if_pos his⟩

theorem isNumberUnsigned_iff {j : Json} : j.isNumberUnsigned = true ↔ ∃ n, j = .unsigned n := by
  cases j <;> simp [Json.isNumberUnsigned]

theorem isBoolean_iff {j : Json} : j.isBoolean = true ↔ ∃ b, j = .bool b := by
  cases j <;> simp [Json.isBoolean]

/-- What a validated document tells. -/
theorem validate_ok_iff {F : Type} {lib : JsonLib F} {j : Json} :
    validate lib j = .ok () ↔ ∃ d, Tells j d ∧ d.Checked lib := by
  constructor
  · intro h
    obtain ⟨version, hv, h⟩ := bind_ok_iff.1 h
    obtain ⟨iface, hi, h⟩ := bind_ok_iff.1 h
    split at h
    · cases h
    rename_i hone
    obtain rfl : iface = 1 := not_not.1 hone
    obtain ⟨_, h₁, h⟩ := bind_ok_iff.1 h
    obtain ⟨_, h₂, h⟩ := bind_ok_iff.1 h
    obtain ⟨_, h₃, h⟩ := bind_ok_iff.1 h
    obtain ⟨_, h₄, h⟩ := bind_ok_iff.1 h
    obtain ⟨_, h₅, h⟩ := bind_ok_iff.1 h
    obtain ⟨_, h₆, h⟩ := bind_ok_iff.1 h
    obtain ⟨im, him, himl⟩ := validateArray_ok_iff.1 h₁
    obtain ⟨fm, hfm, hfml⟩ := validateArray_ok_iff.1 h₂
    obtain ⟨ic, hic, hicl⟩ := validateArray_ok_iff.1 h₃
    obtain ⟨fc, hfc, hfcl⟩ := validateArray_ok_iff.1 h₄
    obtain ⟨sv, hsv, hs⟩ := validateType_ok_iff.1 h₅
    obtain ⟨tv, htv, ht⟩ := validateType_ok_iff.1 h₆
    obtain ⟨rv, hrv, hr⟩ := validateType_ok_iff.1 h
    obtain ⟨s, rfl⟩ := isNumberUnsigned_iff.1 hs
    obtain ⟨t, rfl⟩ := isNumberUnsigned_iff.1 ht
    obtain ⟨r, rfl⟩ := isBoolean_iff.1 hr
    exact ⟨⟨version, s, t, r, im, ic, fm, fc⟩, ⟨ofJson_ok_iff.1 hv, hsv, htv, hrv, him, hic, hfm, hfc⟩,
      ⟨ofJson_ok_iff.1 hi, himl, hicl, hfml, hfcl⟩⟩
  · rintro ⟨d, ht, hc⟩
    refine bind_ok_iff.2 ⟨d.version, ofJson_ok_iff.2 ht.version, bind_ok_iff.2 ⟨1, ofJson_ok_iff.2 hc.version, ?_⟩⟩
    rw [if_neg (by simp)]
    refine bind_ok_iff.2 ⟨(), validateArray_ok_iff.2 ⟨_, ht.int_metrics, hc.int_metrics⟩, ?_⟩
    refine bind_ok_iff.2 ⟨(), validateArray_ok_iff.2 ⟨_, ht.float_metrics, hc.float_metrics⟩, ?_⟩
    refine bind_ok_iff.2 ⟨(), validateArray_ok_iff.2 ⟨_, ht.int_metric_counts, hc.int_metric_counts⟩, ?_⟩
    refine bind_ok_iff.2 ⟨(), validateArray_ok_iff.2 ⟨_, ht.float_metric_counts, hc.float_metric_counts⟩, ?_⟩
    refine bind_ok_iff.2 ⟨(), validateType_ok_iff.2 ⟨_, ht.schema_version, rfl⟩, ?_⟩
    refine bind_ok_iff.2 ⟨(), validateType_ok_iff.2 ⟨_, ht.payload_timestamp, rfl⟩, ?_⟩
    exact validateType_ok_iff.2 ⟨_, ht.need_hard_reset, rfl⟩

/-! ## Stored elements -/

section Filling

variable {F : Type} {lib : JsonLib F} {rsp rsp' : HealthCheckResponse F}

/-- How many elements are stored. -/
def HealthCheckResponse.stored (rsp : HealthCheckResponse F) : Nat :=
  rsp.imetric.length + rsp.imetric_feeds.length + rsp.fmetric.length + rsp.fmetric_feeds.length

/-- The fields that are no arrays are the same. -/
def SameScalars (rsp rsp' : HealthCheckResponse F) : Prop :=
  rsp'.response_code = rsp.response_code ∧ rsp'.schema_version = rsp.schema_version ∧ rsp'.timestamp = rsp.timestamp ∧
    rsp'.need_hard_reset = rsp.need_hard_reset

/-- Storing an element: it is a number or a boolean and there is one element more, or a `type_error` is thrown. -/
theorem push_cases (lib : JsonLib F) (slot : Slot) (x : Json) (rsp : HealthCheckResponse F) :
    (x.converts = true ∧ ∃ rsp', push lib slot x rsp = .ok rsp' ∧ rsp'.stored = rsp.stored + 1 ∧ SameScalars rsp rsp') ∨
    (x.converts = false ∧ push lib slot x rsp = .error .type_error) := by
  cases slot <;> cases x
  all_goals
    first
    | exact .inl ⟨rfl, _, rfl, by simp [HealthCheckResponse.stored]; try omega, rfl, rfl, rfl, rfl⟩
    | exact .inr ⟨rfl, rfl⟩

/-- Elements in a row: all of them are stored, or those before the first that is neither a number nor a boolean. -/
theorem run_pushes (lib : JsonLib F) : ∀ (ps : List (Slot × Json)) (rsp : HealthCheckResponse F),
    ((∀ p ∈ ps, p.2.converts = true) ∧ (runStatements (ps.map fun p => push lib p.1 p.2) rsp).2 = none ∧
      SameScalars rsp (runStatements (ps.map fun p => push lib p.1 p.2) rsp).1) ∨
    ∃ pre p post rsp', ps = pre ++ p :: post ∧ (∀ q ∈ pre, q.2.converts = true) ∧ p.2.converts = false ∧
      runStatements (ps.map fun p => push lib p.1 p.2) rsp = (rsp', some .type_error) ∧
      rsp'.stored = rsp.stored + pre.length ∧ SameScalars rsp rsp'
  | [], rsp => .inl ⟨fun p hp => (by cases hp), rfl, rfl, rfl, rfl, rfl⟩
  | p :: ps, rsp => by
    rcases push_cases lib p.1 p.2 rsp with ⟨hp, rsp₁, hpush, hcount, hsame⟩ | ⟨hp, hpush⟩
    · have hstep : runStatements ((p :: ps).map fun p => push lib p.1 p.2) rsp =
          runStatements (ps.map fun p => push lib p.1 p.2) rsp₁ := by
        simp only [List.map_cons, runStatements, hpush]
      rw [hstep]
      obtain ⟨h₁, h₂, h₃, h₄⟩ := hsame
      rcases run_pushes lib ps rsp₁ with ⟨hall, hnone, k₁, k₂, k₃, k₄⟩ |
        ⟨pre, q, post, rsp', rfl, hpre, hq, hrun, hst, k₁, k₂, k₃, k₄⟩
      · refine .inl ⟨?_, hnone, k₁.trans h₁, k₂.trans h₂, k₃.trans h₃, k₄.trans h₄⟩
        intro q hq
        rcases List.mem_cons.1 hq with rfl | hq
        · exact hp
        · exact hall q hq
      · refine .inr ⟨p :: pre, q, post, rsp', rfl, ?_, hq, hrun, ?_, k₁.trans h₁, k₂.trans h₂, k₃.trans h₃, k₄.trans h₄⟩
        · intro r hr
          rcases List.mem_cons.1 hr with rfl | hr
          · exact hp
          · exact hpre r hr
        · rw [hst, hcount, List.length_cons]
          omega
    · refine .inr ⟨[], p, ps, rsp, rfl, fun q hq => (by cases hq), hp, ?_, rfl, rfl, rfl, rfl, rfl⟩
      simp only [List.map_cons, runStatements, hpush]

theorem runStatements_append : ∀ (xs ys : List (Statement F)) (rsp : HealthCheckResponse F),
    (runStatements xs rsp).2 = none → runStatements (xs ++ ys) rsp = runStatements ys (runStatements xs rsp).1
  | [], _, _, _ => rfl
  | st :: xs, ys, rsp, h => by
    rw [List.cons_append]
    cases hst : st rsp with
    | error e => simp [runStatements, hst] at h
    | ok rsp₁ =>
      simp only [runStatements, hst] at h ⊢
      exact runStatements_append xs ys rsp₁ h

/-- A loop whose elements are all converted. -/
theorem run_block {α : Type} {conv : Json → Except JsonError α} {st : Json → Statement F}
    (add : HealthCheckResponse F → List α → HealthCheckResponse F)
    (hst : ∀ x rsp v, conv x = .ok v → st x rsp = .ok (add rsp [v])) (hnil : ∀ rsp, add rsp [] = rsp)
    (hadd : ∀ rsp us vs, add (add rsp us) vs = add rsp (us ++ vs)) :
    ∀ {xs : List Json} {vs : List α} (rsp : HealthCheckResponse F), xs.map conv = vs.map .ok →
      runStatements (xs.map st) rsp = (add rsp vs, none)
  | [], [], rsp, _ => by rw [hnil]; rfl
  | [], _ :: _, _, h => by cases h
  | _ :: _, [], _, h => by cases h
  | x :: xs, v :: vs, rsp, h => by
    obtain ⟨hx, hxs⟩ := List.cons.inj h
    simp only [List.map_cons, runStatements, hst x rsp v hx]
    rw [run_block add hst hnil hadd (add rsp [v]) hxs, hadd]
    rfl

/-- The values of elements that are all converted. -/
theorem converted {α : Type} (conv : Json → Except JsonError α)
    (hconv : ∀ x, (∃ v, conv x = .ok v) ↔ x.converts = true) :
    ∀ {xs : List Json}, (∀ x ∈ xs, x.converts = true) → ∃ vs : List α, xs.map conv = vs.map .ok
  | [], _ => ⟨[], rfl⟩
  | x :: xs, h => by
    obtain ⟨v, hv⟩ := (hconv x).2 (h x (List.mem_cons_self ..))
    obtain ⟨vs, hvs⟩ := converted conv hconv fun y hy => h y (List.mem_cons_of_mem _ hy)
    exact ⟨v :: vs, by rw [List.map_cons, List.map_cons, hv, hvs]⟩

/-- Converted elements keep their values exactly if each of them is a number of the type. -/
theorem kept_iff {α : Type} {conv : Json → Except JsonError α} (val : α → ℚ) {P : Json → Prop}
    (hval : ∀ x v, conv x = .ok v → (some (val v) = x.number? ↔ P x)) :
    ∀ {xs : List Json} {vs : List α}, xs.map conv = vs.map .ok →
      (vs.map (fun v => some (val v)) = xs.map Json.number? ↔ ∀ x ∈ xs, P x)
  | [], [], _ => iff_of_true rfl fun x hx => by cases hx
  | [], _ :: _, h => by cases h
  | _ :: _, [], h => by cases h
  | x :: xs, v :: vs, h => by
    obtain ⟨hx, hxs⟩ := List.cons.inj h
    rw [List.map_cons, List.map_cons, List.cons.injEq, hval x v hx, kept_iff val hval hxs, List.forall_mem_cons]

/-! ## The message -/

/-- The elements with their arrays. -/
def HealthReport.pushes (d : HealthReport) : List (Slot × Json) :=
  d.int_metrics.map (Slot.imetric, ·) ++ d.int_metric_counts.map (Slot.imetric_feeds, ·) ++
    d.float_metrics.map (Slot.fmetric, ·) ++ d.float_metric_counts.map (Slot.fmetric_feeds, ·)

/-- The fields that are stored before the elements. -/
def HealthReport.scalars (d : HealthReport) (rsp : HealthCheckResponse F) : HealthCheckResponse F :=
  { rsp with
    schema_version := d.schema_version % 4294967296
    timestamp := d.payload_timestamp % 4294967296
    need_hard_reset := d.need_hard_reset }

variable {j : Json} {d : HealthReport}

theorem pushes_elements : d.pushes.map Prod.snd = d.elements := by
  simp [HealthReport.pushes, HealthReport.elements, Function.comp_def]

/-- The statements that store a document. -/
theorem run_fill (ht : Tells j d) :
    runStatements (fill lib j) rsp = runStatements (d.pushes.map fun p => push lib p.1 p.2) (d.scalars rsp) := by
  have hloop : ∀ {name : Str} {slot : Slot} {xs : List Json}, j.at name = .ok (.array xs) →
      pushEach lib j name slot = (xs.map (slot, ·)).map fun p => push lib p.1 p.2 := by
    intro name slot xs hx
    rw [pushEach, hx, List.map_map]
    rfl
  rw [fill, hloop ht.int_metrics, hloop ht.int_metric_counts, hloop ht.float_metrics, hloop ht.float_metric_counts,
    List.append_assoc, List.append_assoc, List.append_assoc]
  simp only [List.cons_append, List.nil_append, runStatements, ht.schema_version, ht.payload_timestamp,
    ht.need_hard_reset,
    Except.bind, Except.map, Json.toUInt32, Json.toBool]
  simp only [HealthReport.pushes, List.map_append, List.append_assoc]
  rfl

/-- All elements are stored. -/
theorem run_converted (lib : JsonLib F) (rsp : HealthCheckResponse F) (h : ∀ x ∈ d.elements, x.converts = true) :
    ∃ im ic fm fc, d.int_metrics.map (Json.toInt32 lib) = im.map .ok ∧
      d.int_metric_counts.map (Json.toUInt32 lib) = ic.map .ok ∧ d.float_metrics.map (Json.toFloat lib) = fm.map .ok ∧
      d.float_metric_counts.map (Json.toUInt32 lib) = fc.map .ok ∧
      runStatements (d.pushes.map fun p => push lib p.1 p.2) rsp =
        ({ rsp with
            imetric := rsp.imetric ++ im
            imetric_feeds := rsp.imetric_feeds ++ ic
            fmetric := rsp.fmetric ++ fm
            fmetric_feeds := rsp.fmetric_feeds ++ fc }, none) := by
  simp only [HealthReport.elements, List.mem_append] at h
  obtain ⟨im, him⟩ := converted (Json.toInt32 lib) (fun _ => Json.toInt32_ok_iff) fun x hx =>
    h x (.inl (.inl (.inl hx)))
  obtain ⟨ic, hic⟩ := converted (Json.toUInt32 lib) (fun _ => Json.toUInt32_ok_iff) fun x hx =>
    h x (.inl (.inl (.inr hx)))
  obtain ⟨fm, hfm⟩ := converted (Json.toFloat lib) (fun _ => Json.toFloat_ok_iff) fun x hx => h x (.inl (.inr hx))
  obtain ⟨fc, hfc⟩ := converted (Json.toUInt32 lib) (fun _ => Json.toUInt32_ok_iff) fun x hx => h x (.inr hx)
  refine ⟨im, ic, fm, fc, him, hic, hfm, hfc, ?_⟩
  have b₁ : ∀ rsp : HealthCheckResponse F, runStatements (d.int_metrics.map (push lib .imetric)) rsp =
      ({ rsp with imetric := rsp.imetric ++ im }, none) := by
    intro rsp
    refine run_block (fun rsp vs => { rsp with imetric := rsp.imetric ++ vs }) ?_ ?_ ?_ rsp him
    · intro x rsp v hv
      simp only [push, hv, Except.map]
    · simp
    · simp
  have b₂ : ∀ rsp : HealthCheckResponse F, runStatements (d.int_metric_counts.map (push lib .imetric_feeds)) rsp =
      ({ rsp with imetric_feeds := rsp.imetric_feeds ++ ic }, none) := by
    intro rsp
    refine run_block (fun rsp vs => { rsp with imetric_feeds := rsp.imetric_feeds ++ vs }) ?_ ?_ ?_ rsp hic
    · intro x rsp v hv
      simp only [push, hv, Except.map]
    · simp
    · simp
  have b₃ : ∀ rsp : HealthCheckResponse F, runStatements (d.float_metrics.map (push lib .fmetric)) rsp =
      ({ rsp with fmetric := rsp.fmetric ++ fm }, none) := by
    intro rsp
    refine run_block (fun rsp vs => { rsp with fmetric := rsp.fmetric ++ vs }) ?_ ?_ ?_ rsp hfm
    · intro x rsp v hv
      simp only [push, hv, Except.map]
    · simp
    · simp
  have b₄ : ∀ rsp : HealthCheckResponse F, runStatements (d.float_metric_counts.map (push lib .fmetric_feeds)) rsp =
      ({ rsp with fmetric_feeds := rsp.fmetric_feeds ++ fc }, none) := by
    intro rsp
    refine run_block (fun rsp vs => { rsp with fmetric_feeds := rsp.fmetric_feeds ++ vs }) ?_ ?_ ?_ rsp hfc
    · intro x rsp v hv
      simp only [push, hv, Except.map]
    · simp
    · simp
  have hmap : d.pushes.map (fun p => push lib p.1 p.2) = d.int_metrics.map (push lib .imetric) ++
      (d.int_metric_counts.map (push lib .imetric_feeds) ++ (d.float_metrics.map (push lib .fmetric) ++
        d.float_metric_counts.map (push lib .fmetric_feeds))) := by
    simp only [HealthReport.pushes, List.map_append, List.map_map, List.append_assoc]
    rfl
  rw [hmap, runStatements_append _ _ _ (by rw [b₁]), b₁, runStatements_append _ _ _ (by rw [b₂]), b₂,
    runStatements_append _ _ _ (by rw [b₃]), b₃, b₄]

/-- The members of a document are what they are. -/
theorem Tells.unique {d' : HealthReport} (h : Tells j d) (h' : Tells j d') : d = d' := by
  obtain ⟨v, s, t, r, im, ic, fm, fc⟩ := d
  obtain ⟨v', s', t', r', im', ic', fm', fc'⟩ := d'
  obtain ⟨h₁, h₂, h₃, h₄, h₅, h₆, h₇, h₈⟩ := h
  obtain ⟨k₁, k₂, k₃, k₄, k₅, k₆, k₇, k₈⟩ := h'
  obtain rfl := Except.ok.inj (h₁.symm.trans k₁)
  obtain rfl := Json.unsigned.inj (Except.ok.inj (h₂.symm.trans k₂))
  obtain rfl := Json.unsigned.inj (Except.ok.inj (h₃.symm.trans k₃))
  obtain rfl := Json.bool.inj (Except.ok.inj (h₄.symm.trans k₄))
  obtain rfl := Json.array.inj (Except.ok.inj (h₅.symm.trans k₅))
  obtain rfl := Json.array.inj (Except.ok.inj (h₆.symm.trans k₆))
  obtain rfl := Json.array.inj (Except.ok.inj (h₇.symm.trans k₇))
  obtain rfl := Json.array.inj (Except.ok.inj (h₈.symm.trans k₈))
  rfl

/-- The output of the command is a document that tells this. -/
def Told (lib : JsonLib F) (child : Except (Errno × Str) (Nat × Bytes)) (d : HealthReport) : Prop :=
  ∃ status output j, child = .ok (status, output) ∧ lib.parse output = .ok j ∧ Tells j d

/-- The output of the command is a document that passes the validation. -/
structure Accepted (lib : JsonLib F) (child : Except (Errno × Str) (Nat × Bytes)) (d : HealthReport) : Prop where
  told : Told lib child d
  checked : d.Checked lib

/-- No field that the payload fills was changed. -/
structure Blank (rsp : HealthCheckResponse F) : Prop where
  schema_version : rsp.schema_version = 0
  timestamp : rsp.timestamp = 0
  need_hard_reset : rsp.need_hard_reset = false
  imetric : rsp.imetric = []
  imetric_feeds : rsp.imetric_feeds = []
  fmetric : rsp.fmetric = []
  fmetric_feeds : rsp.fmetric_feeds = []

theorem blank_iff : Blank rsp ↔
    rsp.schema_version = 0 ∧ rsp.timestamp = 0 ∧ rsp.need_hard_reset = false ∧ rsp.stored = 0 := by
  constructor
  · rintro ⟨h₁, h₂, h₃, h₄, h₅, h₆, h₇⟩
    exact ⟨h₁, h₂, h₃, by simp [HealthCheckResponse.stored, h₄, h₅, h₆, h₇]⟩
  · rintro ⟨h₁, h₂, h₃, h₄⟩
    unfold HealthCheckResponse.stored at h₄
    exact ⟨h₁, h₂, h₃, List.eq_nil_of_length_eq_zero (by omega), List.eq_nil_of_length_eq_zero (by omega),
      List.eq_nil_of_length_eq_zero (by omega), List.eq_nil_of_length_eq_zero (by omega)⟩

variable {child : Except (Errno × Str) (Nat × Bytes)}

theorem Told.unique {d' : HealthReport} (h : Told lib child d) (h' : Told lib child d') : d = d' := by
  obtain ⟨s, out, j, hc, hp, ht⟩ := h
  obtain ⟨s', out', j', hc', hp', ht'⟩ := h'
  rw [hc] at hc'
  cases hc'
  rw [hp] at hp'
  cases hp'
  exact ht.unique ht'

theorem HealthError.code_ne (e : HealthError) : e.code ≠ 0 := by
  cases e with
  | json e => cases e <;> decide
  | runtime_error what =>
    show (50 : Nat) ≠ 0
    decide

/-- A document that is not accepted leaves nothing. -/
theorem handler_refused (h : ¬ ∃ d, Accepted lib child d) :
    (healthCheckHandler lib child {}).response_code ≠ 0 ∧ Blank (healthCheckHandler lib child {}) := by
  suffices he : ∃ status code, code ≠ 0 ∧ healthCheckHandler lib child {} =
      { response_code := code, health_state := status } by
    obtain ⟨status, code, hcode, he⟩ := he
    rw [he]
    exact ⟨hcode, rfl, rfl, rfl, rfl, rfl, rfl, rfl⟩
  cases hc : child with
  | error e => exact ⟨0, 51, by decide, rfl⟩
  | ok r =>
    obtain ⟨status, output⟩ := r
    simp only [healthCheckHandler, parseHealthcheckResponse]
    cases hp : lib.parse output with
    | error e => exact ⟨status % 256, _, HealthError.code_ne (.json e), rfl⟩
    | ok j =>
      cases hv : validate lib j with
      | error e => exact ⟨status % 256, _, HealthError.code_ne e, by simp only [ofJson, hv]⟩
      | ok u =>
        obtain ⟨d, ht, hck⟩ := validate_ok_iff.1 hv
        exact absurd ⟨d, ⟨status, output, j, hc, hp, ht⟩, hck⟩ h

/-- What the handler does with an accepted document. -/
theorem handler_accepted (h : Accepted lib child d) :
    ∃ status, healthCheckHandler lib child {} =
      match runStatements (d.pushes.map fun p => push lib p.1 p.2) (d.scalars { health_state := status }) with
      | (rsp, none) => rsp
      | (rsp, some e) => { rsp with response_code := (HealthError.json e).code } := by
  obtain ⟨status, output, j, hc, hp, ht⟩ := h.told
  refine ⟨status % 256, ?_⟩
  rw [← run_fill ht, hc]
  simp only [healthCheckHandler, parseHealthcheckResponse, hp, ofJson, validate_ok_iff.2 ⟨d, ht, h.checked⟩]
  generalize runStatements (fill lib j) { health_state := status % 256 } = r
  obtain ⟨rsp, e⟩ := r
  cases e <;> rfl

/-- The first element that is neither a number nor a boolean is the very first, and the fields before it are zero. -/
def HealthReport.FailsFirst (d : HealthReport) : Prop :=
  d.schema_version % 4294967296 = 0 ∧ d.payload_timestamp % 4294967296 = 0 ∧ d.need_hard_reset = false ∧
    ∃ x, d.elements.head? = some x ∧ x.converts = false

/-- An accepted document: everything is stored and the code is 0, or something is left out and the code is 22. -/
theorem fill_outcome (h : Accepted lib child d) :
    ((∀ x ∈ d.elements, x.converts = true) ∧ (healthCheckHandler lib child {}).response_code = 0) ∨
    (¬ (∀ x ∈ d.elements, x.converts = true) ∧ (healthCheckHandler lib child {}).response_code = 22 ∧
      (Blank (healthCheckHandler lib child {}) ↔ d.FailsFirst)) := by
  obtain ⟨status, hh⟩ := handler_accepted h
  rw [hh]
  have helements : ∀ {ps : List (Slot × Json)}, (∀ p ∈ ps, p.2.converts = true) ↔
      ∀ x ∈ ps.map Prod.snd, x.converts = true := by
    intro ps
    constructor
    · intro h x hx
      obtain ⟨p, hp, rfl⟩ := List.mem_map.1 hx
      exact h p hp
    · intro h p hp
      exact h p.2 (List.mem_map_of_mem hp)
  rcases run_pushes lib d.pushes (d.scalars { health_state := status }) with ⟨hall, hnone, hsame⟩ |
    ⟨pre, p, post, rsp', hps, hpre, hp, hrun, hst, hcode, hs, ht, hr⟩
  · left
    rw [helements, pushes_elements] at hall
    refine ⟨hall, ?_⟩
    generalize runStatements (d.pushes.map fun p => push lib p.1 p.2) (d.scalars { health_state := status }) = r at *
    obtain ⟨rsp, e⟩ := r
    cases hnone
    exact hsame.1
  · right
    have hel : d.elements = pre.map Prod.snd ++ p.2 :: post.map Prod.snd := by
      rw [← pushes_elements, hps, List.map_append, List.map_cons]
    refine ⟨?_, ?_, ?_⟩
    · intro hall
      rw [hall p.2 (by rw [hel]; simp)] at hp
      cases hp
    · rw [hrun]
      rfl
    · rw [hrun, blank_iff]
      show rsp'.schema_version = 0 ∧ rsp'.timestamp = 0 ∧ rsp'.need_hard_reset = false ∧ rsp'.stored = 0 ↔ _
      rw [hs, ht, hr, hst, HealthReport.FailsFirst, hel]
      have hzero : (d.scalars { health_state := status } : HealthCheckResponse F).stored = 0 := rfl
      rw [hzero, Nat.zero_add]
      refine and_congr Iff.rfl (and_congr Iff.rfl (and_congr Iff.rfl ?_))
      cases pre with
      | nil => exact iff_of_true rfl ⟨p.2, rfl, hp⟩
      | cons q pre =>
        refine iff_of_false (by simp) ?_
        rintro ⟨x, hx, hxc⟩
        obtain rfl : q.2 = x := Option.some.inj hx
        rw [hpre q (List.mem_cons_self ..)] at hxc
        cases hxc

/-- The message has the numbers of the document. -/
structure Faithful (rsp : HealthCheckResponse F) (d : HealthReport) : Prop where
  version : d.version.number? = some 1
  schema_version : rsp.schema_version = d.schema_version
  timestamp : rsp.timestamp = d.payload_timestamp
  need_hard_reset : rsp.need_hard_reset = d.need_hard_reset
  imetric : rsp.imetric.map (fun v : Int => some (v : ℚ)) = d.int_metrics.map Json.number?
  imetric_feeds : rsp.imetric_feeds.map (fun v : Nat => some (v : ℚ)) = d.int_metric_counts.map Json.number?
  fmetric_feeds : rsp.fmetric_feeds.map (fun v : Nat => some (v : ℚ)) = d.float_metric_counts.map Json.number?
  fmetric : rsp.fmetric.length = d.float_metrics.length

/-- The message of a document whose elements are all stored. -/
theorem faithful_iff (h : Accepted lib child d) (hall : ∀ x ∈ d.elements, x.converts = true) :
    Faithful (healthCheckHandler lib child {}) d ↔ d.Fits := by
  obtain ⟨status, hh⟩ := handler_accepted h
  obtain ⟨im, ic, fm, fc, him, hic, hfm, hfc, hrun⟩ :=
    run_converted lib (d.scalars { health_state := status }) hall
  rw [hh, hrun]
  have hi := kept_iff (fun v : Int => (v : ℚ)) (fun _ _ hv => Json.toInt32_eq hv) him
  have hic' := kept_iff (fun v : Nat => (v : ℚ)) (fun _ _ hv => Json.toUInt32_eq hv) hic
  have hfc' := kept_iff (fun v : Nat => (v : ℚ)) (fun _ _ hv => Json.toUInt32_eq hv) hfc
  have hlen : fm.length = d.float_metrics.length := by
    simpa using (congrArg List.length hfm).symm
  constructor
  · rintro ⟨hv, hs, ht, -, h₁, h₂, h₃, -⟩
    refine ⟨hv, ?_, ?_, hi.1 h₁, hic'.1 h₂, hfc'.1 h₃⟩
    · have : d.schema_version % 4294967296 = d.schema_version := hs
      omega
    · have : d.payload_timestamp % 4294967296 = d.payload_timestamp := ht
      omega
  · rintro ⟨hv, hs, ht, h₁, h₂, h₃⟩
    exact ⟨hv, Nat.mod_eq_of_lt hs, Nat.mod_eq_of_lt ht, rfl, hi.2 h₁, hic'.2 h₂, hfc'.2 h₃, hlen⟩

end Filling

/-- **A failed health check.** For every output of the command, a check that ends with an error leaves all metrics
at their defaults if and only if the document is not accepted, or all its elements are numbers or booleans, or
already the first is not and the schema version, the timestamp and the reset flag are zero themselves. -/
theorem healthCheck_failed_blank_iff {F : Type} (lib : JsonLib F) (child : Except (Errno × Str) (Nat × Bytes)) :
    ((healthCheckHandler lib child {}).response_code ≠ 0 → Blank (healthCheckHandler lib child {})) ↔
      ∀ d, Accepted lib child d → (∀ x ∈ d.elements, x.converts = true) ∨ d.FailsFirst := by
  by_cases hex : ∃ d, Accepted lib child d
  · obtain ⟨d, hd⟩ := hex
    rcases fill_outcome hd with ⟨hall, hcode⟩ | ⟨hnall, hcode, hblank⟩
    · refine iff_of_true (fun hne => absurd hcode hne) ?_
      intro d' hd'
      rw [← hd.told.unique hd'.told]
      exact .inl hall
    · constructor
      · intro h d' hd'
        rw [← hd.told.unique hd'.told]
        exact .inr (hblank.1 (h (by rw [hcode]; decide)))
      · intro h _
        exact hblank.2 ((h d hd).resolve_left hnall)
  · exact iff_of_true (fun _ => (handler_refused hex).2) fun d hd => absurd ⟨d, hd⟩ hex

namespace Sample

/-- A document with these metrics. -/
def healthDocument (schema_version : Nat) (int_metrics : List Json) : Json :=
  .object [("version".toList, .unsigned 1), ("schema_version".toList, .unsigned schema_version),
    ("payload_timestamp".toList, .unsigned 1628760852), ("need_hard_reset".toList, .bool false),
    ("int_metrics".toList, .array int_metrics), ("int_metric_counts".toList, .array [.unsigned 4, .unsigned 5]),
    ("float_metrics".toList, .array []), ("float_metric_counts".toList, .array [])]

/-- Its text. -/
def healthText (schema_version int_metrics : String) : Bytes :=
  ("\x7b\"version\":1,\"schema_version\":" ++ schema_version ++ ",\"payload_timestamp\":1628760852," ++
    "\"need_hard_reset\":false,\"int_metrics\":" ++ int_metrics ++ ",\"int_metric_counts\":[4,5]," ++
    "\"float_metrics\":[],\"float_metric_counts\":[]\x7d").toUTF8.toList

/-- The library as far as it reads this text. -/
def jsonLib (text : Bytes) (j : Json) : JsonLib ℚ where
  parse t := if t = text then .ok j else .error .parse_error
  undefinedCast _ := -9223372036854775808
  toFloat x := x

/-- What the handler makes of a document. -/
def healthCheck (text : Bytes) (j : Json) : HealthCheckResponse ℚ :=
  healthCheckHandler (jsonLib text j) (.ok (0, text)) {}

theorem healthCheck_eq (text : Bytes) (j : Json) : healthCheck text j =
    healthCheckHandler { jsonLib text j with parse := fun _ => .ok j } (.ok (0, text)) {} := by
  show healthCheckHandler (jsonLib text j) _ _ = _
  simp only [healthCheckHandler, parseHealthcheckResponse, jsonLib, if_true]
  rfl

end Sample

/-- `[1,"x"]`: the check fails, and the response has the first metric and the fields before it. -/
theorem healthCheck_failed_reports :
    let rsp :=
  Sample.healthCheck (Sample.healthText "1" "[1,\"x\"]") (Sample.healthDocument 1 [.unsigned 1, .string "x".toList])
    rsp.response_code = 22 ∧ rsp.schema_version = 1 ∧ rsp.timestamp = 1628760852 ∧ rsp.imetric = [1] ∧ ¬ Blank rsp := by
  have hr : Sample.healthCheck (Sample.healthText "1" "[1,\"x\"]")
      (Sample.healthDocument 1 [.unsigned 1, .string "x".toList]) =
      { response_code := 22, schema_version := 1, timestamp := 1628760852, imetric := [1] } := by
    rw [Sample.healthCheck_eq]
    rfl
  rw [hr]
  refine ⟨rfl, rfl, rfl, rfl, ?_⟩
  intro h
  cases h.imetric

/-- **A successful health check.** For every output of the command, a check that ends without an error has told the
numbers of a document with the version 1 if and only if the accepted document, where all its elements are numbers or
booleans, has that version itself and only numbers that the fields hold. -/
theorem healthCheck_ok_faithful_iff {F : Type} (lib : JsonLib F) (child : Except (Errno × Str) (Nat × Bytes)) :
    ((healthCheckHandler lib child {}).response_code = 0 →
        ∃ d, Told lib child d ∧ Faithful (healthCheckHandler lib child {}) d) ↔
      ∀ d, Accepted lib child d → (∀ x ∈ d.elements, x.converts = true) → d.Fits := by
  by_cases hex : ∃ d, Accepted lib child d
  · obtain ⟨d, hd⟩ := hex
    constructor
    · intro h d' hd' hall
      obtain rfl := hd.told.unique hd'.told
      rcases fill_outcome hd with ⟨-, hcode⟩ | ⟨hnall, -, -⟩
      · obtain ⟨d', ht, hf⟩ := h hcode
        obtain rfl := hd.told.unique ht
        exact (faithful_iff hd hall).1 hf
      · exact absurd hall hnall
    · intro h hcode
      rcases fill_outcome hd with ⟨hall, -⟩ | ⟨-, hcode', -⟩
      · exact ⟨d, hd.told, (faithful_iff hd hall).2 (h d hd hall)⟩
      · rw [hcode'] at hcode
        cases hcode
  · exact iff_of_true (fun hcode => absurd hcode (handler_refused hex).1) fun d hd => absurd ⟨d, hd⟩ hex

/-- `[4294967297,true]` is reported as two metrics of 1, and the schema version 4294967298 as 2. -/
theorem healthCheck_ok_unfaithful :
    let text := Sample.healthText "4294967298" "[4294967297,true]"
    let j := Sample.healthDocument 4294967298 [.unsigned 4294967297, .bool true]
    let rsp := Sample.healthCheck text j
    rsp.response_code = 0 ∧ rsp.schema_version = 2 ∧ rsp.imetric = [1, 1] ∧
      ¬ ∃ d, Told (Sample.jsonLib text j) (.ok (0, text)) d ∧ Faithful rsp d := by
  intro text j rsp
  have hr : rsp = { schema_version := 2, timestamp := 1628760852, imetric := [1, 1], imetric_feeds := [4, 5] } := by
    show Sample.healthCheck text j = _
    rw [Sample.healthCheck_eq]
    rfl
  rw [hr]
  refine ⟨rfl, rfl, rfl, ?_⟩
  rintro ⟨d, ⟨status, output, j', hc, hp, ht⟩, hf⟩
  have hj : j = j' := by
    cases hc
    exact Except.ok.inj ((if_pos rfl).symm.trans hp)
  subst hj
  have hs : (2 : Nat) = d.schema_version := hf.schema_version
  have hd : 4294967298 = d.schema_version := Json.unsigned.inj (Except.ok.inj ht.schema_version)
  omega

end OortAgent
