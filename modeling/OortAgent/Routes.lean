import OortAgent.Adcs
import OortAgent.Agent

/-!
# Routes (`SdkApiRouter.cpp`, `CollectorApiRouter.cpp`, `RouterUtil.h`)

A request of HTTP to one of the routes of the agent, as a program: the method is checked, the body parsed, the
agent's method called, and its response written as JSON (`deliverResponse`). Writing throws if a text is not
well-formed UTF-8.

The parsers of the bodies are a parameter (`Wire`): an error stands for a `json::exception`.
-/

namespace OortAgent

open Lib

/-- The methods that the routes tell apart. -/
inductive Method
  | GET
  | POST
  | other
  deriving DecidableEq

/-- The routes, with the parts of the path that the agent uses. -/
inductive Route
  | query_available_files (topic : Str)
  | send_file
  | retrieve_file
  | adcs
  | tfrs
  | ping
  | info
  | metainfo (uuid : Str)

/-- A request; there may be no body. -/
structure HttpRequest where
  route : Route
  method : Method
  body : Option Bytes := none

/-- `json::parse` and `from_json` for the bodies of requests. -/
structure Wire (D : Type) where
  send : Bytes → Except Str SendFileRequest
  retrieve : Bytes → Except Str RetrieveFileRequest
  adcs : Bytes → Except Str (AdcsCommandRequest D)
  info : Bytes → Except Str InfoRequest

/-- What the agent's methods return. -/
inductive Result (D ρ τ : Type)
  | query (r : AvailableFilesResponse)
  | send (id : Str)
  | retrieve (fi : FileInfo)
  | adcs (r : AdcsResponse ρ)
  | command (r : AdcsCommandResponse D)
  | tfrs (r : τ)
  | ping (response : Str)
  | info (r : InfoResponse)
  | metainfo (tm : TransferMeta)

/-- The codes of the answers. -/
inductive Status
  | OK
  | BAD_REQUEST
  | METHOD_NOT_ALLOWED
  deriving DecidableEq

/-- An answer: a result or an error in JSON, a body that could not be parsed, or a method that is not allowed. -/
inductive HttpReply (D ρ τ : Type)
  | result (r : Result D ρ τ)
  | error (message : Str)
  | unparsed (what : Str)
  | badMethod

/-- Its code. -/
def HttpReply.code {D ρ τ : Type} : HttpReply D ρ τ → Status
  | .result _ => .OK
  | .error _ => .BAD_REQUEST
  | .unparsed _ => .BAD_REQUEST
  | .badMethod => .METHOD_NOT_ALLOWED

/-! ## The texts of a result -/

def SystemInfo.texts (s : SystemInfo) : List Str :=
  [s.version, s.build, s.workdir, s.uploads, s.agentUpgrades, s.dead, s.username, s.nodename, s.machine]

def InfoResponse.texts (r : InfoResponse) : List Str := r.sysinfo.texts ++ r.topics ++ r.files ++ r.dead

section Routes

variable {D F ρ τ : Type}

/-- The texts that are written for a result. -/
def Result.texts : Result D ρ τ → List Str
  | .query r => r.files.flatMap FileInfo.texts
  | .send id => [id]
  | .retrieve fi => fi.texts
  | .adcs r => [r.mode, r.acsModeActive, r.acsModeCmd]
  | .command r => [r.status, r.reason, r.mode]
  | .tfrs _ => []
  | .ping response => [response]
  | .info r => r.texts
  | .metainfo tm => tm.texts

/-- A response with another result. -/
def Response.map {α β : Type} (f : α → β) : Response α → Response β
  | .Ok a => .Ok (f a)
  | .Bad_Request message => .Bad_Request message

/-! ## Reading and writing -/

/-- `json::dump`: every text has to be well-formed UTF-8. -/
def dump (texts : List Str) : Prog Unit := if texts.all utf8 then return () else .throw notUtf8

/-- `deliverResponse`. -/
def deliverResponse : Response (Result D ρ τ) → Prog (HttpReply D ρ τ)
  | .Ok r => do
    dump r.texts
    return .result r
  | .Bad_Request message => do
    dump [message]
    return .error message

/-- `GetPostData`: without a body the request keeps its default. -/
def getPostData {α : Type} (parse : Bytes → Except Str α) (var : α) : Option Bytes → Prog α
  | none => return var
  | some data => match parse data with
    | .ok req => return req
    | .error what => .throw (.json what)

/-- `ParseRequest`: `GetPostData`, with a `json::exception` answered at once. -/
def parseRequest {α : Type} (parse : Bytes → Except Str α) (var : α) (body : Option Bytes)
    (handler : α → Prog (HttpReply D ρ τ)) : Prog (HttpReply D ρ τ) := do
  let parsed ← (do
    let req ← getPostData parse var body
    return .inr req : Prog (Str ⊕ α)).handle fun e => match e with
      | .json what => return .inl what
      | e => .throw e
  match parsed with
  | .inl what => return .unparsed what
  | .inr req => handler req

/-- `CheckMethod`. -/
def checkMethod (req : HttpRequest) (method : Method) (handler : Prog (HttpReply D ρ τ)) : Prog (HttpReply D ρ τ) :=
  if req.method ≠ method then return .badMethod else handler

/-- A method of the agent that makes no calls. -/
def answer {α : Type} : Except Exn α → Prog α
  | .ok a => return a
  | .error e => .throw e

/-! ## The handlers -/

/-- The handler of a route. -/
def route (env : Env) (wire : Wire D) (bus : Bus D F ρ τ) (req : HttpRequest) : Prog (HttpReply D ρ τ) :=
  match req.route with
  | .query_available_files topic => checkMethod req .GET do
    deliverResponse ((← queryAvailable env topic).map .query)
  | .send_file => checkMethod req .POST <| parseRequest wire.send ⟨[], [], [], {}⟩ req.body fun sreq => do
    deliverResponse ((← sendFile env sreq).map .send)
  | .retrieve_file => checkMethod req .POST <| parseRequest wire.retrieve ⟨[], []⟩ req.body fun rreq => do
    deliverResponse ((← retrieveFile env rreq).map .retrieve)
  | .adcs => match req.method with
    | .GET => deliverResponse ((adcsGet bus).map .adcs)
    | .POST => parseRequest wire.adcs {} req.body fun areq => do
      deliverResponse ((← answer (adcsCommand bus areq)).map .command)
    | .other => return .badMethod
  | .tfrs => checkMethod req .GET <| deliverResponse ((tfrsGet bus).map .tfrs)
  | .ping => checkMethod req .GET <| deliverResponse (.Ok (.ping "PONG".toList))
  | .info => checkMethod req .POST do
    let ireq ← getPostData wire.info {} req.body
    deliverResponse ((← collectorInfo env ireq).map .info)
  | .metainfo uuid => checkMethod req .GET do
    deliverResponse ((← metaRequest env uuid).map .metainfo)

end Routes

end OortAgent
