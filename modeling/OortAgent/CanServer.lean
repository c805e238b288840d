import OortAgent.Lib.Always

/-!
# The CAN server (`AgentUAVCANServer.cpp`)

`serverTask` makes a node and three services from it, and lets the node spin. When all interfaces are down it drops
them, and tries every half second to make them anew, until it is stopped. Each object is known here by the number of
the node that it was created from. Making a node replaces the one that is held; a service that was created from that
one is left with a node that is gone.

* `always_serverTask`: what every step of the task keeps.
* `serverTask_survives`: no exception leaves the task, and no service outlives its node, where creations fail only
  in places that allow for it.
-/

namespace OortAgent.CanServer

open Lib

/-- The exceptions of the driver; the second is a subclass of the first. -/
inductive ServerExn
  | Exception
  | AllIfacesDownException
  deriving DecidableEq

/-- The objects that are created from a node. -/
inductive Service
  | health_srv | adcs_sub | tfrs_sub
  deriving DecidableEq

/-- Where an object is created: before the loop of the task, or in its handler. -/
inductive Place
  | start | reconnect
  deriving DecidableEq

/-- The operations of the task. -/
inductive ServerCall
  | makeNode (p : Place)
  | makeService (p : Place) (sv : Service)
  | spin
  | sleep
  | resetService (sv : Service)
  | resetNode
  | running
  deriving DecidableEq

/-- Their answers. -/
abbrev ServerCall.Res : ServerCall → Type
  | .makeNode _ => Except ServerExn Unit
  | .makeService _ _ => Except ServerExn Unit
  | .spin => Except ServerExn Unit
  | .sleep => Unit
  | .resetService _ => Unit
  | .resetNode => Unit
  | .running => Bool

abbrev Calls : Sig := ⟨ServerCall, ServerCall.Res⟩

/-- A part of the task. -/
abbrev Prog (α : Type) := Proc Calls ServerExn α

/-- The server: its node, the node that each live service was created from, how many nodes were made, and whether
the thread is to run. -/
structure Server where
  node : Option Nat := none
  services : Service → Option Nat := fun _ => none
  made : Nat := 0
  thread_running : Bool := true

/-- What the environment decides: whether the operation fails and with which exception, and whether the server is
stopped before it. -/
structure Choice where
  fails : Option ServerExn := none
  stops : Bool := false

/-- An operation, on a server that may have been stopped. -/
def exec (c : ServerCall) (ch : Choice) (s : Server) : Option (c.Res × Server) :=
  let s := { s with thread_running := s.thread_running && !ch.stops }
  match c with
  | .makeNode _ => match ch.fails with
    | some e => some (.error e, s)
    | none => some (.ok (), { s with node := some s.made, made := s.made + 1 })
  | .makeService _ sv => match ch.fails with
    | some e => some (.error e, s)
    | none =>
      if s.node = none then none
      else some (.ok (), { s with services := fun sv' => if sv' = sv then s.node else s.services sv' })
  | .spin => match ch.fails with
    | some _ => some (.error .AllIfacesDownException, s)
    | none => some (.ok (), s)
  | .sleep => some ((), s)
  | .resetService sv => some ((), { s with services := fun sv' => if sv' = sv then none else s.services sv' })
  | .resetNode => some ((), { s with node := none })
  | .running => some (s.thread_running, s)

abbrev Machine : Sem Calls Server Choice := ⟨exec⟩

/-- An operation that was made, with its answer. -/
abbrev Ev := Event Calls Choice

/-! ## The task -/

/-- An answer or an exception. -/
def orThrow : Except ServerExn Unit → Prog Unit
  | .ok () => return ()
  | .error e => .throw e

/-- `initNode`. -/
def initNode (p : Place) : Prog Unit := do
  let r ← Proc.call (S := Calls) (.makeNode p)
  orThrow r

/-- The creation of one service. -/
def addService (p : Place) (sv : Service) : Prog Unit := do
  let r ← Proc.call (S := Calls) (.makeService p sv)
  orThrow r

/-- `addServices`. -/
def addServices (p : Place) : Prog Unit := do
  addService p .health_srv
  addService p .adcs_sub
  addService p .tfrs_sub

/-- `resetServices`. -/
def resetServices : Prog Unit := do
  Proc.call (S := Calls) (.resetService .health_srv)
  Proc.call (S := Calls) (.resetService .adcs_sub)
  Proc.call (S := Calls) (.resetService .tfrs_sub)
  Proc.call (S := Calls) .resetNode

/-- One round of the loop in the handler; the handler in it catches both exceptions. -/
def reconnectRound (_ : Unit) : Prog (Unit ⊕ Unit) := do
  if ← Proc.call (S := Calls) .running then
    Proc.call (S := Calls) .sleep
    Proc.handle (do
      initNode .reconnect
      addServices .reconnect
      return .inr ()) fun _ => return .inl ()
  else return .inr ()

/-- One round of the loop of the task. -/
def serverRound (fuel : Nat) (_ : Unit) : Prog (Unit ⊕ Unit) := do
  if ← Proc.call (S := Calls) .running then
    Proc.handle (do
      let r ← Proc.call (S := Calls) .spin
      orThrow r) fun
      | .AllIfacesDownException => do
        resetServices
        Proc.loop fuel reconnectRound ()
      | .Exception => .throw .Exception
    return .inl ()
  else return .inr ()

/-- `serverTask`. -/
def serverTask (fuel : Nat) : Prog Unit := do
  initNode .start
  addServices .start
  Proc.loop fuel (serverRound fuel) ()
  resetServices

/-! ## Nodes and services -/

/-- Every live service was created from the node that is held. -/
def Owned (s : Server) : Prop := ∀ sv i, s.services sv = some i → s.node = some i

/-- No service is live. -/
def Idle (s : Server) : Prop := ∀ sv, s.services sv = none

/-- The creation before the loop. -/
def ServerCall.atStart : ServerCall → Bool
  | .makeNode .start => true
  | .makeService .start _ => true
  | _ => false

/-- The operation makes a node. -/
def ServerCall.makes : ServerCall → Bool
  | .makeNode _ => true
  | _ => false

/-- The step is one that the task allows for: a node is made while no service is live, and a creation before the
loop fails only if the server is stopped. -/
def Fits (s : Server) (e : Ev) : Prop :=
  (e.call.makes = true → e.choice.fails = none → Idle s) ∧
  (e.call.atStart = true → e.choice.fails ≠ none → s.thread_running = false ∨ e.choice.stops = true)

section Steps

variable {s s' : Server} {ch : Choice} {p : Place} {sv : Service}

theorem Idle.owned (h : Idle s) : Owned s := by
  intro sv i hi
  rw [h sv] at hi
  cases hi

/-- How a creation ends: with an exception before the loop, the server is stopped. -/
def Made (p : Place) (o : Outcome ServerExn Unit) (s : Server) : Prop :=
  Owned s ∧ ∀ e, o = .throw e → p = .start → s.thread_running = false

/-- A creation that fails, where it may. -/
theorem made_throw {e : ServerExn} {c : ServerCall} (h : Owned s) (hc : p = .start → c.atStart = true)
    (hfail : ch.fails ≠ none) (hfit : c.atStart = true → ch.fails ≠ none → s.thread_running = false ∨ ch.stops = true) :
    Made p (.throw e) { s with thread_running := s.thread_running && !ch.stops } := by
  refine ⟨h, fun _ _ hp => ?_⟩
  show (s.thread_running && !ch.stops) = false
  rcases hfit (hc hp) hfail with hr | hr
  · rw [hr, Bool.false_and]
  · rw [hr, Bool.not_true, Bool.and_false]

theorem always_initNode (h : Owned s) : Always Machine Fits Owned (initNode p) s (Made p) := by
  intro ch r s' he hfit
  cases hf : ch.fails with
  | some e =>
    have hx : exec (.makeNode p) ch s =
        some (.error e, { s with thread_running := s.thread_running && !ch.stops }) := by
      simp only [exec, hf]
    cases hx.symm.trans he
    exact ⟨h, made_throw h (fun hp => by rw [hp]; rfl) (by rw [hf]; exact Option.some_ne_none e) hfit.2⟩
  | none =>
    have hx : exec (.makeNode p) ch s = some (.ok (),
        { s with thread_running := s.thread_running && !ch.stops, node := some s.made, made := s.made + 1 }) := by
      simp only [exec, hf]
    cases hx.symm.trans he
    have hidle : Idle s := hfit.1 rfl hf
    exact ⟨Idle.owned hidle, Idle.owned hidle, fun e ho => by cases ho⟩

theorem always_addService (h : Owned s) : Always Machine Fits Owned (addService p sv) s (Made p) := by
  intro ch r s' he hfit
  cases hf : ch.fails with
  | some e =>
    have hx : exec (.makeService p sv) ch s =
        some (.error e, { s with thread_running := s.thread_running && !ch.stops }) := by
      simp only [exec, hf]
    cases hx.symm.trans he
    exact ⟨h, made_throw h (fun hp => by rw [hp]; rfl) (by rw [hf]; exact Option.some_ne_none e) hfit.2⟩
  | none =>
    by_cases hn : s.node = none
    · have hx : exec (.makeService p sv) ch s = none := by
        simp only [exec, hf, if_pos hn]
      cases hx.symm.trans he
    · have hx : exec (.makeService p sv) ch s = some (.ok (),
          { s with
            thread_running := s.thread_running && !ch.stops
            services := fun sv' => if sv' = sv then s.node else s.services sv' }) := by
        simp only [exec, hf, if_neg hn]
      cases hx.symm.trans he
      have hown : Owned { s with
          thread_running := s.thread_running && !ch.stops
          services := fun sv' => if sv' = sv then s.node else s.services sv' } := by
        intro sv' i hi
        dsimp only at hi ⊢
        split at hi
        · exact hi
        · exact h sv' i hi
      exact ⟨hown, hown, fun e ho => by cases ho⟩

/-- A part of the creation after another. -/
theorem Made.bind {q : Prog Unit} {f : Unit → Prog Unit} (hq : Always Machine Fits Owned q s (Made p))
    (hf : ∀ s, Owned s → Always Machine Fits Owned (f ()) s (Made p)) :
    Always Machine Fits Owned (q.bind f) s (Made p) := by
  refine Always.bind (hq.mono fun o s' ho => ?_)
  cases o with
  | ret a => exact hf s' ho.1
  | throw e => exact ⟨ho.1, fun e' _ => ho.2 e rfl⟩
  | stop x => trivial

theorem always_addServices (h : Owned s) : Always Machine Fits Owned (addServices p) s (Made p) :=
  Made.bind (always_addService h) fun _ h => Made.bind (always_addService h) fun _ h => always_addService h

/-- `resetServices` drops the services before the node. -/
theorem always_resetServices (h : Owned s) :
    Always Machine Fits Owned resetServices s fun o s' => o = .ret () ∧ Idle s' := by
  intro ch₁ r₁ s₁ he₁ _
  cases he₁
  have h₁ : ∀ {s : Server} {sv : Service} {b : Bool}, Owned s →
      Owned { s with thread_running := b, services := fun sv' => if sv' = sv then none else s.services sv' } := by
    intro s sv b hs sv' i hi
    dsimp only at hi ⊢
    split at hi
    · cases hi
    · exact hs sv' i hi
  refine ⟨h₁ h, ?_⟩
  intro ch₂ r₂ s₂ he₂ _
  cases he₂
  refine ⟨h₁ (h₁ h), ?_⟩
  intro ch₃ r₃ s₃ he₃ _
  cases he₃
  refine ⟨h₁ (h₁ (h₁ h)), ?_⟩
  intro ch₄ r₄ s₄ he₄ _
  cases he₄
  have hidle : ∀ sv, (if sv = Service.tfrs_sub then none else if sv = Service.adcs_sub then none
      else if sv = Service.health_srv then none else s.services sv) = none := by
    intro sv
    cases sv <;> rfl
  exact ⟨Idle.owned hidle, rfl, hidle⟩

/-- How a round of a loop ends. -/
def Kept (o : Outcome ServerExn (Unit ⊕ Unit)) (s : Server) : Prop := Owned s ∧ ∀ e, o ≠ .throw e

/-- An operation that touches neither the node nor the services. -/
theorem always_running {f : Bool → Prog (Unit ⊕ Unit)} (h : Owned s)
    (ht : ∀ s, Owned s → Always Machine Fits Owned (f true) s Kept)
    (hn : ∀ s, Owned s → Always Machine Fits Owned (f false) s Kept) :
    Always Machine Fits Owned ((Proc.call (S := Calls) .running).bind f) s Kept := by
  intro ch r s' he _
  cases he
  refine ⟨h, ?_⟩
  show Always Machine Fits Owned (f (s.thread_running && !ch.stops)) _ Kept
  cases s.thread_running && !ch.stops with
  | true => exact ht _ h
  | false => exact hn _ h

/-- A round in the handler: an attempt that fails is caught. -/
theorem always_reconnectRound (h : Owned s) : Always Machine Fits Owned (reconnectRound ()) s Kept := by
  refine always_running h (fun s h => ?_) fun s h => ⟨h, fun e ho => by cases ho⟩
  intro ch r s' he _
  cases he
  have h₁ : Owned { s with thread_running := s.thread_running && !ch.stops } := h
  refine ⟨h₁, Always.handle (Always.bind ((always_initNode h₁).mono fun o s' ho => ?_))⟩
  cases o with
  | ret a =>
    refine Always.bind ((always_addServices ho.1).mono fun o s' ho => ?_)
    cases o with
    | ret a => exact ⟨ho.1, fun e ho => by cases ho⟩
    | throw e => exact ⟨ho.1, fun e ho => by cases ho⟩
    | stop x => trivial
  | throw e => exact ⟨ho.1, fun e ho => by cases ho⟩
  | stop x => trivial

/-- A round of the task: the exception of the node is handled. -/
theorem always_serverRound (n : Nat) (h : Owned s) : Always Machine Fits Owned (serverRound n ()) s Kept := by
  refine always_running h (fun s h => ?_) fun s h => ⟨h, fun e ho => by cases ho⟩
  refine Always.bind (Always.mono (Q := fun o s => Owned s ∧ ∀ e, o ≠ .throw e) ?_ (Always.handle ?_))
  · intro o s' ho
    cases o with
    | ret a => exact ⟨ho.1, fun e ho => by cases ho⟩
    | throw e => exact absurd rfl (ho.2 e)
    | stop x => trivial
  · intro ch r s' he _
    cases hf : ch.fails with
    | none =>
      have hx : exec .spin ch s = some (.ok (), { s with thread_running := s.thread_running && !ch.stops }) := by
        simp only [exec, hf]
      cases hx.symm.trans he
      exact ⟨h, h, fun e ho => by cases ho⟩
    | some e =>
      have hx : exec .spin ch s =
          some (.error .AllIfacesDownException, { s with thread_running := s.thread_running && !ch.stops }) := by
        simp only [exec, hf]
      cases hx.symm.trans he
      have h₁ : Owned { s with thread_running := s.thread_running && !ch.stops } := h
      refine ⟨h₁, ?_⟩
      show Always Machine Fits Owned (resetServices.bind fun _ => Proc.loop n reconnectRound ()) _ _
      refine Always.bind ((always_resetServices h₁).mono fun o s' ho => ?_)
      obtain ⟨rfl, hidle⟩ := ho
      refine Always.loop (J := fun _ s => Owned s) (fun _ s hs => ?_) n () s' (Idle.owned hidle)
      refine (always_reconnectRound hs).mono fun o s' ho => ?_
      cases o with
      | ret a => cases a with
        | inl b => exact ho.1
        | inr c => exact ⟨ho.1, fun e ho => by cases ho⟩
      | throw e => exact absurd rfl (ho.2 e)
      | stop x => trivial

/-- The task: services are those of the node that is held, and an exception leaves only a server that is stopped. -/
theorem always_serverTask (n : Nat) (h : Owned s) : Always Machine Fits Owned (serverTask n) s (Made .start) := by
  refine Made.bind (always_initNode h) fun s h => Made.bind (always_addServices h) fun s h => ?_
  refine Always.bind (Always.loop (J := fun _ s => Owned s) (fun _ s hs => ?_) n () s h)
  refine (always_serverRound n hs).mono fun o s' ho => ?_
  cases o with
  | ret a => cases a with
    | inl b => exact ho.1
    | inr c =>
      refine (always_resetServices ho.1).mono fun o s' ho => ?_
      exact ⟨Idle.owned ho.2, fun e he => by rw [ho.1] at he; cases he⟩
  | throw e => exact absurd rfl (ho.2 e)
  | stop x => trivial

end Steps

/-- **The CAN server.** On the way of the task of a new server, where a node is made only while no service is live
and the creations before the loop fail only once the server is stopped: every live service was created from the node
that is held, and no exception leaves the task while the thread is to run. -/
theorem serverTask_survives {n : Nat} {p' : Prog Unit} {s' : Server} {tr : List Ev}
    (h : Reach Machine Fits (serverTask n) {} tr p' s') :
    Owned s' ∧ ∀ e, p' = .throw e → s'.thread_running = false := by
  have hidle : Idle ({} : Server) := fun _ => rfl
  obtain ⟨hown, hrest⟩ := h.always (Idle.owned hidle) (always_serverTask n (Idle.owned hidle))
  refine ⟨hown, ?_⟩
  rintro e rfl
  exact hrest.2 e rfl rfl

/-! ## Runs with given choices -/

/-- The test of `Fits`. -/
def fitsTest (s : Server) (e : Ev) : Bool :=
  (!(e.call.makes && e.choice.fails.isNone) ||
    (s.services .health_srv).isNone && (s.services .adcs_sub).isNone && (s.services .tfrs_sub).isNone) &&
  (!(e.call.atStart && e.choice.fails.isSome) || !s.thread_running || e.choice.stops)

theorem fitsTest_sound {s : Server} {e : Ev} (h : fitsTest s e = true) : Fits s e := by
  obtain ⟨hidle, hstart⟩ := Bool.and_eq_true_iff.1 h
  constructor
  · intro hm hf
    rw [hm, hf, Option.isNone_none, Bool.and_self, Bool.not_true, Bool.false_or] at hidle
    simp only [Bool.and_eq_true, Option.isNone_iff_eq_none] at hidle
    intro sv
    cases sv with
    | health_srv => exact hidle.1.1
    | adcs_sub => exact hidle.1.2
    | tfrs_sub => exact hidle.2
  · intro hs hf
    rw [hs, Option.isSome_iff_ne_none.2 hf, Bool.and_self, Bool.not_true, Bool.false_or] at hstart
    rcases Bool.or_eq_true_iff.1 hstart with hr | hr
    · exact .inl (Bool.not_eq_true' _ ▸ hr)
    · exact .inr hr

/-- Nothing happens. -/
def Choice.calm : Choice := {}

/-- The operation fails. -/
def Choice.down : Choice := { fails := some .Exception }

/-- The task is started, the interface goes down, the node cannot be made at first, and the server is stopped later. -/
def Sample.outage : List Choice :=
  List.replicate 5 Choice.calm ++ Choice.down ::
    (List.replicate 6 Choice.calm ++ Choice.down :: (List.replicate 8 Choice.calm ++
    [{ stops := true }]))

/-- The task is started, the interface goes down, and the creations fail behind the first service; then a node is
made. -/
def Sample.halfway : List Choice :=
  List.replicate 5 Choice.calm ++ Choice.down ::
    (List.replicate 8 Choice.calm ++ Choice.down :: List.replicate 3 Choice.calm)

/-- An outage that ends, seen when the server was told to stop. -/
theorem serverTask_survives_sample : ∃ tr p' s', Reach Machine Fits (serverTask 3) {} tr p' s' ∧
    s'.made = 2 ∧ s'.services .tfrs_sub = some 1 ∧ Owned s' ∧ ∀ e, p' = .throw e → s'.thread_running = false := by
  have h : (walk? Machine fitsTest (serverTask 3) Sample.outage {}).map
      (fun x => (x.2.2.made, x.2.2.services .tfrs_sub)) =
      some (2, some 1) := by decide +kernel
  obtain ⟨⟨tr, p', s'⟩, hx, he⟩ := Option.map_eq_some_iff.1 h
  have hr : Reach Machine Fits (serverTask 3) {} tr p' s' := walk?_sound (fun _ _ => fitsTest_sound) hx
  exact ⟨tr, p', s', hr, congrArg Prod.fst he, congrArg Prod.snd he, serverTask_survives hr⟩

/-- With the interface down from the start the exception leaves the task; and after creations that failed behind the
first service, that service outlives its node. -/
theorem serverTask_fails :
    (∃ tr s', Reach Machine (fun _ _ => True) (serverTask 3) {} tr (.throw .Exception) s' ∧ s'.thread_running = true) ∧
    ∃ tr p' s', Reach Machine (fun _ _ => True) (serverTask 3) {} tr p' s' ∧ ¬ Owned s' := by
  constructor
  · exact ⟨_, _, .step .down (Except.error ServerExn.Exception : Except ServerExn Unit) rfl trivial (.nil _ _), rfl⟩
  · have h : (walk? Machine (fun _ _ => true) (serverTask 3) Sample.halfway {}).map
        (fun x => (x.2.2.services .health_srv, x.2.2.node)) = some (some 1, some 2) := by decide +kernel
    obtain ⟨⟨tr, p', s'⟩, hx, he⟩ := Option.map_eq_some_iff.1 h
    refine ⟨tr, p', s', walk?_sound (fun _ _ _ => trivial) hx, fun hown => ?_⟩
    have hnode : s'.node = some 1 := hown .health_srv 1 (congrArg Prod.fst he)
    rw [show s'.node = some 2 from congrArg Prod.snd he] at hnode
    cases hnode

end OortAgent.CanServer
