import CBank.Answers
import CBank.CLib.Runs
import CBank.IdSafety

/-!
# Runs of the Server

The process from an empty directory: `setup_stores` in `main`, then one pass of the loop in
`start` after the other, whatever the clients send. It may be stopped between two file operations
and started again. A pass leaves the responses it sent.

Of all requests only one writes: the POST of a registration whose body is parsed, which calls
`make_new_user`. So a run of the server is a session of start-ups and registrations, and the other
requests between them are not seen in the stores.

## Main results

* `passResponses_silent`, `passResponses_registers`: what a pass does to the stores.
* `server_refines_session`: a run of the server refines a session.
-/

namespace CBank

open CLib

/-! ### Passes and the stores -/

/-- The payload a pass registers, if it does. -/
def registration (e : PassEnv) (received : Received) : Option CreateUserDTO := do
  let (handler, req) ← calledHandler e received
  if handler = .handleRegisterAccount ∧ req.method = lit "POST" then registerPayload req else none

/-- The response to a registration that got as far as `make_new_user`. -/
def registerAnswer (result : MakeNewUserResponse) : HttpResponse :=
  sentResponse (if result.success then (true, makeResFirstLine .zero .noContent)
    else (false, addBody (makeResFirstLine .zero .badRequest) result.message))

/-- The status of the response says whether the user was created. -/
theorem registerAnswer_statusCode (result : MakeNewUserResponse) :
    (registerAnswer result).statusCode = 302 ↔ result.success = true := by
  have hcreated : (sentResponse (true, makeResFirstLine .zero .noContent)).statusCode = 302 := rfl
  have hrejected : (sentResponse (false, addBody (makeResFirstLine .zero .badRequest)
      result.message)).statusCode = 400 := rfl
  rw [registerAnswer]
  cases result.success with
  | true => simpa using hcreated
  | false => simp [hrejected]

variable {e : PassEnv} {received : Received} {d : Disk} {payload : CreateUserDTO}

/-- What a handler does to the stores: nothing, unless it gets a POST of a registration. -/
theorem ops_runHandler {env : HandlerEnv} {req : HttpRequest} {res : HttpResponse}
    {handler : Handler} (h : ¬ (handler = .handleRegisterAccount ∧ req.method = lit "POST")) :
    (runHandler env req res handler).ops d = [] := by
  cases handler with
  | handleRegisterAccount =>
      rw [runHandler, handleRegisterAcocunt]
      split
      · rfl
      · rename_i hget
        rw [if_neg fun hpost => h ⟨rfl, hpost⟩]
        rfl
  | _ => rfl

/-- A POST of a registration whose body is not parsed, or overruns the payload, is not seen in the
stores. -/
theorem ops_handleRegister_of_none {env : HandlerEnv} {req : HttpRequest} {res : HttpResponse}
    (hpost : req.method = lit "POST") (h : registerPayload req = none) :
    (handleRegisterAcocunt env req res).ops d = [] := by
  rw [handleRegisterAcocunt, if_neg (by rw [hpost]; decide), if_pos hpost, Proc.ops_bind_pure,
    handlePOSTRegisterAccount]
  rw [registerPayload] at h
  cases hparsed : parseRegisterBody req with
  | none => exact Proc.ops_bind_of_none rfl _
  | some parsed =>
      rw [hparsed] at h
      have hread : (Proc.read fun _ => some parsed : Proc Disk FileOp _).result d =
          some parsed := rfl
      rw [Proc.ops_read_bind hread]
      cases parsed with
      | none => rfl
      | some schema =>
          have hdto : (Proc.read fun _ => userDtoFromRegisterAccSchema schema :
              Proc Disk FileOp _).result d = none := by
            rw [Proc.result_read]
            simpa using h
          exact Proc.ops_read_bind_none hdto _

/-- A POST of a registration whose body is parsed calls `make_new_user`. -/
theorem handleRegister_of_some {env : HandlerEnv} {req : HttpRequest}
    (hpost : req.method = lit "POST") (h : registerPayload req = some payload) :
    (handleRegisterAcocunt env req .zero).ops d =
        (makeNewUser env.crypt env.callEnv payload).ops d ∧
      (handleRegisterAcocunt env req .zero).result d =
        ((makeNewUser env.crypt env.callEnv payload).result d).map fun r => [registerAnswer r] := by
  obtain ⟨parsed, hparsed, h⟩ := Option.bind_eq_some_iff.mp h
  cases parsed with
  | none => simp at h
  | some schema =>
      have hread : (Proc.read fun _ => parseRegisterBody req : Proc Disk FileOp _).result d =
          some (some schema) := hparsed
      have hdto : (Proc.read fun _ => userDtoFromRegisterAccSchema schema :
          Proc Disk FileOp _).result d = some payload := h
      rw [handleRegisterAcocunt, if_neg (by rw [hpost]; decide), if_pos hpost, Proc.ops_bind_pure,
        Proc.result_bind_pure, handlePOSTRegisterAccount, Proc.ops_read_bind hread,
        Proc.result_read_bind hread]
      simp only
      rw [Proc.ops_read_bind hdto, Proc.result_read_bind hdto, Proc.result_bind]
      constructor
      · refine Proc.ops_bind_of_silent _ (fun result s => ?_) _
        split
        · rfl
        · rfl
      · cases (makeNewUser env.crypt env.callEnv payload).result d with
        | none => rfl
        | some result =>
            rw [Option.bind_some, Option.map_some, registerAnswer]
            split
            · rfl
            · rfl

/-- The responses of a pass that calls a handler. -/
theorem passResponses_of_called {handler : Handler} {req : HttpRequest}
    (h : calledHandler e received = some (handler, req)) :
    (passResponses e received).ops d = (runHandler e.handlerEnv req .zero handler).ops d ∧
      (passResponses e received).result d =
        (runHandler e.handlerEnv req .zero handler).result d := by
  obtain ⟨parsed, hparsed, h⟩ := Option.bind_eq_some_iff.mp h
  have hread : (Proc.read fun _ => parseRequest e.lineScratch received :
      Proc Disk FileOp _).result d = some parsed := hparsed
  rw [passResponses, Proc.ops_read_bind hread, Proc.result_read_bind hread]
  cases hpass : (startPass routeRegistry e.middlewareEnv parsed).outcome with
  | handled handler' req' res =>
      obtain rfl := startPass_handled_zero hpass
      rw [hpass] at h
      obtain ⟨rfl, rfl⟩ := Prod.mk.inj (Option.some.inj h)
      exact ⟨rfl, rfl⟩
  | _ => rw [hpass] at h; simp at h

/-- A pass that calls no handler is not seen in the stores. -/
theorem ops_passResponses_of_none (h : calledHandler e received = none) :
    (passResponses e received).ops d = [] := by
  rw [passResponses]
  cases hparsed : parseRequest e.lineScratch received with
  | none => exact Proc.ops_bind_of_none rfl _
  | some parsed =>
      have hread : (Proc.read fun _ => some parsed : Proc Disk FileOp _).result d =
          some parsed := rfl
      rw [Proc.ops_read_bind hread]
      rw [calledHandler, hparsed] at h
      cases hpass : (startPass routeRegistry e.middlewareEnv parsed).outcome with
      | handled handler req res => simp [hpass] at h
      | _ => rfl

/-- **A pass that registers nobody is not seen in the stores.** -/
theorem passResponses_silent (h : registration e received = none) :
    (passResponses e received).ops d = [] := by
  cases hcalled : calledHandler e received with
  | none => exact ops_passResponses_of_none hcalled
  | some called =>
      obtain ⟨handler, req⟩ := called
      rw [(passResponses_of_called hcalled).1]
      rw [registration, hcalled] at h
      by_cases hpost : handler = .handleRegisterAccount ∧ req.method = lit "POST"
      · have hnone : registerPayload req = none := by simpa [hpost] using h
        obtain ⟨rfl, hmethod⟩ := hpost
        exact ops_handleRegister_of_none hmethod hnone
      · exact ops_runHandler hpost

/-- **A pass that registers calls `make_new_user`**, and answers with its result. -/
theorem passResponses_registers (h : registration e received = some payload) :
    (passResponses e received).ops d =
        (makeNewUser e.handlerEnv.crypt e.handlerEnv.callEnv payload).ops d ∧
      (passResponses e received).result d =
        ((makeNewUser e.handlerEnv.crypt e.handlerEnv.callEnv payload).result d).map
          fun r => [registerAnswer r] := by
  obtain ⟨⟨handler, req⟩, hcalled, h⟩ := Option.bind_eq_some_iff.mp h
  obtain ⟨⟨hhandler, hmethod⟩, hpayload⟩ :
      (handler = .handleRegisterAccount ∧ req.method = lit "POST") ∧
        registerPayload req = some payload := by
    simpa using h
  subst hhandler
  obtain ⟨hops, hresult⟩ := @passResponses_of_called e received d _ _ hcalled
  rw [hops, hresult]
  exact handleRegister_of_some hmethod hpayload

/-! ### Runs -/

/-- What the process does next: a start-up, or a pass for the bytes that were read. -/
inductive ServerEvent
  | startUp
  | serve (e : PassEnv) (received : Received)

/-- What it does then, and the responses it sends. -/
def ServerEvent.proc : ServerEvent → Proc Disk FileOp (List HttpResponse)
  | .startUp => do
      setupStores
      pure []
  | .serve e received => passResponses e received

/-- The payload an event registers. -/
def ServerEvent.registers : ServerEvent → Option CreateUserDTO
  | .startUp => none
  | .serve e received => registration e received

/-- The event can write to the stores. -/
def ServerEvent.writes : ServerEvent → Bool
  | .startUp => true
  | .serve e received => (registration e received).isSome

/-- Every pass hashes passwords with the same function. -/
def ServerEvent.HashesWith (crypt : Bytes → Bytes) : ServerEvent → Prop
  | .startUp => True
  | .serve e _ => e.handlerEnv.crypt = crypt

/-- What the process did. -/
abbrev Served := Entry ServerEvent FileOp (List HttpResponse)

/-- A run of the server from an empty directory. -/
abbrev ServerRun (crypt : Bytes → Bytes) (canServe : Disk → ServerEvent → Prop)
    (canStop : List FileOp → Prop) : List Served → Disk → Prop :=
  Runs ServerEvent.proc (fun d event => canServe d event ∧ event.HashesWith crypt) canStop
    Disk.empty

/-- The call of a session an event is, if it can write. -/
def ServerEvent.call : ServerEvent → Option Event
  | .startUp => some .setup
  | .serve e received => (registration e received).map (.register e.handlerEnv.callEnv)

/-- What the process did is what a call of a session did: the same operations, and the responses
that say how it ended. -/
structure Performed (served : Served) (o : Outcome) : Prop where
  call : served.event.call = some o.event
  ops : served.ops = o.ops
  answered : served.result = none → o.response = none
  response : ∀ rs, served.result = some rs → (o.event = .setup ∧ o.response = none ∧ rs = []) ∨
    ∃ r, o.response = some r ∧ rs = [registerAnswer r]

/-- A registration was answered with the redirect when it was accepted. -/
theorem Performed.accepted_iff {served : Served} {o : Outcome} (h : Performed served o) :
    o.accepted = true ↔ ∃ r, served.result = some [r] ∧ r.statusCode = 302 := by
  cases hresult : served.result with
  | none => simp [Outcome.accepted, h.answered hresult]
  | some rs =>
      rcases h.response rs hresult with ⟨-, hnone, rfl⟩ | ⟨r, hsome, rfl⟩
      · simp [Outcome.accepted, hnone]
      · simp [Outcome.accepted, hsome, registerAnswer_statusCode]

variable {crypt : Bytes → Bytes} {canServe : Disk → ServerEvent → Prop}
  {canRun : Disk → Event → Prop} {canStop : List FileOp → Prop} {log : List Served}

/-- What an event that is a call does. -/
theorem ServerEvent.proc_of_call {event : ServerEvent} {c : Event} (h : event.call = some c)
    (hcrypt : event.HashesWith crypt) (d : Disk) :
    event.proc.ops d = (c.proc crypt).ops d ∧
      ∀ rs, event.proc.result d = some rs → ∃ r, (c.proc crypt).result d = some r ∧
        ((c = .setup ∧ r = none ∧ rs = []) ∨ ∃ r', r = some r' ∧ rs = [registerAnswer r']) := by
  cases event with
  | startUp =>
      obtain rfl := Option.some.inj h
      have hops : ∀ {α : Type} (a : α), (setupStores >>= fun _ =>
          (pure a : Proc Disk FileOp α)).ops d = setupStores.ops d := by
        intro α a
        cases hr : setupStores.result d with
        | none => rw [Proc.ops_bind_of_none hr]
        | some u => rw [Proc.ops_bind_of_some hr, Proc.ops_pure, List.append_nil]
      refine ⟨(hops []).trans (hops none).symm, fun rs hrs => ?_⟩
      obtain ⟨u, hu, hrs⟩ := Proc.result_bind_eq_some.mp hrs
      obtain rfl := Option.some.inj hrs
      exact ⟨none, Proc.result_bind_eq_some.mpr ⟨u, hu, rfl⟩, Or.inl ⟨rfl, rfl, rfl⟩⟩
  | serve e received =>
      obtain ⟨payload, hreg, rfl⟩ := Option.map_eq_some_iff.mp h
      obtain ⟨hops, hresult⟩ := @passResponses_registers e received d payload hreg
      have hcrypt : e.handlerEnv.crypt = crypt := hcrypt
      rw [hcrypt] at hops hresult
      constructor
      · refine hops.trans ?_
        rw [Event.proc]
        cases hr : (makeNewUser crypt e.handlerEnv.callEnv payload).result d with
        | none => rw [Proc.ops_bind_of_none hr]
        | some r => rw [Proc.ops_bind_of_some hr, Proc.ops_pure, List.append_nil]
      · intro rs hrs
        rw [ServerEvent.proc, hresult] at hrs
        obtain ⟨r, hr, rfl⟩ := Option.map_eq_some_iff.mp hrs
        exact ⟨some r, Proc.result_bind_eq_some.mpr ⟨r, hr, rfl⟩, Or.inr ⟨r, rfl, rfl⟩⟩

/-- An event that is no call is not seen in the stores. -/
theorem ServerEvent.ops_of_no_call {event : ServerEvent} (h : event.call = none) (d : Disk) :
    event.proc.ops d = [] := by
  cases event with
  | startUp => simp [ServerEvent.call] at h
  | serve e received => exact passResponses_silent (Option.map_eq_none_iff.mp h)

theorem ServerEvent.writes_eq (event : ServerEvent) : event.writes = event.call.isSome := by
  cases event with
  | startUp => rfl
  | serve e received => exact Option.isSome_map.symm

/-- One more call, in the session of a run. -/
theorem Session.perform {slog : List Outcome} (h : Session crypt canRun canStop slog d)
    {event : ServerEvent} {c : Event} (hcall : event.call = some c)
    (hcrypt : event.HashesWith crypt) (hc : canRun d c) {n : ℕ} {r : Option (List HttpResponse)}
    (hstop : r = none → canStop ((event.proc.ops d).take n))
    (hfinish : ∀ rs, r = some rs →
      event.proc.result d = some rs ∧ n = (event.proc.ops d).length) :
    ∃ o, Session crypt canRun canStop (slog ++ [o]) (event.proc.stopped d n) ∧
      Performed ⟨event, (event.proc.ops d).take n, r⟩ o := by
  obtain ⟨hops, hresult⟩ := ServerEvent.proc_of_call hcall hcrypt d
  have hstopped : event.proc.stopped d n = (c.proc crypt).stopped d n := by
    rw [Proc.stopped, Proc.stopped, hops]
  rw [hstopped]
  cases r with
  | none =>
      have hstep := h.stop hc n (hops ▸ hstop rfl)
      exact ⟨_, hstep, hcall, congrArg (List.take n) hops, fun _ => rfl, by simp⟩
  | some rs =>
      obtain ⟨hrs, rfl⟩ := hfinish rs rfl
      obtain ⟨response, hresponse, hanswer⟩ := hresult rs hrs
      have hstep := h.finish hc hresponse
      rw [hops, Runs.stopped_length, List.take_length]
      refine ⟨_, hstep, hcall, rfl, by simp, fun rs' hrs' => ?_⟩
      obtain rfl := Option.some.inj hrs'
      exact hanswer

/-- **The session of a run**: its start-ups and its registrations, in order. Induction along the
run; a request that registers nobody is a step of the run only. -/
theorem ServerRun.session (h : ServerRun crypt canServe canStop log d)
    (hcan : ∀ d event c, canServe d event → event.call = some c → canRun d c) :
    ∃ slog, Session crypt canRun canStop slog d ∧
      List.Forall₂ Performed (log.filter fun served => served.event.writes) slog ∧
      operations log = performed slog := by
  refine h.logInvariant (P := fun log d => ∃ slog, Session crypt canRun canStop slog d ∧
    List.Forall₂ Performed (log.filter fun served => served.event.writes) slog ∧
    operations log = performed slog) ⟨[], .start, .nil, rfl⟩ ?_
  rintro log d event n r - ⟨slog, hsession, hall, hops⟩ ⟨hcan', hcrypt⟩ hstop hfinish
  rw [List.filter_append, List.filter_singleton, operations_append, operations_singleton]
  cases hcall : event.call with
  | none =>
      have hnil := ServerEvent.ops_of_no_call hcall d
      have hwrites : event.writes = false := by rw [event.writes_eq, hcall, Option.isSome_none]
      refine ⟨slog, ?_, ?_, ?_⟩
      · rwa [Proc.stopped, hnil, List.take_nil]
      · simpa [hwrites] using hall
      · rw [hnil, List.take_nil, List.append_nil, hops]
  | some c =>
      have hwrites : event.writes = true := by rw [event.writes_eq, hcall, Option.isSome_some]
      obtain ⟨o, hstep, hperformed⟩ := hsession.perform hcall hcrypt (hcan d event c hcan' hcall)
        hstop hfinish
      refine ⟨slog ++ [o], hstep, ?_, ?_⟩
      · rw [hwrites]
        exact List.rel_append hall (.cons hperformed .nil)
      · rw [performed_append, hops, hperformed.ops]

/-- What registers nobody and is no start-up performs no operation. -/
theorem ServerRun.silent (h : ServerRun crypt canServe canStop log d) :
    ∀ served ∈ log, served.event.writes = false → served.ops = [] := by
  intro served hserved hwrites
  obtain ⟨before, after, m, -, hcalled⟩ := h.exists_called hserved
  obtain ⟨n, hops⟩ := hcalled.ops
  have hnone : served.event.call = none := by
    rw [served.event.writes_eq] at hwrites
    exact Option.not_isSome_iff_eq_none.mp (by rw [hwrites]; exact Bool.false_ne_true)
  rw [hops, ServerEvent.ops_of_no_call hnone, List.take_nil]

/-- A session with the same calls as a part of a run performs the same operations. -/
theorem performed_eq_operations {slog : List Outcome}
    (hsilent : ∀ served ∈ log, served.event.writes = false → served.ops = [])
    (h : List.Forall₂ Performed (log.filter fun served => served.event.writes) slog) :
    performed slog = operations log := by
  induction log generalizing slog with
  | nil =>
      cases h
      rfl
  | cons served log ih =>
      obtain ⟨hhead, hrest⟩ := List.forall_mem_cons.mp hsilent
      have hcons : operations (served :: log) = served.ops ++ operations log := rfl
      by_cases hwrites : served.event.writes = true
      · rw [List.filter_cons, if_pos hwrites] at h
        obtain ⟨o, slog, hperformed, hall, rfl⟩ := List.forall₂_cons_left_iff.mp h
        have hsession : performed (o :: slog) = o.ops ++ performed slog := rfl
        rw [hsession, hcons, hperformed.ops, ih hrest hall]
      · rw [List.filter_cons, if_neg hwrites] at h
        rw [hcons, hhead (Bool.eq_false_iff.mpr hwrites), List.nil_append, ih hrest h]

/-- Every request may be served. -/
def anyRequest (_ : Disk) (_ : ServerEvent) : Prop := True

/-- **The server refines a session of registrations.** Whatever is sent to it and wherever it is
stopped, a run of the server leaves the stores as a session does whose calls are its start-ups and
the requests that register a payload, in order: each performed the same operations, was stopped at
the same place, and was answered with the redirect when it was accepted. All other requests
perform no operation at all. -/
theorem server_refines_session (h : ServerRun crypt anyRequest canStop log d) :
    (∃ slog, Session crypt anyCall canStop slog d ∧
      List.Forall₂ Performed (log.filter fun served => served.event.writes) slog) ∧
    ∀ served ∈ log, served.event.writes = false → served.ops = [] := by
  obtain ⟨slog, hsession, hall, -⟩ := h.session fun _ _ _ _ _ => trivial
  exact ⟨⟨slog, hsession, hall⟩, h.silent⟩

/-! ### A run -/

/-- A server without secrets and files, with the stack of the registration above. -/
def annEnv : PassEnv :=
  { bareEnv with handlerEnv := { bareEnv.handlerEnv with callEnv := sampleEnv } }

/-- A request for a page that does not exist. -/
def strayRequest : Received := ⟨lit "GET /x HTTP/1.1" ++ crlf ++ crlf, by decide⟩

/-- The registration of Ann, as it is sent. -/
def annPost : Received :=
  ⟨lit "POST /register HTTP/1.1" ++ crlf ++
    lit "Content-Type: application/x-www-form-urlencoded" ++ crlf ++
    lit "Content-Length: 42" ++ crlf ++ crlf ++
    lit "name=ann&email=ann@x&cpf=1&password=secret", by decide +kernel⟩

theorem registration_annPost : registration annEnv annPost = some samplePayload := by
  decide +kernel

/-- A start-up, the stray request and the registration. -/
def annEvents : List ServerEvent := [.startUp, .serve annEnv strayRequest, .serve annEnv annPost]

/-- What a call did, when it is not stopped. -/
def ServerEvent.served (event : ServerEvent) (d : Disk) : Served :=
  ⟨event, event.proc.ops d, event.proc.result d⟩

/-- What the calls of a list did, one after the other. -/
def servedAll : Disk → List ServerEvent → List Served
  | _, [] => []
  | d, event :: events => event.served d :: servedAll (event.proc.after d) events

/-- The disk they lead to. -/
def diskAfter : Disk → List ServerEvent → Disk
  | d, [] => d
  | d, event :: events => diskAfter (event.proc.after d) events

/-- The stray request leaves the stores alone. -/
theorem after_strayRequest (d : Disk) : (passResponses annEnv strayRequest).after d = d := by
  have hnone : registration annEnv strayRequest = none := by decide +kernel
  rw [Proc.after, passResponses_silent hnone]
  rfl

/-- A request to register is answered when the call of `make_new_user` finishes. -/
theorem isSome_result_of_registration {d : Disk} (h : registration e received = some payload)
    (hmade : (((Event.register e.handlerEnv.callEnv payload).proc e.handlerEnv.crypt).result
      d).isSome) : ((ServerEvent.serve e received).proc.result d).isSome := by
  rw [Event.proc, Proc.result_bind_pure, Option.isSome_map] at hmade
  rw [ServerEvent.proc, (passResponses_registers h).2, Option.isSome_map]
  exact hmade

/-- It leaves the disk that the call leaves. -/
theorem after_of_registration (h : registration e received = some payload) (d : Disk) :
    (ServerEvent.serve e received).proc.after d =
      ((Event.register e.handlerEnv.callEnv payload).proc e.handlerEnv.crypt).after d := by
  rw [Proc.after, ServerEvent.proc, (passResponses_registers h).1, Proc.after, Event.proc,
    Proc.ops_bind_pure]

/-- The run of these calls. -/
theorem serverRun_ann {canServe : Disk → ServerEvent → Prop} {canStop : List FileOp → Prop}
    (hstart : canServe Disk.empty .startUp)
    (hstray : canServe startedDisk (.serve annEnv strayRequest))
    (hpost : canServe startedDisk (.serve annEnv annPost)) :
    ServerRun id canServe canStop (servedAll Disk.empty annEvents)
      (diskAfter Disk.empty annEvents) := by
  have hempty : ServerRun id canServe canStop [] Disk.empty := .start
  have hstarted : ServerRun id canServe canStop [ServerEvent.startUp.served Disk.empty]
      startedDisk :=
    hempty.finish_of_isSome (e := ServerEvent.startUp) ⟨hstart, trivial⟩ (by decide +kernel)
  have hidle := hstarted.finish_of_isSome (e := ServerEvent.serve annEnv strayRequest)
    ⟨hstray, rfl⟩ (by decide +kernel)
  have hafter : (ServerEvent.serve annEnv strayRequest).proc.after startedDisk = startedDisk :=
    after_strayRequest startedDisk
  refine hidle.finish_of_isSome (e := ServerEvent.serve annEnv annPost)
    ⟨hafter.symm ▸ hpost, rfl⟩ ?_
  rw [hafter]
  exact isSome_result_of_registration registration_annPost
    (isSome_result_of_accepted accepted_sampleRegister)

/-- The registration of Bob, as it is sent. -/
def bobPost : Received :=
  ⟨lit "POST /register HTTP/1.1" ++ crlf ++
    lit "Content-Type: application/x-www-form-urlencoded" ++ crlf ++
    lit "Content-Length: 42" ++ crlf ++ crlf ++
    lit "name=bob&email=bob@x&cpf=2&password=secret", by decide +kernel⟩

theorem registration_bobPost : registration annEnv bobPost =
    some ⟨lit "bob", lit "bob@x", lit "2", lit "secret"⟩ := by
  decide +kernel

/-- What Bob's registration did, behind those calls. -/
def bobServed : Served := (ServerEvent.serve annEnv bobPost).served annDisk

theorem diskAfter_ann : diskAfter Disk.empty annEvents = annDisk := by
  have hstray : (ServerEvent.serve annEnv strayRequest).proc.after startedDisk = startedDisk :=
    after_strayRequest startedDisk
  change (ServerEvent.serve annEnv annPost).proc.after
    ((ServerEvent.serve annEnv strayRequest).proc.after startedDisk) = annDisk
  rw [hstray, after_of_registration registration_annPost]
  rfl

/-- The run with Bob. -/
theorem serverRun_two {canServe : Disk → ServerEvent → Prop} {canStop : List FileOp → Prop}
    (hann : ServerRun id canServe canStop (servedAll Disk.empty annEvents)
      (diskAfter Disk.empty annEvents)) (hbob : canServe annDisk (.serve annEnv bobPost)) :
    ServerRun id canServe canStop (servedAll Disk.empty annEvents ++ [bobServed]) bobDisk := by
  rw [diskAfter_ann] at hann
  have hmade : ((secondRegister.proc id).result annDisk).isSome :=
    isSome_result_of_accepted outcomes_two.2.1
  have hrun := hann.finish_of_isSome (e := ServerEvent.serve annEnv bobPost) ⟨hbob, rfl⟩
    (isSome_result_of_registration registration_bobPost hmade)
  rw [after_of_registration registration_bobPost] at hrun
  exact hrun

/-- Their session: the stray request is not in it. -/
theorem server_refines_session_ann :
    (∃ slog, Session id anyCall neverStopped slog (diskAfter Disk.empty annEvents) ∧
      List.Forall₂ Performed ((servedAll Disk.empty annEvents).filter
        fun served => served.event.writes) slog) ∧
    ∀ served ∈ servedAll Disk.empty annEvents, served.event.writes = false → served.ops = [] :=
  server_refines_session (serverRun_ann trivial trivial trivial)

end CBank
