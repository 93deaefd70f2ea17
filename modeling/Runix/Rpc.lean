import Runix.Parties

namespace Runix

/-- Where a client is: it sends a request, as `send_fs_msg` does, and then receives. -/
inductive ClientAt where
  | idle
  | called (a : SendArgs)
  | waiting (a : SendArgs)

inductive ServiceAt where
  | ready
  | serving (q : Message)
  | handled (q : Message) (reply : List UInt8)
  | opened (q : Message) (reply : List UInt8)
  | replying (q : Message) (b : SendArgs)

/-- The kernel with a service and its clients. `answers` and `results` (newest first) are
ghosts: the replies the service sent, each with its request, and what the calls of the
clients came to. -/
structure Rpc (σ : Type) where
  machine : Machine
  store : σ
  client : Fin maxTasks → ClientAt
  service : ServiceAt
  answers : List (Message × SendArgs)
  results : List (Fin maxTasks × SendArgs × Except IpcError Message)

namespace Rpc

variable {σ : Type}

def setClient (r : Rpc σ) (i : Fin maxTasks) (at_ : ClientAt) : Rpc σ :=
  { r with client := Function.update r.client i at_ }

def conclude (r : Rpc σ) (i : Fin maxTasks) (a : SendArgs) (result : Except IpcError Message) :
    Rpc σ :=
  { r.setClient i .idle with results := (i, a, result) :: r.results }

/-- A call of the kernel returns to the code of a party. The service ignores the result of its
send. -/
def note (P : Parties) (r : Rpc σ) : Event → Rpc σ
  | .sendReturned i _ _ result =>
    if i = P.server then { r with service := .ready }
    else if P.client i then
      match r.client i, result with
      | .called a, .ok () => r.setClient i (.waiting a)
      | .called a, .error e => r.conclude i a (.error e)
      | _, _ => r
    else r
  | .receiveReturned i result =>
    if i = P.server then
      match result with
      | .ok msg => { r with service := .serving msg }
      | .error _ => { r with service := .ready }
    else if P.client i then
      match r.client i with
      | .waiting a => r.conclude i a result
      | _ => r
    else r
  | .delivered _ _ => r

def follow (P : Parties) (r : Rpc σ) (m : Machine) : Rpc σ :=
  (r.machine.since m).foldr (fun e r => r.note P e) { r with machine := m }

def enter (r : Rpc σ) (act : Action) : Option (Rpc σ) :=
  (r.machine.step act).map (fun m => { r with machine := m })

end Rpc

inductive RpcAction where
  /-- the first entry into the scheduler -/
  | boot (sp : StackPointer)
  /-- the kernel, on behalf of the running task -/
  | proceed (sp : StackPointer)
  | tick (sp : StackPointer)
  /-- a client: `sys_send_typed` of a request, then `sys_receive_typed` for the reply -/
  | call (tag version : UInt16) (payload : List UInt8)
  | await
  /-- between two requests a client may yield, or end -/
  | pause (sp : StackPointer)
  | leave
  /-- the service: `sys_receive_typed`, the handler, the reply channel, `sys_send_typed` -/
  | listen
  | serve
  | openReply
  | reply
  /-- any other task -/
  | other (act : Action)

namespace Rpc

variable {σ : Type}

def clientStep (P : Parties) (r : Rpc σ) (i : Fin maxTasks) : RpcAction → Option (Rpc σ)
  | .call tag version payload =>
    match r.client i, checkSend r.machine.calls (P.slot i) tag version payload with
    | .idle, .ok a => (r.setClient i (.called a)).enter (.sendTyped (P.slot i) tag version payload)
    | _, _ => none
  | .await =>
    match r.client i with
    | .waiting _ => r.enter .receiveTyped
    | _ => none
  | .pause sp =>
    match r.client i with
    | .idle => r.enter (.yield sp)
    | _ => none
  | .leave =>
    match r.client i with
    | .idle => r.enter .terminate
    | _ => none
  | _ => none

/-- The loop of the service. A handler that panics does not go on. -/
def serviceStep (P : Parties) (handle : Scheduler → σ → Message → Option (Answer σ)) (r : Rpc σ) :
    RpcAction → Option (Rpc σ)
  | .listen =>
    match r.service with
    | .ready => r.enter .receiveTyped
    | _ => none
  | .serve =>
    match r.service with
    | .serving q => do
      let answer ← handle r.machine.sched r.store q
      let reply ← answer.bytes
      some { r with store := answer.store, service := .handled q reply }
    | _ => none
  | .openReply =>
    match r.service with
    | .handled q reply =>
      (r.machine.sched.openReply P.svc q.sender).map (fun sched =>
        { r with machine := { r.machine with sched := sched }, service := .opened q reply })
    | _ => none
  | .reply =>
    match r.service with
    | .opened q reply =>
      match checkSend r.machine.calls replySlot P.svc.replyTag 1 reply with
      | .ok b =>
        Rpc.enter { r with service := .replying q b, answers := (q, b) :: r.answers }
          (.sendTyped replySlot P.svc.replyTag 1 reply)
      | .error _ => none
    | _ => none
  | _ => none

def partyStep (P : Parties) (handle : Scheduler → σ → Message → Option (Answer σ)) (r : Rpc σ)
    (act : RpcAction) : Option (Rpc σ) :=
  match r.machine.running with
  | some k =>
    if k = P.server then r.serviceStep P handle act
    else if P.client k then r.clientStep P k act
    else none
  | none => none

/-- One step of the whole. The parties follow their programs; the other tasks do what they
like. -/
def step (P : Parties) (handle : Scheduler → σ → Message → Option (Answer σ)) (r : Rpc σ) :
    RpcAction → Option (Rpc σ)
  | .boot sp => if r.machine.cpu = .boot then r.enter (.yield sp) else none
  | .proceed sp => (r.machine.step (.proceed sp)).map (r.follow P)
  | .tick sp => (r.machine.step (.tick sp)).map (r.follow P)
  | .other act =>
    match r.machine.running with
    | some k => if P.party k then none else (r.machine.step act).map (r.follow P)
    | none => none
  | act => r.partyStep P handle act

end Rpc

def Parties.Keeps {σ : Type} (P : Parties) (_ : Rpc σ) : RpcAction → Prop
  | .other act => act.Outside P.party
  | _ => True

end Runix
