import Klite.Server.Auth

/-!
# The command hub (internal/server/commands.go, internal/server/logs.go)

Any number of `StreamCommands`, `Logs` and `PushCommandOutput` calls run at once. A lock
section of the hub, a channel operation and an exchange with a client are one step each.
A call's number stands for its pointer: `streams` has the stream a node is attached with,
`waiters` the `Logs` call that waits for a command's output. `uuid.NewString` draws an id
that was not drawn before.
-/

namespace Klite

inductive CommandBody where
  | logs (inst : String) (follow : Bool) (tail : Int)
  | stop (commandId : String)
  deriving DecidableEq

structure Command where
  id : String
  body : CommandBody
  deriving DecidableEq

def Command.isLogs (cmd : Command) : Bool :=
  match cmd.body with
  | .logs .. => true
  | .stop _ => false

structure CommandOutput where
  commandId : String
  data : String
  eof : Bool
  deriving DecidableEq

/-- Who puts a message into a waiter's channel. -/
inductive Source where
  | push (caller : Principal)
  | detach (node : String)
  deriving DecidableEq

structure Delivery where
  out : CommandOutput
  source : Source
  deriving DecidableEq

/-- `route` before and after it looked its waiter up. -/
inductive Route where
  | looking (out : CommandOutput)
  | blocked (out : CommandOutput) (waiter : ℕ)
  deriving DecidableEq

abbrev CallResult := Except Status Unit

/-- The capacity of both kinds of channels. -/
def chanCap : ℕ := 16

/-! ### The calls -/

inductive StreamPhase where
  | attached (old : Option ℕ)
  | serving
  | sending (cmd : Command)
  | leaving (res : CallResult)
  | draining (res : CallResult)
  | routing (r : Route) (res : CallResult)
  | returned (res : CallResult)

/-- `sent` has the commands `stream.Send` returned success for. -/
structure StreamCall where
  node : String
  ch : List Command := []
  replaced : Bool := false
  phase : StreamPhase
  sent : List Command := []

inductive LogsPhase where
  | started
  | registered
  | reading
  | stopping (res : CallResult)
  | removing (res : CallResult)
  | closing (res : CallResult)
  | returned (res : CallResult)

structure LogsRequest where
  inst : String
  follow : Bool
  tail : Int

/-- A `Logs` call with its waiter. `got` has all that was ever put in the channel, `queuedOn` the
stream its command was queued on. -/
structure LogsCall where
  id : String
  node : String
  req : LogsRequest
  ch : List Delivery := []
  gone : Bool := false
  chunks : List String := []
  phase : LogsPhase := .started
  got : List Delivery := []
  queuedOn : Option ℕ := none

/-- In a route, `last` has the outcome the call ends with after it. -/
inductive PushPhase where
  | receiving
  | checking (out : CommandOutput)
  | routing (r : Route) (last : Option CallResult)
  | returned (res : CallResult)

structure PushCall where
  caller : Principal
  id : String := ""
  sawEOF : Bool := false
  phase : PushPhase := .receiving

inductive RecvErr where
  | eof
  | broken (text : String) (st : Status)

def RecvErr.text : RecvErr → String
  | .eof => "EOF"
  | .broken text _ => text

def RecvErr.outcome : RecvErr → CallResult
  | .eof => .ok ()
  | .broken _ st => .error st

structure CommandServer where
  streams : Std.ExtTreeMap String ℕ := ∅
  waiters : Std.ExtTreeMap String ℕ := ∅
  calls : ℕ → Option StreamCall := fun _ => none
  logs : ℕ → Option LogsCall := fun _ => none
  pushes : ℕ → Option PushCall := fun _ => none
  drawn : List String := []
  received : List String := []

inductive HubStep where
  | stream (c : ℕ) (caller : Principal) (node : String)
  | closeOld (c : ℕ)
  | streamDone (c : ℕ) (st : Status)
  | streamReplaced (c : ℕ)
  | dequeue (c : ℕ)
  | streamSend (c : ℕ) (err : Option Status)
  | forget (c : ℕ)
  | drain (c : ℕ)
  | route (c : ℕ)
  | routeGone (c : ℕ)
  | logs (l : ℕ) (id node : String) (req : LogsRequest)
  | addWaiter (l : ℕ)
  | sendLogs (l : ℕ)
  | read (l : ℕ) (err : Option Status)
  | logsDone (l : ℕ) (st : Status)
  | sendStop (l : ℕ)
  | removeWaiter (l : ℕ)
  | closeGone (l : ℕ)
  | push (p : ℕ) (caller : Principal)
  | recv (p : ℕ) (out : CommandOutput)
  | recvErr (p : ℕ) (err : RecvErr)
  | check (p : ℕ)
  | pushRoute (p : ℕ)
  | pushGone (p : ℕ)
  | pushDone (p : ℕ)

namespace CommandServer

def setCall (s : CommandServer) (c : ℕ) (sc : StreamCall) : CommandServer :=
  { s with calls := Function.update s.calls c (some sc) }

def setLogs (s : CommandServer) (l : ℕ) (lc : LogsCall) : CommandServer :=
  { s with logs := Function.update s.logs l (some lc) }

def setPush (s : CommandServer) (p : ℕ) (pc : PushCall) : CommandServer :=
  { s with pushes := Function.update s.pushes p (some pc) }

/-- `send` (commands.go:90): the stream the command was queued on, if any. -/
def send (s : CommandServer) (node : String) (cmd : Command) : Option ℕ × CommandServer :=
  match s.streams[node]? with
  | none => (none, s)
  | some c =>
    match s.calls c with
    | none => (none, s)
    | some sc =>
      if sc.ch.length < chanCap then (some c, s.setCall c { sc with ch := sc.ch ++ [cmd] }) else (none, s)

def waiterNode (s : CommandServer) (id : String) : Option String :=
  ((s.waiters[id]?).bind s.logs).map (·.node)

/-- The message enters the waiter's channel when there is room. -/
def put (s : CommandServer) (w : ℕ) (d : Delivery) : Option CommandServer :=
  match s.logs w with
  | none => none
  | some lc =>
    if lc.ch.length < chanCap then some (s.setLogs w { lc with ch := lc.ch ++ [d], got := lc.got ++ [d] }) else none

/-! ### StreamCommands -/

/-- `StreamCommands` (commands.go:160) up to the lock section of `attach`. -/
def stream (s : CommandServer) (c : ℕ) (caller : Principal) (node : String) : CommandServer :=
  if (s.calls c).isSome then s
  else if node = "" then
    s.setCall c { node := node, phase := .returned (.error ⟨.invalidArgument, "node name is required"⟩) }
  else
    match requireNodeMatch caller node with
    | some st => s.setCall c { node := node, phase := .returned (.error st) }
    | none => { s.setCall c { node := node, phase := .attached s.streams[node]? } with streams := s.streams.insert node c }

def closeReplaced (s : CommandServer) (old : Option ℕ) : CommandServer :=
  match old with
  | none => s
  | some o =>
    match s.calls o with
    | none => s
    | some so => s.setCall o { so with replaced := true }

def disconnected (cmd : Command) : CommandOutput :=
  ⟨cmd.id, "the node's agent disconnected before running the command\n", true⟩

def takenOver : Status := ⟨.aborted, "a newer command stream took over for this node"⟩

/-- The loop of `StreamCommands`, and `detach` (commands.go:64) after it. -/
def nextStream (s : CommandServer) (c : ℕ) (sc : StreamCall) : HubStep → CommandServer
  | .closeOld _ =>
    match sc.phase with
    | .attached old => (s.closeReplaced old).setCall c { sc with phase := .serving }
    | _ => s
  | .streamDone _ st =>
    match sc.phase with
    | .serving => s.setCall c { sc with phase := .leaving (.error st) }
    | _ => s
  | .streamReplaced _ =>
    match sc.phase, sc.replaced with
    | .serving, true => s.setCall c { sc with phase := .leaving (.error takenOver) }
    | _, _ => s
  | .dequeue _ =>
    match sc.phase, sc.ch with
    | .serving, cmd :: rest => s.setCall c { sc with ch := rest, phase := .sending cmd }
    | _, _ => s
  | .streamSend _ err =>
    match sc.phase, err with
    | .sending cmd, none => s.setCall c { sc with phase := .serving, sent := sc.sent ++ [cmd] }
    | .sending _, some st => s.setCall c { sc with phase := .leaving (.error st) }
    | _, _ => s
  | .forget _ =>
    match sc.phase with
    | .leaving res =>
      { s.setCall c { sc with phase := .draining res } with
        streams := if s.streams[sc.node]? = some c then s.streams.erase sc.node else s.streams }
    | _ => s
  | .drain _ =>
    match sc.phase, sc.ch with
    | .draining res, [] => s.setCall c { sc with phase := .returned res }
    | .draining res, cmd :: rest =>
      if cmd.isLogs then s.setCall c { sc with ch := rest, phase := .routing (.looking (disconnected cmd)) res }
      else s.setCall c { sc with ch := rest }
    | _, _ => s
  | .route _ =>
    match sc.phase with
    | .routing (.looking out) res =>
      match s.waiters[out.commandId]? with
      | some w => s.setCall c { sc with phase := .routing (.blocked out w) res }
      | none => s.setCall c { sc with phase := .draining res }
    | .routing (.blocked out w) res =>
      match s.put w ⟨out, .detach sc.node⟩ with
      | some s' => s'.setCall c { sc with phase := .draining res }
      | none => s
    | _ => s
  | .routeGone _ =>
    match sc.phase with
    | .routing (.blocked _ w) res =>
      if (s.logs w).any (·.gone) then s.setCall c { sc with phase := .draining res } else s
    | _ => s
  | _ => s

/-! ### Logs -/

def notConnected (node : String) : Status :=
  ⟨.failedPrecondition, "agent for node " ++ node ++ " not connected to this server"⟩

/-- `Logs` (logs.go:18) from the drawing of its id on. Its `store.Get` gave a scheduled instance. -/
def nextLogs (s : CommandServer) (l : ℕ) (lc : LogsCall) : HubStep → CommandServer
  | .addWaiter _ =>
    match lc.phase with
    | .started => { s.setLogs l { lc with phase := .registered } with waiters := s.waiters.insert lc.id l }
    | _ => s
  | .sendLogs _ =>
    match lc.phase with
    | .registered =>
      match s.send lc.node ⟨lc.id, .logs lc.req.inst lc.req.follow lc.req.tail⟩ with
      | (some c, s') => s'.setLogs l { lc with phase := .reading, queuedOn := some c }
      | (none, s') => s'.setLogs l { lc with phase := .removing (.error (notConnected lc.node)) }
    | _ => s
  | .read _ err =>
    match lc.phase, lc.ch with
    | .reading, d :: rest =>
      match (if d.out.data = "" then none else err) with
      | some st => s.setLogs l { lc with ch := rest, phase := .stopping (.error st) }
      | none =>
        s.setLogs l { lc with
          ch := rest
          chunks := if d.out.data = "" then lc.chunks else lc.chunks ++ [d.out.data]
          phase := if d.out.eof then .stopping (.ok ()) else .reading }
    | _, _ => s
  | .logsDone _ st =>
    match lc.phase with
    | .reading => s.setLogs l { lc with phase := .stopping (.error st) }
    | _ => s
  | .sendStop _ =>
    match lc.phase with
    | .stopping res => (s.send lc.node ⟨lc.id, .stop lc.id⟩).2.setLogs l { lc with phase := .removing res }
    | _ => s
  | .removeWaiter _ =>
    match lc.phase with
    | .removing res => { s.setLogs l { lc with phase := .closing res } with waiters := s.waiters.erase lc.id }
    | _ => s
  | .closeGone _ =>
    match lc.phase with
    | .closing res => s.setLogs l { lc with gone := true, phase := .returned res }
    | _ => s
  | _ => s

/-! ### PushCommandOutput -/

def wrongNode (out : CommandOutput) (node caller : String) : Status :=
  ⟨.permissionDenied, "command " ++ out.commandId ++ " was sent to node " ++ quote node ++ ", not " ++ quote caller⟩

def noWaiter (out : CommandOutput) : Status :=
  ⟨.notFound, "command " ++ out.commandId ++ " has no waiter on this server"⟩

def broke (id text : String) : CommandOutput := ⟨id, "log stream from agent broke: " ++ text ++ "\n", true⟩

/-- The certified node is not the one the command was sent to. -/
def foreign (s : CommandServer) (caller : Principal) (id : String) : Option (String × String) :=
  match caller, s.waiterNode id with
  | .node n, some node => if node ≠ n then some (node, n) else none
  | _, _ => none

/-- The call after its route came back without delivering. -/
def PushCall.refused (pc : PushCall) (out : CommandOutput) (last : Option CallResult) : PushCall :=
  { pc with phase := .returned (last.getD (.error (noWaiter out))) }

/-- `PushCommandOutput` (commands.go:192). -/
def nextPush (s : CommandServer) (p : ℕ) (pc : PushCall) : HubStep → CommandServer
  | .recv _ out =>
    match pc.phase with
    | .receiving => { s.setPush p { pc with phase := .checking out } with received := out.commandId :: s.received }
    | _ => s
  | .recvErr _ err =>
    match pc.phase with
    | .receiving =>
      if pc.id ≠ "" ∧ !pc.sawEOF then
        s.setPush p { pc with phase := .routing (.looking (broke pc.id err.text)) (some err.outcome) }
      else s.setPush p { pc with phase := .returned err.outcome }
    | _ => s
  | .check _ =>
    match pc.phase with
    | .checking out =>
      match s.foreign pc.caller out.commandId with
      | some (node, n) => s.setPush p { pc with phase := .returned (.error (wrongNode out node n)) }
      | none =>
        s.setPush p { pc with id := out.commandId, sawEOF := out.eof, phase := .routing (.looking out) none }
    | _ => s
  | .pushRoute _ =>
    match pc.phase with
    | .routing (.looking out) last =>
      match s.waiters[out.commandId]? with
      | some w => s.setPush p { pc with phase := .routing (.blocked out w) last }
      | none => s.setPush p (PushCall.refused pc out last)
    | .routing (.blocked out w) last =>
      match s.put w ⟨out, .push pc.caller⟩ with
      | some s' => s'.setPush p { pc with phase := (last.map PushPhase.returned).getD .receiving }
      | none => s
    | _ => s
  | .pushGone _ =>
    match pc.phase with
    | .routing (.blocked out w) last =>
      if (s.logs w).any (·.gone) then s.setPush p (PushCall.refused pc out last) else s
    | _ => s
  | .pushDone _ =>
    match pc.phase with
    | .routing (.blocked out _) last => s.setPush p (PushCall.refused pc out last)
    | _ => s
  | _ => s

end CommandServer

def HubStep.streamNo : HubStep → Option ℕ
  | .closeOld c | .streamDone c _ | .streamReplaced c | .dequeue c | .streamSend c _ | .forget c | .drain c | .route c
  | .routeGone c => some c
  | _ => none

def HubStep.logsNo : HubStep → Option ℕ
  | .addWaiter l | .sendLogs l | .read l _ | .logsDone l _ | .sendStop l | .removeWaiter l | .closeGone l => some l
  | _ => none

def HubStep.pushNo : HubStep → Option ℕ
  | .recv p _ | .recvErr p _ | .check p | .pushRoute p | .pushGone p | .pushDone p => some p
  | _ => none

def CommandServer.next (s : CommandServer) (st : HubStep) : CommandServer :=
  match st with
  | .stream c caller node => s.stream c caller node
  | .logs l id node req =>
    if (s.logs l).isSome ∨ id ∈ s.drawn then s
    else { s.setLogs l { id := id, node := node, req := req } with drawn := id :: s.drawn }
  | .push p caller => if (s.pushes p).isSome then s else s.setPush p { caller := caller }
  | _ =>
    match st.streamNo.bind fun c => (s.calls c).map (c, ·) with
    | some (c, sc) => s.nextStream c sc st
    | none =>
      match st.logsNo.bind fun l => (s.logs l).map (l, ·) with
      | some (l, lc) => s.nextLogs l lc st
      | none =>
        match st.pushNo.bind fun p => (s.pushes p).map (p, ·) with
        | some (p, pc) => s.nextPush p pc st
        | none => s

end Klite
