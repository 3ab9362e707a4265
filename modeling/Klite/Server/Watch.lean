import Klite.Controller.Endpoints
import Klite.Server.Auth

/-!
# WatchDesired (internal/server/agent.go) and the engine's subscribers

Subscribe, Snapshot and store run under the engine's lock, so each is one step. A
stream's loop subscribes, then reads, sends and waits for a kick in turn.
-/

namespace Klite
open Lib

-- `subs` holds each subscriber's channel of one slot: whether a kick is waiting in it.
structure Hub where
  engine : Engine := {}
  subs : Std.ExtTreeMap ℕ Bool := ∅
  nextSub : ℕ := 0

namespace Hub
variable (h : Hub)

def subscribe : Hub := { h with subs := h.subs.insert h.nextSub false, nextSub := h.nextSub + 1 }

def cancel (id : ℕ) : Hub := { h with subs := h.subs.erase id }

def kicks (built : Snapshots) : Bool := h.engine.changed built ≠ [] ∨ !h.engine.ready

-- A send into a full channel is dropped (endpoints.go:177).
def store (built : Snapshots) : Hub :=
  { h with
    engine := h.engine.store built
    subs := if h.kicks built then h.subs.map fun _ _ => true else h.subs }

def receive (id : ℕ) : Option Hub :=
  if h.subs[id]? = some true then some { h with subs := h.subs.insert id false } else none

end Hub

structure WatchDesiredRequest where
  node : String
  lastAppliedRevision : Int := 0

inductive WatchPhase where
  | subscribing
  | reading (id : ℕ)
  | sending (id : ℕ) (snap : NodeSnapshot)
  | waiting (id : ℕ)
  | closed
  deriving DecidableEq

-- One stream; `sent` is what the client was sent, newest first.
structure Watch where
  node : String
  phase : WatchPhase := .subscribing
  lastSent : Int := -1
  sent : List NodeSnapshot := []

def watchDesired (p : Principal) (req : WatchDesiredRequest) : Except Status Watch :=
  if req.node = "" then .error ⟨.invalidArgument, "node name is required"⟩
  else match requireNodeMatch p req.node with
    | some e => .error e
    | none => .ok { node := req.node }

-- The next step of a stream's loop. `alive` is false when the client's stream has died.
def Watch.step (w : Watch) (h : Hub) (alive : Bool) : Watch × Hub :=
  match w.phase with
  | .subscribing => ({ w with phase := .reading h.nextSub }, h.subscribe)
  | .reading id =>
    match h.engine.snapshot w.node with
    | some snap =>
      if (snap.revision : Int) ≠ w.lastSent then ({ w with phase := .sending id snap }, h)
      else ({ w with phase := .waiting id }, h)
    | none => ({ w with phase := .waiting id }, h)
  | .sending id snap =>
    if alive then
      ({ w with phase := .waiting id, lastSent := snap.revision, sent := snap :: w.sent }, h)
    else ({ w with phase := .closed }, h.cancel id)
  | .waiting id =>
    if !alive then ({ w with phase := .closed }, h.cancel id)
    else match h.receive id with
      | some h' => ({ w with phase := .reading id }, h')
      | none => (w, h)
  | .closed => (w, h)

structure Server where
  hub : Hub := {}
  watches : List Watch := []

inductive ServerStep where
  | pass (built : Snapshots)
  | connect (p : Principal) (req : WatchDesiredRequest)
  | stream (i : ℕ) (alive : Bool)

def Server.next (s : Server) : ServerStep → Server
  | .pass built => { s with hub := s.hub.store built }
  | .connect p req =>
    match watchDesired p req with
    | .ok w => { s with watches := s.watches ++ [w] }
    | .error _ => s
  | .stream i alive =>
    match s.watches[i]? with
    | some w => ⟨(w.step s.hub alive).2, s.watches.set i (w.step s.hub alive).1⟩
    | none => s

def Server.run (ls : List ServerStep) : Server := ls.foldl Server.next {}

end Klite
