import Klite.Lib.Runs
import Klite.Safety.ListWatch

/-!
# The browser's watch (frontend/app/api/httpClient.ts, frontend/app/store/store.ts)

`watch()` lists every kind, replays the lists into the ClusterStore and opens the event
stream, which the facade serves with a `Watch` from revision 0. The lists read the store
each at its own moment, and the server-side watch is established some time after the
stream is opened; the cluster's calls come in between. `decodeObject` only changes how an
object is shown, so objects stay as they are here.
-/

namespace Klite.Ui
open Lib

structure Snapshot where
  rev : Int := 0
  synced : Bool := false
  objects : ClientView := fun _ => ∅

inductive WatchEvent where
  | reset
  | sync (rev : Int)
  | change (type : EventType) (rev : Int) (kind : Kind) (object : Object)

/-- `applyEvent` (store.ts:64). -/
def Snapshot.applyEvent (s : Snapshot) : WatchEvent → Snapshot
  | .reset => {}
  | .sync rev => { s with rev := rev, synced := true }
  | .change type rev kind object =>
    { s with
      rev := rev
      objects := Function.update s.objects kind
        (if type = .deleted then (s.objects kind).erase object.name
        else (s.objects kind).insert object.name object) }

/-- The replay of one list; the revision goes on with every object. -/
def replayKind (lists : Kind → List Object) (st : Int × Snapshot) (k : Kind) : Int × Snapshot :=
  (lists k).foldl (fun st o =>
    let rev := max st.1 o.metadata.resourceVersion
    (rev, st.2.applyEvent (.change .added rev k o))) st

-- Object.keys(KIND_PATH) has the kinds in this order.
def replay (lists : Kind → List Object) (s : Snapshot) : Snapshot :=
  let (rev, s) := Kind.all.foldl (replayKind lists) (0, s)
  s.applyEvent (.sync rev)

/-- Which bootstrap is going on decides what its failure leads to. -/
inductive Bootstrap where
  | first
  | retry
  | reconnect
  deriving DecidableEq

inductive Timer where
  | bootstrap (b : Bootstrap)
  | connect
  deriving DecidableEq

/-- The server-side watch of an event stream: the revision it was established at, and how many of
its events have been delivered. -/
structure Stream where
  opened : Int
  delivered : ℕ

inductive Phase where
  | listing (b : Bootstrap) (lists : Kind → Option (List Object))
  | waiting (t : Timer)
  | streaming (watch : Option Stream)
  | gaveUp
  | closed

structure Client where
  etcd : Etcd
  phase : Phase := .listing .first fun _ => none
  snapshot : Snapshot := {}

inductive Label where
  | call (c : Timed)
  | list (k : Kind)
  | listFails
  | listed
  | timer
  | establish
  | deliver
  | error
  | unsubscribe

section Next
variable (v : Revisions) (gone : Int → Bool)

/-- What the stream's watch has produced so far; its request has no kinds and no revision. -/
def produced (etcd : Etcd) (st : Stream) : List StoreEvent :=
  match etcd.watch gone st.opened [] 0 with
  | .ok es => es
  | .error _ => []

/-- A rejected `Promise.all`: the first bootstrap is tried once more, a reconnecting one is not. -/
def afterFailure : Bootstrap → Phase
  | .first => .waiting (.bootstrap .retry)
  | .retry => .gaveUp
  | .reconnect => .waiting .connect

def Client.next (s : Client) : Label → Client
  | .call c => { s with etcd := (s.etcd.call v.next c.uuid c.nowUnix c.req).2 }
  | .list k =>
    match s.phase with
    | .listing b lists =>
      match lists k, s.etcd.list k.name with
      | none, .ok (.objects os _) => { s with phase := .listing b (Function.update lists k (some os)) }
      | _, _ => s
    | _ => s
  | .listFails =>
    match s.phase with
    | .listing b _ => { s with phase := afterFailure b }
    | _ => s
  | .listed =>
    match s.phase with
    | .listing _ lists =>
      if Kind.all.all fun k => (lists k).isSome then
        { s with
          phase := .streaming none
          snapshot := replay (fun k => (lists k).getD []) s.snapshot }
      else s
    | _ => s
  | .timer =>
    match s.phase with
    | .waiting (.bootstrap b) => { s with phase := .listing b fun _ => none }
    | .waiting .connect => { s with phase := .streaming none }
    | _ => s
  | .establish =>
    match s.phase with
    | .streaming none => { s with phase := .streaming (some ⟨s.etcd.rev, 0⟩) }
    | _ => s
  | .deliver =>
    match s.phase with
    | .streaming (some st) =>
      match (produced gone s.etcd st)[st.delivered]? with
      | some e =>
        { s with
          phase := .streaming (some { st with delivered := st.delivered + 1 })
          snapshot := s.snapshot.applyEvent (.change e.type e.revision e.object.kind e.object) }
      | none => s
    | _ => s
  | .error =>
    match s.phase with
    | .streaming _ =>
      { s with
        phase := .waiting (.bootstrap .reconnect)
        snapshot := s.snapshot.applyEvent .reset }
    | _ => s
  | .unsubscribe => { s with phase := .closed }

end Next

end Klite.Ui
