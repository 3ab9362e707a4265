import Klite.Server.Auth

/-!
# ClusterService: Apply, Delete, Scale and Uncordon (internal/server/server.go)

A request carries its manifest as the decoder answers it, and its kind as
`Canonical` resolves it.
-/

namespace Klite
open Lib

structure ApplyResult where
  kind : Kind
  name : String
  action : String := ""
  error : String := ""
  deriving DecidableEq

def serverMaterialized (k : Kind) : Bool :=
  k = .inst ∨ k = .vipAllocation ∨ k = .ingressAllocation

def hadStatus : {k : Kind} → k.Obj → Bool
  | .workload, o => (Workload.status o).isSome
  | .node, o => (Node.status o).isSome
  | .inst, o => (Instance.status o).isSome
  | _, _ => false

def dropStatus : {k : Kind} → k.Obj → k.Obj
  | .workload, o => ({ o with status := none } : Workload)
  | .node, o => ({ o with status := none } : Node)
  | .inst, o => ({ o with status := none } : Instance)
  | .service, o => o
  | .networkPolicy, o => o
  | .vipAllocation, o => o
  | .ingressAllocation, o => o

-- `sanitize` (server.go:173); its answer is `hadStatus` of what came in.
def sanitize {k : Kind} (o : k.Obj) : k.Obj :=
  dropStatus (setMeta o { metaOf o with uid := 0, resourceVersion := 0, createdUnix := 0 })

def mergeSpec : {k : Kind} → k.Obj → k.Obj → k.Obj
  | .workload, e, i =>
    ({ e with metadata.labels := (Workload.metadata i).labels, spec := Workload.spec i } : Workload)
  | .service, e, i =>
    ({ e with metadata.labels := (Service.metadata i).labels, spec := Service.spec i } : Service)
  | .node, e, i =>
    ({ e with metadata.labels := (Node.metadata i).labels, spec := Node.spec i } : Node)
  | .networkPolicy, e, i =>
    ({ e with metadata.labels := (NetworkPolicy.metadata i).labels,
              spec := NetworkPolicy.spec i } : NetworkPolicy)
  | .inst, e, i =>
    ({ e with metadata.labels := (Instance.metadata i).labels, spec := Instance.spec i } : Instance)
  | .vipAllocation, e, i => setMeta e { metaOf e with labels := (metaOf i).labels }
  | .ingressAllocation, e, i => setMeta e { metaOf e with labels := (metaOf i).labels }

instance : (k : Kind) → DecidableEq k.Obj
  | .workload => inferInstanceAs (DecidableEq Workload)
  | .service => inferInstanceAs (DecidableEq Service)
  | .node => inferInstanceAs (DecidableEq Node)
  | .networkPolicy => inferInstanceAs (DecidableEq NetworkPolicy)
  | .inst => inferInstanceAs (DecidableEq Instance)
  | .vipAllocation => inferInstanceAs (DecidableEq VIPAllocation)
  | .ingressAllocation => inferInstanceAs (DecidableEq IngressAllocation)

def done (res : ApplyResult) (dropped : Bool) (action : String) : ApplyResult :=
  { res with action := if dropped then action ++ " (client status ignored)" else action }

def applyLoop {k : Kind} (o : k.Obj) (res : ApplyResult) (dropped : Bool) : ℕ → Code ApplyResult
  | 0 => pure { res with error := "kept losing revision races, try again" }
  | n + 1 => do
    match ← get k res.name with
    | .error e =>
      if e.isNotFound then
        match ← put k o revCreate with
        | .ok _ => pure (done res dropped "created")
        | .error e =>
          if e.isAlreadyExists then applyLoop o res dropped n else pure { res with error := e.text }
      else pure { res with error := e.text }
    | .ok (existing, rev) =>
      let merged := mergeSpec existing o
      if merged = existing then pure (done res dropped "unchanged")
      else
        match ← put k merged rev with
        | .ok _ => pure (done res dropped "updated")
        | .error e =>
          if e.isConflict then applyLoop o res dropped n else pure { res with error := e.text }

def applyOne (o : Object) : Code ApplyResult :=
  let res : ApplyResult := { kind := o.kind, name := (metaOf o.obj).name }
  if serverMaterialized o.kind then
    pure { res with error := o.kind.plural ++ " are server-materialized and read-only" }
  else
    let incoming := applyDefault o.kind (sanitize o.obj)
    match validate o.kind incoming with
    | some e => pure { res with error := e }
    | none => applyLoop incoming res (hadStatus o.obj) casRetries

def apply (decoded : Except String (List Object)) : Code (Except Status (List ApplyResult)) :=
  match decoded with
  | .error e => pure (.error ⟨.invalidArgument, "decode yaml: " ++ e⟩)
  | .ok [] => pure (.error ⟨.invalidArgument, "no objects in request"⟩)
  | .ok objs => do
    let results ← objs.foldlM (fun acc o => do let r ← applyOne o; pure (acc ++ [r])) []
    pure (.ok results)

-- `deleteOne` answers a store error, or the status of a lost race as an error.
inductive DeleteErr where
  | store (e : StoreErr)
  | raced

def DeleteErr.text : DeleteErr → String
  | .store e => e.text
  | .raced => "rpc error: code = Aborted desc = kept losing revision races, try again"

-- storeStatus knows no sentinel in a status error, so a lost race turns Unavailable here.
def DeleteErr.toStatus : DeleteErr → Status
  | .store e => storeStatus e
  | .raced => ⟨.unavailable, DeleteErr.raced.text⟩

def markedForDelete (node : Node) : Node :=
  let n := node.withStatus fun st => { st with unschedulable := true, phase := .draining }
  { n with metadata.labels := n.metadata.labels.insert labelPendingDelete "true" }

def judgeMarkForDelete (node : Node) : Code (Verdict .node (Except DeleteErr String)) :=
  if node.pendingDelete then pure (.done (.ok "draining (delete pending)"))
  else pure (.write (markedForDelete node) (.ok "draining (delete pending)"))

def markNodeForDelete (name : String) : Code (Except DeleteErr String) :=
  casLoop .node name judgeMarkForDelete (fun e => .error (.store e)) (.error .raced) casRetries

def deleteOne (k : Kind) (name : String) : Code (Except DeleteErr String) :=
  if k = .node then markNodeForDelete name
  else do
    match ← delete k name with
    | .error e => pure (.error (.store e))
    | .ok _ => pure (.ok "deleted")

def deleteListed (o : Object) : Code ApplyResult := do
  let res : ApplyResult := { kind := o.kind, name := (metaOf o.obj).name }
  match ← deleteOne o.kind res.name with
  | .error e => pure { res with error := e.text }
  | .ok action => pure { res with action := action }

inductive DeleteRequest where
  | yaml (decoded : Except String (List Object))
  | named (kind : Except String Kind) (name : String)

def deleteRPC : DeleteRequest → Code (Except Status (List ApplyResult))
  | .yaml (.error e) => pure (.error ⟨.invalidArgument, "decode yaml: " ++ e⟩)
  | .yaml (.ok objs) => do
    let results ← objs.foldlM (fun acc o => do let r ← deleteListed o; pure (acc ++ [r])) []
    pure (.ok results)
  | .named (.error e) _ => pure (.error ⟨.invalidArgument, e⟩)
  | .named (.ok kind) name =>
    if name = "" then pure (.error ⟨.invalidArgument, "name is required"⟩)
    else do
      match ← deleteOne kind name with
      | .error e => pure (.error e.toStatus)
      | .ok action => pure (.ok [{ kind := kind, name := name, action := action }])

def uncordoned (node : Node) : Node :=
  node.withStatus fun st =>
    { st with unschedulable := false, phase := if st.phase = .draining then .ready else st.phase }

def judgeUncordon (name : String) (node : Node) : Code (Verdict .node (Except Status Unit)) :=
  if node.pendingDelete then
    pure (.done (.error ⟨.failedPrecondition, "node " ++ quote name ++
      " is pending delete; re-apply its YAML to cancel the delete instead"⟩))
  else if !node.getStatus.unschedulable ∧ node.phase ≠ .draining then pure (.done (.ok ()))
  else pure (.write (uncordoned node) (.ok ()))

def uncordon (name : String) : Code (Except Status Unit) :=
  if name = "" then pure (.error ⟨.invalidArgument, "node name is required"⟩)
  else casLoop .node name (judgeUncordon name) (fun e => .error (storeStatus e)) (.error raced) casRetries

def judgeScale (replicas : Int) (w : Workload) : Code (Verdict .workload (Except Status Unit)) :=
  if w.spec.replicas = replicas then pure (.done (.ok ()))
  else pure (.write { w with spec.replicas := replicas } (.ok ()))

def scale (workload : String) (replicas : Int) : Code (Except Status Unit) :=
  if workload = "" then pure (.error ⟨.invalidArgument, "workload name is required"⟩)
  else if replicas < 0 then
    pure (.error ⟨.invalidArgument, "replicas must be >= 0, got " ++ toString replicas⟩)
  else casLoop .workload workload (judgeScale replicas) (fun e => .error (storeStatus e))
    (.error raced) casRetries

end Klite
