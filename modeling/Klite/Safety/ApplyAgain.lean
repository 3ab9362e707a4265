import Klite.Lib.Process
import Klite.Object.Manifest
import Klite.Server.ClusterSpec

/-!
# Applying a document again

What an apply decides by is what `sanitize` leaves of an object: its name, labels and spec.
-/

namespace Klite
open Lib

variable {C : Codec} {doc : String} {o : Object} {w : World}

section Sanitize
variable {k : Kind}

end Sanitize

variable {w' : World}

section First
variable {k : Kind} {incoming : k.Obj} {res : ApplyResult} (hk : serverMaterialized k = false)
  (hname : res.name = (metaOf incoming).name) (hact : res.action = "")
include hk hname hact

end First

/-- The object an apply of this one wants stored. -/
def wanted (o : Object) : o.kind.Obj := applyDefault o.kind (sanitize o.obj)

def answered : Event Op Res World → Bool
  | ⟨.get _ _, r, _, _⟩ => r.isOk
  | _ => true

section Second
variable {k : Kind} {incoming : k.Obj} (res : ApplyResult) (hname : res.name = (metaOf incoming).name)
include hname

end Second

def Container.message (c : Container) : Pb.Container where
  name := c.name
  image := c.image
  command := c.command
  args := c.args
  env := c.env.map fun e => ⟨e.name, e.value⟩
  ports := c.ports.map fun p => ⟨.ofInt p⟩
  resources := if c.cpus = "" ∧ c.memory = "" then none else some ⟨c.cpus, c.memory⟩
  readinessProbe := c.readinessProbe.map fun p => ⟨.ofInt p⟩

def Workload.message (w : Workload) : Pb.Workload where
  metadata := some {
    name := w.metadata.name
    labels := w.metadata.labels
    uid := if w.metadata.uid = 0 then "" else "00000000-0000-4000-8000-00000000000" ++ toString w.metadata.uid
    resourceVersion := .ofInt w.metadata.resourceVersion
    createdUnix := .ofInt w.metadata.createdUnix }
  spec := some {
    replicas := .ofInt w.spec.replicas
    nodeName := w.spec.nodeName
    template := some ⟨w.spec.template.labels, w.spec.template.containers.map Container.message⟩
    drain := w.spec.drain.map fun d => ⟨.ofInt d.drainTimeoutSeconds, .ofInt d.terminationGraceSeconds⟩ }
  status := w.status.map fun s => ⟨.ofInt s.readyInstances, .ofInt s.totalInstances, s.templateHash⟩

section Args
variable (n : ℕ)

end Args

end Klite
