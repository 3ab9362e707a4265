import Klite.Controller.Endpoints

/-!
# What the two allocators share (internal/controller/vip.go, ingress.go)

A pass keeps a map of what still wants an allocation and the set of addresses it has
seen, and writes through `release` and a create. `S` is what an allocation is for, `D`
the addresses that are handed out. Log lines are left out.
-/

namespace Klite
open Lib

structure AllocState (S D : Type) where
  want : Std.ExtTreeMap String S
  used : List D := []
  errs : List String := []

section Writes
variable {S D : Type}

def AllocState.fail (st : AllocState S D) (e : String) : AllocState S D := { st with errs := st.errs ++ [e] }

def release (k : Kind) (name : String) (rev : Int) (st : AllocState S D) : Code (AllocState S D) := do
  match ← deleteIfRevision k name rev with
  | .ok _ => pure st
  | .error e => if e.isNotFound ∨ e.isConflict then pure st else pure (st.fail e.text)

-- A name an earlier leader life has taken is read by the next pass.
def createAllocation (k : Kind) (o : k.Obj) (st : AllocState S D) : Code (AllocState S D) := do
  match ← put k o revCreate with
  | .ok _ => pure st
  | .error e => if e.isAlreadyExists then pure st else pure (st.fail e.text)

-- The two loops of `reconcile`; the second walks the names in order.
def repairPass {k : Kind} (reconcileAllocation : AllocState S D → k.Obj → Code (AllocState S D))
    (allocate : AllocState S D → S → Code (AllocState S D)) (want : Std.ExtTreeMap String S)
    (allocs : List k.Obj) : Code (List String) := do
  let st ← allocs.foldlM reconcileAllocation { want := want }
  let st ← st.want.toList.foldlM (fun st e => allocate st e.2) st
  pure st.errs

end Writes

end Klite
