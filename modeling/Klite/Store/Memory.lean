import Klite.Store.Kv

/-!
# The store of the unit tests (internal/store/storetest/memory.go)

One map of entries a kind and one revision counter. `mint` stands for the text
`uid-<n>` of the n-th uid made. The lock is held for a whole call, so a call is one step.
-/

namespace Klite
open Lib

structure Entry where
  obj : Object
  rev : Int

structure Memory where
  rev : Int := 0
  uid : ℕ := 0
  objs : Kind → Std.ExtTreeMap String Entry := fun _ => ∅

def checkName (name : String) : Option String :=
  if validName name then none else some ("invalid object name " ++ quote name)

namespace Memory

def entry (m : Memory) (k : Kind) (name : String) : Option Entry := (m.objs k)[name]?

/-- The clone a read hands out. -/
def clone (e : Entry) : Object := e.obj.withMeta { e.obj.metadata with resourceVersion := e.rev }

/-- `bucket` and `checkName`, the checks most calls begin with. -/
def bucket (kind name : String) : Except String Kind :=
  match canonical kind with
  | .error e => .error e
  | .ok k =>
    match checkName name with
    | some e => .error e
    | none => .ok k

def get (m : Memory) (kind name : String) : Except StoreErr Answer :=
  match bucket kind name with
  | .error e => refuse e
  | .ok k =>
    match m.entry k name with
    | none => sentinel .notFound (named kind name ++ ": object not found")
    | some e => .ok (.object (clone e) e.rev)

def list (m : Memory) (kind : String) : Except StoreErr Answer :=
  match canonical kind with
  | .error e => refuse e
  | .ok k => .ok (.objects ((m.objs k).toList.map fun e => clone e.2) m.rev)

def remove (m : Memory) (k : Kind) (name : String) : Memory :=
  { m with rev := m.rev + 1, objs := Function.update m.objs k ((m.objs k).erase name) }

def delete (m : Memory) (kind name : String) : Except StoreErr Answer × Memory :=
  match bucket kind name with
  | .error e => (refuse e, m)
  | .ok k =>
    match m.entry k name with
    | none => (sentinel .notFound (named kind name ++ ": object not found"), m)
    | some _ => (.ok .done, m.remove k name)

def deleteIfRevision (m : Memory) (kind name : String) (expectedRev : Int) : Except StoreErr Answer × Memory :=
  match bucket kind name with
  | .error e => (refuse e, m)
  | .ok k =>
    if expectedRev ≤ 0 then
      (refuse ("delete " ++ named kind name ++ ": expectedRev must be positive, got " ++ toString expectedRev), m)
    else match m.entry k name with
      | none => (sentinel .notFound (named kind name ++ ": object not found"), m)
      | some e =>
        if e.rev ≠ expectedRev then
          (sentinel .conflict (named kind name ++ " at revision " ++ toString expectedRev ++ ": revision conflict"), m)
        else (.ok .done, m.remove k name)

section Put
variable (mint : ℕ → Uid) (nowUnix : Int)

/-- `stampNew` (memory.go:135), with the number of uids made so far. -/
def stampNew (uid : ℕ) (m : Meta) : Meta × ℕ :=
  (stampMeta (mint (uid + 1)) nowUnix m, if m.uid = 0 then uid + 1 else uid)

/-- `adopt` (memory.go:145). -/
def adopt (uid : ℕ) (m : Meta) (cur : Option Entry) : Meta × ℕ :=
  match cur with
  | none => stampNew mint nowUnix uid m
  | some e => (adoptMeta e.obj.metadata m, uid)

/-- The end of `Put`, with what the stamping left. -/
def commit (m : Memory) (stored : Object) (stamped : Meta × ℕ) : Except StoreErr Answer × Memory :=
  (.ok (.revision (m.rev + 1)),
    { rev := m.rev + 1
      uid := stamped.2
      objs := Function.update m.objs stored.kind
        ((m.objs stored.kind).insert stored.name ⟨stored.withMeta stamped.1, m.rev + 1⟩) })

def put (m : Memory) (obj : Option Object) (expectedRev : Int) : Except StoreErr Answer × Memory :=
  match obj with
  | none => (refuse (unknownKind ""), m)
  | some o =>
    match bucket o.kind.name o.name with
    | .error e => (refuse e, m)
    | .ok _ =>
      let stored := o.unversioned
      let cur := m.entry o.kind o.name
      let conflict := sentinel .conflict (named o.kind.name o.name ++ ": revision conflict")
      if expectedRev = revCreate then
        match cur with
        | some _ => (sentinel .alreadyExists (named o.kind.name o.name ++ ": object already exists"), m)
        | none => m.commit stored (stampNew mint nowUnix m.uid stored.metadata)
      else if expectedRev = revAny then m.commit stored (adopt mint nowUnix m.uid stored.metadata cur)
      else if expectedRev > 0 then
        match cur with
        | none => (conflict, m)
        | some e =>
          if e.rev ≠ expectedRev then (conflict, m)
          else m.commit stored (adopt mint nowUnix m.uid stored.metadata cur)
      else (refuse ("invalid expectedRev " ++ toString expectedRev), m)

def call (m : Memory) : Request → Except StoreErr Answer × Memory
  | .get kind name => (m.get kind name, m)
  | .list kind => (m.list kind, m)
  | .put obj expectedRev => m.put mint nowUnix obj expectedRev
  | .delete kind name => m.delete kind name
  | .deleteIfRevision kind name expectedRev => m.deleteIfRevision kind name expectedRev

end Put

end Memory

end Klite
