import Klite.Store.Keys

/-!
# The store over etcd's keys (internal/store/etcd.go)

What etcd is assumed to do: it keeps a value with its create and mod revision under each
key, reads a range of keys in order, gives every committed transaction a revision above
all earlier ones and logs it for the watchers. A value is the object itself, since
protojson round-trips. Calls here take any kind argument and any object, also an empty
envelope.
-/

namespace Klite
open Lib

def Object.metadata (o : Object) : Meta := metaOf o.obj

def Object.withMeta (o : Object) (m : Meta) : Object := ⟨o.kind, setMeta o.obj m⟩

def Object.name (o : Object) : String := o.metadata.name

theorem metadata_withMeta (o : Object) (m : Meta) : (o.withMeta m).metadata = m := metaOf_setMeta _ _

theorem withMeta_withMeta (o : Object) (m m' : Meta) : (o.withMeta m).withMeta m' = o.withMeta m' := by
  unfold Object.withMeta
  rw [setMeta_setMeta]

theorem withMeta_metadata (o : Object) : o.withMeta o.metadata = o := by
  obtain ⟨k, obj⟩ := o
  cases k <;> rfl

/-- The clone a put stores: `resource_version` is never persisted. -/
def Object.unversioned (o : Object) : Object := o.withMeta { o.metadata with resourceVersion := 0 }

structure Kv where
  value : Object
  createRevision : Int
  modRevision : Int

/-- The revisions of a cluster: etcd starts above zero, and every commit is above the one before it
(by more than one when others write to the cluster). -/
structure Revisions where
  first : Int
  next : Int → Int
  first_pos : 0 < first
  grows : ∀ r, r < next r

/-- A cluster that only the store writes to. -/
def plainRevisions : Revisions := ⟨1, (· + 1), by decide, fun r => by omega⟩

/-- A watch event. A delete carries its own revision, and the value before it when that has not
been compacted away. -/
inductive KvEvent where
  | put (key : String) (kv : Kv)
  | delete (key : String) (modRevision : Int) (prev : Option Object)

structure Etcd where
  rev : Int
  kvs : Std.ExtTreeMap String Kv := ∅
  log : List KvEvent := []

-- A missing key compares as revision 0.
def Etcd.createRevision (s : Etcd) (k : String) : Int := (s.kvs[k]?.map (·.createRevision)).getD 0

def Etcd.modRevision (s : Etcd) (k : String) : Int := (s.kvs[k]?.map (·.modRevision)).getD 0

section Commit
variable (next : Int → Int)

def Etcd.opPut (s : Etcd) (k : String) (v : Object) : Etcd :=
  let r := next s.rev
  let kv : Kv := ⟨v, if s.createRevision k = 0 then r else s.createRevision k, r⟩
  { rev := r, kvs := s.kvs.insert k kv, log := s.log ++ [.put k kv] }

def Etcd.opDelete (s : Etcd) (k : String) : Etcd :=
  { rev := next s.rev
    kvs := s.kvs.erase k
    log := s.log ++ [.delete k (next s.rev) (s.kvs[k]?.map (·.value))] }

end Commit

inductive Request where
  | get (kind name : String)
  | list (kind : String)
  | put (obj : Option Object) (expectedRev : Int)
  | delete (kind name : String)
  | deleteIfRevision (kind name : String) (expectedRev : Int)

inductive Answer where
  | object (o : Object) (rev : Int)
  | objects (os : List Object) (rev : Int)
  | revision (rev : Int)
  | done

def refuse (text : String) : Except StoreErr Answer := .error ⟨.other, text⟩

def named (kind name : String) : String := kind ++ " " ++ quote name

def sentinel (cls : ErrClass) (text : String) : Except StoreErr Answer := .error ⟨cls, text⟩

/-- `stampNew` (etcd.go:184), with the UUID and the time it would draw. -/
def stampMeta (uuid : Uid) (nowUnix : Int) (m : Meta) : Meta :=
  { m with
    uid := if m.uid = 0 then uuid else m.uid
    createdUnix := if m.createdUnix = 0 then nowUnix else m.createdUnix }

/-- What an upsert takes over from the stored object. -/
def adoptMeta (cur m : Meta) : Meta := stampMeta cur.uid cur.createdUnix m

-- `decode` (etcd.go:43) fills in the mod revision.
def Kv.decode (kv : Kv) : Object :=
  kv.value.withMeta { kv.value.metadata with resourceVersion := kv.modRevision }

namespace Etcd

def get (s : Etcd) (kind name : String) : Except StoreErr Answer :=
  match storeKey kind name with
  | .error e => refuse e
  | .ok k =>
    match s.kvs[k]? with
    | none => sentinel .notFound (named kind name ++ ": object not found")
    | some kv => .ok (.object kv.decode kv.modRevision)

/-- The range read of one kind's keys. -/
def range (s : Etcd) (k : Kind) : List (String × Kv) := s.kvs.toList.filter fun e => hasPrefix e.1 (kindRoot k)

def objects (s : Etcd) (k : Kind) : List Object := (s.range k).map fun e => e.2.decode

def list (s : Etcd) (kind : String) : Except StoreErr Answer :=
  match canonical kind with
  | .error e => refuse e
  | .ok k => .ok (.objects (s.objects k) s.rev)

section Put
variable (next : Int → Int) (uuid : Uid) (nowUnix : Int) (s : Etcd) (k : String) (stored : Object)

def putCreate : Except StoreErr Answer × Etcd :=
  let v := stored.withMeta (stampMeta uuid nowUnix stored.metadata)
  if s.createRevision k = 0 then (.ok (.revision (next s.rev)), s.opPut next k v)
  else (sentinel .alreadyExists (named stored.kind.name stored.name ++ ": object already exists"), s)

/-- `putUpsert` (etcd.go:139); no other call comes between its read and its write here. -/
def putUpsert : Except StoreErr Answer × Etcd :=
  let m := match s.kvs[k]? with
    | some kv => adoptMeta kv.value.metadata stored.metadata
    | none => stampMeta uuid nowUnix stored.metadata
  (.ok (.revision (next s.rev)), s.opPut next k (stored.withMeta m))

def putCAS (expectedRev : Int) : Except StoreErr Answer × Etcd :=
  if s.modRevision k = expectedRev then (.ok (.revision (next s.rev)), s.opPut next k stored)
  else (sentinel .conflict (named stored.kind.name stored.name ++ " at revision " ++ toString expectedRev ++
    ": revision conflict"), s)

end Put

section Calls
variable (next : Int → Int)

def put (uuid : Uid) (nowUnix : Int) (s : Etcd) (obj : Option Object) (expectedRev : Int) :
    Except StoreErr Answer × Etcd :=
  match obj with
  | none => (refuse "empty object envelope", s)
  | some o =>
    match storeKey o.kind.name o.name with
    | .error e => (refuse e, s)
    | .ok k =>
      let stored := o.unversioned
      if expectedRev = revCreate then s.putCreate next uuid nowUnix k stored
      else if expectedRev = revAny then s.putUpsert next uuid nowUnix k stored
      else if expectedRev > 0 then s.putCAS next k stored expectedRev
      else (refuse ("invalid expectedRev " ++ toString expectedRev), s)

def delete (s : Etcd) (kind name : String) : Except StoreErr Answer × Etcd :=
  match storeKey kind name with
  | .error e => (refuse e, s)
  | .ok k =>
    match s.kvs[k]? with
    | some _ => (.ok .done, s.opDelete next k)
    | none => (sentinel .notFound (named kind name ++ ": object not found"), s)

def deleteIfRevision (s : Etcd) (kind name : String) (expectedRev : Int) : Except StoreErr Answer × Etcd :=
  match storeKey kind name with
  | .error e => (refuse e, s)
  | .ok k =>
    if expectedRev ≤ 0 then
      (refuse ("delete " ++ k ++ ": expectedRev must be positive, got " ++ toString expectedRev), s)
    else if s.modRevision k = expectedRev then (.ok .done, s.opDelete next k)
    else match s.kvs[k]? with
      | none => (sentinel .notFound (named kind name ++ ": object not found"), s)
      | some _ => (sentinel .conflict (named kind name ++ " at revision " ++ toString expectedRev ++
          ": revision conflict"), s)

def call (uuid : Uid) (nowUnix : Int) (s : Etcd) : Request → Except StoreErr Answer × Etcd
  | .get kind name => (s.get kind name, s)
  | .list kind => (s.list kind, s)
  | .put obj expectedRev => s.put next uuid nowUnix obj expectedRev
  | .delete kind name => s.delete next kind name
  | .deleteIfRevision kind name expectedRev => s.deleteIfRevision next kind name expectedRev

end Calls

end Etcd

/-! ### Watch -/

inductive EventType where
  | added
  | modified
  | deleted
  deriving DecidableEq

/-- `Event` (store.go:25). Its error is left out: stored objects decode, and the watch does not break. -/
structure StoreEvent where
  type : EventType
  object : Object
  revision : Int

namespace KvEvent

def key : KvEvent → String
  | .put k _ => k
  | .delete k _ _ => k

def revision : KvEvent → Int
  | .put _ kv => kv.modRevision
  | .delete _ r _ => r

/-- The event as it is delivered when the values before the revisions of `gone` are compacted away. -/
def compacted (gone : Int → Bool) : KvEvent → KvEvent
  | .put k kv => .put k kv
  | .delete k r prev => .delete k r (if gone r then none else prev)

end KvEvent

/-- `New` (object.go:64). -/
def newObject : Kind → Object
  | .workload => ⟨.workload, ({} : Workload)⟩
  | .service => ⟨.service, ({} : Service)⟩
  | .node => ⟨.node, ({} : Node)⟩
  | .networkPolicy => ⟨.networkPolicy, ({} : NetworkPolicy)⟩
  | .inst => ⟨.inst, ({} : Instance)⟩
  | .vipAllocation => ⟨.vipAllocation, ({} : VIPAllocation)⟩
  | .ingressAllocation => ⟨.ingressAllocation, ({} : IngressAllocation)⟩

/-- `toEvent` (etcd.go:291). -/
def toEvent (segs : List String) (ev : KvEvent) : Option StoreEvent :=
  match splitKey ev.key with
  | none => none
  | some (seg, name) =>
    if segs ≠ [] ∧ seg ∉ segs then none
    else match ev with
      | .put _ kv =>
        some ⟨if kv.createRevision = kv.modRevision then .added else .modified, kv.decode, kv.modRevision⟩
      | .delete _ r (some prev) => some ⟨.deleted, prev.withMeta { prev.metadata with resourceVersion := r }, r⟩
      | .delete _ r none =>
        match canonical seg with
        | .error _ => none
        | .ok k => some ⟨.deleted, (newObject k).withMeta { name := name, resourceVersion := r }, r⟩

/-- What etcd has delivered on the prefix of all keys, from revision `start` on. -/
def Etcd.changes (s : Etcd) (gone : Int → Bool) (start : Int) : List KvEvent :=
  (s.log.filter fun ev => hasPrefix ev.key keyRoot ∧ start ≤ ev.revision).map (KvEvent.compacted gone)

/-- `Watch` (etcd.go:246): the events sent so far to a watch that was opened at revision `opened`. -/
def Etcd.watch (s : Etcd) (gone : Int → Bool) (opened : Int) (kinds : List String) (fromRev : Int) :
    Except String (List StoreEvent) :=
  match kinds.mapM canonical with
  | .error e => .error e
  | .ok ks =>
    let start := if fromRev > 0 then fromRev else opened + 1
    .ok ((s.changes gone start).filterMap (toEvent (ks.map Kind.plural)))

end Klite
