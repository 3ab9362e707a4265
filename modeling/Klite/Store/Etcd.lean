import Klite.Lib.Program
import Klite.Lib.Table
import Klite.Object.Validate

/-!
# The store (internal/store/etcd.go)

Every call is one etcd request, so it is atomic. The store carries what etcd and
`key` guarantee: an object sits under its own name, a name is never empty and
holds no slash, and a mod revision is positive and not in the future.
-/

namespace Klite

-- The sentinels of store.go that callers test for with errors.Is; `other` is any other error.
inductive ErrClass where
  | notFound
  | alreadyExists
  | conflict
  | canceled
  | other
  deriving DecidableEq

structure StoreErr where
  cls : ErrClass
  text : String
  deriving DecidableEq

namespace StoreErr

def isNotFound (e : StoreErr) : Bool := e.cls = .notFound
def isAlreadyExists (e : StoreErr) : Bool := e.cls = .alreadyExists
def isConflict (e : StoreErr) : Bool := e.cls = .conflict

def notFound (k : Kind) (n : String) : StoreErr :=
  ⟨.notFound, k.name ++ " " ++ quote n ++ ": object not found"⟩
def alreadyExists (k : Kind) (n : String) : StoreErr :=
  ⟨.alreadyExists, k.name ++ " " ++ quote n ++ ": object already exists"⟩
def conflict (k : Kind) (n : String) (rev : Int) : StoreErr :=
  ⟨.conflict, k.name ++ " " ++ quote n ++ " at revision " ++ toString rev ++ ": revision conflict"⟩
def badName (n : String) : StoreErr := ⟨.other, "invalid object name " ++ quote n⟩
def lost : StoreErr := ⟨.other, "transport is closing"⟩

end StoreErr

-- The names `key` accepts (etcd.go:37).
def validName (n : String) : Bool := n ≠ "" && !n.toList.contains '/'

def Kind.plural : Kind → String
  | .workload => "workloads"
  | .service => "services"
  | .node => "nodes"
  | .networkPolicy => "networkpolicies"
  | .inst => "instances"
  | .vipAllocation => "vipallocations"
  | .ingressAllocation => "ingressallocations"

def key (k : Kind) (n : String) : String := "/klite/v1/" ++ k.plural ++ "/" ++ n

structure Store where
  rev : Int
  uids : Uid
  tbl : (k : Kind) → Std.ExtTreeMap String (k.Obj × Int)
  rev_nonneg : 0 ≤ rev
  wf : ∀ (k : Kind) (n : String) (o : k.Obj) (r : Int), (tbl k)[n]? = some (o, r) →
    (metaOf o).name = n ∧ validName n ∧ 0 < r ∧ r ≤ rev

-- `decode` fills `resource_version` from the mod revision on every read.
def stamp {k : Kind} (o : k.Obj) (r : Int) : k.Obj :=
  setMeta o { metaOf o with resourceVersion := r }

theorem metaOf_stamp {k : Kind} (o : k.Obj) (r : Int) :
    metaOf (stamp o r) = { metaOf o with resourceVersion := r } := metaOf_setMeta _ _

theorem stamp_stamp {k : Kind} (o : k.Obj) (r r' : Int) : stamp (stamp o r) r' = stamp o r' := by
  cases k <;> rfl

namespace Store

def empty : Store where
  rev := 0
  uids := 0
  tbl _ := ∅
  rev_nonneg := le_refl 0
  wf := by
    intro k n o r h
    simp at h

def lookup (s : Store) (k : Kind) (n : String) : Option (k.Obj × Int) :=
  (s.tbl k)[n]?.map fun e => (stamp e.1 e.2, e.2)

def listing (s : Store) (k : Kind) : List k.Obj :=
  (s.tbl k).toList.map fun e => stamp e.2.1 e.2.2

-- A committed put: the object without its revision, under the next revision.
def write (s : Store) (k : Kind) (o : k.Obj) (uids : Uid) (hv : validName (metaOf o).name) : Store where
  rev := s.rev + 1
  uids := uids
  tbl := Function.update s.tbl k ((s.tbl k).insert (metaOf o).name (stamp o 0, s.rev + 1))
  rev_nonneg := by have := s.rev_nonneg; omega
  wf := by
    intro k' n o' r h
    have h0 := s.rev_nonneg
    by_cases hk : k' = k
    · subst hk
      rw [Function.update_self, Lib.Table.get_insert] at h
      by_cases hn : (metaOf o).name = n
      · rw [if_pos hn] at h
        cases h
        rw [metaOf_stamp]
        exact ⟨hn, hn ▸ hv, by omega, le_refl _⟩
      · rw [if_neg hn] at h
        have hw := s.wf _ _ _ _ h
        exact ⟨hw.1, hw.2.1, hw.2.2.1, by omega⟩
    · rw [Function.update_of_ne hk] at h
      have hw := s.wf _ _ _ _ h
      exact ⟨hw.1, hw.2.1, hw.2.2.1, by omega⟩

def remove (s : Store) (k : Kind) (n : String) : Store where
  rev := s.rev + 1
  uids := s.uids
  tbl := Function.update s.tbl k ((s.tbl k).erase n)
  rev_nonneg := by have := s.rev_nonneg; omega
  wf := by
    intro k' n' o' r h
    by_cases hk : k' = k
    · subst hk
      rw [Function.update_self, Lib.Table.get_erase] at h
      split at h
      · cases h
      · have hw := s.wf _ _ _ _ h
        exact ⟨hw.1, hw.2.1, hw.2.2.1, by omega⟩
    · rw [Function.update_of_ne hk] at h
      have hw := s.wf _ _ _ _ h
      exact ⟨hw.1, hw.2.1, hw.2.2.1, by omega⟩

end Store

/- `stampNew` (etcd.go:184), with the UIDs minted so far. Of `uuid.NewString` it is assumed that it
gives no UID twice: the next number of a counter stands for it. -/
def stampNew (uids : Uid) (nowUnix : Int) (m : Meta) : Meta × Uid :=
  let m' := { m with createdUnix := if m.createdUnix = 0 then nowUnix else m.createdUnix }
  if m.uid = 0 then ({ m' with uid := uids + 1 }, uids + 1) else (m', uids)

theorem stampNew_name (uids : Uid) (nowUnix : Int) (m : Meta) : (stampNew uids nowUnix m).1.name = m.name := by
  unfold stampNew
  dsimp only
  split <;> rfl

def revCreate : Int := 0
def revAny : Int := -1

section Put
variable (s : Store) (nowUnix : Int) (k : Kind) (o : k.Obj) (hv : validName (metaOf o).name)

def Store.created : Store :=
  s.write k (setMeta o (stampNew s.uids nowUnix (metaOf o)).1)
    (stampNew s.uids nowUnix (metaOf o)).2 (by rw [metaOf_setMeta, stampNew_name]; exact hv)

def Store.putCreate : Except StoreErr Int × Store :=
  match (s.tbl k)[(metaOf o).name]? with
  | some _ => (.error (.alreadyExists k (metaOf o).name), s)
  | none => (.ok (s.rev + 1), s.created nowUnix k o hv)

-- The read and the blind write of the source are one step here: nothing but a test upserts.
def Store.putUpsert : Except StoreErr Int × Store :=
  match (s.tbl k)[(metaOf o).name]? with
  | some (cur, _) =>
    let m := metaOf o
    let m' := { m with
      uid := if m.uid = 0 then (metaOf cur).uid else m.uid
      createdUnix := if m.createdUnix = 0 then (metaOf cur).createdUnix else m.createdUnix }
    (.ok (s.rev + 1), s.write k (setMeta o m') s.uids (by rw [metaOf_setMeta]; exact hv))
  | none => (.ok (s.rev + 1), s.created nowUnix k o hv)

def Store.putCAS (expectedRev : Int) : Except StoreErr Int × Store :=
  match (s.tbl k)[(metaOf o).name]? with
  | some (_, r) =>
    if r = expectedRev then (.ok (s.rev + 1), s.write k o s.uids hv)
    else (.error (.conflict k (metaOf o).name expectedRev), s)
  | none => (.error (.conflict k (metaOf o).name expectedRev), s)

def Store.put (expectedRev : Int) : Except StoreErr Int × Store :=
  if hv : validName (metaOf o).name then
    if expectedRev = revCreate then s.putCreate nowUnix k o hv
    else if expectedRev = revAny then s.putUpsert nowUnix k o hv
    else if expectedRev > 0 then s.putCAS k o hv expectedRev
    else (.error ⟨.other, "invalid expectedRev " ++ toString expectedRev⟩, s)
  else (.error (.badName (metaOf o).name), s)

end Put

def Store.get (s : Store) (k : Kind) (n : String) : Except StoreErr (k.Obj × Int) :=
  if validName n then
    match s.lookup k n with
    | some e => .ok e
    | none => .error (.notFound k n)
  else .error (.badName n)

def Store.delete (s : Store) (k : Kind) (n : String) : Except StoreErr Unit × Store :=
  if validName n then
    match (s.tbl k)[n]? with
    | some _ => (.ok (), s.remove k n)
    | none => (.error (.notFound k n), s)
  else (.error (.badName n), s)

/- `DeleteIfRevision` (etcd.go:212): the compare is on the mod revision, and the
else-branch tells a moved key from an absent one. -/
def Store.deleteIfRevision (s : Store) (k : Kind) (n : String) (expectedRev : Int) : Except StoreErr Unit × Store :=
  if validName n then
    if expectedRev ≤ 0 then
      (.error ⟨.other, "delete " ++ key k n ++ ": expectedRev must be positive, got " ++ toString expectedRev⟩, s)
    else match (s.tbl k)[n]? with
      | some (_, r) =>
        if r = expectedRev then (.ok (), s.remove k n)
        else (.error (.conflict k n expectedRev), s)
      | none => (.error (.notFound k n), s)
  else (.error (.badName n), s)

end Klite
