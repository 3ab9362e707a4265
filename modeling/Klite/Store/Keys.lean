import Klite.Store.Etcd

/-!
# Kinds and keys (internal/object/object.go, internal/store/etcd.go)

A kind argument is resolved case-insensitively from a kind's name or its plural. An
object lives under the plural of its kind and its own name, and the key of a deleted
object is all that may be left to tell which one it was.
-/

namespace Klite

def Kind.all : List Kind :=
  [.workload, .service, .node, .networkPolicy, .inst, .vipAllocation, .ingressAllocation]

def unknownKind (s : String) : String :=
  "unknown kind " ++ quote s ++ " (one of " ++ ", ".intercalate (Kind.all.map Kind.name) ++ ")"

/-- `Canonical` (object.go:51). `aliases` has the lower-case name and the plural of every kind. -/
def canonical (s : String) : Except String Kind :=
  match Kind.all.find? fun k => toLower s = toLower k.name ∨ toLower s = k.plural with
  | some k => .ok k
  | none => .error (unknownKind s)

theorem canonical_name (k : Kind) : canonical k.name = .ok k := by
  cases k <;> decide

theorem canonical_plural (k : Kind) : canonical k.plural = .ok k := by
  cases k <;> decide

def keyRoot : String := "/klite/v1/"

/-- The part all keys of one kind share. -/
def kindRoot (k : Kind) : String := keyRoot ++ k.plural ++ "/"

theorem key_eq (k : Kind) (n : String) : key k n = kindRoot k ++ n := rfl

/-- `key` (etcd.go:32). -/
def storeKey (kind name : String) : Except String String :=
  match canonical kind with
  | .error e => .error e
  | .ok k => if validName name then .ok (key k name) else .error ("invalid object name " ++ quote name)

/-- `strings.SplitN(rest, "/", 2)` of the rest of a key, as `toEvent` (etcd.go:303) takes it apart. -/
def splitSegment (rest : String) : Option (String × String) :=
  match rest.toList.dropWhile (· ≠ '/') with
  | [] => none
  | _ :: name => some (String.ofList (rest.toList.takeWhile (· ≠ '/')), String.ofList name)

def splitKey (key : String) : Option (String × String) := (cutPrefix key keyRoot).bind splitSegment

theorem cutPrefix_append (p s : String) : cutPrefix (p ++ s) p = some s := by
  unfold cutPrefix hasPrefix
  rw [if_pos, String.toList_append]
  · rw [show p.length = p.toList.length from (String.length_toList).symm, List.drop_left, String.ofList_toList]
  · rw [String.toList_append, List.isPrefixOf_iff_prefix]
    exact List.prefix_append _ _

theorem plural_plain (k : Kind) : ∀ c ∈ k.plural.toList, c ≠ '/' := by
  have hall : k.plural.toList.all (fun c => c ≠ '/') = true := by cases k <;> rfl
  intro c hc
  exact of_decide_eq_true (List.all_eq_true.mp hall c hc)

theorem splitSegment_plural (k : Kind) (n : String) : splitSegment (k.plural ++ "/" ++ n) = some (k.plural, n) := by
  have hall : ∀ c ∈ k.plural.toList, decide (c ≠ '/') = true := fun c hc => decide_eq_true (plural_plain k c hc)
  have hl : (k.plural ++ "/" ++ n).toList = k.plural.toList ++ '/' :: n.toList := by
    simp [String.toList_append]
  unfold splitSegment
  rw [hl, List.dropWhile_append_of_pos hall, List.takeWhile_append_of_pos hall]
  simp

theorem splitKey_key (k : Kind) (n : String) : splitKey (key k n) = some (k.plural, n) := by
  have hk : key k n = keyRoot ++ (k.plural ++ "/" ++ n) := by
    simp only [key, keyRoot, String.append_assoc]
  unfold splitKey
  rw [hk, cutPrefix_append, Option.bind_some, splitSegment_plural]

theorem plural_inj {k k' : Kind} (h : k.plural = k'.plural) : k = k' := by
  have hc := canonical_plural k
  rw [h, canonical_plural k'] at hc
  exact (Except.ok.inj hc).symm

/-- Distinct kinds or names never share a key. -/
theorem key_inj {k k' : Kind} {n n' : String} (h : key k n = key k' n') : k = k' ∧ n = n' := by
  have hs := splitKey_key k n
  rw [h, splitKey_key k' n'] at hs
  obtain ⟨hp, hn⟩ := Prod.mk.inj (Option.some.inj hs)
  exact ⟨plural_inj hp.symm, hn.symm⟩

theorem storeKey_ok {kind name key' : String} (h : storeKey kind name = .ok key') :
    ∃ k, canonical kind = .ok k ∧ validName name ∧ key' = key k name := by
  unfold storeKey at h
  split at h
  · cases h
  · rename_i k hk
    split at h
    · rename_i hv
      exact ⟨k, hk, hv, (Except.ok.inj h).symm⟩
    · cases h

theorem hasPrefix_append {s p : String} : hasPrefix s p ↔ ∃ rest, s = p ++ rest := by
  unfold hasPrefix
  rw [List.isPrefixOf_iff_prefix]
  constructor
  · rintro ⟨t, ht⟩
    refine ⟨String.ofList t, String.toList_inj.mp ?_⟩
    rw [String.toList_append, String.toList_ofList, ht]
  · rintro ⟨rest, rfl⟩
    rw [String.toList_append]
    exact List.prefix_append _ _

theorem hasPrefix_key {k k' : Kind} {n : String} : hasPrefix (key k' n) (kindRoot k) ↔ k' = k := by
  rw [hasPrefix_append]
  constructor
  · rintro ⟨rest, h⟩
    exact (key_inj (show key k' n = key k rest from h)).1
  · rintro rfl
    exact ⟨n, rfl⟩

theorem append_lt (l : List Char) {a b : List Char} (h : a < b) : l ++ a < l ++ b := by
  induction l with
  | nil => exact h
  | cons c l ih => exact List.cons_lt_cons_iff.mpr (Or.inr ⟨rfl, ih⟩)

theorem key_lt {k : Kind} {n n' : String} (h : n < n') : key k n < key k n' := by
  rw [key_eq, key_eq, String.lt_iff_toList_lt, String.toList_append, String.toList_append]
  exact append_lt _ (String.lt_iff_toList_lt.mp h)

end Klite
