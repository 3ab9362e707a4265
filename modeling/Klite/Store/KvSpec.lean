import Klite.Store.Kv
import Mathlib.Data.List.Sort

/-!
# What a store call does to the keys

A call leaves etcd as it is, puts one object under the key of its kind and name, or
deletes one key. A range read gives the entries of one kind in the order of their names.
-/

namespace Klite
open Lib

namespace Etcd

/-- Only keys of the store are in use. -/
def Keyed (s : Etcd) : Prop := ∀ (key' : String) (kv : Kv), s.kvs[key']? = some kv → ∃ k n, key' = key k n

theorem mem_range_keys {s : Etcd} {k : Kind} {key' : String} :
    key' ∈ (s.range k).map (·.1) ↔ hasPrefix key' (kindRoot k) ∧ ∃ kv, s.kvs[key']? = some kv := by
  unfold Etcd.range
  rw [List.mem_map]
  constructor
  · rintro ⟨⟨key'', kv⟩, hm, rfl⟩
    obtain ⟨hin, hp⟩ := List.mem_filter.mp hm
    exact ⟨hp, kv, Table.mem_toList.mp hin⟩
  · rintro ⟨hp, kv, hkv⟩
    exact ⟨(key', kv), List.mem_filter.mpr ⟨Table.mem_toList.mpr hkv, hp⟩, rfl⟩

end Etcd

section Range
variable {s : Etcd} (hs : s.Keyed) {k : Kind} {V : Type} {t : Std.ExtTreeMap String V} {R : V → Kv → Prop}
  (h : ∀ n, Option.Rel R t[n]? s.kvs[key k n]?)
include hs h

theorem range_keys : (s.range k).map (·.1) = (t.toList.map (·.1)).map (key k) := by
  refine List.Pairwise.eq_of_mem_iff (r := (· < ·)) ?_ ?_ ?_
  · exact (Table.keys_sorted s.kvs).sublist (List.filter_sublist.map _)
  · rw [List.pairwise_map]
    exact (Table.keys_sorted t).imp fun h => key_lt h
  · intro key'
    rw [Etcd.mem_range_keys, List.map_map, List.mem_map]
    constructor
    · rintro ⟨hp, kv, hkv⟩
      obtain ⟨k', n, rfl⟩ := hs key' kv hkv
      obtain rfl := hasPrefix_key.mp hp
      have he := h n
      rw [hkv] at he
      cases hm : t[n]? with
      | none => rw [hm] at he; cases he
      | some e => exact ⟨(n, e), Table.mem_toList.mpr hm, rfl⟩
    · rintro ⟨⟨n, e⟩, hm, rfl⟩
      have he := h n
      rw [Table.mem_toList.mp hm] at he
      refine ⟨hasPrefix_key.mpr rfl, ?_⟩
      cases hkv : s.kvs[key k n]? with
      | none => rw [hkv] at he; cases he
      | some kv => exact ⟨kv, hkv⟩

theorem range_pairs : List.Forall₂ (fun a b => R a.2 b.2) t.toList (s.range k) := by
  have hkeys := Table.forall₂_of_map_eq ((range_keys hs h).trans (List.map_map ..)).symm
  refine Table.forall₂_mem hkeys ?_
  rintro ⟨n, e⟩ hm ⟨key', kv⟩ hkv rfl
  have he := h n
  have hget : s.kvs[key k n]? = some kv := Table.mem_toList.mp (List.mem_of_mem_filter hkv)
  rw [Table.mem_toList.mp hm, hget] at he
  cases he with
  | some h => exact h

end Range

/-! ### The commit of a call -/

/-- Nothing, one put under the object's own key, or one delete. -/
inductive KvStep (next : Int → Int) (s : Etcd) : Etcd → Prop where
  | none : KvStep next s s
  | put (o : Object) : KvStep next s (s.opPut next (key o.kind o.name) o)
  | delete (k : Kind) (n : String) : KvStep next s (s.opDelete next (key k n))

section Calls
variable {next : Int → Int} {uuid : Uid} {nowUnix : Int} {s : Etcd}

theorem unversioned_metadata (o : Object) : o.unversioned.metadata = { o.metadata with resourceVersion := 0 } :=
  metadata_withMeta _ _

theorem unversioned_name (o : Object) : o.unversioned.name = o.name := by
  unfold Object.name
  rw [unversioned_metadata]

theorem kvStep_put {key' : String} {o : Object} (h : key' = key o.kind o.name) : KvStep next s (s.opPut next key' o) := by
  rw [h]
  exact KvStep.put o

theorem stamped_name (o : Object) (u : Uid) (c : Int) : (o.withMeta (stampMeta u c o.metadata)).name = o.name := by
  unfold Object.name
  rw [metadata_withMeta]
  rfl

theorem kvStep_of_put (obj : Option Object) (r : Int) : KvStep next s (s.put next uuid nowUnix obj r).2 := by
  unfold Etcd.put
  cases obj with
  | none => exact KvStep.none
  | some o =>
    dsimp only
    split
    · exact KvStep.none
    · rename_i key' hk
      obtain ⟨k, hc, -, rfl⟩ := storeKey_ok hk
      obtain rfl := Except.ok.inj ((canonical_name o.kind).symm.trans hc)
      have hkey : key o.kind o.name = key o.unversioned.kind o.unversioned.name := by
        rw [unversioned_name]
        rfl
      split
      · unfold Etcd.putCreate
        dsimp only
        split
        · exact kvStep_put (by rw [stamped_name]; exact hkey)
        · exact KvStep.none
      · split
        · unfold Etcd.putUpsert
          dsimp only
          split
          · exact kvStep_put (by unfold adoptMeta; rw [stamped_name]; exact hkey)
          · exact kvStep_put (by rw [stamped_name]; exact hkey)
        · split
          · unfold Etcd.putCAS
            split
            · exact kvStep_put hkey
            · exact KvStep.none
          · exact KvStep.none

theorem kvStep_of_call (req : Request) : KvStep next s (s.call next uuid nowUnix req).2 := by
  cases req with
  | get kind name => exact KvStep.none
  | list kind => exact KvStep.none
  | put obj r => exact kvStep_of_put obj r
  | delete kind name =>
    show KvStep next s (s.delete next kind name).2
    unfold Etcd.delete
    split
    · exact KvStep.none
    · rename_i key' hk
      obtain ⟨k, -, -, rfl⟩ := storeKey_ok hk
      split
      · exact KvStep.delete k name
      · exact KvStep.none
  | deleteIfRevision kind name r =>
    show KvStep next s (s.deleteIfRevision next kind name r).2
    unfold Etcd.deleteIfRevision
    split
    · exact KvStep.none
    · rename_i key' hk
      obtain ⟨k, -, -, rfl⟩ := storeKey_ok hk
      split
      · exact KvStep.none
      · split
        · exact KvStep.delete k name
        · split <;> exact KvStep.none

end Calls

end Klite
