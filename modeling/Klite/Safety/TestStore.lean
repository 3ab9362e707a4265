import Mathlib
import Klite.Lib.Runs
import Klite.Store.KvSpec
import Klite.Store.Memory

/-!
# The store of the tests and the store over etcd

The two stores are run side by side on corresponding calls.
-/

namespace Klite
open Lib

/-- etcd's revision when Memory's counter stands at `i`. -/
def Revisions.rename (v : Revisions) (i : Int) : Int := v.next^[i.toNat] v.first

theorem rename_succ (v : Revisions) {i : Int} (h : 0 ≤ i) : v.rename (i + 1) = v.next (v.rename i) := by
  unfold Revisions.rename
  rw [Int.toNat_add h (by decide), ← Function.iterate_succ_apply' v.next]
  rfl

theorem rename_strictMonoOn (v : Revisions) : StrictMonoOn v.rename (Set.Ici 0) := by
  have hmono : StrictMono fun n : ℕ => v.next^[n] v.first := by
    apply strictMono_nat_of_lt_succ
    intro n
    rw [Function.iterate_succ_apply']
    exact v.grows _
  intro i hi j hj hij
  have hnat : i.toNat < j.toNat := (Int.toNat_lt_toNat (lt_of_le_of_lt hi hij)).mpr hij
  exact hmono hnat

theorem rename_pos (v : Revisions) {i : Int} (h : 0 < i) : 0 < v.rename i := by
  have hlt : v.rename 0 < v.rename i := rename_strictMonoOn v (Set.mem_Ici.mpr (le_refl 0)) (Set.mem_Ici.mpr h.le) h
  have h0 : v.rename 0 = v.first := rfl
  have hfirst := v.first_pos
  omega

/-- The uids and creation times the two stores made, each pair by one call. -/
structure Renaming where
  uids : List (Uid × Uid) := []
  times : List (Int × Int) := []

namespace Renaming

def SameUid (g : Renaming) (u u' : Uid) : Prop := u = u' ∨ (u, u') ∈ g.uids

def SameTime (g : Renaming) (c c' : Int) : Prop := c = c' ∨ (c, c') ∈ g.times

def Within (g g' : Renaming) : Prop := g.uids ⊆ g'.uids ∧ g.times ⊆ g'.times

def Filled (g : Renaming) : Prop := (∀ p ∈ g.uids, p.1 ≠ 0 ∧ p.2 ≠ 0) ∧ ∀ p ∈ g.times, p.1 ≠ 0 ∧ p.2 ≠ 0

end Renaming

/-- The object without the fields a store fills in. -/
def Object.bare (o : Object) : Object :=
  o.withMeta { o.metadata with uid := 0, createdUnix := 0, resourceVersion := 0 }

structure Like (g : Renaming) (o o' : Object) : Prop where
  bare : o.bare = o'.bare
  uid : g.SameUid o.metadata.uid o'.metadata.uid
  created : g.SameTime o.metadata.createdUnix o'.metadata.createdUnix

theorem like_refl (g : Renaming) (o : Object) : Like g o o := ⟨rfl, Or.inl rfl, Or.inl rfl⟩

variable {g : Renaming}

theorem like_kind {o o' : Object} (h : Like g o o') : o.kind = o'.kind := by
  have hk := congrArg Envelope.kind h.bare
  exact hk

theorem like_name {o o' : Object} (h : Like g o o') : o.name = o'.name := by
  have hm := congrArg Object.metadata h.bare
  unfold Object.bare at hm
  rw [metadata_withMeta, metadata_withMeta] at hm
  have hn := congrArg Meta.name hm
  exact hn

theorem like_mono {g g' : Renaming} {o o' : Object} (hg : g.Within g') (h : Like g o o') : Like g' o o' :=
  ⟨h.bare, h.uid.imp_right fun hm => hg.1 hm, h.created.imp_right fun hm => hg.2 hm⟩

variable {m : Meta}

theorem bare_withMeta {o : Object} (hn : m.name = o.metadata.name) (hl : m.labels = o.metadata.labels) :
    (o.withMeta m).bare = o.bare := by
  unfold Object.bare
  rw [withMeta_withMeta, metadata_withMeta]
  dsimp only
  rw [hn, hl]

theorem like_withMeta {g g' : Renaming} {o o' : Object} {m m' : Meta} (h : Like g o o')
    (hm : m.name = o.metadata.name ∧ m.labels = o.metadata.labels)
    (hm' : m'.name = o'.metadata.name ∧ m'.labels = o'.metadata.labels)
    (hu : g'.SameUid m.uid m'.uid) (hc : g'.SameTime m.createdUnix m'.createdUnix) :
    Like g' (o.withMeta m) (o'.withMeta m') where
  bare := by rw [bare_withMeta hm.1 hm.2, bare_withMeta hm'.1 hm'.2, h.bare]
  uid := by rw [metadata_withMeta, metadata_withMeta]; exact hu
  created := by rw [metadata_withMeta, metadata_withMeta]; exact hc

theorem sameUid_zero (hg : g.Filled) {u u' : Uid} (h : g.SameUid u u') : u = 0 ↔ u' = 0 := by
  rcases h with rfl | hm
  · rfl
  · have hp := hg.1 _ hm
    exact ⟨fun h => absurd h hp.1, fun h => absurd h hp.2⟩

theorem sameTime_zero (hg : g.Filled) {c c' : Int} (h : g.SameTime c c') : c = 0 ↔ c' = 0 := by
  rcases h with rfl | hm
  · rfl
  · have hp := hg.2 _ hm
    exact ⟨fun h => absurd h hp.1, fun h => absurd h hp.2⟩

theorem like_stamp {g g' : Renaming} {o o' : Object} (hg : g.Filled) (hw : g.Within g') (h : Like g o o')
    {u u' : Uid} {c c' : Int} (hu : o.metadata.uid = 0 → g'.SameUid u u')
    (hc : o.metadata.createdUnix = 0 → g'.SameTime c c') :
    Like g' (o.withMeta (stampMeta u c o.metadata)) (o'.withMeta (stampMeta u' c' o'.metadata)) := by
  have hgrow := like_mono hw h
  have hzu := sameUid_zero hg h.uid
  have hzc := sameTime_zero hg h.created
  refine like_withMeta h ⟨rfl, rfl⟩ ⟨rfl, rfl⟩ ?_ ?_
  · unfold stampMeta
    dsimp only
    by_cases hz : o.metadata.uid = 0
    · rw [if_pos hz, if_pos (hzu.mp hz)]
      exact hu hz
    · rw [if_neg hz, if_neg fun h' => hz (hzu.mpr h')]
      exact hgrow.uid
  · unfold stampMeta
    dsimp only
    by_cases hz : o.metadata.createdUnix = 0
    · rw [if_pos hz, if_pos (hzc.mp hz)]
      exact hc hz
    · rw [if_neg hz, if_neg fun h' => hz (hzc.mpr h')]
      exact hgrow.created

theorem stampMeta_carried {u : Uid} {c : Int} (hu : m.uid ≠ 0) (hc : m.createdUnix ≠ 0) : stampMeta u c m = m := by
  unfold stampMeta
  rw [if_neg hu, if_neg hc]

/-! ### The two runs -/

/-- What the two stores would draw during one call. -/
structure Draws where
  uuid : Uid
  memNow : Int
  etcdNow : Int
  uuid_ne : uuid ≠ 0
  memNow_ne : memNow ≠ 0
  etcdNow_ne : etcdNow ≠ 0

structure Turn where
  mem : Request
  etcd : Request
  draws : Draws

structure Twins where
  mem : Memory := {}
  etcd : Etcd
  gen : Renaming := {}

/-- The metadata a call stamps anew: those of an object put under a name that is not taken. -/
def Memory.fresh (m : Memory) : Request → Option Meta
  | .put (some o) expectedRev =>
    if validName o.name ∧ (expectedRev = revCreate ∨ expectedRev = revAny) ∧ (m.entry o.kind o.name).isNone then
      some o.metadata
    else none
  | _ => none

def Renaming.grow (g : Renaming) (uid : Uid) (d : Draws) : Option Meta → Renaming
  | none => g
  | some m =>
    { uids := g.uids ++ if m.uid = 0 then [(uid, d.uuid)] else []
      times := g.times ++ if m.createdUnix = 0 then [(d.memNow, d.etcdNow)] else [] }

section Run
variable (v : Revisions) (mint : ℕ → Uid)

def Twins.answers (t : Twins) (turn : Turn) : Except StoreErr Answer × Except StoreErr Answer :=
  ((t.mem.call mint turn.draws.memNow turn.mem).1,
    (t.etcd.call v.next turn.draws.uuid turn.draws.etcdNow turn.etcd).1)

def Twins.step (t : Twins) (turn : Turn) : Twins where
  mem := (t.mem.call mint turn.draws.memNow turn.mem).2
  etcd := (t.etcd.call v.next turn.draws.uuid turn.draws.etcdNow turn.etcd).2
  gen := t.gen.grow (mint (t.mem.uid + 1)) turn.draws (t.mem.fresh turn.mem)

def Twins.start : Twins where
  etcd := { rev := v.first }

end Run

/-- Expected revisions that name the same commit among the first `last`, or none of them; the
sentinels and what is not accepted at all are the same for both. -/
def SameRev (v : Revisions) (last r r' : Int) : Prop :=
  r ≤ 0 ∧ r' = r ∨ 0 < r ∧ 0 < r' ∧ ∀ i, 0 < i → i ≤ last → (r = i ↔ r' = v.rename i)

def Corresponds (v : Revisions) (t : Twins) (turn : Turn) : Prop :=
  match turn.mem, turn.etcd with
  | .get kind name, .get kind' name' => kind = kind' ∧ name = name'
  | .list kind, .list kind' => kind = kind'
  | .put none r, .put none r' => SameRev v t.mem.rev r r'
  | .put (some o) r, .put (some o') r' => Like t.gen o o' ∧ SameRev v t.mem.rev r r'
  | .delete kind name, .delete kind' name' => kind = kind' ∧ name = name'
  | .deleteIfRevision kind name r, .deleteIfRevision kind' name' r' =>
    kind = kind' ∧ name = name' ∧ SameRev v t.mem.rev r r'
  | _, _ => False

/-- An update at the revision that is stored carries its uid and its creation time. -/
def CarriesIdentity (t : Twins) (turn : Turn) : Prop :=
  match turn.mem with
  | .put (some o) r =>
    0 < r → (t.mem.entry o.kind o.name).map (·.rev) = some r → o.metadata.uid ≠ 0 ∧ o.metadata.createdUnix ≠ 0
  | _ => True

def LikeRead (v : Revisions) (g : Renaming) (o o' : Object) : Prop :=
  Like g o o' ∧ o'.metadata.resourceVersion = v.rename o.metadata.resourceVersion

def SameAnswer (v : Revisions) (g : Renaming) : Except StoreErr Answer → Except StoreErr Answer → Prop
  | .error e, .error e' => e.cls = e'.cls
  | .ok (.object o r), .ok (.object o' r') => LikeRead v g o o' ∧ r' = v.rename r
  | .ok (.objects os r), .ok (.objects os' r') => List.Forall₂ (LikeRead v g) os os' ∧ r' = v.rename r
  | .ok (.revision r), .ok (.revision r') => r' = v.rename r
  | .ok .done, .ok .done => True
  | _, _ => False

def Agrees (v : Revisions) (mint : ℕ → Uid) (t : Twins) (turn : Turn) : Prop :=
  SameAnswer v (t.step v mint turn).gen (t.answers v mint turn).1 (t.answers v mint turn).2

/-! ### The simulation -/

structure SameEntry (v : Revisions) (g : Renaming) (last : Int) (e : Entry) (kv : Kv) : Prop where
  obj : Like g e.obj kv.value
  rev : kv.modRevision = v.rename e.rev
  pos : 0 < e.rev
  le : e.rev ≤ last
  made : 0 < kv.createRevision

structure Sim (v : Revisions) (t : Twins) : Prop where
  rev : t.etcd.rev = v.rename t.mem.rev
  nonneg : 0 ≤ t.mem.rev
  entries : ∀ k n, Option.Rel (SameEntry v t.gen t.mem.rev) (t.mem.entry k n) t.etcd.kvs[key k n]?
  keyed : t.etcd.Keyed
  filled : t.gen.Filled

variable {v : Revisions} {e : Entry} {kv : Kv}

theorem sameEntry_mono {g g' : Renaming} {last last' : Int} (hg : g.Within g') (hl : last ≤ last')
    (h : SameEntry v g last e kv) : SameEntry v g' last' e kv where
  obj := like_mono hg h.obj
  rev := h.rev
  pos := h.pos
  le := h.le.trans hl
  made := h.made

theorem sim_start (v : Revisions) : Sim v (Twins.start v) where
  rev := rfl
  nonneg := le_refl 0
  entries k n := by
    simp only [Twins.start, Memory.entry, Std.ExtTreeMap.getElem?_empty]
    exact Option.Rel.none
  keyed key' kv h := by
    simp [Twins.start] at h
  filled := ⟨fun p hp => by simp [Twins.start] at hp, fun p hp => by simp [Twins.start] at hp⟩

theorem entry_update {m : Memory} {k : Kind} {n : String} {tbl : Std.ExtTreeMap String Entry} {e : Option Entry}
    (htbl : ∀ n', tbl[n']? = if n = n' then e else (m.objs k)[n']?) (rev : Int) (uid : ℕ) (k' : Kind) (n' : String) :
    Memory.entry { rev := rev, uid := uid, objs := Function.update m.objs k tbl } k' n' =
      if key k n = key k' n' then e else m.entry k' n' := by
  unfold Memory.entry
  dsimp only
  by_cases hkey : key k n = key k' n'
  · obtain ⟨rfl, rfl⟩ := key_inj hkey
    rw [if_pos rfl, Function.update_self, htbl, if_pos rfl]
  · rw [if_neg hkey]
    by_cases hk : k' = k
    · subst hk
      rw [Function.update_self, htbl, if_neg fun hn => hkey (by rw [hn])]
    · rw [Function.update_of_ne hk]

theorem bucket_storeKey (kind name : String) :
    (∃ e e', Memory.bucket kind name = .error e ∧ storeKey kind name = .error e') ∨
      ∃ k, Memory.bucket kind name = .ok k ∧ storeKey kind name = .ok (key k name) := by
  unfold Memory.bucket storeKey checkName
  cases canonical kind with
  | error e => exact Or.inl ⟨e, e, rfl, rfl⟩
  | ok k =>
    by_cases hv : validName name
    · exact Or.inr ⟨k, by simp [hv], by simp [hv]⟩
    · exact Or.inl ⟨_, _, by simp [hv]; rfl, by simp [hv]; rfl⟩

theorem bucket_object (o : Object) :
    (∃ e e', Memory.bucket o.kind.name o.name = .error e ∧ storeKey o.kind.name o.name = .error e') ∨
      validName o.name ∧ Memory.bucket o.kind.name o.name = .ok o.kind ∧
        storeKey o.kind.name o.name = .ok (key o.kind o.name) := by
  rcases bucket_storeKey o.kind.name o.name with herr | ⟨k, hb, hk⟩
  · exact Or.inl herr
  · obtain ⟨k', hc, hv, hkey⟩ := storeKey_ok hk
    obtain rfl := Except.ok.inj ((canonical_name o.kind).symm.trans hc)
    obtain rfl := (key_inj hkey).1
    exact Or.inr ⟨hv, hb, hk⟩

theorem clone_decode {last : Int} (h : SameEntry v g last e kv) : LikeRead v g (Memory.clone e) kv.decode := by
  unfold Memory.clone Kv.decode
  refine ⟨like_withMeta h.obj ⟨rfl, rfl⟩ ⟨rfl, rfl⟩ h.obj.uid h.obj.created, ?_⟩
  rw [metadata_withMeta, metadata_withMeta]
  exact h.rev

theorem grow_within (g : Renaming) (uid : Uid) (d : Draws) (m : Option Meta) : g.Within (g.grow uid d m) := by
  cases m with
  | none => exact ⟨List.Subset.refl _, List.Subset.refl _⟩
  | some m => exact ⟨List.subset_append_left _ _, List.subset_append_left _ _⟩

theorem grow_uid (g : Renaming) (uid : Uid) (d : Draws) (h : m.uid = 0) :
    (g.grow uid d (some m)).SameUid uid d.uuid := by
  refine Or.inr ?_
  simp [Renaming.grow, h]

theorem grow_time (g : Renaming) (uid : Uid) (d : Draws) (h : m.createdUnix = 0) :
    (g.grow uid d (some m)).SameTime d.memNow d.etcdNow := by
  refine Or.inr ?_
  simp [Renaming.grow, h]

theorem grow_filled (hg : g.Filled) {uid : Uid} (hu : uid ≠ 0) (d : Draws) (m : Option Meta) :
    (g.grow uid d m).Filled := by
  cases m with
  | none => exact hg
  | some m =>
    constructor
    · intro p hp
      rcases List.mem_append.mp hp with hold | hnew
      · exact hg.1 p hold
      · split at hnew
        · obtain rfl := List.mem_singleton.mp hnew
          exact ⟨hu, d.uuid_ne⟩
        · cases hnew
    · intro p hp
      rcases List.mem_append.mp hp with hold | hnew
      · exact hg.2 p hold
      · split at hnew
        · obtain rfl := List.mem_singleton.mp hnew
          exact ⟨d.memNow_ne, d.etcdNow_ne⟩
        · cases hnew

theorem like_unversioned {o o' : Object} (h : Like g o o') : Like g o.unversioned o'.unversioned :=
  like_withMeta h ⟨rfl, rfl⟩ ⟨rfl, rfl⟩ h.uid h.created

theorem within_grown {g g' : Renaming} {uid : Uid} {d : Draws} {m : Option Meta} (h : g' = g.grow uid d m) :
    g.Within g' := by
  subst h
  exact grow_within g uid d m

variable {r : Int}

theorem fresh_put {m : Memory} {o : Object} (hv : validName o.name) (hr : r = revCreate ∨ r = revAny)
    (hfree : m.entry o.kind o.name = none) : m.fresh (.put (some o) r) = some o.metadata := by
  simp [Memory.fresh, hv, hr, hfree]

theorem not_sentinel (h : 0 < r) : r ≠ revCreate ∧ r ≠ revAny := by
  unfold revCreate revAny
  omega

/-- Both stores answer a put alike and go on to like states. -/
def PutAgrees (v : Revisions) (mint : ℕ → Uid) (t : Twins) (d : Draws) (o o' : Object) (r r' : Int) (g : Renaming) : Prop :=
  SameAnswer v g (t.mem.put mint d.memNow (some o) r).1 (t.etcd.put v.next d.uuid d.etcdNow (some o') r').1 ∧
    Sim v ⟨(t.mem.put mint d.memNow (some o) r).2, (t.etcd.put v.next d.uuid d.etcdNow (some o') r').2, g⟩

section Steps
variable {v : Revisions} {t : Twins} (hs : Sim v t)
include hs

theorem entries_mono {last : Int} (hg : t.gen.Within g) (hl : t.mem.rev ≤ last) (k : Kind) (n : String) :
    Option.Rel (SameEntry v g last) (t.mem.entry k n) t.etcd.kvs[key k n]? := by
  have he := hs.entries k n
  generalize t.mem.entry k n = e at he ⊢
  generalize t.etcd.kvs[key k n]? = kv at he ⊢
  cases he with
  | none => exact Option.Rel.none
  | some h => exact Option.Rel.some (sameEntry_mono hg hl h)

theorem sim_grow (hg : t.gen.Within g) (hf : g.Filled) : Sim v { t with gen := g } where
  rev := hs.rev
  nonneg := hs.nonneg
  entries k n := entries_mono hs hg (le_refl _) k n
  keyed := hs.keyed
  filled := hf

theorem createRevision_pos (k : Kind) (n : String) : 0 ≤ t.etcd.createRevision (key k n) ∧
    (t.etcd.createRevision (key k n) = 0 ↔ t.mem.entry k n = none) := by
  unfold Etcd.createRevision
  have he := hs.entries k n
  generalize t.mem.entry k n = e at he
  generalize t.etcd.kvs[key k n]? = kv at he
  cases he with
  | none => simp
  | some h =>
    have hm := h.made
    simp only [Option.map_some, Option.getD_some, reduceCtorEq, iff_false]
    omega

theorem modRevision_entry (k : Kind) (n : String) {r r' : Int} (hpos : 0 < r')
    (hr : ∀ i, 0 < i → i ≤ t.mem.rev → (r = i ↔ r' = v.rename i)) :
    t.etcd.modRevision (key k n) = r' ↔ (t.mem.entry k n).map (·.rev) = some r := by
  unfold Etcd.modRevision
  have he := hs.entries k n
  generalize t.mem.entry k n = e at he ⊢
  generalize t.etcd.kvs[key k n]? = kv at he ⊢
  cases he with
  | none =>
    simp only [Option.map_none, Option.getD_none, reduceCtorEq, iff_false]
    omega
  | some h =>
    have hi := hr _ h.pos h.le
    simp only [Option.map_some, Option.getD_some, Option.some.injEq, h.rev]
    rw [eq_comm, ← hi, eq_comm]

theorem next_rev : v.next t.etcd.rev = v.rename (t.mem.rev + 1) := by
  rw [rename_succ v hs.nonneg, hs.rev]

theorem sim_write (hg : t.gen.Within g) (hf : g.Filled) {mem : Memory} {etcd : Etcd} {k : Kind} {n : String}
    {e : Option Entry} {kv : Option Kv} (hrev : mem.rev = t.mem.rev + 1) (hrev' : etcd.rev = v.next t.etcd.rev)
    (hmem : ∀ k' n', mem.entry k' n' = if key k n = key k' n' then e else t.mem.entry k' n')
    (hetcd : ∀ key', etcd.kvs[key']? = if key k n = key' then kv else t.etcd.kvs[key']?)
    (hsame : Option.Rel (SameEntry v g (t.mem.rev + 1)) e kv) : Sim v ⟨mem, etcd, g⟩ where
  rev := by rw [hrev', hrev, next_rev hs]
  nonneg := by
    have h0 := hs.nonneg
    rw [hrev]
    omega
  entries k' n' := by
    rw [hrev, hmem, hetcd]
    by_cases hkey : key k n = key k' n'
    · rw [if_pos hkey, if_pos hkey]
      exact hsame
    · rw [if_neg hkey, if_neg hkey]
      exact entries_mono hs hg (by omega) k' n'
  keyed key' kv' hkv := by
    rw [hetcd] at hkv
    split at hkv
    · rename_i hkey
      exact ⟨k, n, hkey.symm⟩
    · exact hs.keyed key' kv' hkv
  filled := hf

theorem sim_commit (hg : t.gen.Within g) (hf : g.Filled) {stored : Object} {stamped : Meta × ℕ} {value : Object}
    (hl : Like g (stored.withMeta stamped.1) value) :
    Sim v ⟨(t.mem.commit stored stamped).2, t.etcd.opPut v.next (key stored.kind stored.name) value, g⟩ := by
  have hnext := next_rev hs
  have h0 := hs.nonneg
  have hpos : 0 < v.next t.etcd.rev := by
    rw [hnext]
    exact rename_pos v (by omega)
  have hmade := (createRevision_pos hs stored.kind stored.name).1
  refine sim_write hs hg hf rfl rfl (entry_update (fun n' => Table.get_insert _ _ n' _) _ _)
    (fun key' => Table.get_insert _ _ key' _) (Option.Rel.some ⟨hl, hnext, ?_, le_refl _, ?_⟩)
  · show 0 < t.mem.rev + 1
    omega
  · dsimp only
    split <;> omega

theorem sim_remove (k : Kind) (n : String) :
    Sim v { t with mem := t.mem.remove k n, etcd := t.etcd.opDelete v.next (key k n) } :=
  sim_write hs ⟨List.Subset.refl _, List.Subset.refl _⟩ hs.filled rfl rfl
    (entry_update (fun n' => Table.get_erase _ _ n') _ _) (fun key' => Table.get_erase _ _ key') Option.Rel.none

/-! ### One call on both stores -/

theorem get_agrees (kind name : String) : SameAnswer v t.gen (t.mem.get kind name) (t.etcd.get kind name) := by
  unfold Memory.get Etcd.get
  rcases bucket_storeKey kind name with ⟨e, e', hb, hk⟩ | ⟨k, hb, hk⟩
  · rw [hb, hk]
    exact rfl
  · rw [hb, hk]
    dsimp only
    have he := hs.entries k name
    generalize t.mem.entry k name = e at he ⊢
    generalize t.etcd.kvs[key k name]? = kv at he ⊢
    cases he with
    | none => exact rfl
    | some h => exact ⟨clone_decode h, h.rev⟩

theorem list_agrees (kind : String) : SameAnswer v t.gen (t.mem.list kind) (t.etcd.list kind) := by
  unfold Memory.list Etcd.list
  cases canonical kind with
  | error e => exact rfl
  | ok k =>
    refine ⟨?_, hs.rev⟩
    unfold Etcd.objects
    rw [List.forall₂_map_left_iff, List.forall₂_map_right_iff]
    exact (range_pairs hs.keyed (hs.entries k)).imp fun _ _ h => clone_decode h

theorem delete_agrees (kind name : String) :
    SameAnswer v t.gen (t.mem.delete kind name).1 (t.etcd.delete v.next kind name).1 ∧
      Sim v { t with mem := (t.mem.delete kind name).2, etcd := (t.etcd.delete v.next kind name).2 } := by
  unfold Memory.delete Etcd.delete
  rcases bucket_storeKey kind name with ⟨e, e', hb, hk⟩ | ⟨k, hb, hk⟩
  · rw [hb, hk]
    exact ⟨rfl, hs⟩
  · rw [hb, hk]
    dsimp only
    have he := hs.entries k name
    have hremoved := sim_remove hs k name
    generalize t.mem.entry k name = e at he ⊢
    generalize t.etcd.kvs[key k name]? = kv at he ⊢
    cases he with
    | none => exact ⟨rfl, hs⟩
    | some h => exact ⟨trivial, hremoved⟩

theorem deleteIfRevision_agrees (kind name : String) {r r' : Int} (hr : SameRev v t.mem.rev r r') :
    SameAnswer v t.gen (t.mem.deleteIfRevision kind name r).1 (t.etcd.deleteIfRevision v.next kind name r').1 ∧
      Sim v { t with
        mem := (t.mem.deleteIfRevision kind name r).2
        etcd := (t.etcd.deleteIfRevision v.next kind name r').2 } := by
  unfold Memory.deleteIfRevision Etcd.deleteIfRevision
  rcases bucket_storeKey kind name with ⟨e, e', hb, hk⟩ | ⟨k, hb, hk⟩
  · rw [hb, hk]
    exact ⟨rfl, hs⟩
  · rw [hb, hk]
    dsimp only
    rcases hr with ⟨hle, rfl⟩ | ⟨hpos, hpos', hcommit⟩
    · rw [if_pos hle, if_pos hle]
      exact ⟨rfl, hs⟩
    · have hmod := modRevision_entry hs k name hpos' hcommit
      have he := hs.entries k name
      have hremoved := sim_remove hs k name
      rw [if_neg (by omega), if_neg (by omega)]
      generalize t.mem.entry k name = e at he hmod ⊢
      generalize t.etcd.kvs[key k name]? = kv at he ⊢
      cases he with
      | none =>
        rw [if_neg fun h => absurd (hmod.mp h) (by simp)]
        exact ⟨rfl, hs⟩
      | @some e kv h =>
        dsimp only
        by_cases hrev : e.rev = r
        · rw [if_neg (not_not_intro hrev), if_pos (hmod.mpr (by simp [hrev]))]
          exact ⟨trivial, hremoved⟩
        · rw [if_pos hrev, if_neg fun h => hrev (by simpa using hmod.mp h)]
          exact ⟨rfl, hs⟩

theorem sim_grown {mint : ℕ → Uid} (hmint : ∀ n, mint n ≠ 0) {d : Draws} {m : Option Meta}
    (hg : g = t.gen.grow (mint (t.mem.uid + 1)) d m) : Sim v { t with gen := g } := by
  subst hg
  exact sim_grow hs (grow_within _ _ _ _) (grow_filled hs.filled (hmint _) _ _)

section Put
variable {mint : ℕ → Uid} (hmint : ∀ n, mint n ≠ 0) (d : Draws) {o o' : Object} (hl : Like t.gen o o') {r r' : Int}
include hl

include hmint in
theorem create_agrees (hg : g = t.gen.grow (mint (t.mem.uid + 1)) d (some o.metadata)) :
    Sim v ⟨(t.mem.commit o.unversioned (Memory.stampNew mint d.memNow t.mem.uid o.unversioned.metadata)).2,
      t.etcd.opPut v.next (key o.kind o.name)
        (o'.unversioned.withMeta (stampMeta d.uuid d.etcdNow o'.unversioned.metadata)), g⟩ := by
  have hw := within_grown hg
  have hlike : Like g (o.unversioned.withMeta (Memory.stampNew mint d.memNow t.mem.uid o.unversioned.metadata).1)
      (o'.unversioned.withMeta (stampMeta d.uuid d.etcdNow o'.unversioned.metadata)) := by
    refine like_stamp hs.filled hw (like_unversioned hl) ?_ ?_
    · intro hz
      rw [hg]
      rw [unversioned_metadata] at hz
      exact grow_uid _ _ _ hz
    · intro hz
      rw [hg]
      rw [unversioned_metadata] at hz
      exact grow_time _ _ _ hz
  have hsim := sim_commit hs hw (sim_grown hs hmint hg).filled hlike
  rw [unversioned_name] at hsim
  exact hsim

theorem adopt_agrees (hw : t.gen.Within g) (hf : g.Filled) (he : SameEntry v t.gen t.mem.rev e kv) (uid : ℕ) :
    Sim v ⟨(t.mem.commit o.unversioned (adoptMeta e.obj.metadata o.unversioned.metadata, uid)).2,
      t.etcd.opPut v.next (key o.kind o.name)
        (o'.unversioned.withMeta (adoptMeta kv.value.metadata o'.unversioned.metadata)), g⟩ := by
  have hgrown := like_mono hw he.obj
  have hlike : Like g (o.unversioned.withMeta (adoptMeta e.obj.metadata o.unversioned.metadata, uid).1)
      (o'.unversioned.withMeta (adoptMeta kv.value.metadata o'.unversioned.metadata)) :=
    like_stamp hs.filled hw (like_unversioned hl) (fun _ => hgrown.uid) (fun _ => hgrown.created)
  have hsim := sim_commit hs hw hf hlike
  rw [unversioned_name] at hsim
  exact hsim

theorem update_agrees (hw : t.gen.Within g) (hf : g.Filled) (hcarry : o.metadata.uid ≠ 0 ∧ o.metadata.createdUnix ≠ 0)
    (e : Entry) (uid : ℕ) :
    Sim v ⟨(t.mem.commit o.unversioned (adoptMeta e.obj.metadata o.unversioned.metadata, uid)).2,
      t.etcd.opPut v.next (key o.kind o.name) o'.unversioned, g⟩ := by
  have hsame : adoptMeta e.obj.metadata o.unversioned.metadata = o.unversioned.metadata := by
    unfold adoptMeta
    rw [unversioned_metadata]
    exact stampMeta_carried hcarry.1 hcarry.2
  have hlike : Like g (o.unversioned.withMeta (adoptMeta e.obj.metadata o.unversioned.metadata, uid).1) o'.unversioned := by
    dsimp only
    rw [hsame, withMeta_metadata]
    exact like_mono hw (like_unversioned hl)
  have hsim := sim_commit hs hw hf hlike
  rw [unversioned_name] at hsim
  exact hsim

section Branches
variable {g : Renaming} (hg : g = t.gen.grow (mint (t.mem.uid + 1)) d (t.mem.fresh (.put (some o) r)))
  (hv : validName o.name) (hb : Memory.bucket o.kind.name o.name = .ok o.kind)
  (hk : storeKey o.kind.name o.name = .ok (key o.kind o.name))
include hmint hg hv hb hk

theorem putCreate_agrees (hcreate : r = revCreate) : PutAgrees v mint t d o o' r r g := by
  have hmade := (createRevision_pos hs o.kind o.name).2
  unfold PutAgrees Memory.put Etcd.put Etcd.putCreate
  dsimp only
  rw [← like_kind hl, ← like_name hl, hb, hk]
  dsimp only
  rw [if_pos hcreate, if_pos hcreate]
  cases hent : t.mem.entry o.kind o.name with
  | none =>
    rw [fresh_put hv (Or.inl hcreate) hent] at hg
    rw [if_pos (hmade.mpr hent)]
    exact ⟨next_rev hs, create_agrees hs hmint d hl hg⟩
  | some e =>
    rw [if_neg fun h => absurd (hmade.mp h) (by rw [hent]; simp)]
    exact ⟨rfl, sim_grown hs hmint hg⟩

theorem putUpsert_agrees (hany : r = revAny) : PutAgrees v mint t d o o' r r g := by
  have hcreate : r ≠ revCreate := by rw [hany]; decide
  have he := hs.entries o.kind o.name
  unfold PutAgrees Memory.put Etcd.put Etcd.putUpsert Memory.adopt
  dsimp only
  rw [← like_kind hl, ← like_name hl, hb, hk]
  dsimp only
  rw [if_neg hcreate, if_neg hcreate, if_pos hany, if_pos hany]
  cases hent : t.mem.entry o.kind o.name with
  | none =>
    rw [fresh_put hv (Or.inr hany) hent] at hg
    rw [hent] at he
    have hcreated := create_agrees hs hmint d hl hg
    generalize t.etcd.kvs[key o.kind o.name]? = kv at he ⊢
    cases he with
    | none => exact ⟨next_rev hs, hcreated⟩
  | some e =>
    have hgrown := sim_grown hs hmint hg
    rw [hent] at he
    cases hkv : t.etcd.kvs[key o.kind o.name]? with
    | none => rw [hkv] at he; cases he
    | some kv =>
      rw [hkv] at he
      cases he with
      | some h => exact ⟨next_rev hs, adopt_agrees hs hl (within_grown hg) hgrown.filled h _⟩

omit hv in
theorem putCAS_agrees (hpos : 0 < r) (hpos' : 0 < r') (hcommit : ∀ i, 0 < i → i ≤ t.mem.rev → (r = i ↔ r' = v.rename i))
    (hcarry : (t.mem.entry o.kind o.name).map (·.rev) = some r → o.metadata.uid ≠ 0 ∧ o.metadata.createdUnix ≠ 0) :
    PutAgrees v mint t d o o' r r' g := by
  have hmod := modRevision_entry hs o.kind o.name hpos' hcommit
  have hgrown := sim_grown hs hmint hg
  obtain ⟨hc, ha⟩ := not_sentinel hpos
  obtain ⟨hc', ha'⟩ := not_sentinel hpos'
  unfold PutAgrees Memory.put Etcd.put Etcd.putCAS
  dsimp only
  rw [← like_kind hl, ← like_name hl, hb, hk]
  dsimp only
  rw [if_neg hc, if_neg ha, if_pos hpos, if_neg hc', if_neg ha', if_pos hpos']
  cases hent : t.mem.entry o.kind o.name with
  | none =>
    rw [if_neg fun h => absurd (hmod.mp h) (by rw [hent]; simp)]
    exact ⟨rfl, hgrown⟩
  | some e =>
    dsimp only
    by_cases hsame : e.rev = r
    · have hstored : (t.mem.entry o.kind o.name).map (·.rev) = some r := by rw [hent, ← hsame]; rfl
      rw [if_neg (not_not_intro hsame), if_pos (hmod.mpr hstored)]
      exact ⟨next_rev hs, update_agrees hs hl (within_grown hg) hgrown.filled (hcarry hstored) e _⟩
    · rw [if_pos hsame, if_neg fun h => hsame (by simpa [hent] using hmod.mp h)]
      exact ⟨rfl, hgrown⟩

end Branches

include hmint in
theorem put_agrees (hr : SameRev v t.mem.rev r r')
    (hcarry : 0 < r → (t.mem.entry o.kind o.name).map (·.rev) = some r → o.metadata.uid ≠ 0 ∧ o.metadata.createdUnix ≠ 0)
    (hg : g = t.gen.grow (mint (t.mem.uid + 1)) d (t.mem.fresh (.put (some o) r))) :
    PutAgrees v mint t d o o' r r' g := by
  rcases bucket_object o with ⟨e, e', hb, hk⟩ | ⟨hv, hb, hk⟩
  · unfold PutAgrees Memory.put Etcd.put
    dsimp only
    rw [← like_kind hl, ← like_name hl, hb, hk]
    exact ⟨rfl, sim_grown hs hmint hg⟩
  rcases hr with ⟨hle, rfl⟩ | ⟨hpos, hpos', hcommit⟩
  · by_cases hcreate : r' = revCreate
    · exact putCreate_agrees hs hmint d hl hg hv hb hk hcreate
    · by_cases hany : r' = revAny
      · exact putUpsert_agrees hs hmint d hl hg hv hb hk hany
      · unfold PutAgrees Memory.put Etcd.put
        dsimp only
        rw [← like_kind hl, ← like_name hl, hb, hk]
        dsimp only
        rw [if_neg hcreate, if_neg hany, if_neg (by omega), if_neg hcreate, if_neg hany, if_neg (by omega)]
        exact ⟨rfl, sim_grown hs hmint hg⟩
  · exact putCAS_agrees hs hmint d hl hg hb hk hpos hpos' hcommit (hcarry hpos)

end Put

end Steps

variable {t : Twins}

section Turns
variable {v : Revisions} {mint : ℕ → Uid} (hmint : ∀ n, mint n ≠ 0)
include hmint

theorem turn_agrees (hs : Sim v t) {turn : Turn} (hc : Corresponds v t turn) (hi : CarriesIdentity t turn) :
    Agrees v mint t turn ∧ Sim v (t.step v mint turn) := by
  obtain ⟨mem, etcd, d⟩ := turn
  unfold Agrees Twins.step Twins.answers
  unfold Corresponds at hc
  unfold CarriesIdentity at hi
  dsimp only at hc hi ⊢
  split at hc
  · obtain ⟨rfl, rfl⟩ := hc
    exact ⟨get_agrees hs _ _, hs⟩
  · obtain rfl := hc
    exact ⟨list_agrees hs _, hs⟩
  · exact ⟨rfl, hs⟩
  · exact put_agrees hs hmint d hc.1 hc.2 hi rfl
  · obtain ⟨rfl, rfl⟩ := hc
    exact delete_agrees hs _ _
  · obtain ⟨rfl, rfl, hr⟩ := hc
    exact deleteIfRevision_agrees hs _ _ hr
  · exact hc.elim

theorem run_agrees (hs : Sim v t) {turns : List Turn}
    (h : Each (Twins.step v mint) (fun t turn => Corresponds v t turn ∧ CarriesIdentity t turn) t turns) :
    Each (Twins.step v mint) (Agrees v mint) t turns := by
  have hstep : ∀ t turn, Sim v t → Corresponds v t turn ∧ CarriesIdentity t turn →
      Agrees v mint t turn ∧ Sim v (t.step v mint turn) := by
    intro t turn hsim hturn
    exact turn_agrees hmint hsim hturn.1 hturn.2
  exact each_of_invariant hstep hs h

end Turns

/-! ### Generated uids correspond one to one -/

theorem bucket_kind (o : Object) : Memory.bucket o.kind.name o.name =
      if validName o.name then .ok o.kind else .error ("invalid object name " ++ quote o.name) := by
  unfold Memory.bucket checkName
  rw [canonical_name]
  by_cases hv : validName o.name
  · rw [if_pos hv, if_pos hv]
  · rw [if_neg hv, if_neg hv]

theorem put_uid (mint : ℕ → Uid) (now : Int) (m : Memory) (o : Object) (r : Int) :
    (m.put mint now (some o) r).2.uid = m.uid + if (m.fresh (.put (some o) r)).map (·.uid) = some 0 then 1 else 0 := by
  unfold Memory.put
  dsimp only
  rw [bucket_kind]
  by_cases hv : validName o.name
  · rw [if_pos hv]
    dsimp only
    have hu : o.unversioned.metadata.uid = o.metadata.uid := by rw [unversioned_metadata]
    cases hent : m.entry o.kind o.name with
    | none =>
      by_cases hcreate : r = revCreate
      · by_cases hz : o.metadata.uid = 0 <;> simp [Memory.fresh, hent, hv, hcreate, hz, hu, Memory.commit, Memory.stampNew]
      · by_cases hany : r = revAny
        · by_cases hz : o.metadata.uid = 0 <;>
            simp [Memory.fresh, hent, hv, hany, hz, hu, Memory.commit, Memory.adopt, Memory.stampNew, revAny, revCreate]
        · simp only [Memory.fresh, hcreate, hany, if_false]
          split <;> simp
    | some e =>
      have hfresh : m.fresh (.put (some o) r) = none := by simp [Memory.fresh, hent]
      rw [hfresh]
      simp only [Memory.adopt, Memory.commit]
      split
      · rfl
      · split
        · rfl
        · split
          · split <;> rfl
          · rfl
  · have hfresh : m.fresh (.put (some o) r) = none := by simp [Memory.fresh, hv]
    rw [if_neg hv, hfresh]
    rfl

theorem call_uid (mint : ℕ → Uid) (now : Int) (m : Memory) (req : Request) :
    (m.call mint now req).2.uid = m.uid + if (m.fresh req).map (·.uid) = some 0 then 1 else 0 := by
  cases req with
  | get kind name => rfl
  | list kind => rfl
  | put obj r =>
    cases obj with
    | none => rfl
    | some o => exact put_uid mint now m o r
  | delete kind name =>
    show (m.delete kind name).2.uid = m.uid
    unfold Memory.delete
    split
    · rfl
    · split <;> rfl
  | deleteIfRevision kind name r =>
    show (m.deleteIfRevision kind name r).2.uid = m.uid
    unfold Memory.deleteIfRevision
    split
    · rfl
    · split
      · rfl
      · split
        · rfl
        · split <;> rfl

section Uids
variable (v : Revisions) (mint : ℕ → Uid)

theorem step_uids (t : Twins) (turn : Turn) :
    (t.step v mint turn).mem.uid = t.mem.uid ∧ (t.step v mint turn).gen.uids = t.gen.uids ∨
      (t.step v mint turn).mem.uid = t.mem.uid + 1 ∧
        (t.step v mint turn).gen.uids = t.gen.uids ++ [(mint (t.mem.uid + 1), turn.draws.uuid)] := by
  have huid := call_uid mint turn.draws.memNow t.mem turn.mem
  unfold Twins.step
  dsimp only
  rw [huid]
  cases t.mem.fresh turn.mem with
  | none => exact Or.inl ⟨rfl, rfl⟩
  | some m =>
    by_cases hz : m.uid = 0
    · exact Or.inr ⟨by simp [hz], by simp [Renaming.grow, hz]⟩
    · exact Or.inl ⟨by simp [hz], by simp [Renaming.grow, hz]⟩

theorem run_minted (h : t.gen.uids.map (·.1) = (List.range t.mem.uid).map fun i => mint (i + 1)) (turns : List Turn) :
    (runs (Twins.step v mint) t turns).gen.uids.map (·.1) =
      (List.range (runs (Twins.step v mint) t turns).mem.uid).map fun i => mint (i + 1) := by
  induction turns generalizing t with
  | nil => exact h
  | cons turn turns ih =>
    apply ih
    rcases step_uids v mint t turn with ⟨hu, hg⟩ | ⟨hu, hg⟩
    · rw [hu, hg, h]
    · rw [hu, hg, List.map_append, h, List.range_succ, List.map_append]
      rfl

theorem run_drawn (t : Twins) (turns : List Turn) :
    ((runs (Twins.step v mint) t turns).gen.uids.map (·.2)).Sublist (t.gen.uids.map (·.2) ++ turns.map (·.draws.uuid)) := by
  induction turns generalizing t with
  | nil =>
    rw [List.map_nil, List.append_nil]
    exact List.Sublist.refl _
  | cons turn turns ih =>
    refine (ih (t.step v mint turn)).trans ?_
    rw [List.map_cons]
    rcases step_uids v mint t turn with ⟨_, hg⟩ | ⟨_, hg⟩
    · rw [hg]
      exact (List.Sublist.refl _).append (List.sublist_cons_self _ _)
    · rw [hg, List.map_append, List.append_assoc]
      exact List.Sublist.refl _

end Uids

def OneToOne (l : List (Uid × Uid)) : Prop := ∀ p ∈ l, ∀ q ∈ l, p.1 = q.1 ↔ p.2 = q.2

theorem oneToOne_of_nodup {l : List (Uid × Uid)} (h₁ : (l.map (·.1)).Nodup) (h₂ : (l.map (·.2)).Nodup) : OneToOne l := by
  intro p hp q hq
  constructor
  · intro h
    rw [List.inj_on_of_nodup_map h₁ hp hq h]
  · intro h
    rw [List.inj_on_of_nodup_map h₂ hp hq h]

/-- Run from empty on corresponding calls, the two stores answer alike, when every update at the
stored revision carries its uid and its creation time. Revisions are renamed in order, and
generated uids one to one as long as neither store makes one twice. -/
theorem stores_agree (v : Revisions) {mint : ℕ → Uid} (hmint : ∀ n, mint n ≠ 0) {turns : List Turn}
    (hc : Each (Twins.step v mint) (Corresponds v) (Twins.start v) turns)
    (hi : Each (Twins.step v mint) CarriesIdentity (Twins.start v) turns) :
    Each (Twins.step v mint) (Agrees v mint) (Twins.start v) turns ∧ StrictMonoOn v.rename (Set.Ici 0) ∧
      (Function.Injective mint → (turns.map (·.draws.uuid)).Nodup →
        OneToOne (runs (Twins.step v mint) (Twins.start v) turns).gen.uids) := by
  refine ⟨run_agrees hmint (sim_start v) (each_and hc hi), rename_strictMonoOn v, ?_⟩
  intro hinj hdrawn
  have hminted := run_minted v mint (t := Twins.start v) rfl turns
  have hsub := run_drawn v mint (Twins.start v) turns
  refine oneToOne_of_nodup ?_ (hdrawn.sublist hsub)
  rw [hminted]
  exact List.Nodup.map (fun i j hij => Nat.succ.inj (hinj hij)) List.nodup_range

/-! ### An update without uid -/

theorem sameRev_rename (v : Revisions) (last : Int) (h : 0 < r) : SameRev v last r (v.rename r) := by
  refine Or.inr ⟨h, rename_pos v h, ?_⟩
  intro i hi _
  constructor
  · intro hri
    rw [hri]
  · intro hri
    exact (rename_strictMonoOn v).injOn (Set.mem_Ici.mpr h.le) (Set.mem_Ici.mpr hi.le) hri

def plainDraws (n : ℕ) : Draws where
  uuid := n + 100
  memNow := 10
  etcdNow := 20
  uuid_ne := Nat.succ_ne_zero _
  memNow_ne := by decide
  etcdNow_ne := by decide

def webWith (uid : Uid) (createdUnix : Int) : Object :=
  ⟨.workload, ({ metadata := { name := "web", uid := uid, createdUnix := createdUnix } } : Workload)⟩

def createTurn : Turn := ⟨.put (some (webWith 0 0)) revCreate, .put (some (webWith 0 0)) revCreate, plainDraws 1⟩

def getTurn : Turn := ⟨.get "workloads" "web", .get "workloads" "web", plainDraws 3⟩

def bareTurns : List Turn :=
  [createTurn, ⟨.put (some (webWith 0 0)) 1, .put (some (webWith 0 0)) (plainRevisions.rename 1), plainDraws 2⟩, getTurn]

def Answer.uid : Except StoreErr Answer → Option Uid
  | .ok (.object o _) => some o.metadata.uid
  | _ => none

theorem sameAnswer_uid {a a' : Except StoreErr Answer} (h : SameAnswer v g a a') {u u' : Uid}
    (hu : Answer.uid a = some u) (hu' : Answer.uid a' = some u') : g.SameUid u u' := by
  unfold SameAnswer at h
  split at h
  · cases hu
  · cases hu
    cases hu'
    exact h.1.1.uid
  · cases hu
  · cases hu
  · cases hu
  · exact h.elim

/-- A workload is created, then written at its revision by a caller that left out the uid, then
read: Memory still knows the uid, etcd's store lost it. -/
theorem update_drops_uid :
    Each (Twins.step plainRevisions (· + 1)) (Corresponds plainRevisions) (Twins.start plainRevisions) bareTurns ∧
      ¬ Each (Twins.step plainRevisions (· + 1)) (Agrees plainRevisions (· + 1)) (Twins.start plainRevisions)
        bareTurns := by
  refine ⟨⟨⟨like_refl _ _, Or.inl ⟨le_refl _, rfl⟩⟩, ⟨like_refl _ _, sameRev_rename _ _ (by decide)⟩, ⟨rfl, rfl⟩,
    trivial⟩, ?_⟩
  rintro ⟨-, -, hget, -⟩
  have hsame := @sameAnswer_uid _ _ _ _ hget 2 0 (by decide +kernel) (by decide +kernel)
  revert hsame
  unfold Renaming.SameUid
  decide +kernel

def carriedTurns : List Turn :=
  [createTurn, ⟨.put (some (webWith 2 10)) 1, .put (some (webWith 101 20)) (plainRevisions.rename 1), plainDraws 2⟩,
    getTurn, ⟨.list "Workload", .list "Workload", plainDraws 4⟩,
    ⟨.deleteIfRevision "workload" "web" 2, .deleteIfRevision "workload" "web" (plainRevisions.rename 2), plainDraws 5⟩]

theorem stores_agree_carried :
    Each (Twins.step plainRevisions (· + 1)) (Agrees plainRevisions (· + 1)) (Twins.start plainRevisions) carriedTurns ∧
      OneToOne (runs (Twins.step plainRevisions (· + 1)) (Twins.start plainRevisions) carriedTurns).gen.uids := by
  have hlike : Like ((Twins.start plainRevisions).step plainRevisions (· + 1) createTurn).gen (webWith 2 10)
      (webWith 101 20) := by
    refine ⟨rfl, Or.inr ?_, Or.inr ?_⟩ <;> decide +kernel
  have hall := @stores_agree plainRevisions (· + 1) (fun n => Nat.succ_ne_zero n) carriedTurns
    ⟨⟨like_refl _ _, Or.inl ⟨le_refl _, rfl⟩⟩, ⟨hlike, sameRev_rename _ _ (by decide)⟩, ⟨rfl, rfl⟩, rfl,
      ⟨rfl, rfl, sameRev_rename _ _ (by decide)⟩, trivial⟩
    ⟨fun h => absurd h (by decide), fun _ _ => ⟨by decide, by decide⟩, trivial, trivial, trivial, trivial⟩
  exact ⟨hall.1, hall.2.2 (fun a b h => Nat.succ.inj h) (by decide)⟩

end Klite
