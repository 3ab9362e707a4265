import Klite.Store.KvSpec

/-!
# A listing and a watch reproduce the store

A view is what a client keeps: an object under each kind and name. It starts from the
listings at one revision and takes in the events of a watch from there on.
-/

namespace Klite
open Lib

abbrev ClientView := Kind → Std.ExtTreeMap String Object

/-- ADDED and MODIFIED set the entry under the object's kind and name, DELETED removes it. -/
def ClientView.take (w : ClientView) (e : StoreEvent) : ClientView :=
  Function.update w e.object.kind
    (if e.type = .deleted then (w e.object.kind).erase e.object.name
    else (w e.object.kind).insert e.object.name e.object)

def ClientView.takeAll (w : ClientView) (es : List StoreEvent) : ClientView := es.foldl ClientView.take w

/-- The listings of the kinds, each object under its name. -/
def ClientView.ofListings (K : List Kind) (listed : Kind → List Object) : ClientView := fun k =>
  if k ∈ K then Table.fill ∅ ((listed k).map fun o => (o.name, o)) else ∅

/-- The kinds a kind argument of `Watch` means: an empty one means all. -/
def watchedKinds (ks : List Kind) : List Kind := if ks = [] then Kind.all else ks

def KvEvent.apply (kvs : Std.ExtTreeMap String Kv) : KvEvent → Std.ExtTreeMap String Kv
  | .put k kv => kvs.insert k kv
  | .delete k _ _ => kvs.erase k

/-- What the event leaves under its key. -/
def KvEvent.left : KvEvent → Option Kv
  | .put _ kv => some kv
  | .delete .. => none

/-- The event is about this object, and carries no other. -/
def KvEvent.Names (k : Kind) (n : String) : KvEvent → Prop
  | .put key' kv => key' = Klite.key k n ∧ kv.value.kind = k ∧ kv.value.name = n
  | .delete key' _ prev => key' = Klite.key k n ∧ ∀ o ∈ prev, o.kind = k ∧ o.name = n

/-! ### One event -/

variable {ev : KvEvent} {k : Kind} {n : String}

theorem names_key (h : ev.Names k n) : ev.key = key k n := by
  cases ev with
  | put key' kv => exact h.1
  | delete key' r prev => exact h.1

theorem names_compacted (gone : Int → Bool) (h : ev.Names k n) : (ev.compacted gone).Names k n := by
  cases ev with
  | put key' kv => exact h
  | delete key' r prev =>
    refine ⟨h.1, ?_⟩
    intro o ho
    split at ho
    · cases ho
    · exact h.2 o ho

theorem apply_compacted (gone : Int → Bool) (kvs : Std.ExtTreeMap String Kv) (ev : KvEvent) :
    (ev.compacted gone).apply kvs = ev.apply kvs := by
  cases ev <;> rfl

theorem revision_compacted (gone : Int → Bool) (ev : KvEvent) : (ev.compacted gone).revision = ev.revision := by
  cases ev <;> rfl

theorem apply_apply (kvs : Std.ExtTreeMap String Kv) (ev : KvEvent) : ev.apply (ev.apply kvs) = ev.apply kvs := by
  cases ev with
  | put key' kv =>
    refine Std.ExtTreeMap.ext_getElem? fun a => ?_
    simp only [KvEvent.apply, Table.get_insert]
    split <;> rfl
  | delete key' r prev =>
    refine Std.ExtTreeMap.ext_getElem? fun a => ?_
    simp only [KvEvent.apply, Table.get_erase]
    split <;> rfl

theorem decode_name (kv : Kv) : kv.decode.name = kv.value.name := by
  unfold Kv.decode Object.name
  rw [metadata_withMeta]

theorem mem_all (k : Kind) : k ∈ Kind.all := by
  cases k <;> decide

variable {ks : List Kind}

theorem segs_pass : (ks.map Kind.plural ≠ [] ∧ k.plural ∉ ks.map Kind.plural) ↔ k ∉ watchedKinds ks := by
  unfold watchedKinds
  by_cases hks : ks = []
  · simp [hks, mem_all]
  · rw [if_neg hks]
    constructor
    · intro h hk
      exact h.2 (List.mem_map_of_mem hk)
    · intro h
      refine ⟨by simp [hks], ?_⟩
      intro hm
      obtain ⟨k', hk', hp⟩ := List.mem_map.mp hm
      obtain rfl := plural_inj hp
      exact h hk'

theorem newObject_kind (k : Kind) : (newObject k).kind = k := by
  cases k <;> rfl

theorem toEvent_names (ks : List Kind) (h : ev.Names k n) : if k ∈ watchedKinds ks then
      ∃ e, toEvent (ks.map Kind.plural) ev = some e ∧ e.object.kind = k ∧ e.object.name = n ∧
        e.revision = ev.revision ∧ (if e.type = .deleted then none else some e.object) = ev.left.map Kv.decode
    else toEvent (ks.map Kind.plural) ev = none := by
  unfold toEvent
  rw [names_key h, splitKey_key]
  dsimp only
  split
  · rename_i hk
    rw [if_neg fun hs => segs_pass.mp hs hk]
    cases ev with
    | put key' kv =>
      refine ⟨_, rfl, h.2.1, (decode_name kv).trans h.2.2, rfl, ?_⟩
      dsimp only
      split <;> rfl
    | delete key' r prev =>
      cases prev with
      | some o =>
        have ho := h.2 o rfl
        refine ⟨_, rfl, ho.1, ?_, rfl, rfl⟩
        unfold Object.name
        rw [metadata_withMeta]
        exact ho.2
      | none =>
        dsimp only
        rw [canonical_plural]
        refine ⟨_, rfl, newObject_kind k, ?_, rfl, rfl⟩
        unfold Object.name
        rw [metadata_withMeta]
  · rename_i hk
    rw [if_pos (segs_pass.mpr hk)]

/-- The view has, for the kinds it is about, what is stored, as a read decodes it. -/
def Shows (K : List Kind) (kvs : Std.ExtTreeMap String Kv) (w : ClientView) : Prop :=
  ∀ k n, (w k)[n]? = if k ∈ K then kvs[key k n]?.map Kv.decode else none

theorem take_get (w : ClientView) (e : StoreEvent) (k : Kind) (n : String) : (w.take e k)[n]? =
      if e.object.kind = k ∧ e.object.name = n then (if e.type = .deleted then none else some e.object) else (w k)[n]? := by
  unfold ClientView.take
  by_cases hk : k = e.object.kind
  · subst hk
    rw [Function.update_self]
    by_cases hd : e.type = .deleted
    · rw [if_pos hd, if_pos hd, Table.get_erase]
      simp
    · rw [if_neg hd, if_neg hd, Table.get_insert]
      simp
  · rw [Function.update_of_ne hk, if_neg fun h => hk h.1.symm]

theorem apply_get (h : ev.Names k n) (kvs : Std.ExtTreeMap String Kv) (k' : Kind) (n' : String) :
    (ev.apply kvs)[key k' n']? = if k = k' ∧ n = n' then ev.left else kvs[key k' n']? := by
  have hiff : key k n = key k' n' ↔ k = k' ∧ n = n' := by
    constructor
    · exact key_inj
    · rintro ⟨rfl, rfl⟩
      rfl
  cases ev with
  | put key' kv =>
    obtain rfl := h.1
    simp only [KvEvent.apply, KvEvent.left, Table.get_insert, hiff]
  | delete key' r prev =>
    obtain rfl := h.1
    simp only [KvEvent.apply, KvEvent.left, Table.get_erase, hiff]

variable {w : ClientView}

theorem shows_event {kvs : Std.ExtTreeMap String Kv} (hw : Shows (watchedKinds ks) kvs w) (h : ev.Names k n) :
    Shows (watchedKinds ks) (ev.apply kvs) (w.takeAll (toEvent (ks.map Kind.plural) ev).toList) := by
  have hto := toEvent_names ks h
  intro k' n'
  rw [apply_get h]
  split at hto
  · rename_i hk
    obtain ⟨e, he, hek, hen, -, hleft⟩ := hto
    rw [he]
    show (w.take e k')[n']? = _
    rw [take_get, hek, hen, hw k' n']
    by_cases hsame : k = k' ∧ n = n'
    · obtain ⟨rfl, rfl⟩ := hsame
      have hself : k = k ∧ n = n := ⟨rfl, rfl⟩
      rw [if_pos hself, if_pos hself, if_pos hk]
      exact hleft
    · rw [if_neg hsame, if_neg hsame]
  · rename_i hk
    rw [hto]
    show (w k')[n']? = _
    rw [hw k' n']
    by_cases hsame : k = k' ∧ n = n'
    · obtain ⟨rfl, rfl⟩ := hsame
      rw [if_neg hk, if_neg hk]
    · rw [if_neg hsame]

theorem shows_events {kvs : Std.ExtTreeMap String Kv} {evs : List KvEvent} (hw : Shows (watchedKinds ks) kvs w)
    (h : ∀ ev ∈ evs, ∃ k n, ev.Names k n) (gone : Int → Bool) : Shows (watchedKinds ks) (evs.foldl KvEvent.apply kvs)
      (w.takeAll ((evs.map (KvEvent.compacted gone)).filterMap (toEvent (ks.map Kind.plural)))) := by
  induction evs generalizing kvs w with
  | nil => exact hw
  | cons ev evs ih =>
    obtain ⟨k, n, hev⟩ := h ev List.mem_cons_self
    have hstep := shows_event hw (names_compacted gone hev)
    rw [apply_compacted] at hstep
    have hrest := ih hstep fun ev' hev' => h ev' (List.mem_cons_of_mem _ hev')
    rw [List.map_cons, List.foldl_cons, ← List.singleton_append, List.filterMap_append]
    unfold ClientView.takeAll at hrest ⊢
    rw [List.foldl_append]
    have hone : [ev.compacted gone].filterMap (toEvent (ks.map Kind.plural)) =
        (toEvent (ks.map Kind.plural) (ev.compacted gone)).toList := by
      cases he : toEvent (ks.map Kind.plural) (ev.compacted gone) <;> simp [he]
    rw [hone]
    exact hrest

/-! ### The run of the store -/

/-- A call with what it would draw. -/
structure Timed where
  req : Request
  uuid : Uid
  nowUnix : Int

def Etcd.empty (v : Revisions) : Etcd := { rev := v.first }

def Etcd.runs (v : Revisions) (s : Etcd) (calls : List Timed) : Etcd :=
  calls.foldl (fun s c => (s.call v.next c.uuid c.nowUnix c.req).2) s

/-- The second state is the first one with these commits. -/
structure Extends (s : Etcd) (evs : List KvEvent) (s' : Etcd) : Prop where
  log : s'.log = s.log ++ evs
  kvs : s'.kvs = evs.foldl KvEvent.apply s.kvs
  le : s.rev ≤ s'.rev
  after : ∀ ev ∈ evs, s.rev < ev.revision ∧ ev.revision ≤ s'.rev
  ordered : evs.Pairwise fun a b => a.revision < b.revision
  names : ∀ ev ∈ evs, ∃ k n, ev.Names k n

/-- Every object is stored under the key of its own kind and name. -/
def Etcd.OwnKeys (s : Etcd) : Prop :=
  ∀ (key' : String) (kv : Kv), s.kvs[key']? = some kv → key' = key kv.value.kind kv.value.name

variable {s : Etcd}

theorem ownKeys_keyed (h : s.OwnKeys) : s.Keyed := fun key' kv hkv => ⟨_, _, h key' kv hkv⟩

theorem extends_refl (s : Etcd) : Extends s [] s where
  log := (List.append_nil _).symm
  kvs := rfl
  le := le_refl _
  after := by simp
  ordered := List.Pairwise.nil
  names := by simp

theorem extends_trans {s s' s'' : Etcd} {evs evs' : List KvEvent} (h : Extends s evs s') (h' : Extends s' evs' s'') :
    Extends s (evs ++ evs') s'' where
  log := by rw [h'.log, h.log, List.append_assoc]
  kvs := by rw [h'.kvs, h.kvs, List.foldl_append]
  le := h.le.trans h'.le
  after := by
    intro ev hev
    have hle := h.le
    have hle' := h'.le
    rcases List.mem_append.mp hev with hm | hm
    · have := h.after ev hm
      omega
    · have := h'.after ev hm
      omega
  ordered := by
    rw [List.pairwise_append]
    refine ⟨h.ordered, h'.ordered, ?_⟩
    intro a ha b hb
    have := h.after a ha
    have := h'.after b hb
    omega
  names := by
    intro ev hev
    rcases List.mem_append.mp hev with hm | hm
    · exact h.names ev hm
    · exact h'.names ev hm

theorem extends_one {v : Revisions} {s s' : Etcd} (hlog : s'.log = s.log ++ [ev]) (hkvs : s'.kvs = ev.apply s.kvs)
    (hrev : s'.rev = v.next s.rev) (hev : ev.revision = v.next s.rev) (hnames : ∃ k n, ev.Names k n) :
    Extends s [ev] s' where
  log := hlog
  kvs := hkvs
  le := by
    have := v.grows s.rev
    omega
  after := by
    intro ev' hm
    obtain rfl := List.mem_singleton.mp hm
    have := v.grows s.rev
    omega
  ordered := List.pairwise_singleton _ _
  names := by
    intro ev' hm
    obtain rfl := List.mem_singleton.mp hm
    exact hnames

theorem kvStep_extends {v : Revisions} {s s' : Etcd} (hown : s.OwnKeys) (h : KvStep v.next s s') :
    s'.OwnKeys ∧ ∃ evs, Extends s evs s' := by
  cases h with
  | none => exact ⟨hown, [], extends_refl s⟩
  | put o =>
    constructor
    · intro key' kv hkv
      change (s.kvs.insert _ _)[key']? = some kv at hkv
      rw [Table.get_insert] at hkv
      split at hkv
      · rename_i hk
        cases hkv
        exact hk.symm
      · exact hown key' kv hkv
    · exact ⟨_, extends_one rfl rfl rfl rfl ⟨o.kind, o.name, rfl, rfl, rfl⟩⟩
  | delete k n =>
    constructor
    · intro key' kv hkv
      exact hown key' kv (Table.get_of_erase hkv).2
    · refine ⟨_, extends_one rfl rfl rfl rfl ⟨k, n, rfl, ?_⟩⟩
      intro o ho
      obtain ⟨kv, hkv, rfl⟩ := Option.map_eq_some_iff.mp ho
      obtain ⟨rfl, rfl⟩ := key_inj (hown _ _ hkv)
      exact ⟨rfl, rfl⟩

theorem runs_extends (v : Revisions) (hown : s.OwnKeys) (calls : List Timed) :
    (s.runs v calls).OwnKeys ∧ ∃ evs, Extends s evs (s.runs v calls) := by
  induction calls generalizing s with
  | nil => exact ⟨hown, [], extends_refl s⟩
  | cons c calls ih =>
    have hstep : KvStep v.next s (s.call v.next c.uuid c.nowUnix c.req).2 := kvStep_of_call c.req
    obtain ⟨hown', evs, hext⟩ := kvStep_extends hown hstep
    obtain ⟨hown'', evs', hext'⟩ := ih hown'
    exact ⟨hown'', evs ++ evs', extends_trans hext hext'⟩

theorem ownKeys_empty (v : Revisions) : (Etcd.empty v).OwnKeys := by
  intro key' kv hkv
  simp [Etcd.empty] at hkv

theorem replayed {s₀ s : Etcd} {evs : List KvEvent} (h : Extends s₀ evs s) {start : Int} (hstart : s.rev ≤ start) :
    (evs.filter fun ev => start ≤ ev.revision).foldl KvEvent.apply s.kvs = s.kvs := by
  rcases List.eq_nil_or_concat evs with rfl | ⟨init, last, rfl⟩
  · rfl
  · rw [List.concat_eq_append] at h ⊢
    have hinit : init.filter (fun ev => start ≤ ev.revision) = [] := by
      rw [List.filter_eq_nil_iff]
      intro ev hev
      have hlt := (List.pairwise_append.mp h.ordered).2.2 ev hev last (List.mem_singleton.mpr rfl)
      have hle := (h.after last (by simp)).2
      rw [decide_eq_true_eq]
      omega
    rw [List.filter_append, hinit, List.nil_append]
    by_cases hlast : start ≤ last.revision
    · have hone : [last].filter (fun ev => start ≤ ev.revision) = [last] := by simp [hlast]
      rw [hone, h.kvs, List.foldl_append]
      exact apply_apply _ _
    · have hnone : [last].filter (fun ev => start ≤ ev.revision) = [] := by simp [hlast]
      rw [hnone]
      rfl

/-! ### Listings -/

theorem mem_objects (hown : s.OwnKeys) {o : Object} :
    o ∈ s.objects k ↔ ∃ kv, s.kvs[key k o.name]? = some kv ∧ kv.decode = o := by
  unfold Etcd.objects Etcd.range
  rw [List.mem_map]
  constructor
  · rintro ⟨⟨key', kv⟩, hm, rfl⟩
    obtain ⟨hin, hp⟩ := List.mem_filter.mp hm
    have hkv := Table.mem_toList.mp hin
    obtain rfl := hown key' kv hkv
    obtain rfl := hasPrefix_key.mp hp
    exact ⟨kv, by rw [decode_name]; exact hkv, rfl⟩
  · rintro ⟨kv, hkv, rfl⟩
    exact ⟨(key k kv.decode.name, kv), List.mem_filter.mpr ⟨Table.mem_toList.mpr hkv, hasPrefix_key.mpr rfl⟩, rfl⟩

theorem objects_inj (hown : s.OwnKeys) {o o' : Object} (h : o ∈ s.objects k) (h' : o' ∈ s.objects k)
    (hn : o.name = o'.name) : o = o' := by
  obtain ⟨kv, hkv, rfl⟩ := (mem_objects hown).mp h
  obtain ⟨kv', hkv', rfl⟩ := (mem_objects hown).mp h'
  rw [hn, hkv'] at hkv
  rw [Option.some.inj hkv]

theorem shows_listings (hown : s.OwnKeys) (K : List Kind) {listed : Kind → List Object}
    (hl : ∀ k ∈ K, listed k = s.objects k) : Shows K s.kvs (ClientView.ofListings K listed) := by
  intro k n
  unfold ClientView.ofListings
  by_cases hk : k ∈ K
  · rw [if_pos hk, if_pos hk, hl k hk]
    cases hkv : s.kvs[key k n]? with
    | some kv =>
      have hkey := hown _ _ hkv
      obtain ⟨-, hn⟩ := key_inj hkey
      have hname : kv.decode.name = n := (decode_name kv).trans hn.symm
      have hm : kv.decode ∈ s.objects k := (mem_objects hown).mpr ⟨kv, by rw [hname]; exact hkv, rfl⟩
      have hget := Table.get_fill_key (f := fun o : Object => o) ∅ hm fun b hb hbn => objects_inj hown hb hm hbn
      rw [hname] at hget
      exact hget
    | none =>
      rw [Table.get_fill_absent, Std.ExtTreeMap.getElem?_empty]
      · rfl
      · intro o ho
        obtain ⟨o', ho', he⟩ := List.mem_map.mp ho
        cases he
        obtain ⟨kv, hkv', -⟩ := (mem_objects hown).mp ho'
        rw [hkv] at hkv'
        cases hkv'
  · rw [if_neg hk, if_neg hk, Std.ExtTreeMap.getElem?_empty]

theorem objects_of_shows (hown : s.OwnKeys) {K : List Kind} (hw : Shows K s.kvs w) (hk : k ∈ K) :
    (w k).toList.map (·.2) = s.objects k := by
  have hrel : ∀ n, Option.Rel (fun o kv => o = Kv.decode kv) (w k)[n]? s.kvs[key k n]? := by
    intro n
    rw [hw k n, if_pos hk]
    cases s.kvs[key k n]? with
    | none => exact Option.Rel.none
    | some kv => exact Option.Rel.some rfl
  have hpairs := range_pairs (ownKeys_keyed hown) hrel
  have hmap : List.Forall₂ Eq ((w k).toList.map (·.2)) ((s.range k).map fun e => e.2.decode) := by
    rw [List.forall₂_map_left_iff, List.forall₂_map_right_iff]
    exact hpairs
  exact List.forall₂_eq_eq_eq ▸ hmap

/-! ### The watch -/

theorem list_objects (s : Etcd) (k : Kind) : s.list k.name = .ok (.objects (s.objects k) s.rev) := by
  unfold Etcd.list
  rw [canonical_name]

theorem watchedKinds_ne (ks : List Kind) : ∃ k, k ∈ watchedKinds ks := by
  unfold watchedKinds
  by_cases hks : ks = []
  · exact ⟨.workload, by rw [if_pos hks]; exact mem_all _⟩
  · rw [if_neg hks]
    exact List.exists_mem_of_ne_nil ks hks

section Delivered
variable {evs : List KvEvent} (hnames : ∀ ev ∈ evs, ∃ k n, ev.Names k n) (gone : Int → Bool) (ks : List Kind)
include hnames

theorem delivered_revision {e : StoreEvent} (hev : ev ∈ evs)
    (he : toEvent (ks.map Kind.plural) (ev.compacted gone) = some e) : e.revision = ev.revision := by
  obtain ⟨k, n, hn⟩ := hnames ev hev
  have hto := toEvent_names ks (names_compacted gone hn)
  split at hto
  · obtain ⟨e', he', -, -, hrev, -⟩ := hto
    obtain rfl := Option.mem_unique he he'
    rw [hrev, revision_compacted]
  · rw [hto] at he
    cases he

theorem delivered_upto (r : Int) :
    ((evs.map (KvEvent.compacted gone)).filterMap (toEvent (ks.map Kind.plural))).filter (fun e => e.revision ≤ r) =
      ((evs.filter fun ev => ev.revision ≤ r).map (KvEvent.compacted gone)).filterMap (toEvent (ks.map Kind.plural)) := by
  rw [List.filterMap_map, List.filterMap_map, List.filter_filterMap, List.filterMap_filter]
  refine List.filterMap_congr fun ev hev => ?_
  simp only [Function.comp_apply]
  cases he : toEvent (ks.map Kind.plural) (ev.compacted gone) with
  | none => simp
  | some e =>
    have hrev := delivered_revision hnames gone ks hev he
    simp only [Option.filter_some, hrev]

theorem delivered_kinds {e : StoreEvent}
    (he : e ∈ (evs.map (KvEvent.compacted gone)).filterMap (toEvent (ks.map Kind.plural))) :
    e.object.kind ∈ watchedKinds ks := by
  rw [List.filterMap_map, List.mem_filterMap] at he
  obtain ⟨ev, hev, hto'⟩ := he
  obtain ⟨k, n, hev⟩ := hnames ev hev
  have hto := toEvent_names ks (names_compacted gone hev)
  rw [Function.comp_apply] at hto'
  split at hto
  · rename_i hk
    obtain ⟨e', he', hek, -⟩ := hto
    rw [he'] at hto'
    cases hto'
    rw [hek]
    exact hk
  · rw [hto] at hto'
    cases hto'

theorem delivered_ordered (hord : evs.Pairwise fun a b => a.revision < b.revision) :
    ((evs.map (KvEvent.compacted gone)).filterMap (toEvent (ks.map Kind.plural))).Pairwise
      fun a b => a.revision < b.revision := by
  rw [List.filterMap_map, List.pairwise_filterMap]
  refine hord.imp_of_mem ?_
  intro a b ha hb hab e he e' he'
  rw [delivered_revision hnames gone ks ha he, delivered_revision hnames gone ks hb he']
  exact hab

end Delivered

theorem upto_later {s₀ s s' s'' : Etcd} {evs evs' evs'' : List KvEvent} (h : Extends s₀ evs s) (h' : Extends s evs' s')
    (h'' : Extends s' evs'' s'') {start : Int} (hstart : start ≤ s.rev + 1) :
    ((evs ++ evs' ++ evs'').filter fun ev => start ≤ ev.revision).filter (fun ev => ev.revision ≤ s'.rev) =
      (evs.filter fun ev => start ≤ ev.revision) ++ evs' := by
  have hold : ∀ ev ∈ evs, ev.revision ≤ s'.rev := fun ev hev => ((h.after ev hev).2).trans h'.le
  have hmid : ∀ ev ∈ evs', start ≤ ev.revision ∧ ev.revision ≤ s'.rev := by
    intro ev hev
    have := h'.after ev hev
    omega
  have hlate : ∀ ev ∈ evs'', ¬ ev.revision ≤ s'.rev := by
    intro ev hev
    have := h''.after ev hev
    omega
  have hone : (evs.filter fun ev => start ≤ ev.revision).filter (fun ev => ev.revision ≤ s'.rev) =
      evs.filter fun ev => start ≤ ev.revision := by
    rw [List.filter_eq_self]
    intro ev hev
    exact decide_eq_true (hold ev (List.mem_of_mem_filter hev))
  have htwo : (evs'.filter fun ev => start ≤ ev.revision).filter (fun ev => ev.revision ≤ s'.rev) = evs' := by
    rw [List.filter_filter, List.filter_eq_self]
    intro ev hev
    simp [hmid ev hev]
  have hthree : (evs''.filter fun ev => start ≤ ev.revision).filter (fun ev => ev.revision ≤ s'.rev) = [] := by
    rw [List.filter_filter, List.filter_eq_nil_iff]
    intro ev hev
    simp [hlate ev hev]
  rw [List.filter_append, List.filter_append, List.filter_append, List.filter_append, hone, htwo, hthree,
    List.append_nil]

theorem storeKey_inj {kind kind' name name' key' : String} (h : storeKey kind name = .ok key')
    (h' : storeKey kind' name' = .ok key') : canonical kind = canonical kind' ∧ name = name' := by
  obtain ⟨k, hc, -, rfl⟩ := storeKey_ok h
  obtain ⟨k', hc', -, hkey⟩ := storeKey_ok h'
  obtain ⟨rfl, rfl⟩ := key_inj hkey
  exact ⟨hc.trans hc'.symm, rfl⟩

theorem changes_from (hnames : ∀ ev ∈ s.log, ∃ k n, ev.Names k n) (gone : Int → Bool) (start : Int) :
    s.changes gone start = (s.log.filter fun ev => start ≤ ev.revision).map (KvEvent.compacted gone) := by
  unfold Etcd.changes
  congr 1
  refine List.filter_congr fun ev hev => ?_
  obtain ⟨k, n, hn⟩ := hnames ev hev
  have hp : hasPrefix ev.key keyRoot := by
    rw [names_key hn, hasPrefix_append]
    exact ⟨k.plural ++ "/" ++ n, by simp only [key, keyRoot, String.append_assoc]⟩
  simp [hp]

theorem watch_delivers (hnames : ∀ ev ∈ s.log, ∃ k n, ev.Names k n) (gone : Int → Bool) (opened : Int)
    {kinds : List String} (hks : kinds.mapM canonical = .ok ks) {fromRev : Int} (hpos : 0 < fromRev) :
    s.watch gone opened kinds fromRev =
      .ok (((s.log.filter fun ev => fromRev ≤ ev.revision).map (KvEvent.compacted gone)).filterMap
        (toEvent (ks.map Kind.plural))) := by
  unfold Etcd.watch
  rw [hks]
  dsimp only
  rw [if_pos hpos, changes_from hnames]

section Main
variable (v : Revisions) (gone : Int → Bool) (opened : Int) (before between after : List Timed)

/-- After any writes the watched kinds are listed at one revision and watched from it or from the
next one. Whatever is written then, the events up to any later revision, taken into the listing,
give what a listing at that revision gives; no event is of another kind, and no two objects share
a key. -/
theorem list_watch_follows {kinds : List String} {ks : List Kind} (hks : kinds.mapM canonical = .ok ks)
    {listed : Kind → List Object} {R fromRev : Int}
    (hlist : ∀ k ∈ watchedKinds ks, ((Etcd.empty v).runs v before).list k.name = .ok (.objects (listed k) R))
    (hfrom : fromRev = R ∨ fromRev = R + 1) :
    let later := ((Etcd.empty v).runs v before).runs v between
    ∃ es, (later.runs v after).watch gone opened kinds fromRev = .ok es ∧
      (∀ k ∈ watchedKinds ks, later.list k.name = .ok (.objects
        ((((ClientView.ofListings (watchedKinds ks) listed).takeAll
          (es.filter fun e => e.revision ≤ later.rev)) k).toList.map (·.2)) later.rev)) ∧
      es.Pairwise (fun e e' => e.revision < e'.revision) ∧ (∀ e ∈ es, e.object.kind ∈ watchedKinds ks) ∧
      ∀ kind name kind' name' key', storeKey kind name = .ok key' → storeKey kind' name' = .ok key' →
        canonical kind = canonical kind' ∧ name = name' := by
  intro later
  obtain ⟨hown, evs, hext⟩ := runs_extends v (ownKeys_empty v) before
  obtain ⟨hown', evs', hext'⟩ := runs_extends v hown between
  obtain ⟨-, evs'', hext''⟩ := runs_extends v hown' after
  have hall := extends_trans (extends_trans hext hext') hext''
  have hlog : (later.runs v after).log = evs ++ evs' ++ evs'' := hall.log
  obtain ⟨k₀, hk₀⟩ := watchedKinds_ne ks
  have hR : R = ((Etcd.empty v).runs v before).rev := by
    have h := hlist k₀ hk₀
    rw [list_objects] at h
    exact (Answer.objects.inj (Except.ok.inj h)).2.symm
  have hfirst : 0 < R := by
    have h := hext.le
    have hpos := v.first_pos
    rw [hR]
    exact lt_of_lt_of_le hpos h
  have hlisted : ∀ k ∈ watchedKinds ks, listed k = ((Etcd.empty v).runs v before).objects k := by
    intro k hk
    have h := hlist k hk
    rw [list_objects] at h
    exact (Answer.objects.inj (Except.ok.inj h)).1.symm
  have hnames : ∀ ev ∈ (later.runs v after).log, ∃ k n, ev.Names k n := by
    rw [hlog]
    exact hall.names
  have hkept : ∀ ev ∈ (evs ++ evs' ++ evs'').filter fun ev => fromRev ≤ ev.revision, ∃ k n, ev.Names k n :=
    fun ev hev => hall.names ev (List.mem_of_mem_filter hev)
  have hwatch := watch_delivers hnames gone opened hks (show 0 < fromRev by omega)
  rw [hlog] at hwatch
  refine ⟨_, hwatch, ?_, delivered_ordered hkept gone ks (hall.ordered.sublist List.filter_sublist),
    fun e he => delivered_kinds hkept gone ks he, fun kind name kind' name' key' => storeKey_inj⟩
  intro k hk
  rw [delivered_upto hkept gone ks, upto_later hext hext' hext'' (by omega), list_objects]
  -- The view follows the commits, and the commits lead from the listed state to the later one.
  have hmine : ∀ ev ∈ (evs.filter fun ev => fromRev ≤ ev.revision) ++ evs', ∃ k n, ev.Names k n := by
    intro ev hev
    rcases List.mem_append.mp hev with hm | hm
    · exact hext.names ev (List.mem_of_mem_filter hm)
    · exact hext'.names ev hm
  have hshows := shows_events (shows_listings hown _ hlisted) hmine gone
  rw [List.foldl_append, replayed hext (by omega), ← hext'.kvs] at hshows
  rw [objects_of_shows hown' hshows hk]

end Main

def createWeb : Timed := ⟨.put (some ⟨.workload, ({ metadata := { name := "web" } } : Workload)⟩) revCreate, 7, 10⟩

def deleteWeb : Timed := ⟨.delete "workload" "web", 8, 11⟩

/-- The workload is created, listed and deleted; the value before the delete is gone. -/
theorem list_watch_follows_deleted :
    let later := ((Etcd.empty plainRevisions).runs plainRevisions [createWeb]).runs plainRevisions [deleteWeb]
    ∃ es, (later.runs plainRevisions [createWeb]).watch (fun _ => true) 0 ["workloads"] 2 = .ok es ∧
      later.list "Workload" = .ok (.objects ((((ClientView.ofListings [.workload]
        ((Etcd.empty plainRevisions).runs plainRevisions [createWeb]).objects).takeAll
          (es.filter fun e => e.revision ≤ later.rev)) .workload).toList.map (·.2)) later.rev) := by
  have hks : ["workloads"].mapM canonical = .ok [Kind.workload] := by rfl
  obtain ⟨es, hes, hview, -⟩ := list_watch_follows plainRevisions (fun _ => true) 0 [createWeb] [deleteWeb] [createWeb]
    hks (R := 2) (fun k _ => list_objects _ k) (Or.inl rfl)
  exact ⟨es, hes, hview .workload (by decide)⟩

end Klite
