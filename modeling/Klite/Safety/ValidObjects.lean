import Klite.Safety.Ownership

/-!
# Only valid objects are stored

Apply validates what it writes. The other writers edit objects that are stored
already: Scale sets a replica count that went through no validation, Delete adds a
label, and the rest write status, which validation does not read.
-/

namespace Klite
open Lib

section Validate
variable {k : Kind} {a b : k.Obj}

theorem validate_none : validate k a = none ↔ validateName (metaOf a).name = none ∧
    validateLabels "metadata.labels" (metaOf a).labels = none ∧ validateSpec k a = none := by
  unfold validate
  cases hn : validateName (metaOf a).name with
  | some e => simp
  | none => simp [Option.or_eq_none_iff]

theorem validateSpec_same (hs : SameSpec a b) : validateSpec k a = validateSpec k b := by
  cases k with
  | workload =>
    change validateWorkload a = validateWorkload b
    unfold validateWorkload
    rw [show Workload.spec a = Workload.spec b from hs]
  | service =>
    change validateService a = validateService b
    unfold validateService
    rw [show Service.spec a = Service.spec b from hs]
  | node =>
    change validateNode a = validateNode b
    unfold validateNode
    rw [show Node.spec a = Node.spec b from hs]
  | networkPolicy =>
    change validatePolicy a = validatePolicy b
    unfold validatePolicy
    rw [show NetworkPolicy.spec a = NetworkPolicy.spec b from hs]
  | _ => rfl

theorem validate_same (hn : (metaOf a).name = (metaOf b).name) (hl : (metaOf a).labels = (metaOf b).labels)
    (hs : SameSpec a b) (hb : validate k b = none) : validate k a = none := by
  rw [validate_none] at hb ⊢
  rw [hn, hl, validateSpec_same hs]
  exact hb

end Validate

theorem validateLabels_none {field : String} {labels : Labels} : validateLabels field labels = none ↔
    ∀ (k v : String), labels[k]? = some v → validateLabel field k v = none := by
  unfold validateLabels
  rw [List.findSome?_eq_none_iff]
  constructor
  · intro h k v hv
    exact h (k, v) (Table.mem_toList.mpr hv)
  · intro h e he
    exact h e.1 e.2 (Table.mem_toList.mp he)

theorem validateLabels_insert {field : String} {labels : Labels} {k v : String}
    (h : validateLabels field labels = none) (hkv : validateLabel field k v = none) :
    validateLabels field (labels.insert k v) = none := by
  rw [validateLabels_none] at h ⊢
  intro k' v' hv
  rw [Table.get_insert] at hv
  split at hv
  · rename_i hk
    rw [← hk, ← Option.some.inj hv]
    exact hkv
  · exact h k' v' hv

theorem sameSpec_setMeta {k : Kind} (o : k.Obj) (m : Meta) : SameSpec (setMeta o m) o := by
  cases k <;> rfl

theorem sameSpec_mergeSpec {k : Kind} (cur o : k.Obj) (hk : serverMaterialized k = false) :
    SameSpec (mergeSpec cur o) o := by
  cases k with
  | workload => rfl
  | service => rfl
  | node => rfl
  | networkPolicy => rfl
  | _ => cases hk

theorem stampNew_labels (uids : Uid) (nowUnix : Int) (m : Meta) : (stampNew uids nowUnix m).1.labels = m.labels := by
  unfold stampNew
  dsimp only
  split <;> rfl

theorem validate_stamp {k : Kind} {o : k.Obj} (h : validate k o = none) (r : Int) : validate k (stamp o r) = none :=
  validate_same (by rw [metaOf_stamp]) (by rw [metaOf_stamp]) (sameSpec_setMeta o _) h

theorem validate_minted {k : Kind} {o : k.Obj} (h : validate k o = none) (s : Store) (nowUnix : Int) :
    validate k (minted s nowUnix o) = none :=
  validate_same (by rw [metaOf_minted, stampNew_name]) (by rw [metaOf_minted, stampNew_labels])
    (sameSpec_setMeta o _) h

theorem validate_merged {k : Kind} {cur o : k.Obj} (hk : serverMaterialized k = false)
    (hcur : validate k cur = none) (ho : validate k o = none) : validate k (mergeSpec cur o) = none := by
  rw [validate_none] at hcur ho ⊢
  rw [metaOf_mergeSpec, validateSpec_same (sameSpec_mergeSpec cur o hk)]
  exact ⟨hcur.1, ho.2⟩

theorem validate_replicas {cur : Workload} {replicas : Int} (h0 : 0 ≤ replicas) (hmax : replicas ≤ maxReplicas)
    (hcur : validate .workload cur = none) : validate .workload (withReplicas cur replicas) = none := by
  rw [validate_none] at hcur ⊢
  refine ⟨hcur.1, hcur.2.1, ?_⟩
  have hspec : validateWorkload cur = none := hcur.2.2
  change validateWorkload (withReplicas cur replicas) = none
  unfold validateWorkload withReplicas at *
  dsimp only at *
  rw [if_neg (by omega)]
  split at hspec
  · cases hspec
  · exact hspec

theorem validate_pendingDelete {cur : Node} (hcur : validate .node cur = none) :
    validate .node (markedForDelete cur) = none := by
  rw [validate_none] at hcur ⊢
  exact ⟨hcur.1, validateLabels_insert hcur.2.1 (by decide), hcur.2.2⟩

def Call.inBounds : Call → Prop
  | .scale _ replicas => replicas ≤ maxReplicas
  | _ => True

-- A writer that is no Scale to more than `maxReplicas`.
def Call.Bounded (g : Call) : Prop := g.Writer ∧ g.inBounds

section Edits
variable {cfg : Config} {g : Call} {h : Log} {w : World} {k : Kind} {cur o : k.Obj}

theorem create_valid (hg : g.Writer) (hk : serverMaterialized k = false)
    (hr : (writerRights cfg g).create k h w o) : validate k o = none := by
  cases g with
  | apply decoded => exact hr.2.1
  | workload order passes =>
    cases k with
    | inst => cases hk
    | _ => exact hr.elim
  | other p =>
    have halloc : isAllocation k := hr
    cases k with
    | inst => cases hk
    | vipAllocation => cases hk
    | ingressAllocation => cases hk
    | _ => exact absurd halloc (by decide)
  | _ => exact hr.elim

theorem edit_valid (hg : g.Bounded) (hk : serverMaterialized k = false)
    (hr : (writerRights cfg g).edit k h w cur o) (hcur : validate k cur = none) : validate k o = none := by
  have ho := edit_owned hg.1 hr
  cases ho with
  | spec decoded cur new _ _ =>
    obtain ⟨o, happ, rfl⟩ := hr
    exact validate_merged hk hcur happ.2.1
  | replicas name replicas cur new hnew =>
    rw [hnew]
    exact validate_replicas hr.1 hg.2 hcur
  | pendingDelete req cur new _ =>
    obtain ⟨-, -, rfl⟩ := hr
    exact validate_pendingDelete hcur
  | bind cur new _ _ _ => cases hk
  | status g _ _ _ hnew =>
    rw [hnew]
    refine validate_same ?_ ?_ (sameSpec_takeStatus _ _) hcur
    · rw [metaOf_takeStatus]
    · rw [metaOf_takeStatus]

end Edits

def StoreValid (s : Store) : Prop :=
  ∀ (k : Kind) (o : k.Obj), serverMaterialized k = false → Holds s k o → validate k o = none

structure ValidRun (cfg : Config) (s : Klited) : Prop where
  writing : Writing cfg s
  bounded : Running Call.Bounded s
  valid : StoreValid s.world.store

theorem storeValid_next {cfg : Config} {s : Klited} {l : Step} (hs : ValidRun cfg s)
    (hl : Admits Call.Bounded l) : StoreValid (s.next (body cfg) l).world.store := by
  rcases writing_store hs.writing (admits_mono (fun _ hg => hg.1) hl) with
    hsame | ⟨t, c, th, op, rfl, hcall, -, hch⟩
  · rw [hsame]
    exact hs.valid
  · have hg := hs.bounded th (List.mem_of_getElem? hcall.1)
    intro k o hk ho
    rcases change_holds hch ho with hold | ⟨o₀, -, -, hr, rfl⟩ | ⟨cur, o₀, -, hcur, hr, -, rfl⟩
    · exact hs.valid k o hk hold
    · exact validate_stamp (validate_minted (create_valid hg.1 hk hr) _ _) _
    · exact validate_stamp (edit_valid hg hk hr (hs.valid k cur hk hcur)) _

theorem validRun_next {cfg : Config} {s : Klited} {l : Step} (hs : ValidRun cfg s)
    (hl : Admits Call.Bounded l) : ValidRun cfg (s.next (body cfg) l) :=
  ⟨writing_next hs.writing (admits_mono (fun _ hg => hg.1) hl), running_next hs.bounded hl,
    storeValid_next hs hl⟩

theorem storeValid_empty : StoreValid Store.empty := by
  intro k o _ ho
  unfold Holds Store.lookup Store.empty at ho
  simp at ho

/-- From the empty store, over every run of all writers in which every Scale asks for at most
`maxReplicas`: every stored Workload, Service, Node and NetworkPolicy passes validation, in every
state reached. -/
theorem store_valid (cfg : Config) (now : Int) (ls : List Step)
    (hl : Along (body cfg) (fun _ l => Admits Call.Bounded l) (start ⟨Store.empty, now⟩) ls)
    (k : Kind) (o : k.Obj) (hk : serverMaterialized k = false)
    (ho : Holds ((start ⟨Store.empty, now⟩).run (body cfg) ls).world.store k o) : validate k o = none := by
  have hrun := run_invariant (body cfg) (ValidRun cfg) _ (fun _ _ hs hl => validRun_next hs hl) _ ls
    ⟨writing_start ⟨Store.empty, now⟩, fun th hth => (by cases hth), storeValid_empty⟩ hl
  exact hrun.valid k o hk ho

section Runs

def webManifest : Workload where
  metadata := { name := "web" }
  spec := { replicas := 1, template := { containers := [{ image := "nginx" }] } }

def applyThenScale (replicas : Int) : List Step :=
  [.spawn (.apply (.ok [⟨.workload, webManifest⟩])), .step 0 {}, .step 0 {},
    .spawn (.scale "web" replicas), .step 1 {}, .step 1 {}]

def verdictOn (s : Klited) (n : String) : Option (Int × Option String) :=
  (s.world.store.lookup .workload n).map fun e => (e.1.spec.replicas, validate .workload e.1)

theorem scale_stores_invalid : verdictOn ((start ⟨Store.empty, 0⟩).run (body plainConfig) (applyThenScale 1001)) "web" =
      some (1001, some "Workload \"web\": replicas must be 0-1000, got 1001") := by
  decide +kernel

theorem store_valid_scaled : ∃ o : Workload, o.spec.replicas = 1000 ∧
      Holds ((start ⟨Store.empty, 0⟩).run (body plainConfig) (applyThenScale 1000)).world.store .workload o ∧
      validate .workload o = none := by
  have hrep : (((start ⟨Store.empty, 0⟩).run (body plainConfig) (applyThenScale 1000)).world.store.lookup
      .workload "web").map (fun e => e.1.spec.replicas) = some 1000 := by decide +kernel
  obtain ⟨⟨o, r⟩, hl, ho⟩ := Option.map_eq_some_iff.mp hrep
  have hholds := holds_of_lookup hl
  refine ⟨o, ho, hholds, store_valid plainConfig 0 (applyThenScale 1000) ?_ .workload o rfl hholds⟩
  refine ⟨⟨trivial, trivial⟩, trivial, trivial, ⟨trivial, ?_⟩, trivial, trivial, trivial⟩
  show (1000 : Int) ≤ maxReplicas
  decide

end Runs

end Klite
