import Klite.Server.Cluster
import Klite.Server.Drain
import Klite.Store.Listings

/-!
# What Apply, Delete, Uncordon, Scale and Drain may do
-/

namespace Klite
open Lib

-- An apply writes what passed validation, without a status of its own.
def Applied {k : Kind} (o : k.Obj) : Prop :=
  serverMaterialized k = false ∧ validate k o = none ∧ ∃ o₀ : k.Obj, o = applyDefault k (sanitize o₀)

def applyRights : Rights where
  create _ _ _ o := Applied o
  edit _ _ _ cur new := ∃ o, Applied o ∧ new = mergeSpec cur o
  remove _ _ _ _ := False

theorem metaOf_mergeSpec {k : Kind} (e i : k.Obj) :
    metaOf (mergeSpec e i) = { metaOf e with labels := (metaOf i).labels } := by
  cases k <;> rfl

section Apply
variable {h : Log}

theorem obeys_applyLoop {k : Kind} (o : k.Obj) (res : ApplyResult) (dropped : Bool) (ho : Applied o) (n : ℕ) :
    Abides applyRights (applyLoop o res dropped n) h := by
  induction n generalizing h with
  | zero => trivial
  | succ n ih =>
    refine obeys_get ?_ ?_
    · intro c w e _ _
      dsimp only
      split
      · refine obeys_put (fun w' _ => Or.inl ⟨rfl, ho⟩) ?_
        intro c' w' r _ _
        cases r with
        | ok rev => trivial
        | error e' =>
          dsimp only
          split
          · exact ih
          · trivial
      · trivial
    · intro c w cur _ _ hcur _
      have hseen : Seen (klited.event c (.get k res.name) w :: h) k cur := ⟨_, List.mem_cons_self, hcur⟩
      dsimp only
      split
      · trivial
      · refine obeys_put (fun w' ha => within_put hseen ha ?_ ⟨o, ho, rfl⟩) ?_
        · rw [metaOf_mergeSpec]
        · intro c' w' r _ _
          cases r with
          | ok rev => trivial
          | error e' =>
            dsimp only
            split
            · exact ih
            · trivial

theorem obeys_applyOne (o : Object) : Abides applyRights (applyOne o) h := by
  unfold applyOne
  dsimp only
  split
  · trivial
  · rename_i hk
    split
    · trivial
    · rename_i hv
      exact obeys_applyLoop _ _ _ ⟨by simpa using hk, hv, o.obj, rfl⟩ casRetries

theorem obeys_apply (decoded : Except String (List Object)) :
    Abides applyRights (apply decoded) h := by
  unfold apply
  split
  · trivial
  · trivial
  · refine follows_bind
      (follows_foldlM _ (fun _ _ _ => True) (fun o _ h' _ _ => ?_) _ _ h trivial) fun _ _ _ _ => trivial
    exact follows_bind (obeys_applyOne o) fun _ _ _ _ => trivial

end Apply

def DeleteRequest.Names (k : Kind) (name : String) : DeleteRequest → Prop
  | .yaml (.ok objs) => ∃ o ∈ objs, o.kind = k ∧ (metaOf o.obj).name = name
  | .named kind n => kind = .ok k ∧ n = name
  | _ => False

def deleteRights (req : DeleteRequest) : Rights where
  create _ _ _ _ := False
  edit
    | .node, _, _, cur, new => req.Names .node cur.metadata.name ∧ cur.pendingDelete = false ∧ new = markedForDelete cur
    | _, _, _, _, _ => False
  remove k _ _ _ := k ≠ .node

section Delete
variable {h : Log} {req : DeleteRequest}

theorem obeys_markNodeForDelete {name : String} (hr : req.Names .node name) :
    Abides (deleteRights req) (markNodeForDelete name) h := by
  refine obeys_cas casRetries ?_
  intro h' node _ hn
  unfold judgeMarkForDelete
  split
  · trivial
  · rename_i hp
    exact ⟨hn, fun _ _ => ⟨hn ▸ hr, by simpa using hp, rfl⟩⟩

theorem obeys_deleteOne {k : Kind} {name : String} (hr : req.Names k name) :
    Abides (deleteRights req) (deleteOne k name) h := by
  unfold deleteOne
  split
  · rename_i hk
    exact obeys_markNodeForDelete (hk ▸ hr)
  · rename_i hk
    refine obeys_delete (fun _ _ _ _ _ => hk) ?_
    intro e r
    cases r <;> trivial

theorem obeys_deleteListed {objs : List Object} {o : Object} (ho : o ∈ objs) :
    Obeys (deleteRights (.yaml (.ok objs))) (fun _ _ => True) (deleteListed o) h := by
  refine follows_bind (obeys_deleteOne ⟨o, ho, rfl, rfl⟩) ?_
  intro h' r _ _
  cases r <;> trivial

theorem obeys_deleteRPC (req : DeleteRequest) : Abides (deleteRights req) (deleteRPC req) h := by
  unfold deleteRPC
  split
  · trivial
  · rename_i objs
    refine follows_bind (follows_foldlM _ (fun rest _ _ => rest ⊆ objs) (fun o rest h' _ hsub => ?_) _ _ h
      (List.Subset.refl objs)) fun _ _ _ _ => trivial
    obtain ⟨ho, hrest⟩ := List.cons_subset.mp hsub
    exact follows_bind (obeys_deleteListed ho) fun _ _ _ _ => hrest
  · trivial
  · split
    · trivial
    · refine follows_bind (obeys_deleteOne ⟨rfl, rfl⟩) ?_
      intro h' r _ _
      cases r <;> trivial

end Delete

def uncordonRights (name : String) : Rights where
  create _ _ _ _ := False
  edit
    | .node, _, _, cur, new =>
      cur.metadata.name = name ∧ cur.pendingDelete = false ∧ new = uncordoned cur
    | _, _, _, _, _ => False
  remove _ _ _ _ := False

theorem obeys_uncordon (name : String) (h : Log) : Abides (uncordonRights name) (uncordon name) h := by
  unfold uncordon
  split
  · trivial
  · refine obeys_cas casRetries ?_
    intro h' node _ hn
    unfold judgeUncordon
    split
    · trivial
    · rename_i hp
      split
      · trivial
      · exact ⟨hn, fun _ _ => ⟨hn, by simpa using hp, rfl⟩⟩

def scaleRights (replicas : Int) : Rights where
  create _ _ _ _ := False
  edit
    | .workload, _, _, cur, new => 0 ≤ replicas ∧ new = { cur with spec.replicas := replicas }
    | _, _, _, _, _ => False
  remove _ _ _ _ := False

theorem obeys_scale (workload : String) (replicas : Int) (h : Log) :
    Abides (scaleRights replicas) (scale workload replicas) h := by
  unfold scale
  split
  · trivial
  · split
    · trivial
    · rename_i hpos
      refine obeys_cas casRetries ?_
      intro h' w _ hn
      unfold judgeScale
      split
      · trivial
      · exact ⟨hn, fun _ _ => ⟨not_lt.mp hpos, rfl⟩⟩

def drainRights (node : String) : Rights where
  create _ _ _ _ := False
  edit
    | .node, _, _, cur, new => cur.metadata.name = node ∧ new = markedDraining cur
    | _, _, _, _, _ => False
  remove
    | .inst, h, _, cur => Instance.phase cur = .draining ∧ cur.spec.node = node ∧
        ∃ l, lastListed .inst h = some l ∧ cur ∈ l
    | _, _, _, _ => False

-- What the narrator remembers is a view of what the last poll listed.
def Remembers (insts : List Instance) (prev : Std.ExtTreeMap String InstView) : Prop :=
  ∀ name v, prev[name]? = some v → ∃ i ∈ insts, i.metadata.name = name ∧ i.view = v

theorem remembers_viewsOf (insts : List Instance) : Remembers insts (viewsOf insts) := by
  have key : ∀ (xs : List Instance) (m : Std.ExtTreeMap String InstView), (∀ x ∈ xs, x ∈ insts) →
      Remembers insts m →
      Remembers insts (xs.foldl (fun m inst => m.insert inst.metadata.name inst.view) m) := by
    intro xs
    induction xs with
    | nil => exact fun m _ hm => hm
    | cons x xs ih =>
      intro m hx hm
      refine ih _ (fun y hy => hx y (List.mem_cons_of_mem _ hy)) ?_
      intro name v hv
      rw [Table.get_insert] at hv
      split at hv
      · rename_i hn
        exact ⟨x, hx x List.mem_cons_self, hn, Option.some.inj hv⟩
      · exact hm name v hv
  refine key insts ∅ (fun x hx => hx) ?_
  intro name v hv
  simp at hv

theorem remembers_erase {insts : List Instance} {prev : Std.ExtTreeMap String InstView}
    (hp : Remembers insts prev) (name : String) : Remembers insts (prev.erase name) := by
  intro name' v hv
  exact hp name' v (Table.get_of_erase hv).2

theorem lineFor_node (n : Narrator) (name : String) (v : InstView) : (n.lineFor name v).2.node = n.node := by
  unfold Narrator.lineFor
  dsimp only
  split
  · rfl
  · split
    · rfl
    · split <;> rfl

theorem diffLines_node (order : List String → List String) (n : Narrator)
    (cur : Std.ExtTreeMap String InstView) : (n.diffLines order cur).2.node = n.node := by
  unfold Narrator.diffLines
  refine List.foldlRecOn (motive := fun (acc : List String × Narrator) => acc.2.node = n.node) _ _ rfl ?_
  intro acc hacc name _
  dsimp only
  split
  · exact hacc
  · rw [lineFor_node]
    exact hacc

theorem observe_spec (order : List String → List String) (n : Narrator) (insts : List Instance) :
    (n.observe order insts).1.node = n.node ∧ Remembers insts (n.observe order insts).1.prev := by
  unfold Narrator.observe
  dsimp only
  split
  · exact ⟨rfl, remembers_viewsOf insts⟩
  · exact ⟨diffLines_node order _ _, remembers_viewsOf insts⟩

section Drain
variable {node : String} {h : Log}

theorem obeys_markNodeDraining : Abides (drainRights node) (markNodeDraining node) h := by
  refine obeys_cas casRetries ?_
  intro h' o _ hn
  unfold judgeDraining
  split
  · trivial
  · exact ⟨hn, fun _ _ => ⟨hn, rfl⟩⟩

theorem obeys_sendAll (R : Rights) (ls : List String) : Abides R (sendAll ls) h := by
  induction ls generalizing h with
  | nil => trivial
  | cons l ls ih =>
    refine obeys_quiet rfl ?_
    intro c w r _ _
    cases r
    · trivial
    · exact ih

theorem obeys_forceDelete (order : List String → List String) (insts : List Instance)
    (hl : Listed h .inst insts) (n : Narrator) (hnode : n.node = node) (hp : Remembers insts n.prev) :
    Obeys (drainRights node) (fun _ r => r.1.node = node) (forceDelete order n) h := by
  refine follows_post (fun _ _ hq => hq.2.1)
    (follows_foldlM _ (fun _ h' acc => Listed h' .inst insts ∧ acc.1.node = node ∧
      Remembers insts acc.1.prev) ?_ _ _ h ⟨hl, hnode, hp⟩)
  intro name names h' acc hi
  obtain ⟨hl', hnode', hp'⟩ := hi
  unfold forceDeleteOne
  split
  · exact ⟨hl', hnode', hp'⟩
  · rename_i v hv
    split
    · exact ⟨hl', hnode', hp'⟩
    · rename_i hcond
      obtain ⟨i, hi, rfl, rfl⟩ := hp' name v hv
      have hon : i.spec.node = node := by
        by_contra hne
        exact hcond (Or.inl fun he => hne (he.trans hnode'))
      have hdr : i.phase = .draining := by
        by_contra hne
        exact hcond (Or.inr hne)
      refine obeys_deleteIfRevision (fun w ha => within_remove (k := .inst) (hl'.seen i hi) ha
        ⟨hdr, hon, insts, hl'.last, hi⟩) ?_
      intro c w r _
      have hs : SameLists h' (klited.event c (.deleteIfRevision .inst i.metadata.name i.view.rev) w :: h') :=
        sameLists_event nofun
      have hl'' := listed_same hl' hs
      cases r with
      | error e => exact ⟨hl'', hnode', hp'⟩
      | ok _ => exact ⟨hl'', hnode', remembers_erase hp' _⟩

theorem obeys_drainRest (remaining : ℕ) (again : Code (Except Status Unit))
    (hagain : ∀ h', Abides (drainRights node) again h') :
    Abides (drainRights node) (drainRest node remaining again) h := by
  unfold drainRest
  split
  · refine obeys_quiet rfl ?_
    intro c w r _ _
    cases r <;> trivial
  · refine follows_bind obeys_markNodeDraining ?_
    intro h' r _ _
    cases r with
    | some e => trivial
    | none =>
      refine obeys_quiet rfl ?_
      intro c w r _ _
      cases r
      · trivial
      · exact hagain _

theorem obeys_drainLoop (force : Bool) (order : ℕ → List String → List String) (polls : ℕ)
    (n : Narrator) (hnode : n.node = node) : Abides (drainRights node)
      (drainLoop node force order polls n) h := by
  induction polls generalizing h n with
  | zero => trivial
  | succ polls ih =>
    refine obeys_list (fun _ _ _ _ _ => trivial) ?_
    intro c w _ hr
    obtain ⟨hn, hp⟩ := observe_spec (order polls) n (w.store.listing .inst)
    -- The forced deletes keep the narrator's node, which the next poll needs again.
    refine follows_bind (P := fun _ r => r.1.node = node) ?_ ?_
    · unfold forcePass
      split
      · exact obeys_forceDelete (order polls) _ (listed_event hr) _ (hn.trans hnode) hp
      · exact hn.trans hnode
    · intro h' forced _ hf
      refine follows_bind (obeys_sendAll _ _) ?_
      intro h'' r _ _
      cases r
      · trivial
      · exact obeys_drainRest _ _ fun h₃ => ih forced.1 hf

theorem obeys_drain (force : Bool) (order : ℕ → List String → List String) (polls : ℕ) :
    Abides (drainRights node) (drain node force order polls) h := by
  unfold drain
  split
  · trivial
  · refine follows_bind obeys_markNodeDraining ?_
    intro h' r _ _
    cases r with
    | some e => trivial
    | none =>
      refine obeys_quiet rfl ?_
      intro c w r _ _
      cases r
      · trivial
      · exact obeys_drainLoop force order polls _ rfl

end Drain

end Klite
