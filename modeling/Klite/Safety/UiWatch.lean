import Klite.Ui.Client

/-!
# The browser's snapshot is the cluster

While a bootstrap lists, what it has read must stay what is stored; once the server-side
watch is established, the snapshot with the events still under way is what is stored.
-/

namespace Klite.Ui
open Lib

section Produced
variable {gone : Int → Bool} {etcd : Etcd}

theorem produced_eq (hnames : ∀ ev ∈ etcd.log, ∃ k n, ev.Names k n) (st : Stream) :
    produced gone etcd st = ((etcd.log.filter fun ev => st.opened + 1 ≤ ev.revision).map
      (KvEvent.compacted gone)).filterMap (toEvent []) := by
  unfold produced Etcd.watch
  rw [← changes_from hnames]
  rfl

theorem produced_opened {v : Revisions} {evs : List KvEvent} (h : Extends (Etcd.empty v) evs etcd) {st : Stream}
    (hst : etcd.rev ≤ st.opened) : produced gone etcd st = [] := by
  have hlog : etcd.log = evs := h.log
  rw [produced_eq (by rw [hlog]; exact h.names)]
  have hnone : (etcd.log.filter fun ev => st.opened + 1 ≤ ev.revision) = [] := by
    rw [hlog, List.filter_eq_nil_iff]
    intro ev hev
    have := (h.after ev hev).2
    rw [decide_eq_true_eq]
    omega
  rw [hnone]
  rfl

theorem produced_extends (gone : Int → Bool) {etcd' : Etcd} {evs : List KvEvent} (hnames : ∀ ev ∈ etcd.log, ∃ k n, ev.Names k n)
    (h : Extends etcd evs etcd') {st : Stream} (hst : st.opened ≤ etcd.rev) : produced gone etcd' st =
      produced gone etcd st ++ (evs.map (KvEvent.compacted gone)).filterMap (toEvent []) := by
  have hnames' : ∀ ev ∈ etcd'.log, ∃ k n, ev.Names k n := by
    intro ev hev
    rw [h.log] at hev
    rcases List.mem_append.mp hev with hm | hm
    · exact hnames ev hm
    · exact h.names ev hm
  have hall : (evs.filter fun ev => st.opened + 1 ≤ ev.revision) = evs := by
    rw [List.filter_eq_self]
    intro ev hev
    have := (h.after ev hev).1
    rw [decide_eq_true_eq]
    omega
  rw [produced_eq hnames, produced_eq hnames', h.log, List.filter_append, hall, List.map_append,
    List.filterMap_append]

end Produced

/-! ### The replay -/

theorem replayKind_objects (lists : Kind → List Object) (st : Int × Snapshot) (k : Kind) :
    (replayKind lists st k).2.objects = Function.update st.2.objects k
      (Table.fill (st.2.objects k) ((lists k).map fun o => (o.name, o))) := by
  unfold replayKind
  induction lists k generalizing st with
  | nil => exact (Function.update_eq_self k st.2.objects).symm
  | cons o os ih =>
    rw [List.foldl_cons, ih]
    simp only [Snapshot.applyEvent, reduceCtorEq, if_false, Function.update_self, Function.update_idem]
    rfl

theorem replayKinds_objects (lists : Kind → List Object) (K : List Kind) (st : Int × Snapshot) (hK : K.Nodup)
    (k : Kind) : (K.foldl (replayKind lists) st).2.objects k =
      if k ∈ K then Table.fill (st.2.objects k) ((lists k).map fun o => (o.name, o)) else st.2.objects k := by
  induction K generalizing st with
  | nil => rfl
  | cons a K ih =>
    obtain ⟨ha, hK⟩ := List.nodup_cons.mp hK
    rw [List.foldl_cons, ih _ hK, replayKind_objects]
    by_cases hk : k = a
    · subst hk
      rw [if_neg ha, if_pos List.mem_cons_self, Function.update_self]
    · rw [Function.update_of_ne hk]
      simp only [List.mem_cons, hk, false_or]

theorem replay_objects (lists : Kind → List Object) {s : Snapshot} (hs : s.objects = fun _ => ∅) :
    (replay lists s).objects = ClientView.ofListings Kind.all lists := by
  funext k
  show (Kind.all.foldl (replayKind lists) (0, s)).2.objects k = _
  rw [replayKinds_objects _ _ _ (by decide), ClientView.ofListings, hs]

/-! ### The invariant -/

/-- The kinds whose list the client has read, with no watch to tell it of a change. -/
def Phase.Unwatched : Phase → Kind → Prop
  | .listing _ lists, k => (lists k).isSome
  | .streaming none, _ => True
  | _, _ => False

section Runs
variable (v : Revisions) (gone : Int → Bool)

/-- No object of a kind that has been read changes before the watch is established, and no list
fails after a broken stream. -/
def Gapless (s : Client) : Label → Prop
  | .call c => ∀ k, s.phase.Unwatched k → (s.etcd.call v.next c.uuid c.nowUnix c.req).2.objects k = s.etcd.objects k
  | .listFails => ∀ lists, s.phase ≠ .listing .reconnect lists
  | _ => True

def Tracks (etcd : Etcd) (view : ClientView) : Phase → Prop
  | .listing _ lists => (view = fun _ => ∅) ∧ ∀ k os, lists k = some os → os = etcd.objects k
  | .waiting (.bootstrap _) => view = fun _ => ∅
  | .waiting .connect => False
  | .streaming none => view = ClientView.ofListings Kind.all etcd.objects
  | .streaming (some st) =>
    st.opened ≤ etcd.rev ∧ st.delivered ≤ (produced gone etcd st).length ∧
      Shows Kind.all etcd.kvs (view.takeAll ((produced gone etcd st).drop st.delivered))
  | .gaveUp => True
  | .closed => True

structure Synced (s : Client) : Prop where
  own : s.etcd.OwnKeys
  committed : ∃ evs, Extends (Etcd.empty v) evs s.etcd
  tracks : Tracks gone s.etcd s.snapshot.objects s.phase

variable {v gone} {s : Client}

theorem committed_names (h : Synced v gone s) : ∀ ev ∈ s.etcd.log, ∃ k n, ev.Names k n := by
  obtain ⟨evs, hext⟩ := h.committed
  have hlog : s.etcd.log = evs := hext.log
  rw [hlog]
  exact hext.names

theorem tracks_call (h : Synced v gone s) {etcd' : Etcd} {evs : List KvEvent} (hext : Extends s.etcd evs etcd')
    (hsame : ∀ k, s.phase.Unwatched k → etcd'.objects k = s.etcd.objects k) :
    Tracks gone etcd' s.snapshot.objects s.phase := by
  have ht := h.tracks
  cases hp : s.phase with
  | listing b lists =>
    rw [hp] at ht hsame
    refine ⟨ht.1, fun k os hk => ?_⟩
    rw [ht.2 k os hk, hsame k (by show (lists k).isSome; rw [hk]; rfl)]
  | waiting t =>
    rw [hp] at ht
    cases t with
    | bootstrap b => exact ht
    | connect => exact ht
  | gaveUp => trivial
  | closed => trivial
  | streaming watch =>
    rw [hp] at ht hsame
    cases watch with
    | none =>
      have hobj : etcd'.objects = s.etcd.objects := funext fun k => hsame k trivial
      show _ = ClientView.ofListings Kind.all etcd'.objects
      rw [hobj]
      exact ht
    | some st =>
      obtain ⟨hopened, hdel, hshows⟩ := ht
      have hprod := produced_extends gone (committed_names h) hext hopened
      refine ⟨hopened.trans hext.le, ?_, ?_⟩
      · rw [hprod, List.length_append]
        omega
      · -- What is still under way comes before the events of these commits.
        rw [hprod, List.drop_append_of_le_length hdel, hext.kvs]
        unfold ClientView.takeAll at hshows ⊢
        rw [List.foldl_append]
        have hall : Shows (watchedKinds []) s.etcd.kvs _ := hshows
        exact shows_events hall hext.names gone

theorem synced_call (h : Synced v gone s) (c : Timed) (hg : Gapless v s (.call c)) :
    Synced v gone (s.next v gone (.call c)) := by
  have hstep : KvStep v.next s.etcd (s.etcd.call v.next c.uuid c.nowUnix c.req).2 := kvStep_of_call c.req
  obtain ⟨hown, evs, hext⟩ := kvStep_extends h.own hstep
  obtain ⟨evs', hcom⟩ := h.committed
  exact ⟨hown, ⟨_, extends_trans hcom hext⟩, tracks_call h hext hg⟩

theorem synced_of {s' : Client} (h : Synced v gone s) (he : s'.etcd = s.etcd)
    (ht : Tracks gone s.etcd s'.snapshot.objects s'.phase) : Synced v gone s' where
  own := he ▸ h.own
  committed := he ▸ h.committed
  tracks := he ▸ ht

section Steps
variable (h : Synced v gone s)
include h

theorem synced_list (k : Kind) : Synced v gone (s.next v gone (.list k)) := by
  have ht := h.tracks
  simp only [Client.next, list_objects]
  split
  · rename_i b lists hp
    rw [hp] at ht
    cases hk : lists k with
    | some os => exact h
    | none =>
      refine synced_of h rfl ⟨ht.1, fun k' os hk' => ?_⟩
      by_cases hkk : k' = k
      · subst hkk
        rw [Function.update_self] at hk'
        exact (Option.some.inj hk').symm
      · rw [Function.update_of_ne hkk] at hk'
        exact ht.2 k' os hk'
  · exact h

theorem synced_listFails (hg : Gapless v s .listFails) : Synced v gone (s.next v gone .listFails) := by
  have ht := h.tracks
  simp only [Client.next]
  split
  · rename_i b lists hp
    rw [hp] at ht
    refine synced_of h rfl ?_
    cases b with
    | first => exact ht.1
    | retry => trivial
    | reconnect => exact absurd hp (hg lists)
  · exact h

theorem synced_listed : Synced v gone (s.next v gone .listed) := by
  have ht := h.tracks
  simp only [Client.next]
  split
  · rename_i b lists hp
    rw [hp] at ht
    split
    · rename_i hall
      refine synced_of h rfl ?_
      show (replay _ _).objects = _
      rw [replay_objects _ ht.1]
      congr 1
      funext k
      have hk := List.all_eq_true.mp hall k (mem_all k)
      obtain ⟨os, hos⟩ := Option.isSome_iff_exists.mp hk
      rw [hos, Option.getD_some]
      exact ht.2 k os hos
    · exact h
  · exact h

theorem synced_timer : Synced v gone (s.next v gone .timer) := by
  have ht := h.tracks
  simp only [Client.next]
  split
  · rename_i b hp
    rw [hp] at ht
    exact synced_of h rfl ⟨ht, nofun⟩
  · rename_i hp
    rw [hp] at ht
    exact ht.elim
  · exact h

theorem synced_establish : Synced v gone (s.next v gone .establish) := by
  have ht := h.tracks
  simp only [Client.next]
  split
  · rename_i hp
    rw [hp] at ht
    obtain ⟨evs, hext⟩ := h.committed
    have hprod : produced gone s.etcd ⟨s.etcd.rev, 0⟩ = [] := produced_opened hext (le_refl _)
    have hview : s.snapshot.objects = ClientView.ofListings Kind.all s.etcd.objects := ht
    refine synced_of h rfl ⟨le_refl _, Nat.zero_le _, ?_⟩
    rw [hprod, hview]
    exact shows_listings h.own _ fun _ _ => rfl
  · exact h

theorem synced_deliver : Synced v gone (s.next v gone .deliver) := by
  have ht := h.tracks
  simp only [Client.next]
  split
  · rename_i st hp
    rw [hp] at ht
    obtain ⟨hopened, hdel, hshows⟩ := ht
    cases he : (produced gone s.etcd st)[st.delivered]? with
    | none => exact h
    | some e =>
      obtain ⟨hlt, hget⟩ := List.getElem?_eq_some_iff.mp he
      refine synced_of h rfl ⟨hopened, hlt, ?_⟩
      rw [List.drop_eq_getElem_cons hlt, hget] at hshows
      exact hshows
  · exact h

theorem synced_error : Synced v gone (s.next v gone .error) := by
  simp only [Client.next]
  split
  · exact synced_of h rfl rfl
  · exact h

end Steps

theorem synced_next (s : Client) (l : Label) (h : Synced v gone s) (hg : Gapless v s l) :
    Synced v gone (s.next v gone l) := by
  cases l with
  | call c => exact synced_call h c hg
  | list k => exact synced_list h k
  | listFails => exact synced_listFails h hg
  | listed => exact synced_listed h
  | timer => exact synced_timer h
  | establish => exact synced_establish h
  | deliver => exact synced_deliver h
  | error => exact synced_error h
  | unsubscribe => exact synced_of h rfl trivial

theorem synced_start : Synced v gone { etcd := Etcd.empty v } where
  own := ownKeys_empty v
  committed := ⟨[], extends_refl _⟩
  tracks := ⟨rfl, nofun⟩

end Runs

/-- In a run without a gap the snapshot is the cluster whenever the stream's watch is established
and has nothing under way. -/
theorem ui_converges (v : Revisions) (gone : Int → Bool) (ls : List Label)
    (h : Each (Client.next v gone) (Gapless v) { etcd := Etcd.empty v } ls) :
    let s := runs (Client.next v gone) { etcd := Etcd.empty v } ls
    ∀ st, s.phase = .streaming (some st) → st.delivered = (produced gone s.etcd st).length →
      ∀ k, (s.snapshot.objects k).toList.map (·.2) = s.etcd.objects k := by
  intro s st hphase hall k
  have hsync : Synced v gone s := runs_invariant synced_next synced_start h
  have ht := hsync.tracks
  rw [hphase] at ht
  obtain ⟨-, -, hshows⟩ := ht
  rw [hall, List.drop_length] at hshows
  exact objects_of_shows hsync.own hshows (mem_all k)

def lists : List Label := Kind.all.map .list

/-- A workload created after its list was read and before the watch is established is not in the
snapshot; neither is anything when the stream is opened after a failed list. -/
theorem ui_misses_objects :
    let missed := runs (Client.next plainRevisions fun _ => false) { etcd := Etcd.empty plainRevisions }
      (lists ++ [.listed, .call createWeb, .establish])
    let unlisted := runs (Client.next plainRevisions fun _ => false) { etcd := Etcd.empty plainRevisions }
      ([.call createWeb] ++ lists ++ [.listed, .establish, .error, .timer, .listFails, .timer, .establish])
    ∀ s ∈ [missed, unlisted], s.phase = .streaming (some ⟨2, 0⟩) ∧
      (produced (fun _ => false) s.etcd ⟨2, 0⟩).length = 0 ∧
      (s.etcd.objects .workload).length = 1 ∧ (s.snapshot.objects .workload).toList.length = 0 := by
  intro missed unlisted s hs
  simp only [List.mem_cons, List.not_mem_nil, or_false] at hs
  rcases hs with rfl | rfl
  · exact ⟨rfl, by decide +kernel, by decide +kernel, by decide +kernel⟩
  · exact ⟨rfl, by decide +kernel, by decide +kernel, by decide +kernel⟩

/-- The workload exists before the lists, and is deleted once the watch is there. -/
theorem ui_converges_deleted :
    let ls := [.call createWeb] ++ lists ++ [.listed, .establish, .call deleteWeb, .deliver]
    let s := runs (Client.next plainRevisions fun _ => false) { etcd := Etcd.empty plainRevisions } ls
    s.phase = .streaming (some ⟨2, 1⟩) ∧ ∀ k, (s.snapshot.objects k).toList.map (·.2) = s.etcd.objects k := by
  intro ls s
  have hph : s.phase = .streaming (some ⟨2, 1⟩) := by rfl
  refine ⟨hph, ui_converges plainRevisions (fun _ => false) ls ?_ ⟨2, 1⟩ hph (by decide +kernel)⟩
  refine ⟨?_, trivial, trivial, trivial, trivial, trivial, trivial, trivial, trivial, trivial, ?_, trivial, trivial⟩
  · nofun
  · nofun

end Klite.Ui
