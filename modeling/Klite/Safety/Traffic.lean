import Klite.Facade.Traffic
import Klite.Object.Validate

/-!
# The traffic feed over its polls

A key of the baseline tells the node, the service and the dial target, so the deltas of one
counter add up over the polls.
-/

namespace Klite.Facade
open Lib Netd

section Keys
variable {node service address : String} {port : Int}

theorem clusterKey_toList (node cluster address : String) (port : Int) : (clusterKey node cluster address port).toList =
    node.toList ++ '|' :: (cluster.toList ++ '|' :: (address.toList ++ ':' :: (toString port).toList)) := by
  unfold clusterKey
  simp only [String.toList_append, List.append_assoc]
  rfl

/-- The names of a key have no separator in them. -/
structure Plain (node service address : String) : Prop where
  node : '|' ∉ node.toList
  service : dnsLabel service
  address : '|' ∉ address.toList

theorem notMem_label {c : Char} (hc : labelEdge c = false) (hd : c ≠ '-') (h : dnsLabel service) : c ∉ service.toList := by
  intro hin
  rcases label_chars h hin with he | he
  · rw [hc] at he
    cases he
  · exact hd he

section Plain
variable (h : Plain node service address)
include h

theorem plain_count (port : Int) :
    (clusterKey node service address port).toList.count '|' = 2 := by
  have hservice : '|' ∉ service.toList := notMem_label (by decide) (by decide) h.service
  have hport : '|' ∉ (toString port).toList := notMem_int rfl (by decide) port
  rw [clusterKey_toList]
  simp only [List.count_append, List.count_cons_self, List.count_eq_zero.mpr h.node, List.count_eq_zero.mpr hservice,
    List.count_eq_zero.mpr h.address]
  rw [List.count_cons_of_ne (by decide), List.count_eq_zero.mpr hport]

theorem clusterKey_inj {node' cluster' address' : String} {port' : Int}
    (he : clusterKey node' cluster' address' port' = clusterKey node service address port) :
    node' = node ∧ cluster' = service ∧ address' = address ∧ port' = port := by
  have hservice : '|' ∉ service.toList := notMem_label (by decide) (by decide) h.service
  have hcount := plain_count h port
  rw [← he, clusterKey_toList] at hcount
  simp only [List.count_append, List.count_cons_self] at hcount
  have hnode' : '|' ∉ node'.toList := List.count_eq_zero.mp (by omega)
  have hcluster' : '|' ∉ cluster'.toList := List.count_eq_zero.mp (by omega)
  have hl := congrArg String.toList he
  rw [clusterKey_toList, clusterKey_toList] at hl
  obtain ⟨hn, hl⟩ := split_first hnode' h.node hl
  obtain ⟨hc, hl⟩ := split_first hcluster' hservice hl
  obtain ⟨ha, hp⟩ := split_last (notMem_int rfl (by decide) port') (notMem_int rfl (by decide) port) hl
  exact ⟨String.toList_inj.mp hn, String.toList_inj.mp hc, String.toList_inj.mp ha, toString_int_inj (String.toList_inj.mp hp)⟩

theorem rbacKey_ne (n s p : String) : rbacKey n s p ≠ clusterKey node service address port := by
  intro he
  have hcount := plain_count h port
  rw [← he] at hcount
  unfold rbacKey at hcount
  have hmid : "|#rbac|".toList.count '|' = 2 := by decide
  have hbar : "|".toList.count '|' = 1 := by decide
  simp only [String.toList_append, List.count_append, hmid, hbar] at hcount
  omega

theorem not_rbac : containsText (clusterKey node service address port) "|#rbac|" = false := by
  rw [← Bool.not_eq_true, containsText_iff]
  rintro ⟨a, b, he⟩
  have hcount := plain_count h port
  rw [← he] at hcount
  have hmid : "|#rbac|".toList.count '|' = 2 := by decide
  simp only [List.count_append, hmid] at hcount
  have ha : '|' ∉ a := List.count_eq_zero.mp (by omega)
  rw [clusterKey_toList] at he
  have hl : a ++ '|' :: ("#rbac".toList ++ '|' :: b) =
      node.toList ++ '|' :: (service.toList ++ '|' :: (address.toList ++ ':' :: (toString port).toList)) := by
    rw [← he]
    simp
  obtain ⟨-, hl⟩ := split_first ha h.node hl
  obtain ⟨hs, -⟩ := split_first (by decide) (notMem_label (by decide) (by decide) h.service) hl
  have hin : '#' ∈ service.toList := by
    rw [← hs]
    decide
  exact notMem_label (by decide) (by decide) h.service hin

theorem primed_of_key {prev : Counters} {v : Int} (hv : prev[clusterKey node service address port]? = some v) :
    primed prev node := by
  unfold primed
  rw [List.any_eq_true]
  refine ⟨(clusterKey node service address port, v), Table.mem_toList.mpr hv, ?_⟩
  rw [not_rbac h]
  simp [hasPrefix, clusterKey_toList]

end Plain

end Keys

section Counter
variable {name service address : String} {port : Int}

def hostsAt (cs : List ClusterStatus) (service address : String) (port : Int) : List HostStatus :=
  (cs.filter (·.name = service)).flatMap fun c => c.hosts.filter fun h => h.address = address ∧ h.port = port

/-- The node is polled, and its Envoy lists the dial target once, with this rq_total. -/
def Listed (name service address : String) (port : Int) (a : Answers) (v : ℕ) : Prop :=
  ∃ nodes n cs host, a.list = some nodes ∧ (nodes.map fun n => n.metadata.name).Nodup ∧ n ∈ nodes ∧ n.metadata.name = name ∧
    n.getStatus.phase = .ready ∧ n.index ≠ 0 ∧ a.clusters n.index = some cs ∧ hostsAt cs service address port = [host] ∧
    host.stats.filter (·.1 = "rq_total") = [("rq_total", toString v)] ∧ v < 2 ^ 63

theorem total_eq {stats : List (String × String)} {v : ℕ} (h : stats.filter (·.1 = "rq_total") = [("rq_total", toString v)])
    (hv : v < 2 ^ 63) : total stats = v := by
  have hfilter : total stats = total (stats.filter (·.1 = "rq_total")) := by
    unfold total
    rw [List.foldl_filter]
    congr 1
    funext t st
    by_cases hst : st.1 = "rq_total" <;> simp [hst]
  rw [hfilter, h]
  show (parseInt (toString v)).getD (-1) = v
  rw [parseInt_toString hv]
  rfl

def Sample.at (service address : String) (port : Int) (s : Sample) : Bool :=
  s.cluster = service ∧ s.address = address ∧ s.port = port

theorem samples_at (hslash : '/' ∉ service.toList) (cs : List ClusterStatus) :
    (samples cs).filter (Sample.at service address port) = (hostsAt cs service address port).filterMap fun h =>
      if total h.stats < 0 then none else some ⟨service, address, port, total h.stats⟩ := by
  induction cs with
  | nil => rfl
  | cons c cs ih =>
    have hsamples : samples (c :: cs) = samples [c] ++ samples cs := by
      unfold samples
      rw [List.flatMap_cons, List.flatMap_cons, List.flatMap_nil, List.append_nil]
    have hhosts : hostsAt (c :: cs) service address port = hostsAt [c] service address port ++ hostsAt cs service address port := by
      unfold hostsAt
      rw [← List.flatMap_append, ← List.filter_append, List.singleton_append]
    rw [hsamples, hhosts, List.filter_append, List.filterMap_append, ih]
    congr 1
    unfold samples hostsAt
    rw [List.flatMap_cons, List.flatMap_nil, List.append_nil]
    by_cases hc : c.name = service
    · have hno : c.name.toList.contains '/' = false := by
        rw [hc]
        simpa using hslash
      rw [hno, if_neg Bool.false_ne_true, List.filter_cons_of_pos (by simpa using hc), List.filter_nil, List.flatMap_cons,
        List.flatMap_nil, List.append_nil]
      rw [List.filter_filterMap, List.filterMap_filter]
      congr 1
      funext h
      by_cases ht : total h.stats < 0
      · simp [ht]
      · by_cases hm : h.address = address ∧ h.port = port
        · simp [ht, hm, hc, Sample.at]
        · have hat : Sample.at service address port ⟨c.name, h.address, h.port, total h.stats⟩ = false := by
            unfold Sample.at
            simpa [hc] using hm
          simp only [ht, hm, hat, if_false, Option.filter_some, decide_false, Bool.false_eq_true]
    · rw [List.filter_cons_of_neg (by simpa using hc), List.filter_nil, List.flatMap_nil, List.filterMap_nil, List.filter_eq_nil_iff]
      intro s hs
      split at hs
      · cases hs
      · obtain ⟨h, -, hh⟩ := List.mem_filterMap.mp hs
        dsimp only at hh
        split at hh
        · cases hh
        · cases hh
          simp [Sample.at, hc]

/-- The events of the counter of one dial target. -/
def OfKey (name service address : String) (port : Int) (ev : TrafficEvent) : Bool :=
  ev.node = name ∧ ev.service = service ∧ ev.address = address ∧ ev.port = port ∧ ev.verdict = .allowed

theorem ofKey_steady : Steady (OfKey name service address port) := fun _ _ _ => rfl

theorem calls_none {P : TrafficEvent → Bool} {events : List TrafficEvent} (h : ∀ ev ∈ events, P ev = false) : calls P events = 0 := by
  unfold calls
  rw [List.filter_eq_nil_iff.mpr fun ev hev => by simp [h ev hev]]
  rfl

theorem calls_samples (prev : Counters) (now : Int) (l : List Sample) :
    calls (OfKey name service address port) (l.filterMap (sampleEvent prev now name)) =
      calls (OfKey name service address port) ((l.filter (Sample.at service address port)).filterMap (sampleEvent prev now name)) := by
  induction l with
  | nil => rfl
  | cons s l ih =>
    have hkey : ∀ ev, sampleEvent prev now name s = some ev →
        OfKey name service address port ev = Sample.at service address port s := by
      intro ev hev
      unfold sampleEvent at hev
      dsimp only at hev
      split at hev
      · cases hev
        simp [OfKey, Sample.at]
      · cases hev
    by_cases hs : Sample.at service address port s
    · rw [List.filter_cons_of_pos hs, List.filterMap_cons, List.filterMap_cons]
      split
      · exact ih
      · rw [calls_cons, calls_cons, ih]
    · rw [List.filter_cons_of_neg hs, List.filterMap_cons]
      split
      · exact ih
      · next ev hev =>
        rw [calls_cons, hkey ev hev, if_neg hs, zero_add, ih]

section Poll
variable {prev : Counters} {a : Answers} {v : ℕ}

theorem listed_samples (hplain : Plain name service address) {cs : List ClusterStatus} {host : HostStatus}
    (hhost : hostsAt cs service address port = [host]) (hstats : host.stats.filter (·.1 = "rq_total") = [("rq_total", toString v)])
    (hv : v < 2 ^ 63) : (samples cs).filter (Sample.at service address port) = [⟨service, address, port, v⟩] := by
  have hslash : '/' ∉ service.toList := notMem_label (by decide) (by decide) hplain.service
  rw [samples_at hslash, hhost, List.filterMap_cons, total_eq hstats hv, if_neg (by omega)]
  rfl

theorem listed_counted (hplain : Plain name service address) (h : Listed name service address port a v) :
    (poll prev a).1[clusterKey name service address port]? = some (v : Int) := by
  obtain ⟨nodes, n, cs, host, hlist, hnames, hn, rfl, hready, hindex, hcs, hhost, hstats, hv⟩ := h
  have hsamples := listed_samples hplain hhost hstats hv
  have hpolled : polled n := by simp [polled, hready, hindex]
  rw [poll_eq prev a hlist]
  refine Table.get_fill_mem (List.mem_flatMap.mpr ⟨n, hn, ?_⟩) ?_
  · have hmem : (⟨service, address, port, v⟩ : Sample) ∈ samples cs :=
      (List.mem_filter.mp (hsamples ▸ List.mem_singleton_self _)).1
    unfold counted
    rw [if_pos hpolled, hcs]
    exact List.mem_append_left _ (List.mem_map.mpr ⟨_, hmem, rfl⟩)
  · -- No other entry has the key.
    intro v' hv'
    obtain ⟨n', hn', hin⟩ := List.mem_flatMap.mp hv'
    unfold counted at hin
    split at hin
    · rcases List.mem_append.mp hin with hin | hin
      · obtain ⟨s, hs, he⟩ := List.mem_map.mp hin
        obtain ⟨hkey, rfl⟩ := Prod.mk.inj he
        obtain ⟨hname, hc, ha, hp⟩ := clusterKey_inj hplain hkey
        obtain rfl := List.inj_on_of_nodup_map hnames hn' hn hname
        rw [hcs] at hs
        have hfilter : s ∈ (samples cs).filter (Sample.at service address port) :=
          List.mem_filter.mpr ⟨hs, by simp [Sample.at, hc, ha, hp]⟩
        rw [hsamples] at hfilter
        rw [List.mem_singleton.mp hfilter]
      · obtain ⟨m, -, he⟩ := List.mem_map.mp hin
        exact absurd (Prod.mk.inj he).1 (rbacKey_ne hplain _ _ _)
    · cases hin

theorem listed_calls (hplain : Plain name service address) (h : Listed name service address port a v) {u : ℕ}
    (hprev : prev[clusterKey name service address port]? = some (u : Int)) (huv : u ≤ v) :
    calls (OfKey name service address port) (poll prev a).2 = (v : Int) - u := by
  obtain ⟨nodes, n, cs, host, hlist, hnames, hn, rfl, hready, hindex, hcs, hhost, hstats, hv⟩ := h
  have hpolled : polled n := by simp [polled, hready, hindex]
  have hprimed := primed_of_key hplain hprev
  have hmoved : ∀ m, calls (OfKey n.metadata.name service address port) (nodeEvents prev a m) =
      calls (OfKey n.metadata.name service address port) (moved prev a m) :=
    fun m => calls_attributeAll ofKey_steady _ fun ev hev => (moved_event prev a hev).2.1
  -- The other nodes have other names.
  have hother : ∀ l : List Node, (∀ m ∈ l, m.metadata.name ≠ n.metadata.name) →
      calls (OfKey n.metadata.name service address port) (l.flatMap (nodeEvents prev a)) = 0 := by
    intro l hl
    induction l with
    | nil => rfl
    | cons m l ih =>
      rw [List.flatMap_cons, calls_append, ih fun m' hm' => hl m' (List.mem_cons_of_mem _ hm'), hmoved, add_zero]
      refine calls_none fun ev hev => ?_
      have hnode := (moved_event prev a hev).1
      simp [OfKey, hnode, hl m List.mem_cons_self]
  have hself : calls (OfKey n.metadata.name service address port) (nodeEvents prev a n) = (v : Int) - u := by
    rw [hmoved]
    unfold moved
    rw [if_pos hpolled, calls_append, hcs, calls_samples, Option.getD_some, listed_samples hplain hhost hstats hv]
    have hrbac : calls (OfKey n.metadata.name service address port)
        ((rbacTotals ((a.rbac n.index).getD [])).filterMap (rbacEvent prev a.now n.metadata.name)) = 0 := by
      refine calls_none fun ev hev => ?_
      obtain ⟨m, -, hm⟩ := List.mem_filterMap.mp hev
      unfold rbacEvent at hm
      dsimp only at hm
      split at hm
      · cases hm
        simp [OfKey]
      · cases hm
    have hdelta : prev.getD (Sample.key n.metadata.name ⟨service, address, port, v⟩) 0 = (u : Int) := by
      rw [Std.ExtTreeMap.getD_eq_getD_getElem?]
      show (prev[clusterKey n.metadata.name service address port]?).getD 0 = _
      rw [hprev]
      rfl
    rw [hrbac, List.filterMap_cons, List.filterMap_nil]
    unfold sampleEvent
    dsimp only
    rw [hdelta]
    by_cases hlt : (v : Int) - u > 0
    · rw [if_pos ⟨hprimed, hlt⟩]
      simp [calls, OfKey]
    · rw [if_neg fun hc => hlt hc.2]
      simp only [calls, List.filter_nil, List.map_nil, List.sum_nil]
      omega
  obtain ⟨before, after, rfl⟩ := List.append_of_mem hn
  rw [List.map_append, List.map_cons, List.nodup_append, List.nodup_cons] at hnames
  rw [poll_eq prev a hlist]
  dsimp only
  rw [List.flatMap_append, List.flatMap_cons, calls_append, calls_append, hself, hother before, hother after]
  · omega
  · intro m hm he
    exact hnames.2.1.1 (he ▸ List.mem_map_of_mem hm)
  · intro m hm he
    exact hnames.2.2 _ (List.mem_map_of_mem hm) _ List.mem_cons_self he

end Poll

/-- The events of a sequence of polls. -/
def feedEvents : Counters → List Answers → List TrafficEvent
  | _, [] => []
  | prev, a :: as => (poll prev a).2 ++ feedEvents (poll prev a).1 as

theorem feed_telescopes (hplain : Plain name service address) (rest : List (Answers × ℕ)) {prev : Counters} {u : ℕ}
    (hprev : prev[clusterKey name service address port]? = some (u : Int))
    (hlisted : ∀ p ∈ rest, Listed name service address port p.1 p.2) (hmono : (u :: rest.map (·.2)).Pairwise (· ≤ ·)) :
    calls (OfKey name service address port) (feedEvents prev (rest.map (·.1))) =
      (((u :: rest.map (·.2)).getLast (List.cons_ne_nil _ _) : ℕ) : Int) - u := by
  induction rest generalizing prev u with
  | nil => simp [feedEvents, calls]
  | cons p rest ih =>
    have hp := hlisted p List.mem_cons_self
    have hup : u ≤ p.2 := (List.pairwise_cons.mp hmono).1 _ (by simp)
    have hcounted : (poll prev p.1).1[clusterKey name service address port]? = some (p.2 : Int) := listed_counted hplain hp
    have hrest := ih hcounted (fun p' hp' => hlisted p' (List.mem_cons_of_mem _ hp')) (List.pairwise_cons.mp hmono).2
    rw [List.map_cons, feedEvents, calls_append, listed_calls hplain hp hprev hup, hrest]
    simp only [List.map_cons]
    rw [List.getLast_cons (List.cons_ne_nil _ _)]
    omega

/-- The feed neither loses nor invents calls: over the polls after the first, the events of a dial target count exactly what its
rq_total moved, whatever queries the attribution saw. -/
theorem traffic_sums (name service address : String) (port : Int) (hplain : Plain name service address) (prev : Counters)
    (first : Answers × ℕ) (rest : List (Answers × ℕ)) (hlisted : ∀ p ∈ first :: rest, Listed name service address port p.1 p.2)
    (hmono : ((first :: rest).map (·.2)).Pairwise (· ≤ ·)) :
    calls (OfKey name service address port) (feedEvents (poll prev first.1).1 (rest.map (·.1))) =
      ((((first :: rest).map (·.2)).getLast (List.cons_ne_nil _ _) : ℕ) : Int) - first.2 :=
  feed_telescopes hplain rest (listed_counted hplain (hlisted first List.mem_cons_self))
    (fun p hp => hlisted p (List.mem_cons_of_mem _ hp)) hmono

def readyNode : Node := { metadata := { name := "a" }, status := some { phase := .ready, nodeIndex := 1 } }

def webAnswers (now : Int) (v : ℕ) (queries : List QueryEntry) : Answers where
  now := now
  list := some [readyNode]
  clusters := fun _ => some [⟨"web", [⟨"10.44.128.5", 8080, [("rq_total", toString v)]⟩]⟩]
  rbac := fun _ => none
  queries := fun _ _ => queries

theorem webAnswers_listed (now : Int) {v : ℕ} (queries : List QueryEntry) (hv : v < 2 ^ 63) :
    Listed "a" "web" "10.44.128.5" 8080 (webAnswers now v queries) v :=
  ⟨[readyNode], readyNode, _, _, rfl, by decide, by decide, rfl, rfl, by decide, rfl, rfl, rfl, hv⟩

theorem traffic_sums_web : calls (OfKey "a" "web" "10.44.128.5" 8080)
    (feedEvents (poll ∅ (webAnswers 1000 3 [])).1 [webAnswers 2000 5 [⟨"10.44.128.9", "web", 1500⟩]]) = 2 := by
  have hplain : Plain "a" "web" "10.44.128.5" := ⟨by decide, by decide, by decide⟩
  refine traffic_sums "a" "web" "10.44.128.5" 8080 hplain ∅ (webAnswers 1000 3 [], 3)
    [(webAnswers 2000 5 [⟨"10.44.128.9", "web", 1500⟩], 5)] ?_ (by decide)
  rintro p (_ | ⟨_, _ | ⟨_, h⟩⟩)
  · exact webAnswers_listed _ _ (by decide)
  · exact webAnswers_listed _ _ (by decide)
  · cases h

end Counter

end Klite.Facade
