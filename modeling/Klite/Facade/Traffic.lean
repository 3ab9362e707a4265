import Mathlib.Algebra.Ring.Int.Defs
import Klite.Lib.Table
import Klite.Net.Queries
import Klite.Object.Text
import Klite.Object.Types
import Mathlib.Algebra.BigOperators.Group.List.Basic

/-!
# The traffic feed of the facade (internal/facade/traffic.go)

Every poll reads the counters of each node's Envoy, turns what they moved since the last
poll into events, and gives single calls to the callers that the node's DNS has seen
lately. What List, the admin pages and klite-net answer is a parameter; the pages are taken
as decoded, and the subscribers, who may lose events, are left out.
-/

namespace Klite.Facade
open Lib Netd

inductive Verdict where
  | allowed
  | denied
  deriving DecidableEq

structure TrafficEvent where
  unixMs : Int
  node : String
  service : String
  address : String := ""
  port : Int := 0
  count : Int
  verdict : Verdict
  phase : String := ""
  caller : String := ""
  deriving DecidableEq

-- /clusters?format=json
structure HostStatus where
  address : String
  port : Int
  stats : List (String × String)

structure ClusterStatus where
  name : String
  hosts : List HostStatus

/-- A match of `rbacDeniedStat` in /stats?filter=rbac: the service, the phase and the digits. -/
structure RbacStat where
  service : String
  phase : String
  denied : String

-- node|cluster|address:port → rq_total
abbrev Counters := Std.ExtTreeMap String Int

def total (stats : List (String × String)) : Int :=
  stats.foldl (fun total st => if st.1 = "rq_total" then (parseInt st.2).getD total else total) (-1)

structure Sample where
  cluster : String
  address : String
  port : Int
  total : Int

-- Names with a slash are the ingress side.
def samples (clusters : List ClusterStatus) : List Sample :=
  clusters.flatMap fun c =>
    if c.name.toList.contains '/' then []
    else c.hosts.filterMap fun h =>
      let v := total h.stats
      if v < 0 then none else some ⟨c.name, h.address, h.port, v⟩

def clusterKey (node cluster address : String) (port : Int) : String :=
  node ++ "|" ++ cluster ++ "|" ++ address ++ ":" ++ toString port

def rbacKey (node service phase : String) : String := node ++ "|#rbac|" ++ service ++ "|" ++ phase

def Sample.key (node : String) (s : Sample) : String := clusterKey node s.cluster s.address s.port

section Poll
variable (prev : Counters) (now : Int) (node : String)

/-- The node's clusters were seen before. -/
def primed : Bool := prev.toList.any fun e => hasPrefix e.1 (node ++ "|") && !containsText e.1 "|#rbac|"

def primedRBAC : Bool := prev.toList.any fun e => hasPrefix e.1 (node ++ "|#rbac|")

def sampleEvent (s : Sample) : Option TrafficEvent :=
  let delta := s.total - prev.getD (s.key node) 0
  if primed prev node ∧ delta > 0 then
    some { unixMs := now, node := node, service := s.cluster, address := s.address, port := s.port, count := delta,
           verdict := .allowed }
  else none

def pollNode (clusters : Option (List ClusterStatus)) (seen : Counters) : Counters × List TrafficEvent :=
  match clusters with
  | none => (seen, [])
  | some cs =>
    (Table.fill seen ((samples cs).map fun s => (s.key node, s.total)), (samples cs).filterMap (sampleEvent prev now node))

def rbacTotals (stats : List RbacStat) : List (RbacStat × Int) :=
  stats.filterMap fun m => (parseInt m.denied).map fun v => (m, v)

def rbacEvent (m : RbacStat × Int) : Option TrafficEvent :=
  let delta := m.2 - prev.getD (rbacKey node m.1.service m.1.phase) 0
  if primedRBAC prev node ∧ delta > 0 then
    some { unixMs := now, node := node, service := m.1.service, count := delta, verdict := .denied, phase := m.1.phase }
  else none

def pollRBAC (stats : Option (List RbacStat)) (seen : Counters) : Counters × List TrafficEvent :=
  match stats with
  | none => (seen, [])
  | some ms =>
    (Table.fill seen ((rbacTotals ms).map fun m => (rbacKey node m.1.service m.1.phase, m.2)),
      (rbacTotals ms).filterMap (rbacEvent prev now node))

end Poll

abbrev Pools := Std.ExtTreeMap String (List String)

def bySvc (queries : List QueryEntry) : Pools :=
  queries.foldl (fun m q => m.insert q.service (m.getD q.service [] ++ [q.sourceIP])) ∅

def attributeOne (st : Pools × List TrafficEvent) (ev : TrafficEvent) : Pools × List TrafficEvent :=
  let pool := st.1.getD ev.service []
  let took := min pool.length ev.count.toNat
  let singles := (pool.take took).map fun ip => { ev with count := 1, caller := ip }
  let rest := ev.count - took
  (st.1.insert ev.service (pool.drop took), st.2 ++ singles ++ if rest > 0 then [{ ev with count := rest }] else [])

-- `attribute` in the source.
def attributeAll (queries : List QueryEntry) (events : List TrafficEvent) : List TrafficEvent :=
  if events = [] then events
  else if queries = [] then events
  else (events.foldl attributeOne (bySvc queries, [])).2

/-- What a poll is told. The queries are those of the klite-net of a node index, since a time. -/
structure Answers where
  now : Int
  list : Option (List Node)
  clusters : Int → Option (List ClusterStatus)
  rbac : Int → Option (List RbacStat)
  queries : Int → Int → List QueryEntry

section Feed
variable (prev : Counters) (a : Answers)

def pollOne (seen : Counters) (n : Node) : Counters × List TrafficEvent :=
  if n.getStatus.phase ≠ .ready ∨ n.index = 0 then (seen, [])
  else
    let fromNode := pollNode prev a.now n.metadata.name (a.clusters n.index) seen
    let fromRBAC := pollRBAC prev a.now n.metadata.name (a.rbac n.index) fromNode.1
    (fromRBAC.1, attributeAll (a.queries n.index (a.now - 5000)) (fromNode.2 ++ fromRBAC.2))

/-- The baseline a poll leaves and the events it sends. -/
def poll : Counters × List TrafficEvent :=
  match a.list with
  | none => (prev, [])
  | some nodes =>
    nodes.foldl (fun st n => ((pollOne prev a st.1 n).1, st.2 ++ (pollOne prev a st.1 n).2)) (∅, [])

end Feed

/-! ### What a poll does, node by node -/

variable {ev : TrafficEvent}

section Spec
variable (prev : Counters) (a : Answers)

def polled (n : Node) : Bool := n.getStatus.phase = .ready ∧ n.index ≠ 0

/-- What a node adds to the baseline. -/
def counted (n : Node) : List (String × Int) :=
  if polled n then
    (samples ((a.clusters n.index).getD [])).map (fun s => (s.key n.metadata.name, s.total)) ++
      (rbacTotals ((a.rbac n.index).getD [])).map fun m => (rbacKey n.metadata.name m.1.service m.1.phase, m.2)
  else []

/-- What moved on a node, before any of it is given to callers. -/
def moved (n : Node) : List TrafficEvent :=
  if polled n then
    (samples ((a.clusters n.index).getD [])).filterMap (sampleEvent prev a.now n.metadata.name) ++
      (rbacTotals ((a.rbac n.index).getD [])).filterMap (rbacEvent prev a.now n.metadata.name)
  else []

def nodeEvents (n : Node) : List TrafficEvent := attributeAll (a.queries n.index (a.now - 5000)) (moved prev a n)

theorem pollOne_eq (seen : Counters) (n : Node) :
    pollOne prev a seen n = (Table.fill seen (counted a n), nodeEvents prev a n) := by
  have hnode : ∀ seen, pollNode prev a.now n.metadata.name (a.clusters n.index) seen =
      (Table.fill seen ((samples ((a.clusters n.index).getD [])).map fun s => (s.key n.metadata.name, s.total)),
        (samples ((a.clusters n.index).getD [])).filterMap (sampleEvent prev a.now n.metadata.name)) := by
    intro seen
    unfold pollNode
    cases a.clusters n.index <;> rfl
  have hrbac : ∀ seen, pollRBAC prev a.now n.metadata.name (a.rbac n.index) seen =
      (Table.fill seen ((rbacTotals ((a.rbac n.index).getD [])).map fun m => (rbacKey n.metadata.name m.1.service m.1.phase, m.2)),
        (rbacTotals ((a.rbac n.index).getD [])).filterMap (rbacEvent prev a.now n.metadata.name)) := by
    intro seen
    unfold pollRBAC
    cases a.rbac n.index <;> rfl
  unfold pollOne nodeEvents counted moved polled
  by_cases h : n.getStatus.phase = .ready ∧ n.index ≠ 0
  · rw [if_neg (by tauto), if_pos (decide_eq_true h), if_pos (decide_eq_true h)]
    dsimp only
    rw [hnode, hrbac, ← Table.fill_append]
  · rw [if_pos (by tauto), if_neg (by simpa using h), if_neg (by simpa using h)]
    rfl

theorem poll_eq {nodes : List Node} (h : a.list = some nodes) :
    poll prev a = (Table.fill ∅ (nodes.flatMap (counted a)), nodes.flatMap (nodeEvents prev a)) := by
  have hfold : ∀ seen events, nodes.foldl (fun st n => ((pollOne prev a st.1 n).1, st.2 ++ (pollOne prev a st.1 n).2)) (seen, events) =
      (Table.fill seen (nodes.flatMap (counted a)), events ++ nodes.flatMap (nodeEvents prev a)) := by
    clear h
    induction nodes with
    | nil =>
      intro seen events
      simp [Table.fill]
    | cons n nodes ih =>
      intro seen events
      rw [List.foldl_cons, pollOne_eq, ih, List.flatMap_cons, List.flatMap_cons, Table.fill_append, List.append_assoc]
  unfold poll
  rw [h]
  dsimp only
  rw [hfold, List.nil_append]

theorem moved_event {n : Node} (h : ev ∈ moved prev a n) :
    ev.node = n.metadata.name ∧ 0 < ev.count ∧ ev.caller = "" := by
  unfold moved at h
  split at h
  · rcases List.mem_append.mp h with h | h
    · obtain ⟨s, -, hs⟩ := List.mem_filterMap.mp h
      unfold sampleEvent at hs
      dsimp only at hs
      split at hs
      · next hd =>
        cases hs
        exact ⟨rfl, hd.2, rfl⟩
      · cases hs
    · obtain ⟨m, -, hm⟩ := List.mem_filterMap.mp h
      unfold rbacEvent at hm
      dsimp only at hm
      split at hm
      · next hd =>
        cases hm
        exact ⟨rfl, hd.2, rfl⟩
      · cases hm
  · cases h

end Spec

/-! ### Giving calls to callers -/

section Attribute

theorem getD_insert (m : Pools) (k k' : String) (v : List String) :
    (m.insert k v).getD k' [] = if k = k' then v else m.getD k' [] := by
  rw [Std.ExtTreeMap.getD_eq_getD_getElem?, Std.ExtTreeMap.getD_eq_getD_getElem?, Table.get_insert]
  split <;> rfl

theorem bySvc_pool (queries : List QueryEntry) (svc : String) :
    (bySvc queries).getD svc [] = (queries.filter (·.service = svc)).map (·.sourceIP) := by
  have hfold : ∀ m : Pools, (queries.foldl (fun m q => m.insert q.service (m.getD q.service [] ++ [q.sourceIP])) m).getD svc [] =
      m.getD svc [] ++ (queries.filter (·.service = svc)).map (·.sourceIP) := by
    induction queries with
    | nil => simp
    | cons q queries ih =>
      intro m
      rw [List.foldl_cons, ih, getD_insert]
      by_cases h : q.service = svc
      · rw [if_pos h, List.filter_cons_of_pos (by simpa using h), h]
        simp
      · rw [if_neg h, List.filter_cons_of_neg (by simpa using h)]
  unfold bySvc
  rw [hfold]
  simp

/-- The calls that the events with the property count together. -/
def calls (P : TrafficEvent → Bool) (events : List TrafficEvent) : Int := ((events.filter P).map (·.count)).sum

theorem calls_append (P : TrafficEvent → Bool) (l l' : List TrafficEvent) : calls P (l ++ l') = calls P l + calls P l' := by
  unfold calls
  rw [List.filter_append, List.map_append, List.sum_append]

theorem calls_cons (P : TrafficEvent → Bool) (ev : TrafficEvent) (l : List TrafficEvent) :
    calls P (ev :: l) = (if P ev then ev.count else 0) + calls P l := by
  unfold calls
  by_cases h : P ev
  · rw [List.filter_cons_of_pos h, List.map_cons, List.sum_cons, if_pos h]
  · rw [List.filter_cons_of_neg h, if_neg h, zero_add]

-- A property that does not read what the attribution changes.
def Steady (P : TrafficEvent → Bool) : Prop := ∀ ev count caller, P { ev with count := count, caller := caller } = P ev

variable {P : TrafficEvent → Bool}

theorem calls_singles (hP : Steady P) (ev : TrafficEvent) (ips : List String) :
    calls P (ips.map fun ip => { ev with count := 1, caller := ip }) = if P ev then (ips.length : Int) else 0 := by
  induction ips with
  | nil => simp [calls]
  | cons ip ips ih =>
    rw [List.map_cons, calls_cons, hP, ih, List.length_cons]
    dsimp only
    split <;> omega

theorem calls_attributeOne (hP : Steady P) (st : Pools × List TrafficEvent) (hev : 0 < ev.count) :
    calls P (attributeOne st ev).2 = calls P st.2 + if P ev then ev.count else 0 := by
  unfold attributeOne
  dsimp only
  generalize st.1.getD ev.service [] = pool
  have hrest : calls P (if ev.count - (min pool.length ev.count.toNat : ℕ) > 0 then
      [{ ev with count := ev.count - (min pool.length ev.count.toNat : ℕ) }] else []) =
      if P ev then ev.count - (min pool.length ev.count.toNat : ℕ) else 0 := by
    split
    · next h =>
      rw [calls_cons]
      have hPev : P { ev with count := ev.count - (min pool.length ev.count.toNat : ℕ) } = P ev := hP ev _ ev.caller
      rw [hPev]
      simp [calls]
    · next h =>
      have h0 : ev.count - (min pool.length ev.count.toNat : ℕ) = 0 := by omega
      rw [h0]
      simp [calls]
  rw [calls_append, calls_append, calls_singles hP, hrest, List.length_take]
  split <;> omega

variable {events : List TrafficEvent}

theorem calls_attributeAll (hP : Steady P) (queries : List QueryEntry) (hpos : ∀ ev ∈ events, 0 < ev.count) :
    calls P (attributeAll queries events) = calls P events := by
  have hfold : ∀ st : Pools × List TrafficEvent, calls P (events.foldl attributeOne st).2 = calls P st.2 + calls P events := by
    induction events with
    | nil =>
      intro st
      simp [calls]
    | cons ev events ih =>
      intro st
      rw [List.foldl_cons, ih fun e he => hpos e (List.mem_cons_of_mem _ he), calls_attributeOne hP st (hpos ev List.mem_cons_self),
        calls_cons, add_assoc]
  unfold attributeAll
  split
  · rfl
  · split
    · rfl
    · rw [hfold]
      simp [calls]

/-- The event is a call given to this caller. -/
def CalledBy (svc ip : String) (ev : TrafficEvent) : Bool := ev.service = svc ∧ ev.caller = ip

theorem calledBy_singles (svc ip : String) (ev : TrafficEvent) (ips : List String) :
    (ips.map fun ip' => { ev with count := 1, caller := ip' }).countP (CalledBy svc ip) =
      if ev.service = svc then ips.count ip else 0 := by
  induction ips with
  | nil => simp
  | cons ip' ips ih =>
    rw [List.map_cons, List.countP_cons, ih, List.count_cons]
    unfold CalledBy
    by_cases hs : ev.service = svc
    · by_cases hi : ip' = ip <;> simp [hs, hi]
    · simp [hs]

theorem calledBy_attributeOne (svc ip : String) (st : Pools × List TrafficEvent) (hev : ev.caller ≠ ip) :
    (attributeOne st ev).2.countP (CalledBy svc ip) + ((attributeOne st ev).1.getD svc []).count ip =
      st.2.countP (CalledBy svc ip) + (st.1.getD svc []).count ip := by
  unfold attributeOne
  dsimp only
  generalize hpool : st.1.getD ev.service [] = pool
  generalize min pool.length ev.count.toNat = took
  have hrest : (if ev.count - (took : ℕ) > 0 then [{ ev with count := ev.count - (took : ℕ) }] else []).countP (CalledBy svc ip) = 0 := by
    split
    · simp [CalledBy, hev]
    · rfl
  rw [List.countP_append, List.countP_append, calledBy_singles, hrest, getD_insert]
  by_cases hs : ev.service = svc
  · rw [if_pos hs, if_pos hs, ← hs, hpool]
    have hsplit : (pool.take took).count ip + (pool.drop took).count ip = pool.count ip := by
      rw [← List.count_append, List.take_append_drop]
    omega
  · rw [if_neg hs, if_neg hs]
    omega

/-- A caller is given no more calls than it made queries, and none for a service that did not move. -/
theorem calledBy_attributeAll (svc : String) {ip : String} (queries : List QueryEntry)
    (hcaller : ∀ ev ∈ events, ev.caller ≠ ip) : (attributeAll queries events).countP (CalledBy svc ip) ≤
      if events.any (·.service = svc) then queries.countP fun q => q.service = svc ∧ q.sourceIP = ip else 0 := by
  have hnone : events.countP (CalledBy svc ip) = 0 := by
    rw [List.countP_eq_zero]
    intro ev hev
    simp [CalledBy, hcaller ev hev]
  have hfold : ∀ st : Pools × List TrafficEvent,
      (events.foldl attributeOne st).2.countP (CalledBy svc ip) + ((events.foldl attributeOne st).1.getD svc []).count ip =
        st.2.countP (CalledBy svc ip) + (st.1.getD svc []).count ip := by
    clear hnone
    induction events with
    | nil => exact fun st => rfl
    | cons ev events ih =>
      intro st
      rw [List.foldl_cons, ih fun e he => hcaller e (List.mem_cons_of_mem _ he),
        calledBy_attributeOne svc ip st (hcaller ev List.mem_cons_self)]
  have hidle : events.any (·.service = svc) = false → ∀ st : Pools × List TrafficEvent,
      (events.foldl attributeOne st).1.getD svc [] = st.1.getD svc [] := by
    clear hnone hfold hcaller
    induction events with
    | nil => exact fun _ st => rfl
    | cons ev events ih =>
      intro hany st
      rw [List.any_cons, Bool.or_eq_false_iff, decide_eq_false_iff_not] at hany
      rw [List.foldl_cons, ih hany.2]
      unfold attributeOne
      dsimp only
      rw [getD_insert, if_neg hany.1]
  unfold attributeAll
  split
  · omega
  · split
    · omega
    · have h := hfold (bySvc queries, [])
      have hpool : ((bySvc queries).getD svc []).count ip = queries.countP fun q => q.service = svc ∧ q.sourceIP = ip := by
        rw [bySvc_pool, List.count_eq_countP, List.countP_map, List.countP_filter]
        apply List.countP_congr
        intro q _
        simp [and_comm]
      dsimp only at h
      rw [List.countP_nil, Nat.zero_add] at h
      split
      · omega
      · next hany =>
        rw [hidle (by simpa using hany)] at h
        dsimp only at h
        omega

theorem mem_attributeAll {queries : List QueryEntry} (h : ev ∈ attributeAll queries events) :
    ∃ ev' ∈ events, ∃ count caller, ev = { ev' with count := count, caller := caller } := by
  have hfold : ∀ st : Pools × List TrafficEvent, ev ∈ (events.foldl attributeOne st).2 →
      ev ∈ st.2 ∨ ∃ ev' ∈ events, ∃ count caller, ev = { ev' with count := count, caller := caller } := by
    clear h
    induction events with
    | nil => exact fun st h => .inl h
    | cons e events ih =>
      intro st h
      rw [List.foldl_cons] at h
      rcases ih _ h with h | ⟨ev', hev', h⟩
      · unfold attributeOne at h
        dsimp only at h
        rw [List.mem_append, List.mem_append] at h
        rcases h with (h | h) | h
        · exact .inl h
        · obtain ⟨ip, -, rfl⟩ := List.mem_map.mp h
          exact .inr ⟨e, List.mem_cons_self, 1, ip, rfl⟩
        · split at h
          · exact .inr ⟨e, List.mem_cons_self, _, e.caller, List.mem_singleton.mp h⟩
          · cases h
      · exact .inr ⟨ev', List.mem_cons_of_mem _ hev', h⟩
  have hself : ev ∈ events → ∃ ev' ∈ events, ∃ count caller, ev = { ev' with count := count, caller := caller } :=
    fun hin => ⟨ev, hin, ev.count, ev.caller, rfl⟩
  unfold attributeAll at h
  split at h
  · exact hself h
  · split at h
    · exact hself h
    · exact (hfold _ h).resolve_left List.not_mem_nil

end Attribute

end Klite.Facade
