import Klite.Net.Queries
import Klite.Net.Vip

/-!
# The DNS of klite-net (internal/netd/dns.go)

The zone is answered from the configuration, everything else by the upstream. Of the DNS library
it is assumed that a question's name ends in a dot and has a backslash before a dot inside a
label, that `CanonicalName` lower-cases ASCII letters (`canonicalName`), and that `ServeMux` hands
a message to the longest registered suffix at a label's end (`suffixes`, `inZone`).
-/

namespace Klite.Netd
open Lib

def zone : String := "svc.klite."

def recordTTL : ℕ := 5

def opcodeQuery : ℕ := 0
def classINET : ℕ := 1
def typeA : ℕ := 1
def typeSOA : ℕ := 6
def typeDS : ℕ := 43
def typeIXFR : ℕ := 251
def typeAXFR : ℕ := 252

/-- A message with its first question. -/
structure DnsQuery where
  opcode : ℕ := opcodeQuery
  name : String
  qtype : ℕ := typeA
  qclass : ℕ := classINET

inductive Rcode where
  | success
  | serverFailure
  | nameError
  | notImplemented
  | refused
  deriving DecidableEq

inductive RR where
  | a (name : String) (ttl : ℕ) (ip : Netip.Addr)
  | soa (name : String) (ttl : ℕ) (ns mbox : String) (serial refresh retry expire minttl : ℕ)
  deriving DecidableEq

structure DnsReply where
  rcode : Rcode := .success
  authoritative : Bool := false
  answer : List RR := []
  ns : List RR := []
  deriving DecidableEq

-- The library's.
def canonicalName (name : String) : String := String.ofList (name.toList.map Char.toLower)

def soaRR (name : String) (serial : ℕ) : RR :=
  .soa name recordTTL ("ns." ++ zone) ("hostmaster." ++ zone) serial 7200 1800 86400 recordTTL

def nodata (serial : ℕ) : DnsReply := { authoritative := true, ns := [soaRR zone serial] }

def cutSuffix (s p : String) : Option String := (s.toList.dropSuffix? p.toList).map String.ofList

def lookup (cfg : NetConfig) (name : String) : Option (String × Netip.Addr) :=
  match cutSuffix name ("." ++ zone) with
  | none => none
  | some label => if label = "" ∨ '.' ∈ label.toList then none else cfg.vips[label]?.map fun vip => (label, vip)

/-- With the label that goes into the query log. -/
def serveService (q : DnsQuery) (name : String) (cfg : NetConfig) : DnsReply × Option String :=
  match lookup cfg name with
  | none => ({ rcode := .nameError, authoritative := true, ns := [soaRR zone cfg.serial] }, none)
  | some (label, vip) =>
    if q.qtype = typeA then ({ authoritative := true, answer := [.a q.name recordTTL vip] }, some label)
    else (nodata cfg.serial, none)

def serveZone (q : DnsQuery) (cfg : NetConfig) : DnsReply × Option String :=
  if q.qclass ≠ classINET ∨ q.qtype = typeAXFR ∨ q.qtype = typeIXFR then ({ rcode := .refused }, none)
  else
    let name := canonicalName q.name
    if name = zone ∧ q.qtype = typeSOA then ({ authoritative := true, answer := [soaRR q.name cfg.serial] }, none)
    else if name = zone then (nodata cfg.serial, none)
    else serveService q name cfg

/-- What is left of a name after each of its labels, as the library's `NextLabel` cuts it. -/
def suffixes (escaped : Bool) : List Char → List (List Char)
  | [] | [_] => []
  | c :: cs =>
    let rest := suffixes (c = '\\' && !escaped) cs
    if c = '.' && !escaped then cs :: rest else rest

/-- The library's mux asks the parent zone for a DS, which is the root here. -/
def inZone (q : DnsQuery) : Bool :=
  let name := (canonicalName q.name).toList
  q.qtype ≠ typeDS && (name :: suffixes false name).contains zone.toList

abbrev Upstream := DnsQuery → Option DnsReply

def serveDNS (upstream : Upstream) (cfg : NetConfig) (q : DnsQuery) : DnsReply × Option String :=
  if q.opcode ≠ opcodeQuery then ({ rcode := .notImplemented }, none)
  else if inZone q then serveZone q cfg
  else ((upstream q).getD { rcode := .serverFailure }, none)

/-! ### Pushes and queries -/

inductive DnsEvent where
  | push (net : NetDesired)
  | query (q : DnsQuery) (src : String) (now : Int)

structure Kdns where
  daemon : Daemon := {}
  queries : QueryLog := newQueryLog

def Kdns.step (upstream : Upstream) (s : Kdns) : DnsEvent → Kdns
  | .push net => { s with daemon := (s.daemon.applyConfig net).2 }
  | .query q src now =>
    match (serveDNS upstream s.daemon.cfg q).2 with
    | some label => if src = "" then s else { s with queries := s.queries.record src label now }
    | none => s

/-! ### What a client sees -/

/-- By the whole name, in the list that was pushed. -/
def resolve (services : List ServiceVIP) (name : String) : Option (String × Netip.Addr) :=
  services.findSome? fun svc =>
    if name = toLower svc.service ++ ("." ++ zone) then (Netip.parseAddr svc.vip).map (toLower svc.service, ·) else none

/-- The services of the last push that was accepted, and who has asked for the address of one. -/
structure Directory where
  services : List ServiceVIP := []
  asked : List QueryEntry := []

def Directory.asks (t : Directory) (q : DnsQuery) (src : String) : Option String :=
  if q.opcode = opcodeQuery ∧ q.qclass = classINET ∧ q.qtype = typeA ∧ src ≠ "" then
    (resolve t.services (canonicalName q.name)).map (·.1)
  else none

def Directory.step (t : Directory) : DnsEvent → Directory
  | .push net =>
    match parseConfig net 0 with
    | .ok _ => { t with services := net.services }
    | .error _ => t
  | .query q src now =>
    match t.asks q src with
    | some label => { t with asked := t.asked ++ [⟨src, label, unixMilli now⟩] }
    | none => t

theorem serviceLabel_plain {n : String} (h : serviceLabel n) : n ≠ "" ∧ ∀ c ∈ n.toList, c ≠ '.' ∧ c ≠ '\\' := by
  have hchar : ∀ c, labelChar c ∨ c = '-' → c ≠ '.' ∧ c ≠ '\\' := by
    rintro c h
    constructor <;> rintro rfl <;> revert h <;> decide
  unfold serviceLabel at h
  split at h
  · cases h
  · rename_i c hn
    refine ⟨fun he => by simp [he] at hn, ?_⟩
    intro d hd
    rw [hn, List.mem_singleton] at hd
    exact hchar d (.inl (hd ▸ h))
  · rename_i c cs hcs hn
    refine ⟨fun he => by simp [he] at hn, ?_⟩
    simp only [Bool.and_eq_true, List.all_eq_true, Bool.or_eq_true, decide_eq_true_eq] at h
    obtain ⟨⟨⟨hfirst, hmid⟩, -⟩, hlast⟩ := h
    cases hz : cs.getLast? with
    | none => simp [hz] at hlast
    | some z =>
      rw [hz] at hlast
      intro d hd
      rw [hn, ← List.dropLast_append_getLast? z hz] at hd
      simp only [List.mem_cons, List.mem_append, List.not_mem_nil, or_false] at hd
      obtain rfl | hd | rfl := hd
      · exact hchar d (.inl hfirst)
      · exact hchar d (hmid d hd)
      · exact hchar d (.inl hlast)

theorem cutSuffix_iff {s p r : String} : cutSuffix s p = some r ↔ s = r ++ p := by
  unfold cutSuffix
  rw [Option.map_eq_some_iff]
  constructor
  · rintro ⟨l, hl, rfl⟩
    obtain ⟨p', hs, hp⟩ := List.dropSuffix?_eq_some_iff.mp hl
    obtain rfl := eq_of_beq hp
    exact String.toList_inj.mp (by simp [hs])
  · rintro rfl
    exact ⟨r.toList, List.dropSuffix?_eq_some_iff.mpr ⟨p.toList, by simp, beq_self_eq_true _⟩, by simp⟩

theorem zone_mem_suffixes {l : List Char} (h : ∀ c ∈ l, c ≠ '.' ∧ c ≠ '\\') :
    zone.toList ∈ suffixes false (l ++ '.' :: zone.toList) := by
  induction l with
  | nil => decide
  | cons c l ih =>
    obtain ⟨hc, hl⟩ := List.forall_mem_cons.mp h
    have hrest := ih hl
    cases hcs : l ++ '.' :: zone.toList with
    | nil => simp at hcs
    | cons d ds =>
      rw [hcs] at hrest
      rw [List.cons_append, hcs, suffixes]
      · simpa [hc] using hrest
      · simp

section Config
variable {net : NetDesired} {serial : ℕ} {cfg : NetConfig} {q : DnsQuery} {label : String} {vip : Netip.Addr}

theorem lookup_some {name : String} (h : lookup cfg name = some (label, vip)) :
    name = label ++ ("." ++ zone) ∧ cfg.vips[label]? = some vip := by
  unfold lookup at h
  split at h
  · cases h
  · rename_i l hcut
    split at h
    · cases h
    · obtain ⟨a, ha, he⟩ := Option.map_eq_some_iff.mp h
      cases he
      exact ⟨cutSuffix_iff.mp hcut, ha⟩

variable (h : parseConfig net serial = .ok cfg)
include h

theorem config_plain (hl : cfg.vips[label]? = some vip) : label ≠ "" ∧ ∀ c ∈ label.toList, c ≠ '.' ∧ c ≠ '\\' := by
  obtain ⟨svc, hsvc, rfl, -⟩ := ((parseConfig_keys h).2 label vip).mp hl
  obtain ⟨vip, hfine⟩ := (parseConfig_inv h).1 svc hsvc
  exact serviceLabel_plain hfine.label

theorem lookup_of_config (hv : cfg.vips[label]? = some vip) :
    lookup cfg (label ++ ("." ++ zone)) = some (label, vip) := by
  obtain ⟨hne, hplain⟩ := config_plain h hv
  have hdot : '.' ∉ label.toList := fun hm => (hplain _ hm).1 rfl
  simp [lookup, cutSuffix_iff.mpr rfl, hne, hdot, hv]

theorem lookup_resolve (name : String) : lookup cfg name = resolve net.services name := by
  have hone : ∀ {x}, resolve net.services name = some x → lookup cfg name = some x := by
    intro x hx
    obtain ⟨svc, hsvc, hf⟩ := List.exists_of_findSome?_eq_some hx
    split at hf
    · rename_i hname
      obtain ⟨vip, hvip, rfl⟩ := Option.map_eq_some_iff.mp hf
      rw [hname]
      exact lookup_of_config h (((parseConfig_keys h).2 _ _).mpr ⟨svc, hsvc, rfl, hvip⟩)
    · cases hf
  cases hres : resolve net.services name with
  | some x => exact hone hres
  | none =>
    rw [Option.eq_none_iff_forall_ne_some]
    rintro ⟨label, vip⟩ hl
    obtain ⟨hname, hv⟩ := lookup_some hl
    obtain ⟨svc, hsvc, rfl, hvip⟩ := ((parseConfig_keys h).2 _ _).mp hv
    have hnone := List.findSome?_eq_none_iff.mp hres svc hsvc
    simp [hname, hvip] at hnone

/-- The name of a service is below the zone, so the mux hands it to `serveZone`. -/
theorem inZone_service (hl : lookup cfg (canonicalName q.name) = some (label, vip)) (hds : q.qtype ≠ typeDS) :
    inZone q ∧ canonicalName q.name ≠ zone := by
  obtain ⟨hname, hv⟩ := lookup_some hl
  obtain ⟨hne, hplain⟩ := config_plain h hv
  constructor
  · simp [inZone, hds, hname, zone_mem_suffixes hplain]
  · intro he
    have hlen := congrArg String.length (hname.symm.trans he)
    have hdot : ".".length = 1 := rfl
    simp only [String.length_append] at hlen
    omega

variable (upstream : Upstream)

theorem serveDNS_service (hl : lookup cfg (canonicalName q.name) = some (label, vip)) (hop : q.opcode = opcodeQuery)
    (hclass : q.qclass = classINET) (htype : q.qtype ∉ [typeAXFR, typeIXFR, typeDS]) : serveDNS upstream cfg q =
      if q.qtype = typeA then ({ authoritative := true, answer := [.a q.name recordTTL vip] }, some label)
      else (nodata cfg.serial, none) := by
  simp only [List.mem_cons, List.not_mem_nil, or_false, not_or] at htype
  obtain ⟨hz, hne⟩ := inZone_service h hl htype.2.2
  simp [serveDNS, serveZone, serveService, hop, hz, hclass, htype, hne, hl]

theorem serveDNS_log :
    (serveDNS upstream cfg q).2 = if q.opcode = opcodeQuery ∧ q.qclass = classINET ∧ q.qtype = typeA then
      (lookup cfg (canonicalName q.name)).map (·.1) else none := by
  by_cases hq : (q.opcode = opcodeQuery ∧ q.qclass = classINET ∧ q.qtype = typeA) ∧ (lookup cfg (canonicalName q.name)).isSome
  · obtain ⟨⟨hop, hclass, hA⟩, hl⟩ := hq
    obtain ⟨⟨label, vip⟩, hl⟩ := Option.isSome_iff_exists.mp hl
    rw [serveDNS_service h upstream hl hop hclass (by rw [hA]; decide), hl]
    simp [hop, hclass, hA]
  · unfold serveDNS serveZone serveService
    dsimp only
    repeat' split
    all_goals simp_all

end Config

/-- The daemon answers from what was last accepted, and its log has what was asked. -/
structure Mirrors (s : Kdns) (t : Directory) : Prop where
  config : ∃ net serial, parseConfig net serial = .ok s.daemon.cfg ∧ net.services = t.services
  queries : s.queries = t.asked.foldl Ring.push newQueryLog

section Run
variable (upstream : Upstream) {s : Kdns} {t : Directory}

theorem mirrors_query (h : Mirrors s t) (q : DnsQuery) (src : String) (now : Int) :
    Mirrors (s.step upstream (.query q src now)) (t.step (.query q src now)) := by
  obtain ⟨net, serial, hp, hsvc⟩ := h.config
  have hlog := serveDNS_log hp upstream (q := q)
  rw [lookup_resolve hp, hsvc] at hlog
  have hasks : t.asks q src = if src = "" then none else (serveDNS upstream s.daemon.cfg q).2 := by
    rw [hlog]
    unfold Directory.asks
    split_ifs <;> simp_all
  unfold Kdns.step Directory.step
  dsimp only
  rw [hasks]
  cases (serveDNS upstream s.daemon.cfg q).2 with
  | none => simpa using h
  | some label =>
    dsimp only
    split
    · exact h
    · exact ⟨h.config, by simp [h.queries, List.foldl_append, QueryLog.record]⟩

theorem mirrors_push (h : Mirrors s t) (net : NetDesired) :
    Mirrors (s.step upstream (.push net)) (t.step (.push net)) := by
  cases hp : parseConfig net s.daemon.nextSerial with
  | ok cfg =>
    have h0 := parseConfig_serial hp 0
    simp only [Kdns.step, Directory.step, applyConfig_ok hp, h0]
    exact ⟨⟨net, _, hp, rfl⟩, h.queries⟩
  | error e =>
    cases h0 : parseConfig net 0 with
    | ok cfg =>
      rw [parseConfig_serial h0 _] at hp
      cases hp
    | error e' =>
      simp only [Kdns.step, Directory.step, Daemon.applyConfig, hp, h0]
      exact ⟨h.config, h.queries⟩

theorem mirrors_run (evs : List DnsEvent) : Mirrors (evs.foldl (Kdns.step upstream) {}) (evs.foldl Directory.step {}) := by
  induction evs using List.reverseRecOn with
  | nil => exact ⟨⟨{}, 0, parseConfig_no_services rfl 0, rfl⟩, rfl⟩
  | append_singleton evs ev ih =>
    rw [List.foldl_append, List.foldl_append]
    cases ev with
    | push net => exact mirrors_push upstream ih net
    | query q src now => exact mirrors_query upstream ih q src now

end Run

/-- In every run of pushes and queries the log holds the last of those who were told the address of a service. A name
of a pushed service, in any spelling, gets its address or no data, and another name of the zone does not exist. -/
theorem dns_directory (upstream : Upstream) (evs : List DnsEvent) :
    let s := evs.foldl (Kdns.step upstream) {}
    let t := evs.foldl Directory.step {}
    s.queries.toList = t.asked.rtake queryCapacity ∧
    ∀ q : DnsQuery, q.opcode = opcodeQuery → q.qclass = classINET → q.qtype ∉ [typeAXFR, typeIXFR, typeDS] →
      (∀ label vip, resolve t.services (canonicalName q.name) = some (label, vip) → (serveDNS upstream s.daemon.cfg q).1 =
        if q.qtype = typeA then { authoritative := true, answer := [.a q.name recordTTL vip] } else nodata s.daemon.cfg.serial) ∧
      (resolve t.services (canonicalName q.name) = none → inZone q → canonicalName q.name ≠ zone →
        (serveDNS upstream s.daemon.cfg q).1 =
          { rcode := .nameError, authoritative := true, ns := [soaRR zone s.daemon.cfg.serial] }) := by
  intro s t
  have h : Mirrors s t := mirrors_run upstream evs
  obtain ⟨net, serial, hp, hsvc⟩ := h.config
  refine ⟨?_, ?_⟩
  · rw [h.queries]
    exact Ring.toList_foldl_push t.asked newQueryLog [] rfl
  · intro q hop hclass htype
    rw [← hsvc, ← lookup_resolve hp]
    refine ⟨?_, ?_⟩
    · intro label vip hl
      rw [serveDNS_service hp upstream hl hop hclass htype]
      split <;> rfl
    · intro hl hz hne
      simp only [List.mem_cons, List.not_mem_nil, or_false, not_or] at htype
      simp [serveDNS, serveZone, serveService, hop, hz, hclass, htype, hne, hl]

/-! ### The addresses of the answers -/

def AllBound (s : Server) : Prop := ∀ (k : String) ip, s.cfg.vips[k]? = some ip → vipAddr ip ∈ s.iface

/-- In any sequence of pushes without faults of netlink, what a query of the zone is told is bound on the interface. -/
theorem answers_bound {order : List Netip.Addr → List Netip.Addr} (horder : ∀ l, (order l).Perm l) (iface : Interface)
    (nets : List NetDesired) (upstream : Upstream) (q : DnsQuery) (hz : inZone q) :
    let s := nets.foldl (fun s net => (s.applyConfig {} order net).2) ({ iface := iface } : Server)
    ∀ name ttl ip, .a name ttl ip ∈ (serveDNS upstream s.cfg q).1.answer → vipAddr ip ∈ s.iface := by
  intro s name ttl ip hans
  have hbound : AllBound s := by
    refine List.foldlRecOn nets _ (motive := AllBound) ?_ ?_
    · intro k ip hk
      simp [emptyConfig] at hk
    · intro s hs net _ k ip hk
      cases hp : parseConfig net ((s.serial + 1) % 2 ^ 32) with
      | error e =>
        simp only [Server.applyConfig, hp] at hk ⊢
        exact hs k ip hk
      | ok cfg =>
        simp only [Server.applyConfig, hp, Server.reconcileVIPs] at hk ⊢
        obtain ⟨svc, hsvc, -, hvip⟩ := ((parseConfig_keys hp).2 k ip).mp hk
        have hin := ((parseConfig_inv hp).2.2 ip).mpr ⟨svc, hsvc, hvip⟩
        have hpool : ∀ ip ∈ order cfg.vipList, vipPool.contains ip := fun ip hip => vipList_pool hp ((horder _).mem_iff.mp hip)
        rw [(bindVIPs_ok horder _ _ _ hpool).2, if_pos ⟨rfl, vipList_pool hp hin⟩]
        exact (horder _).mem_iff.mpr hin
  have hlookup : ∃ label, lookup s.cfg (canonicalName q.name) = some (label, ip) := by
    unfold serveDNS serveZone serveService at hans
    dsimp only at hans
    repeat' split at hans
    all_goals simp_all [nodata, soaRR]
  obtain ⟨label, hl⟩ := hlookup
  exact hbound label ip (lookup_some hl).2

theorem answers_bound_web :
    let web : NetDesired := { services := [{ service := "Web", vip := "10.44.64.8" }] }
    let s := (({} : Server).applyConfig {} id web).2
    inZone { name := "wEb.svc.klite." } ∧ vipAddr ⟨false, 170672136, ""⟩ ∈ s.iface := by
  intro web s
  have hz : inZone { name := "wEb.svc.klite." } := by decide +kernel
  have hans : .a "wEb.svc.klite." 5 ⟨false, 170672136, ""⟩ ∈ (serveDNS (fun _ => none) s.cfg { name := "wEb.svc.klite." }).1.answer := by
    decide +kernel
  exact ⟨hz, answers_bound (fun l => .refl (id l)) [] [web] (fun _ => none) _ hz _ _ _ hans⟩

end Klite.Netd
