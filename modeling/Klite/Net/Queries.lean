import Mathlib.Algebra.Group.Int.Defs
import Mathlib.Data.List.Pairwise
import Klite.Lib.Ring

/-!
# The query log of klite-net (internal/netd/queries.go)

A ring of the answers the node's DNS served: who asked for which service, and when. A read
filters by a cursor and by age. Each entry is known below by its number, the count of the
records before it, since two records may agree in all they hold.
-/

namespace Klite.Netd
open Lib

-- Times are in nanoseconds.
def queryRetention : Int := 30 * 10 ^ 9

def queryCapacity : ℕ := 4096

instance : NeZero queryCapacity := ⟨by decide⟩

/-- `RecentQuery` has the same three fields. -/
structure QueryEntry where
  sourceIP : String
  service : String
  unixMS : Int
  deriving DecidableEq, Repr

abbrev QueryLog := Ring QueryEntry queryCapacity

/-- `Time.UnixMilli`. -/
def unixMilli (t : Int) : Int := t / 10 ^ 6

def newQueryLog : QueryLog := Ring.empty ⟨"", "", 0⟩

namespace QueryLog

def record (l : QueryLog) (sourceIP service : String) (now : Int) : QueryLog :=
  l.push ⟨sourceIP, service, unixMilli now⟩

def since (l : QueryLog) (sinceUnixMS now : Int) : List QueryEntry :=
  let floor := max sinceUnixMS (unixMilli (now - queryRetention))
  l.toList.filter fun e => floor ≤ e.unixMS

end QueryLog

theorem unixMilli_mono {t t' : Int} (h : t ≤ t') : unixMilli t ≤ unixMilli t' :=
  Int.ediv_le_ediv (by decide) h

theorem unixMilli_retained (now : Int) : unixMilli (now - queryRetention) = unixMilli now - 30000 := by
  unfold unixMilli queryRetention
  omega

/-! ### Calls on one log -/

inductive LogCall where
  | record (sourceIP service : String)
  | since (sinceUnixMS : Int)

abbrev TimedCall := LogCall × Int

def QueryLog.step (l : QueryLog) : TimedCall → QueryLog
  | (.record sourceIP service, now) => l.record sourceIP service now
  | (.since _, _) => l

def logAfter (calls : List TimedCall) : QueryLog := calls.foldl QueryLog.step newQueryLog

def entryOf : TimedCall → Option QueryEntry
  | (.record sourceIP service, now) => some ⟨sourceIP, service, unixMilli now⟩
  | (.since _, _) => none

/-- Everything recorded so far, the oldest first. -/
def recorded (calls : List TimedCall) : List QueryEntry := calls.filterMap entryOf

theorem foldl_step (calls : List TimedCall) (l : QueryLog) :
    calls.foldl QueryLog.step l = (recorded calls).foldl Ring.push l := by
  induction calls generalizing l with
  | nil => rfl
  | cons c calls ih =>
    obtain ⟨c, now⟩ := c
    cases c with
    | record sourceIP service => exact ih _
    | since t => exact ih l

theorem logAfter_toList (calls : List TimedCall) : (logAfter calls).toList = (recorded calls).rtake queryCapacity := by
  unfold logAfter
  rw [foldl_step, Ring.toList_foldl_push _ _ [] rfl, List.nil_append]

/-- A `since` call: what was called before it, its cursor and its clock. -/
structure Read where
  before : List TimedCall
  cursor : Int
  now : Int

namespace Read

def Of (q : Read) (calls : List TimedCall) : Prop :=
  ∃ after, calls = q.before ++ (.since q.cursor, q.now) :: after

def answer (q : Read) : List QueryEntry := (logAfter q.before).since q.cursor q.now

/-- The oldest time stamp the read lets through. -/
def floor (q : Read) : Int := max q.cursor (unixMilli q.now - 30000)

/-- The answer with the number of each entry. -/
def received (q : Read) : List (QueryEntry × ℕ) :=
  ((recorded q.before).zipIdx.rtake queryCapacity).filter fun x => q.floor ≤ x.1.unixMS

variable {q : Read} {calls : List TimedCall}

theorem answer_eq (q : Read) :
    q.answer = ((recorded q.before).rtake queryCapacity).filter fun e => q.floor ≤ e.unixMS := by
  unfold answer QueryLog.since floor
  rw [logAfter_toList, unixMilli_retained]

theorem received_answer (q : Read) : q.received.map (·.1) = q.answer := by
  have hmap : ((recorded q.before).zipIdx.rtake queryCapacity).map (·.1) = (recorded q.before).rtake queryCapacity := by
    unfold List.rtake
    rw [List.map_drop, List.zipIdx_map_fst, List.length_zipIdx]
  rw [answer_eq, ← hmap, List.filter_map]
  rfl

theorem mem_received {e : QueryEntry} {i : ℕ} : (e, i) ∈ q.received ↔
      (recorded q.before)[i]? = some e ∧ (recorded q.before).length ≤ i + queryCapacity ∧ q.floor ≤ e.unixMS := by
  unfold received List.rtake
  rw [List.mem_filter, decide_eq_true_iff, List.length_zipIdx, ← and_assoc]
  refine and_congr_left fun _ => ?_
  rw [List.mem_drop_iff_getElem]
  constructor
  · rintro ⟨j, hj, h⟩
    rw [List.getElem_zipIdx, Nat.zero_add] at h
    cases h
    exact ⟨List.getElem?_eq_getElem _, by omega⟩
  · rintro ⟨hi, hlen⟩
    obtain ⟨hlt, rfl⟩ := List.getElem?_eq_some_iff.mp hi
    have hsum : (recorded q.before).length - queryCapacity + (i - ((recorded q.before).length - queryCapacity)) = i := by omega
    refine ⟨i - ((recorded q.before).length - queryCapacity), ?_, ?_⟩
    · rw [List.length_zipIdx]
      omega
    · rw [List.getElem_zipIdx, Nat.zero_add]
      simp only [hsum]

theorem received_sorted (q : Read) : q.received.Pairwise fun x y => x.2 ≤ y.2 := by
  apply List.Pairwise.filter
  apply List.Pairwise.drop
  rw [List.pairwise_iff_getElem]
  intro i j hi hj hij
  rw [List.getElem_zipIdx, List.getElem_zipIdx]
  simp only
  omega

theorem received_le_last {x y : QueryEntry × ℕ} (hx : x ∈ q.received) (hy : q.received.getLast? = some y) : x.2 ≤ y.2 := by
  obtain ⟨init, h⟩ := List.getLast?_eq_some_iff.mp hy
  have hs := q.received_sorted
  rw [h] at hx hs
  rcases List.mem_append.mp hx with hx | hx
  · exact (List.pairwise_append.mp hs).2.2 x hx y (List.mem_singleton_self y)
  · exact le_of_eq (congrArg Prod.snd (List.mem_singleton.mp hx))

theorem Of.keeps {p : Read} (hp : p.Of calls) (hq : q.Of calls) (h : p.before.length ≤ q.before.length) {e : QueryEntry}
    {i : ℕ} (hi : (recorded p.before)[i]? = some e) : (recorded q.before)[i]? = some e := by
  obtain ⟨after, rfl⟩ := hp
  obtain ⟨after', h'⟩ := hq
  have hpre : p.before <+: q.before := by
    have hp : p.before <+: p.before ++ (.since p.cursor, p.now) :: after := List.prefix_append _ _
    rw [h'] at hp
    exact List.prefix_of_prefix_length_le hp (List.prefix_append _ _) h
  obtain ⟨rest, hrest⟩ := hpre
  obtain ⟨hlt, rfl⟩ := List.getElem?_eq_some_iff.mp hi
  unfold recorded at hlt ⊢
  rw [← hrest, List.filterMap_append, List.getElem?_append_left hlt]
  exact List.getElem?_eq_getElem hlt

end Read

theorem recorded_sorted {calls : List TimedCall} (h : calls.Pairwise fun c c' => c.2 ≤ c'.2) :
    (recorded calls).Pairwise fun e e' => e.unixMS ≤ e'.unixMS := by
  refine List.Pairwise.filterMap entryOf ?_ h
  rintro ⟨c, now⟩ ⟨c', now'⟩ hle e he e' he'
  cases c with
  | since t => cases he
  | record sourceIP service =>
    cases c' with
    | since t => cases he'
    | record sourceIP' service' =>
      cases he
      cases he'
      exact unixMilli_mono hle

theorem stamps_le {l : List QueryEntry} (h : l.Pairwise fun e e' => e.unixMS ≤ e'.unixMS) {i j : ℕ} {e e' : QueryEntry}
    (hi : l[i]? = some e) (hj : l[j]? = some e') (hij : i ≤ j) : e.unixMS ≤ e'.unixMS := by
  obtain ⟨hil, rfl⟩ := List.getElem?_eq_some_iff.mp hi
  obtain ⟨hjl, rfl⟩ := List.getElem?_eq_some_iff.mp hj
  by_cases hlt : i < j
  · exact List.pairwise_iff_getElem.mp h i j hil hjl hlt
  · obtain rfl : i = j := by omega
    exact Int.le_refl _

/-- The ring is a sliding window. Every read answers, in the order of recording, the entries among the last 4096 that are
neither older than 30 seconds nor before its cursor. A read `q` whose cursor is the time stamp of the last entry that an
earlier read `p` received gets all that was recorded after that entry, unless it is older than 30 seconds or 4096 newer
ones have overwritten it, and gets again only entries of that time stamp. -/
theorem query_ring_slides (calls : List TimedCall) (hclock : calls.Pairwise fun c c' => c.2 ≤ c'.2) :
    (∀ q : Read, q.Of calls → q.answer = ((recorded q.before).rtake (min (recorded q.before).length 4096)).filter
        (fun e => max q.cursor (unixMilli q.now - 30000) ≤ e.unixMS) ∧ q.received.map (·.1) = q.answer) ∧
    ∀ p q : Read, p.Of calls → q.Of calls → p.before.length < q.before.length →
      ∀ e k, p.received.getLast? = some (e, k) → q.cursor = e.unixMS →
        (∀ e' i, (recorded q.before)[i]? = some e' → k < i →
          (e', i) ∈ q.received ∨ e'.unixMS < unixMilli q.now - 30000 ∨ i + 4096 < (recorded q.before).length) ∧
        ∀ o : Read, o.Of calls → o.before.length ≤ p.before.length →
          ∀ x ∈ o.received, x ∈ q.received → x.1.unixMS = e.unixMS := by
  constructor
  · intro q _
    refine ⟨?_, q.received_answer⟩
    have hmin : (recorded q.before).length - min (recorded q.before).length 4096 =
        (recorded q.before).length - queryCapacity := by
      unfold queryCapacity
      omega
    rw [q.answer_eq]
    unfold List.rtake
    rw [hmin]
    rfl
  · intro p q hp hq hlt e k hlast hcursor
    have hsorted : ∀ r : Read, r.Of calls → (recorded r.before).Pairwise fun e e' => e.unixMS ≤ e'.unixMS := by
      rintro r ⟨after, rfl⟩
      exact recorded_sorted (List.pairwise_append.mp hclock).1
    obtain ⟨hk, hkc, hkf⟩ := Read.mem_received.mp (List.mem_of_getLast? hlast)
    have hkq := hp.keeps hq hlt.le hk
    constructor
    · intro e' i hi hki
      by_cases hold : e'.unixMS < unixMilli q.now - 30000
      · exact .inr (.inl hold)
      · by_cases hover : i + 4096 < (recorded q.before).length
        · exact .inr (.inr hover)
        · -- Recorded after `e`, so not before the cursor.
          have hge := stamps_le (hsorted q hq) hkq hi hki.le
          refine .inl (Read.mem_received.mpr ⟨hi, by unfold queryCapacity; omega, ?_⟩)
          unfold Read.floor
          omega
    · rintro o ho hop ⟨e', i⟩ hxo hxq
      obtain ⟨hi, -, -⟩ := Read.mem_received.mp hxo
      have hip := ho.keeps hp hop hi
      obtain ⟨-, -, hfloor⟩ := Read.mem_received.mp hxq
      have hge : e.unixMS ≤ e'.unixMS := by
        unfold Read.floor at hfloor
        omega
      -- What `p` received ends with `e`, so an entry after it would have been received there too.
      have hik : i ≤ k := by
        by_contra hki
        have hmem : (e', i) ∈ p.received :=
          Read.mem_received.mpr ⟨hip, by omega, Int.le_trans hkf hge⟩
        exact hki (Read.received_le_last hmem hlast)
      exact Int.le_antisymm (stamps_le (hsorted p hp) hip hk hik) hge

def twoReads : List TimedCall :=
  [(.record "10.44.128.5" "b", 10 ^ 9), (.since 0, 2 * 10 ^ 9), (.record "10.44.128.6" "c", 3 * 10 ^ 9),
    (.since 1000, 4 * 10 ^ 9)]

theorem query_ring_slides_two : twoReads.Pairwise (fun c c' => c.2 ≤ c'.2) ∧
    (logAfter (twoReads.take 3)).since 1000 (4 * 10 ^ 9) = [⟨"10.44.128.5", "b", 1000⟩, ⟨"10.44.128.6", "c", 3000⟩] ∧
    (⟨"10.44.128.6", "c", 3000⟩, 1) ∈ (⟨twoReads.take 3, 1000, 4 * 10 ^ 9⟩ : Read).received := by
  have hclock : twoReads.Pairwise (fun c c' => c.2 ≤ c'.2) := by
    unfold twoReads
    simp
  obtain ⟨hreads, hpolls⟩ := query_ring_slides twoReads hclock
  have hq : (⟨twoReads.take 3, 1000, 4 * 10 ^ 9⟩ : Read).Of twoReads := ⟨[], rfl⟩
  have hp : (⟨twoReads.take 1, 0, 2 * 10 ^ 9⟩ : Read).Of twoReads := ⟨twoReads.drop 2, rfl⟩
  refine ⟨hclock, (hreads _ hq).1.trans (by decide), ?_⟩
  rcases (hpolls _ _ hp hq (by decide) ⟨"10.44.128.5", "b", 1000⟩ 0 (by decide) rfl).1 _ 1 rfl (by decide) with h | h | h
  · exact h
  · exact absurd h (by decide)
  · exact absurd h (by decide)

end Klite.Netd
