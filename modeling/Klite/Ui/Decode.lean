import Klite.Object.Messages

/-!
# The two wire dialects (frontend/app/api/decode.ts)

Lists come as the codec renders an object, watch events as protojson renders its envelope.
`decodeObject` brings both to the app's own form. A `??` passes over null as over a missing
key; neither dialect writes one. What the source casts to a record is read as a record, and
as an empty one where it is no object, which neither dialect sends either.
-/

namespace Klite.Ui
open Lib

/-! ### Values -/

def truthy : Json → Bool
  | .null => false
  | .bool b => b
  | .num q => q ≠ 0
  | .str s => s ≠ ""
  | _ => true

/-- `typeof value === 'object'`, for a value that is not null. -/
def isObject : Json → Bool
  | .arr _ => true
  | .obj _ => true
  | _ => false

def asRecord : Json → Mapping
  | .obj fields => Table.fill ∅ fields
  | _ => ∅

def given (m : Mapping) (key : String) : Option Json :=
  match m[key]? with
  | some .null => none
  | v => v

/-- `m.key ??= v` -/
def setDefault (m : Mapping) (key : String) (v : Json) : Mapping :=
  if (given m key).isSome then m else m.insert key v

/-- `if (m.key !== undefined) m.key = f(m.key)` -/
def amend (m : Mapping) (key : String) (f : Json → Json) : Mapping :=
  match m[key]? with
  | some v => m.insert key (f v)
  | none => m

/-- The double next to an integer, an even one where two are. -/
def toDouble (n : Int) : Int :=
  let e := n.natAbs.log2 - 52
  let q := n.natAbs / 2 ^ e
  let r := n.natAbs % 2 ^ e
  let v := (if 2 ^ e < 2 * r ∨ (2 ^ e = 2 * r ∧ q % 2 = 1) then q + 1 else q) * 2 ^ e
  if n < 0 then -(v : Int) else v

/- `Number`. Of the texts only an int64's is one here; what is no number becomes NaN, which JSON
writes as null. -/
def number : Json → Json
  | .num q => .num q
  | .bool b => .num (if b then 1 else 0)
  | .null => .num 0
  | .str s =>
    match parseInt s with
    | some n => .num (toDouble n)
    | none => .null
  | _ => .null

/-! ### The app's form -/

structure ObjectMeta where
  name : String
  labels : Option Json
  uid : Option Json
  resourceVersion : Option Json
  createdUnix : Option Json

structure KliteObject where
  apiVersion : String
  kind : Kind
  metadata : ObjectMeta
  spec : Mapping
  status : Option Mapping

def toMeta (raw : Mapping) : ObjectMeta where
  name := stringAt raw "name"
  labels := raw["labels"]?
  uid := raw["uid"]?
  resourceVersion := raw["resourceVersion"]?.map number
  createdUnix := raw["createdUnix"]?.map number

-- `w[0] + w.slice(1).toLowerCase()`; an empty word has no first letter.
def displayWord : List Char → List Char
  | [] => "undefined".toList
  | c :: cs => c :: cs.map Char.toLower

def displayName (value : String) : String :=
  if value = "" ∨ !value.toList.all fun c => c.isUpper || c.isDigit || c = '_' then value
  else
    let words := value.toList.splitOn '_'
    let rest := match words.findIdx? fun w => w = "PHASE".toList ∨ w = "ACTION".toList with
      | some marker => words.drop (marker + 1)
      | none => words
    if rest.isEmpty ∨ rest.head? = some "UNSPECIFIED".toList then "Unknown"
    else String.ofList (rest.flatMap displayWord)

def displayEnum : Json → Json
  | .str s => .str (displayName s)
  | v => v

def shortName (s : String) : String :=
  let action := (cutPrefix s "POLICY_ACTION_").getD s
  if action = "UNSPECIFIED" then "UNKNOWN" else action

def shortAction : Json → Json
  | .str s => .str (shortName s)
  | v => v

/-- The part of `fillDefaults` that is about the spec. -/
def fillSpec (kind : Kind) (spec : Mapping) : Mapping :=
  match kind with
  | .workload =>
    let spec := setDefault spec "replicas" (.num 0)
    let spec := setDefault spec "template" (.obj [])
    let template := asRecord (spec["template"]?.getD .null)
    let template := setDefault template "labels" (.obj [])
    let template := setDefault template "containers" (.arr [])
    spec.insert "template" (.obj template.toList)
  | .service => setDefault spec "selector" (.obj [])
  | .networkPolicy => setDefault spec "rules" (.arr [])
  | _ => spec

/-- The part of `fillDefaults` that is about the status. -/
def fillStatus (kind : Kind) (status : Mapping) : Mapping :=
  match kind with
  | .inst => setDefault status "restarts" (.num 0)
  | .node =>
    let status := setDefault status "instanceCount" (.num 0)
    let status := setDefault status "unschedulable" (.bool false)
    let status := amend status "lastHeartbeatUnix" number
    amend status "nodeIndex" number
  | _ => status

/-- ONEOF_KIND, in the order of its entries. -/
def oneofKind : List (String × Kind) :=
  [("workload", .workload), ("service", .service), ("node", .node), ("networkPolicy", .networkPolicy),
    ("instance", .inst), ("vipAllocation", .vipAllocation), ("ingressAllocation", .ingressAllocation)]

/-- The object in the envelope's oneof. -/
def unwrap (body : Mapping) : Option (Kind × Mapping) :=
  oneofKind.findSome? fun e =>
    match body[e.1]? with
    | some v => if truthy v ∧ isObject v then some (e.2, asRecord v) else none
    | none => none

-- The kind a payload names, or the one its oneof field stands for.
def kindAndBody (body : Mapping) : Option (Kind × Mapping) :=
  match body["kind"]? with
  | some kind =>
    if truthy kind then
      match kind with
      | .str s => (Kind.all.find? fun k => k.name = s).map fun k => (k, body)
      | _ => none
    else unwrap body
  | none => unwrap body

def decodeBody (kind : Kind) (body : Mapping) : KliteObject :=
  let metaRaw := asRecord ((given body "metadata").getD ((given body "meta").getD (.obj [])))
  let spec := fillSpec kind (asRecord ((given body "spec").getD (.obj [])))
  let status := (given body "status").map fun s => fillStatus kind (asRecord s)
  { apiVersion := apiVersion
    kind := kind
    metadata := toMeta metaRaw
    spec := if kind = .networkPolicy then amend spec "action" shortAction else spec
    status := status.map fun s => amend s "phase" displayEnum }

/-- `decodeObject` (decode.ts:95). -/
def decodeObject (raw : Json) : Option KliteObject :=
  if isObject raw then (kindAndBody (asRecord raw)).map fun b => decodeBody b.1 b.2 else none

/-! ### Reading and writing keys -/

section Keys
variable {m : Mapping}

theorem given_eq {key : String} {v : Option Json} (h : m[key]? = v) (hv : v ≠ some .null) : given m key = v := by
  unfold given
  rw [h]
  split
  · exact absurd rfl hv
  · rfl

theorem given_congr {m' : Mapping} {key key' : String} (h : m[key]? = m'[key']?) : given m key = given m' key' := by
  unfold given
  rw [h]

theorem get_setDefault (key : String) (v : Json) (k : String) :
    (setDefault m key v)[k]? = if k = key then some ((given m key).getD v) else m[k]? := by
  unfold setDefault
  cases hg : given m key with
  | none =>
    rw [if_neg (by decide), Table.get_insert]
    by_cases hk : k = key
    · rw [if_pos hk.symm, if_pos hk]
      rfl
    · rw [if_neg (Ne.symm hk), if_neg hk]
  | some w =>
    rw [if_pos Option.isSome_some]
    by_cases hk : k = key
    · rw [if_pos hk, hk]
      -- What is given is there.
      unfold given at hg
      split at hg
      · cases hg
      · exact hg
    · rw [if_neg hk]

theorem get_amend (key : String) (f : Json → Json) (k : String) :
    (amend m key f)[k]? = if k = key then m[key]?.map f else m[k]? := by
  unfold amend
  cases hm : m[key]? with
  | none =>
    by_cases hk : k = key
    · rw [if_pos hk, hk]
      exact hm
    · rw [if_neg hk]
  | some v =>
    dsimp only
    rw [Table.get_insert]
    by_cases hk : k = key
    · rw [if_pos hk.symm, if_pos hk]
      rfl
    · rw [if_neg (Ne.symm hk), if_neg hk]

theorem asRecord_obj (m : Mapping) : asRecord (.obj m.toList) = m := Table.fill_toList m

theorem asRecord_record (fields : Pb.Fields) : asRecord (Pb.record fields) = Pb.mappingOf fields := asRecord_obj _

end Keys

/-! ### The two dialects come to one body -/

def rewriteAction (table : List (String × String)) : Json → Json
  | .str a => .str ((table.lookup a).getD a)
  | v => v

theorem rewriteField_lookup (table : List (String × String)) (fields : List (String × Json)) (k : String) :
    (rewriteField table fields).lookup k =
      if k = "action" then (fields.lookup "action").map (rewriteAction table) else fields.lookup k := by
  induction fields with
  | nil =>
    show none = _
    split <;> rfl
  | cons f fields ih =>
    obtain ⟨key, v⟩ := f
    by_cases hkey : key = "action"
    · subst hkey
      have hcons : rewriteField table (("action", v) :: fields) = ("action", rewriteAction table v) :: fields := by
        cases v <;> rfl
      rw [hcons]
      by_cases hk : k = "action"
      · rw [hk, if_pos rfl, List.lookup_cons_self, List.lookup_cons_self]
        rfl
      · rw [if_neg hk, List.lookup_cons, List.lookup_cons, beq_eq_false_iff_ne.mpr hk]
    · have hcons : rewriteField table ((key, v) :: fields) = (key, v) :: rewriteField table fields := by
        simp only [rewriteField, if_neg hkey]
      rw [hcons, List.lookup_cons, ih, List.lookup_cons, List.lookup_cons]
      by_cases hk : k = "action"
      · have hne : ("action" == key) = false := beq_eq_false_iff_ne.mpr (Ne.symm hkey)
        rw [hk, if_pos rfl, if_pos rfl, hne]
      · rw [if_neg hk, if_neg hk]

theorem rewriteField_keys (table : List (String × String)) (fields : List (String × Json)) :
    (rewriteField table fields).map (·.1) = fields.map (·.1) := by
  induction fields with
  | nil => rfl
  | cons f fields ih =>
    obtain ⟨key, v⟩ := f
    unfold rewriteField
    split
    · split <;> rfl
    · rw [List.map_cons, List.map_cons, ih]

theorem get_rewriteSpec (table : List (String × String)) (m : Mapping) (k : String) :
    (asRecord (rewriteSpec table (.obj m.toList)))[k]? =
      if k = "action" then m["action"]?.map (rewriteAction table) else m[k]? := by
  show (Table.fill ∅ (rewriteField table m.toList))[k]? = _
  rw [Table.get_fill_lookup (by rw [rewriteField_keys]; exact Table.keys_nodup m), rewriteField_lookup, Table.lookup_toList,
    Table.lookup_toList]

theorem shortAction_rewrite (v : Json) : shortAction (rewriteAction policyActionLong v) = shortAction v := by
  cases v with
  | str a =>
    by_cases hallow : a = "POLICY_ACTION_ALLOW"
    · subst hallow
      rfl
    · by_cases hdeny : a = "POLICY_ACTION_DENY"
      · subst hdeny
        rfl
      · have hnone : policyActionLong.lookup a = none := by
          simp [policyActionLong, List.lookup_cons, beq_eq_false_iff_ne.mpr hallow, beq_eq_false_iff_ne.mpr hdeny]
        show shortAction (.str ((policyActionLong.lookup a).getD a)) = _
        rw [hnone]
        rfl
  | _ => rfl

theorem policySpec_agree (m : Mapping) :
    amend (fillSpec .networkPolicy (asRecord (rewriteSpec policyActionLong (.obj m.toList)))) "action" shortAction =
      amend (fillSpec .networkPolicy m) "action" shortAction := by
  refine Std.ExtTreeMap.ext_getElem? fun k => ?_
  unfold fillSpec
  dsimp only
  have hrules : given (asRecord (rewriteSpec policyActionLong (.obj m.toList))) "rules" = given m "rules" :=
    given_congr (by rw [get_rewriteSpec, if_neg (by decide)])
  rw [get_amend, get_amend]
  by_cases hk : k = "action"
  · rw [if_pos hk, if_pos hk, get_setDefault, get_setDefault, if_neg (by decide), if_neg (by decide), get_rewriteSpec,
      if_pos rfl, Option.map_map]
    congr 1
    funext v
    exact shortAction_rewrite v
  · rw [if_neg hk, if_neg hk, get_setDefault, get_setDefault, hrules, get_rewriteSpec, if_neg hk]

theorem decodeBody_agree {C : CodecOf Pb.Msg} (hC : C.marshal = Pb.marshal) (o : Envelope Pb.Msg) :
    decodeBody o.kind (encodeJSON C o) = decodeBody o.kind (Pb.marshal o.kind o.obj) := by
  have hf : ∀ key ∈ C.marshal o.kind o.obj, key ∈ jsonFields o.kind := by
    rw [hC]
    exact Pb.marshal_fields o.kind o.obj
  have hmetadata : given (encodeJSON C o) "metadata" = given (Pb.marshal o.kind o.obj) "meta" :=
    given_congr (by rw [encodeJSON_get hf (by decide) (by decide), if_pos rfl, hC])
  have hmeta : given (encodeJSON C o) "meta" = none :=
    given_eq (by rw [encodeJSON_get hf (by decide) (by decide), if_neg (by decide), if_pos rfl]) (by decide)
  have hnone : given (Pb.marshal o.kind o.obj) "metadata" = none :=
    given_eq (Pb.marshal_other o.obj (by decide) (by decide) (by decide)) (by decide)
  have hstatus : given (encodeJSON C o) "status" = given (Pb.marshal o.kind o.obj) "status" := by
    apply given_congr
    rw [encodeJSON_get hf (by decide) (by decide), if_neg (by decide), if_neg (by decide),
      if_neg fun h => absurd h.2 (by decide), hC]
  unfold decodeBody
  dsimp only
  rw [hmetadata, hmeta, hnone, hstatus, Option.getD_none, Option.getD_none]
  by_cases hp : o.kind = .networkPolicy
  · have hspec : amend (fillSpec o.kind (asRecord ((given (encodeJSON C o) "spec").getD (.obj [])))) "action" shortAction =
        amend (fillSpec o.kind (asRecord ((given (Pb.marshal o.kind o.obj) "spec").getD (.obj [])))) "action" shortAction := by
      have hget := encodeJSON_get hf (k := "spec") (by decide) (by decide)
      rw [if_neg (by decide), if_neg (by decide), if_pos ⟨hp, rfl⟩, hC, Pb.marshal_spec] at hget
      have hget' := Pb.marshal_spec o.obj
      cases hs : Pb.specOf o.obj with
      | none =>
        rw [hs] at hget hget'
        rw [given_eq hget nofun, given_eq hget' nofun]
        rfl
      | some spec =>
        rw [hs] at hget hget'
        rw [given_eq hget nofun, given_eq hget' nofun, hp]
        show amend (fillSpec .networkPolicy (asRecord (rewriteSpec policyActionLong (Pb.record spec)))) _ _ =
          amend (fillSpec .networkPolicy (asRecord (Pb.record spec))) _ _
        rw [asRecord_record]
        exact policySpec_agree (Pb.mappingOf spec)
    rw [if_pos hp, if_pos hp, hspec]
  · have hspec : given (encodeJSON C o) "spec" = given (Pb.marshal o.kind o.obj) "spec" := by
      apply given_congr
      rw [encodeJSON_get hf (by decide) (by decide), if_neg (by decide), if_neg (by decide), if_neg fun h => hp h.1, hC]
    rw [hspec]

theorem kindAndBody_list {Msg : Kind → Type} (C : CodecOf Msg) (o : Envelope Msg) :
    kindAndBody (encodeJSON C o) = some (o.kind, encodeJSON C o) := by
  have hget : (encodeJSON C o)["kind"]? = some (.str o.kind.name) := by
    unfold encodeJSON
    dsimp only
    rw [Table.get_insert, if_pos rfl]
  have htrue : truthy (.str o.kind.name) := by
    cases o.kind <;> decide
  have hfind : (Kind.all.find? fun k => k.name = o.kind.name) = some o.kind := by
    cases o.kind <;> decide
  unfold kindAndBody
  rw [hget]
  dsimp only
  rw [if_pos htrue, hfind]
  rfl

theorem get_marshalObject (o : Envelope Pb.Msg) (key : String) : (Pb.marshalObject o)[key]? =
    if Pb.oneofField o.kind = key then some (.obj (Pb.marshal o.kind o.obj).toList) else none := by
  unfold Pb.marshalObject
  rw [Table.get_insert, Std.ExtTreeMap.getElem?_empty]

theorem kindAndBody_watch (o : Envelope Pb.Msg) :
    kindAndBody (Pb.marshalObject o) = some (o.kind, Pb.marshal o.kind o.obj) := by
  have hkind : Pb.oneofField o.kind ≠ "kind" := by
    cases o.kind <;> decide
  have hfind : (oneofKind.findSome? fun e => if Pb.oneofField o.kind = e.1 then some e.2 else none) = some o.kind := by
    cases o.kind <;> decide
  unfold kindAndBody
  rw [get_marshalObject, if_neg hkind]
  show unwrap (Pb.marshalObject o) = _
  have hunwrap : unwrap (Pb.marshalObject o) =
      (oneofKind.findSome? fun e => if Pb.oneofField o.kind = e.1 then some e.2 else none).map
        fun k => (k, Pb.marshal o.kind o.obj) := by
    unfold unwrap
    rw [List.map_findSome?]
    congr 1
    funext e
    rw [get_marshalObject, Function.comp_apply]
    by_cases h : Pb.oneofField o.kind = e.1
    · rw [if_pos h, if_pos h]
      dsimp only
      rw [if_pos ⟨rfl, rfl⟩, asRecord_obj]
      rfl
    · rw [if_neg h, if_neg h]
      rfl
  rw [hunwrap, hfind]
  rfl

theorem decodeObject_agree {C : CodecOf Pb.Msg} (hC : C.marshal = Pb.marshal) (o : Envelope Pb.Msg) :
    decodeObject (.obj (encodeJSON C o).toList) = some (decodeBody o.kind (Pb.marshal o.kind o.obj)) ∧
      decodeObject (.obj (Pb.marshalObject o).toList) = some (decodeBody o.kind (Pb.marshal o.kind o.obj)) := by
  have hraw : ∀ m : Mapping, decodeObject (.obj m.toList) = (kindAndBody m).map fun b => decodeBody b.1 b.2 := by
    intro m
    unfold decodeObject
    rw [asRecord_obj]
    rfl
  rw [hraw, hraw, kindAndBody_list, kindAndBody_watch, Option.map_some, Option.map_some, decodeBody_agree hC]
  exact ⟨rfl, rfl⟩

end Klite.Ui
