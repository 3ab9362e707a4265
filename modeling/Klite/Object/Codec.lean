import Klite.Store.Keys

/-!
# The manifest codec (internal/object/codec.go)

A document goes from YAML to a mapping, loses its `apiVersion` and `kind`, has its
`metadata` renamed to the field the message knows, and is then protojson's. The two
libraries are parameters, and so are the messages; what is assumed of them is that what
they render they read back, field by field under the names of the messages' fields.
-/

namespace Klite
open Lib

inductive Json where
  | null
  | bool (b : Bool)
  | num (q : Rat)
  | str (s : String)
  | arr (items : List Json)
  | obj (fields : List (String × Json))

/-- A `map[string]any`. -/
abbrev Mapping := Std.ExtTreeMap String Json

structure CodecOf (Msg : Kind → Type) where
  yamlToJSON : String → Except String Json
  jsonToYAML : Mapping → String
  marshal : (k : Kind) → Msg k → Mapping
  unmarshal : (k : Kind) → Mapping → Except String (Msg k)

def apiVersion : String := "klite/v1"

def maxDecodeBytes : ℕ := 4194304

def policyActionShort : List (String × String) :=
  [("ALLOW", "POLICY_ACTION_ALLOW"), ("DENY", "POLICY_ACTION_DENY")]

def policyActionLong : List (String × String) :=
  [("POLICY_ACTION_ALLOW", "ALLOW"), ("POLICY_ACTION_DENY", "DENY")]

def rewriteField (table : List (String × String)) : List (String × Json) → List (String × Json)
  | [] => []
  | (k, v) :: fields =>
    if k = "action" then
      match v with
      | .str a => (k, .str ((table.lookup a).getD a)) :: fields
      | v => (k, v) :: fields
    else (k, v) :: rewriteField table fields

def rewriteSpec (table : List (String × String)) : Json → Json
  | .obj fields => .obj (rewriteField table fields)
  | j => j

/-- `rewritePolicyAction` (codec.go:184). -/
def rewritePolicyAction (m : Mapping) (table : List (String × String)) : Mapping :=
  match m["spec"]? with
  | some spec => m.insert "spec" (rewriteSpec table spec)
  | none => m

/-- The value moves to another key; both directions of the codec do this with the metadata. -/
def renameKey (m : Mapping) (old new : String) : Mapping :=
  match m[old]? with
  | some v => (m.insert new v).erase old
  | none => m

-- A missing key and one that holds no string both read as the empty string.
def stringAt (m : Mapping) (key : String) : String :=
  match m[key]? with
  | some (.str s) => s
  | _ => ""

def Json.typeName : Json → String
  | .null => "null"
  | .bool _ => "bool"
  | .num _ => "number"
  | .str _ => "string"
  | .arr _ => "array"
  | .obj _ => "object"

def notMapping (j : Json) : String :=
  "document is not a mapping: json: cannot unmarshal " ++ j.typeName ++
    " into Go value of type map[string]interface \x7b\x7d"

section Decode
variable {Msg : Kind → Type} (C : CodecOf Msg)

def decodeMapping (m : Mapping) : Except String (Envelope Msg) :=
  if stringAt m "apiVersion" ≠ apiVersion then
    .error ("apiVersion must be " ++ quote apiVersion ++ ", got " ++ quote (stringAt m "apiVersion"))
  else
    match canonical (stringAt m "kind") with
    | .error e => .error e
    | .ok kind =>
      let m := (m.erase "apiVersion").erase "kind"
      if m["metadata"]?.isSome ∧ m["meta"]?.isSome then .error "document sets both metadata and meta"
      else
        let m := renameKey m "metadata" "meta"
        let m := if kind = .networkPolicy then rewritePolicyAction m policyActionShort else m
        match C.unmarshal kind m with
        | .error e => .error (toLower kind.name ++ ": " ++ e)
        | .ok obj => .ok ⟨kind, obj⟩

/-- `DecodeOne` (codec.go:58). -/
def decodeOne (doc : String) : Except String (Option (Envelope Msg)) :=
  if doc.utf8ByteSize > maxDecodeBytes then
    .error ("yaml document is " ++ toString doc.utf8ByteSize ++ " bytes, limit " ++ toString maxDecodeBytes)
  else
    match C.yamlToJSON doc with
    | .error e => .error ("parse yaml: " ++ e)
    | .ok .null => .ok none
    | .ok (.obj fields) => (decodeMapping C (Table.fill ∅ fields)).map some
    | .ok j => .error (notMapping j)

/-- `EncodeJSON` (codec.go:131). -/
def encodeJSON (o : Envelope Msg) : Mapping :=
  let m := renameKey (C.marshal o.kind o.obj) "meta" "metadata"
  let m := if o.kind = .networkPolicy then rewritePolicyAction m policyActionLong else m
  (m.insert "apiVersion" (.str apiVersion)).insert "kind" (.str o.kind.name)

/-- `Encode` (codec.go:122). -/
def encode (o : Envelope Msg) : String := C.jsonToYAML (encodeJSON C o)

end Decode

-- The codec without a YAML library; it renders, and reads nothing.
def rendersOnly {Msg : Kind → Type} (marshal : (k : Kind) → Msg k → Mapping) : CodecOf Msg where
  yamlToJSON _ := .error "no document"
  jsonToYAML _ := ""
  marshal := marshal
  unmarshal _ _ := .error "unknown message"

/-! ## The round trip -/

/-- The JSON names of a message's fields. -/
def jsonFields : Kind → List String
  | .workload => ["meta", "spec", "status"]
  | .service => ["meta", "spec"]
  | .node => ["meta", "spec", "status"]
  | .networkPolicy => ["meta", "spec"]
  | .inst => ["meta", "spec", "status"]
  | .vipAllocation => ["meta", "spec"]
  | .ingressAllocation => ["meta", "spec"]

/-- The action a rewrite would look at. -/
def actionOf (m : Mapping) : Option Json :=
  match m["spec"]? with
  | some (.obj fields) => fields.lookup "action"
  | _ => none

/-- What protojson is assumed to do with one object: it reads back what it renders, and renders a
message by its fields' names and an action by the name its enum has. -/
structure ReadsBack {Msg : Kind → Type} (C : CodecOf Msg) (o : Envelope Msg) : Prop where
  protojson : C.unmarshal o.kind (C.marshal o.kind o.obj) = .ok o.obj
  fields : ∀ key ∈ C.marshal o.kind o.obj, key ∈ jsonFields o.kind
  action : ∀ a, actionOf (C.marshal o.kind o.obj) = some (.str a) → a ≠ "ALLOW" ∧ a ≠ "DENY"

theorem rewriteField_back {fields : List (String × Json)}
    (h : ∀ a, fields.lookup "action" = some (.str a) → a ≠ "ALLOW" ∧ a ≠ "DENY") :
    rewriteField policyActionShort (rewriteField policyActionLong fields) = fields := by
  induction fields with
  | nil => rfl
  | cons f fields ih =>
    obtain ⟨k, v⟩ := f
    by_cases hk : k = "action"
    · subst hk
      cases v with
      | str a =>
        obtain ⟨hallow, hdeny⟩ := h a (by simp)
        simp only [rewriteField, if_true, List.cons.injEq, Prod.mk.injEq, true_and, and_true, Json.str.injEq]
        unfold policyActionLong policyActionShort
        by_cases h1 : a = "POLICY_ACTION_ALLOW"
        · subst h1
          decide
        · by_cases h2 : a = "POLICY_ACTION_DENY"
          · subst h2
            decide
          · simp [List.lookup_cons, beq_eq_false_iff_ne.mpr h1, beq_eq_false_iff_ne.mpr h2,
              beq_eq_false_iff_ne.mpr hallow, beq_eq_false_iff_ne.mpr hdeny]
      | null => simp [rewriteField]
      | bool b => simp [rewriteField]
      | num q => simp [rewriteField]
      | arr l => simp [rewriteField]
      | obj l => simp [rewriteField]
    · have hne : ("action" == k) = false := beq_eq_false_iff_ne.mpr (Ne.symm hk)
      have hrest : rewriteField policyActionShort (rewriteField policyActionLong fields) = fields := by
        refine ih fun a ha => h a ?_
        rw [List.lookup_cons, hne]
        exact ha
      simp only [rewriteField, if_neg hk, hrest]

theorem rewriteSpec_back {spec : Json}
    (h : ∀ fields a, spec = .obj fields → fields.lookup "action" = some (.str a) → a ≠ "ALLOW" ∧ a ≠ "DENY") :
    rewriteSpec policyActionShort (rewriteSpec policyActionLong spec) = spec := by
  cases spec with
  | obj fields => exact congrArg Json.obj (rewriteField_back fun a ha => h fields a rfl ha)
  | _ => rfl

theorem rewrite_get (m : Mapping) (table : List (String × String)) (k : String) :
    (rewritePolicyAction m table)[k]? = if k = "spec" then m["spec"]?.map (rewriteSpec table) else m[k]? := by
  unfold rewritePolicyAction
  cases hs : m["spec"]? with
  | none =>
    by_cases hk : k = "spec"
    · rw [if_pos hk, hk, hs]
      rfl
    · rw [if_neg hk]
  | some spec =>
    dsimp only
    rw [Table.get_insert]
    by_cases hk : k = "spec"
    · rw [if_pos hk.symm, if_pos hk]
      rfl
    · rw [if_neg (Ne.symm hk), if_neg hk]

theorem rename_get {m : Mapping} (old new : String) (hne : old ≠ new) (hnew : m[new]? = none) (k : String) :
    (renameKey m old new)[k]? = if k = new then m[old]? else if k = old then none else m[k]? := by
  unfold renameKey
  cases ho : m[old]? with
  | none =>
    dsimp only
    by_cases hk : k = new
    · rw [if_pos hk, hk, hnew]
    · by_cases hk' : k = old
      · rw [if_neg hk, if_pos hk', hk', ho]
      · rw [if_neg hk, if_neg hk']
  | some v =>
    dsimp only
    rw [Table.get_erase, Table.get_insert]
    by_cases hk : k = new
    · rw [if_neg (hk ▸ hne), if_pos hk.symm, if_pos hk]
    · by_cases hk' : k = old
      · rw [if_pos hk'.symm, if_neg hk, if_pos hk']
      · rw [if_neg (Ne.symm hk'), if_neg (Ne.symm hk), if_neg hk, if_neg hk']

theorem encodeJSON_kind {Msg : Kind → Type} (C : CodecOf Msg) (o : Envelope Msg) :
    stringAt (encodeJSON C o) "kind" = o.kind.name := by
  unfold stringAt encodeJSON
  dsimp only
  rw [Table.get_insert, if_pos rfl]

section Back
variable {Msg : Kind → Type} {C : CodecOf Msg} {o : Envelope Msg}

section Fields
variable (hf : ∀ key ∈ C.marshal o.kind o.obj, key ∈ jsonFields o.kind)
include hf

theorem reserved_absent (key : String) (hr : key ∈ ["apiVersion", "kind", "metadata"]) :
    (C.marshal o.kind o.obj)[key]? = none := by
  by_contra hne
  have hmem : key ∈ C.marshal o.kind o.obj := by
    rw [Std.ExtTreeMap.mem_iff_isSome_getElem?]
    exact Option.isSome_iff_ne_none.mpr hne
  have hfield := hf key hmem
  have hdisj : ∀ k : Kind, ∀ x ∈ jsonFields k, x ∉ ["apiVersion", "kind", "metadata"] := by
    intro k
    cases k <;> decide
  exact hdisj o.kind key hfield hr

theorem renamed_get (k : String) : (renameKey (C.marshal o.kind o.obj) "meta" "metadata")[k]? =
      if k = "metadata" then (C.marshal o.kind o.obj)["meta"]? else if k = "meta" then none
      else (C.marshal o.kind o.obj)[k]? :=
  rename_get "meta" "metadata" (by decide) (reserved_absent hf "metadata" (by decide)) k

theorem encoded_inner : ((encodeJSON C o).erase "apiVersion").erase "kind" = if o.kind = .networkPolicy then
        rewritePolicyAction (renameKey (C.marshal o.kind o.obj) "meta" "metadata") policyActionLong
      else renameKey (C.marshal o.kind o.obj) "meta" "metadata" := by
  have hapi := reserved_absent hf "apiVersion" (by decide)
  have hkind := reserved_absent hf "kind" (by decide)
  refine Std.ExtTreeMap.ext_getElem? fun k => ?_
  rw [Table.get_erase, Table.get_erase]
  unfold encodeJSON
  dsimp only
  rw [Table.get_insert, Table.get_insert]
  by_cases hk : "kind" = k
  · subst hk
    rw [if_pos rfl]
    split
    · rw [rewrite_get, if_neg (by decide), renamed_get hf, if_neg (by decide), if_neg (by decide), hkind]
    · rw [renamed_get hf, if_neg (by decide), if_neg (by decide), hkind]
  · by_cases hk' : "apiVersion" = k
    · subst hk'
      rw [if_neg hk, if_pos rfl]
      split
      · rw [rewrite_get, if_neg (by decide), renamed_get hf, if_neg (by decide), if_neg (by decide), hapi]
      · rw [renamed_get hf, if_neg (by decide), if_neg (by decide), hapi]
    · rw [if_neg hk, if_neg hk', if_neg hk, if_neg hk']

theorem inner_get (k : String) : (((encodeJSON C o).erase "apiVersion").erase "kind")[k]? =
      if k = "metadata" then (C.marshal o.kind o.obj)["meta"]? else if k = "meta" then none
      else if o.kind = .networkPolicy ∧ k = "spec" then
        (C.marshal o.kind o.obj)["spec"]?.map (rewriteSpec policyActionLong) else (C.marshal o.kind o.obj)[k]? := by
  rw [encoded_inner hf]
  by_cases hp : o.kind = .networkPolicy
  · rw [if_pos hp, rewrite_get]
    by_cases hk : k = "spec"
    · subst hk
      rw [if_pos rfl, renamed_get hf, if_neg (by decide), if_neg (by decide), if_neg (by decide), if_neg (by decide),
        if_pos ⟨hp, rfl⟩]
    · have hnot : ¬ (o.kind = .networkPolicy ∧ k = "spec") := fun hc => hk hc.2
      rw [if_neg hk, renamed_get hf, if_neg hnot]
  · have hnot : ¬ (o.kind = .networkPolicy ∧ k = "spec") := fun hc => hp hc.1
    rw [if_neg hp, renamed_get hf, if_neg hnot]

theorem encodeJSON_get {k : String} (hapi : k ≠ "apiVersion") (hkind : k ≠ "kind") : (encodeJSON C o)[k]? =
      if k = "metadata" then (C.marshal o.kind o.obj)["meta"]? else if k = "meta" then none
      else if o.kind = .networkPolicy ∧ k = "spec" then
        (C.marshal o.kind o.obj)["spec"]?.map (rewriteSpec policyActionLong) else (C.marshal o.kind o.obj)[k]? := by
  rw [← inner_get hf, Table.get_erase, if_neg (Ne.symm hkind), Table.get_erase, if_neg (Ne.symm hapi)]

end Fields

theorem decoded_inner (h : ReadsBack C o) :
    (let m := renameKey (((encodeJSON C o).erase "apiVersion").erase "kind") "metadata" "meta"
     if o.kind = .networkPolicy then rewritePolicyAction m policyActionShort else m) =
      C.marshal o.kind o.obj := by
  have hmeta := reserved_absent h.fields "metadata" (by decide)
  have hnone : (((encodeJSON C o).erase "apiVersion").erase "kind")["meta"]? = none := by
    rw [inner_get h.fields, if_neg (by decide), if_pos rfl]
  have hren : ∀ k, (renameKey (((encodeJSON C o).erase "apiVersion").erase "kind") "metadata" "meta")[k]? =
      if o.kind = .networkPolicy ∧ k = "spec" then
        (C.marshal o.kind o.obj)["spec"]?.map (rewriteSpec policyActionLong)
      else (C.marshal o.kind o.obj)[k]? := by
    intro k
    rw [rename_get "metadata" "meta" (by decide) hnone]
    by_cases hk : k = "meta"
    · subst hk
      rw [if_pos rfl, inner_get h.fields, if_pos rfl, if_neg (fun hc => absurd hc.2 (by decide))]
    · by_cases hk' : k = "metadata"
      · subst hk'
        rw [if_neg hk, if_pos rfl, if_neg (fun hc => absurd hc.2 (by decide)), hmeta]
      · rw [if_neg hk, if_neg hk', inner_get h.fields, if_neg hk', if_neg hk]
  dsimp only
  refine Std.ExtTreeMap.ext_getElem? fun k => ?_
  by_cases hp : o.kind = .networkPolicy
  · rw [if_pos hp, rewrite_get]
    by_cases hk : k = "spec"
    · subst hk
      rw [if_pos rfl, hren, if_pos ⟨hp, rfl⟩, Option.map_map]
      cases hs : (C.marshal o.kind o.obj)["spec"]? with
      | none => rfl
      | some spec =>
        refine congrArg some (rewriteSpec_back fun fields a hf ha => h.action a ?_)
        unfold actionOf
        rw [hs, hf]
        exact ha
    · rw [if_neg hk, hren, if_neg (fun hc => hk hc.2)]
  · rw [if_neg hp, hren, if_neg (fun hc => hp hc.1)]

/-- A document whose YAML is what `EncodeJSON` gives for an object decodes to the object. -/
theorem decodeOne_reads (h : ReadsBack C o) {doc : String} (hyaml : C.yamlToJSON doc = .ok (.obj (encodeJSON C o).toList))
    (hsize : doc.utf8ByteSize ≤ maxDecodeBytes) : decodeOne C doc = .ok (some o) := by
  have hapi : stringAt (encodeJSON C o) "apiVersion" = apiVersion := by
    unfold stringAt encodeJSON
    dsimp only
    rw [Table.get_insert, if_neg (by decide), Table.get_insert, if_pos rfl]
  have hmeta : (((encodeJSON C o).erase "apiVersion").erase "kind")["meta"]? = none := by
    rw [inner_get h.fields, if_neg (by decide), if_pos rfl]
  have hback := decoded_inner h
  dsimp only at hback
  unfold decodeOne
  rw [if_neg (not_lt.mpr hsize), hyaml]
  dsimp only
  rw [Table.fill_toList]
  unfold decodeMapping
  rw [hapi, if_neg (fun hc => hc rfl), encodeJSON_kind, canonical_name]
  dsimp only
  rw [if_neg (by rw [hmeta]; simp), hback, h.protojson]
  rfl

end Back

end Klite
