import EntityGraph.Proofs.Nodes
import EntityGraph.Proofs.TaggedFloats

/-!
# Plans and their documents

The document of a plan says everything about the plan: it is read back from it, whatever the order
of members, and so two plans with one document are equal. The induction is on the parts of a plan.
Each step is written under its own name, with its parts under keys of their own, so one lemma reads
back a step from what its parts read back to.

Literals are the only place where a document could say less than the plan. A float that is not
finite is written as `null`, and entries that are not sorted are read back sorted; objects in
literals are always sorted, so only the first matters. Where floats are written by their bits, an
object with the key of the bits alone is read as a float.

## Main definitions

* `Plan.Literals` — what holds of every literal in a plan
* `Value.Untagged` — no object in a value holds the key of the bits alone

## Main results

* `Plan.ofJson?_toJson` — a plan is read back from its document
* `plan_documents_faithful` — the document of a plan determines it, in both ways of writing floats
-/

namespace EntityGraph

/-! ### Names and numbers -/

@[simp] theorem TypeId.ofJson?_toJson (id : TypeId) : ofJson? id.toJson = some id := by
  simp [ofJson?, toJson, Json.nat?]

@[simp] theorem FieldId.ofJson?_toJson (id : FieldId) : ofJson? id.toJson = some id := by
  simp [ofJson?, toJson, Json.nat?]

@[simp] theorem Variable.ofJson?_toJson (v : Variable) : ofJson? v.toJson = some v := by
  simp [ofJson?, toJson, Json.get?, Json.nat?, Json.string?, List.lookup]

@[simp] theorem Relation.ofJson?_toJson (r : Relation) : ofJson? r.toJson = some r := by
  obtain ⟨fromType, fromField, toType, toField⟩ := r
  have hfield : Json.optional? FieldId.ofJson? (some (Json.ofOption FieldId.toJson toField)) =
      some toField := by
    cases toField with
    | none => rfl
    | some id => exact congrArg (Option.map some) (FieldId.ofJson?_toJson id)
  simp [ofJson?, toJson, Json.get?, List.lookup, hfield]

@[simp] theorem RelationSide.ofJson?_toJson (s : RelationSide) : ofJson? s.toJson = some s := by
  simp [ofJson?, toJson, Json.get?, Json.bool?, List.lookup]

@[simp] theorem ValueShape.ofJson?_name (s : ValueShape) : ofJson? (.string s.name) = some s := by
  cases s <;> rfl

@[simp] theorem BinaryOperator.ofJson?_name (op : BinaryOperator) :
    ofJson? (.string op.name) = some op := by
  cases op <;> rfl

@[simp] theorem UnaryOperator.ofJson?_name (op : UnaryOperator) :
    ofJson? (.string op.name) = some op := by
  cases op
  rfl

namespace Plan

/-! ### Lists and options of plans -/

theorem itemsToJson_eq (ps : List Plan) : itemsToJson ps = ps.map toJson := by
  induction ps with
  | nil => rfl
  | cons p ps ih => rw [itemsToJson, ih, List.map_cons]

theorem propertiesToJson_eq (properties : List (String × Plan)) :
    propertiesToJson properties =
      properties.map fun property => .array [.string property.1, property.2.toJson] := by
  induction properties with
  | nil => rfl
  | cons property rest ih =>
    obtain ⟨name, p⟩ := property
    rw [propertiesToJson, ih, List.map_cons]

theorem itemsOfJson?_toJson {ps : List Plan} (h : ∀ p ∈ ps, ofJson? p.toJson = some p) :
    itemsOfJson? (.array (itemsToJson ps)) = some ps := by
  rw [itemsOfJson?, itemsToJson_eq, plansOf?_eq, mapM_map_eq_some h]

theorem propertiesOfJson?_toJson {properties : List (String × Plan)}
    (h : ∀ property ∈ properties, ofJson? property.2.toJson = some property.2) :
    propertiesOfJson? (.array (propertiesToJson properties)) = some properties := by
  rw [propertiesOfJson?, propertiesToJson_eq, pairsOf?_eq]
  refine mapM_map_eq_some fun property hproperty => ?_
  rw [pairOf?, h property hproperty, Option.map_some]

theorem toJson_ne_null (p : Plan) : p.toJson ≠ .null := by
  cases p <;> simp [toJson, step]

theorem option_optionToJson {o : Option Plan} (h : ∀ p ∈ o, ofJson? p.toJson = some p)
    (plans : Option (List Plan)) (properties : Option (List (String × Plan))) :
    PlanPart.option ⟨optionToJson o, ofJson? (optionToJson o), plans, properties⟩ = some o := by
  cases o with
  | none => rfl
  | some p =>
    rw [optionToJson, h p rfl, PlanPart.option]
    split
    · next hnull => exact absurd hnull (toJson_ne_null p)
    · rfl

/-! ### Whole plans -/

/-- Every literal in the plan satisfies `P`. -/
def Literals (P : Value → Prop) (p : Plan) : Prop := ∀ q ∈ p.nodes, ∀ v, q = .literal v → P v

theorem literals_iff {P : Value → Prop} {p : Plan} :
    p.Literals P ↔ (∀ v, p = .literal v → P v) ∧ ∀ q ∈ p.parts, q.Literals P := forall_nodes_iff

theorem ofJson?_step (tag : String) (parts : List (String × Json)) :
    ofJson? (step tag parts) = ofStep? tag (partsOfMembers parts) := rfl

theorem optional?_count (n : Option Nat) :
    Json.optional? Json.nat? (some (Json.ofOption (fun n : Nat => .int n) n)) = some n := by
  cases n <;> simp [Json.optional?, Json.ofOption, Json.nat?]

/-- A step is read back if its parts are. -/
theorem ofJson?_toJson_of_parts {p : Plan}
    (hliteral : ∀ v, p = .literal v → Value.ofJson? v.toJson = some v)
    (hparts : ∀ q ∈ p.parts, ofJson? q.toJson = some q) : ofJson? p.toJson = some p := by
  cases p with
  | generateId => rfl
  | literal v =>
    rw [toJson, ofJson?_step]
    simp [ofStep?, partsOfMembers, hliteral v rfl]
  | object properties =>
    have hproperties := propertiesOfJson?_toJson fun property (h : property ∈ properties) =>
      hparts property.2 (List.mem_map_of_mem h)
    rw [toJson, ofJson?_step]
    simp [ofStep?, partsOfMembers, hproperties]
  | transformList source item filter maxCount inner =>
    simp only [parts, List.forall_mem_cons, List.forall_mem_append, Option.mem_toList] at hparts
    obtain ⟨hsource, hfilter, hinner⟩ := hparts
    have hfilter := option_optionToJson hfilter
    have hinner := option_optionToJson hinner
    rw [toJson, ofJson?_step]
    simp [ofStep?, partsOfMembers, hsource, hfilter, hinner, optional?_count, List.lookup]
  | setEdge side source target =>
    simp only [parts, List.forall_mem_cons, Option.mem_toList] at hparts
    obtain ⟨hsource, htarget⟩ := hparts
    have htarget := option_optionToJson htarget
    rw [toJson, ofJson?_step]
    simp [ofStep?, partsOfMembers, hsource, htarget, List.lookup]
  | list items =>
    have hitems : itemsOfJson? (.array (itemsToJson items)) = some items :=
      itemsOfJson?_toJson hparts
    rw [toJson, ofJson?_step]
    simp [ofStep?, partsOfMembers, hitems]
  | createObject type binding changes =>
    have hchanges : itemsOfJson? (.array (itemsToJson changes)) = some changes :=
      itemsOfJson?_toJson hparts
    rw [toJson, ofJson?_step]
    simp [ofStep?, partsOfMembers, hchanges, List.lookup]
  | updateObject target binding changes =>
    obtain ⟨htarget, hchanges⟩ := List.forall_mem_cons.1 hparts
    have hitems := itemsOfJson?_toJson hchanges
    rw [toJson, ofJson?_step]
    simp [ofStep?, partsOfMembers, htarget, hitems, List.lookup]
  | _ =>
    simp only [parts, List.forall_mem_cons, List.not_mem_nil] at hparts
    rw [toJson, ofJson?_step]
    simp [ofStep?, partsOfMembers, hparts, List.lookup, Json.string?]

/-- A plan with sorted and finite literals is read back from its document. -/
theorem ofJson?_toJson {p : Plan} (h : p.Literals fun v => v.Sorted ∧ v.Finite) :
    ofJson? p.toJson = some p := by
  induction p using induct_parts with
  | step p ih =>
    obtain ⟨hliteral, hparts⟩ := literals_iff.1 h
    refine ofJson?_toJson_of_parts ?_ fun q hq => ih q hq (hparts q hq)
    intro v hv
    obtain ⟨hsorted, hfinite⟩ := hliteral v hv
    exact Value.ofJson?_toJson hsorted hfinite

end Plan

/-! ### Floats by their bits -/

/-- No object in the value holds the key of the bits alone. -/
def Value.Untagged (v : Value) : Prop :=
  ∀ w ∈ v.nodes, ∀ es, w = .object es → Entries.keys es ≠ [Json.floatKey]

theorem Value.untagged_toJson {v : Value} (h : v.Untagged) : v.toJson.Untagged := by
  induction v using Value.induct with
  | null => exact .null
  | bool b => exact .bool b
  | int n => exact .int _
  | string s => exact .string s
  | float x =>
    rw [toJson]
    split
    · exact .float x
    · exact .null
  | list vs ih =>
    rw [toJson_list]
    refine .array (List.forall_mem_map.2 fun v hv => ih v hv ?_)
    exact (forall_nodes_list.1 h).2 v hv
  | object es ih =>
    obtain ⟨hkeys, hentries⟩ := forall_nodes_object.1 h
    rw [toJson_object]
    refine .object ?_ (List.forall_mem_map.2 fun e he => ih e he (hentries e he))
    rw [List.map_map]
    exact hkeys es rfl

@[simp] theorem TypeId.untagged_toJson (id : TypeId) : id.toJson.Untagged := .int _

@[simp] theorem FieldId.untagged_toJson (id : FieldId) : id.toJson.Untagged := .int _

@[simp] theorem Variable.untagged_toJson (v : Variable) : v.toJson.Untagged := by
  simp [toJson, Json.floatKey]

@[simp] theorem Relation.untagged_toJson (r : Relation) : r.toJson.Untagged := by
  obtain ⟨fromType, fromField, toType, _ | toField⟩ := r <;>
    simp [toJson, Json.ofOption, Json.floatKey]

@[simp] theorem RelationSide.untagged_toJson (s : RelationSide) : s.toJson.Untagged := by
  simp [toJson, Json.floatKey]

namespace Plan

@[simp] theorem untagged_optionToJson {o : Option Plan} :
    (optionToJson o).Untagged ↔ ∀ p, o = some p → p.toJson.Untagged := by
  cases o <;> simp [optionToJson]

@[simp] theorem untagged_itemsToJson {ps : List Plan} :
    (∀ j ∈ itemsToJson ps, j.Untagged) ↔ ∀ p ∈ ps, p.toJson.Untagged := by
  rw [itemsToJson_eq, List.forall_mem_map]

@[simp] theorem untagged_propertiesToJson {properties : List (String × Plan)} :
    (∀ j ∈ propertiesToJson properties, j.Untagged) ↔
      ∀ property ∈ properties, property.2.toJson.Untagged := by
  rw [propertiesToJson_eq, List.forall_mem_map]
  simp

/-- Of the documents in the document of a plan, only those of literals can be tagged. -/
theorem untagged_toJson {p : Plan} (h : p.Literals Value.Untagged) : p.toJson.Untagged := by
  induction p using induct_parts with
  | step p ih =>
    obtain ⟨hliteral, hparts⟩ := literals_iff.1 h
    replace hparts : ∀ q ∈ p.parts, q.toJson.Untagged := fun q hq => ih q hq (hparts q hq)
    cases p with
    | generateId => exact .string _
    | entities | var => simp [toJson, step, Json.floatKey]
    | literal v => simp [toJson, step, Json.floatKey, Value.untagged_toJson (hliteral v rfl)]
    | object properties =>
      have hproperties : ∀ property ∈ properties, property.2.toJson.Untagged :=
        fun property h => hparts property.2 (List.mem_map_of_mem h)
      simpa [toJson, step, Json.floatKey, -Prod.forall] using hproperties
    | transformList source item filter maxCount inner =>
      cases maxCount <;>
        simpa [toJson, step, parts, Json.floatKey, Json.ofOption, or_imp, forall_and] using hparts
    | _ => simpa [toJson, step, parts, Json.floatKey] using hparts

/-! ### Documents up to the order of members -/

theorem ofJson?_of_sorted_eq {p : Plan} (h : p.Literals fun v => v.Sorted ∧ v.Finite) {j : Json}
    (hj : j.sorted = p.toJson.sorted) : ofJson? j = some p := by
  rw [← ofJson?_sorted, hj, ofJson?_sorted, ofJson?_toJson h]

theorem ofJson?_withFloats_of_sorted_eq {p : Plan} (h : p.Literals fun v => v.Sorted ∧ v.Finite)
    (huntagged : p.Literals Value.Untagged) {j : Json}
    (hj : j.sorted = p.toJson.withFloatBits.sorted) : ofJson? j.withFloats = some p := by
  refine ofJson?_of_sorted_eq h ?_
  rw [← Json.withFloats_sorted, hj, Json.withFloats_sorted,
    Json.withFloats_withFloatBits (untagged_toJson huntagged)]

end Plan

/-- **The document of a plan determines it.** Take plans whose literals are values as documents give
them, with their objects sorted and their floats finite. A plan is read back from any document that
is its own up to the order of members, and two plans with the same document are the same, floats
being compared by their bits. Both hold as well where floats are written by their bits, as long as
no object in a literal has the key of the bits as its only key. -/
theorem plan_documents_faithful {p q : Plan} (hp : p.Literals fun v => v.Sorted ∧ v.Finite)
    (hq : q.Literals fun v => v.Sorted ∧ v.Finite) :
    (∀ j : Json, j.sorted = p.toJson.sorted → Plan.ofJson? j = some p) ∧
      (p.toJson.sorted = q.toJson.sorted → p = q) ∧
      (p.Literals Value.Untagged →
        ∀ j : Json, j.sorted = p.toJson.withFloatBits.sorted → Plan.ofJson? j.withFloats = some p) ∧
      (p.Literals Value.Untagged → q.Literals Value.Untagged →
        p.toJson.withFloatBits.sorted = q.toJson.withFloatBits.sorted → p = q) := by
  refine ⟨fun j => Plan.ofJson?_of_sorted_eq hp, fun h => ?_,
    fun hpu j => Plan.ofJson?_withFloats_of_sorted_eq hp hpu, fun hpu hqu h => ?_⟩
  · have hread := Plan.ofJson?_of_sorted_eq hp rfl
    rw [Plan.ofJson?_of_sorted_eq hq h] at hread
    exact (Option.some.inj hread).symm
  · have hread := Plan.ofJson?_withFloats_of_sorted_eq hp hpu rfl
    rw [Plan.ofJson?_withFloats_of_sorted_eq hq hqu h] at hread
    exact (Option.some.inj hread).symm

/-- A new object whose total is `x`, with a note that uses the key of the bits beside another. -/
def balanceOf (x : Float) : Plan :=
  .createObject ⟨7⟩ ⟨0, "object"⟩ [
    .setField ⟨3⟩ "total" (.literal (.float x)),
    .setField ⟨4⟩ "note" (.literal (.object [("$f64", .string "0"), ("at", .list [.float x])])),
    .setEdge ⟨⟨⟨7⟩, ⟨5⟩, ⟨8⟩, none⟩, true⟩ (.var ⟨0, "object"⟩) none]

theorem literals_balanceOf {P : Value → Prop} (x : Float) : (balanceOf x).Literals P ↔
    P (.float x) ∧ P (.object [("$f64", .string "0"), ("at", .list [.float x])]) := by
  simp [balanceOf, Plan.Literals, Plan.nodes, Plan.inside, Plan.insideItems, Plan.insideOption]

theorem sorted_finite_balanceOf {x : Float} (h : x.isFinite = true) :
    (balanceOf x).Literals fun v => v.Sorted ∧ v.Finite := by
  have hkeys : ("$f64" : String) < "at" := by decide
  have hsorted : (Value.object [("$f64", .string "0"), ("at", .list [.float x])]).Sorted := by
    refine Value.sorted_object.2 ⟨List.pairwise_pair.2 hkeys, ?_⟩
    simp [Value.Sorted, Value.SortedItems]
  refine (literals_balanceOf x).2 ⟨⟨trivial, ?_⟩, hsorted, ?_⟩ <;>
    simp [Value.Finite, Value.nodes, Value.itemNodes, Value.entryNodes, h]

theorem untagged_balanceOf (x : Float) : (balanceOf x).Literals Value.Untagged := by
  rw [literals_balanceOf]
  simp [Value.Untagged, Value.nodes, Value.itemNodes, Value.entryNodes, Entries.keys]

/-- A total of zero and one of negative zero have different documents in both ways of writing
floats, and the negative one is read back from either. -/
theorem zero_balances_told_apart :
    Plan.ofJson? (balanceOf (-0.0)).toJson = some (balanceOf (-0.0)) ∧
      Plan.ofJson? (balanceOf (-0.0)).toJson.withFloatBits.withFloats = some (balanceOf (-0.0)) ∧
      (balanceOf (-0.0)).toJson.sorted ≠ (balanceOf 0.0).toJson.sorted ∧
      (balanceOf (-0.0)).toJson.withFloatBits.sorted ≠
        (balanceOf 0.0).toJson.withFloatBits.sorted := by
  have hne : balanceOf (-0.0) ≠ balanceOf 0.0 := by
    intro h
    have hzero : (-0.0 : Float) = 0.0 := by simpa [balanceOf] using h
    exact absurd hzero (by decide)
  have hminus : (-0.0 : Float).isFinite = true := by decide
  have hplus : (0.0 : Float).isFinite = true := by decide
  obtain ⟨hread, hinj, hreadBits, hinjBits⟩ :=
    plan_documents_faithful (sorted_finite_balanceOf hminus) (sorted_finite_balanceOf hplus)
  exact ⟨hread _ rfl, hreadBits (untagged_balanceOf _) _ rfl, fun h => hne (hinj h),
    fun h => hne (hinjBits (untagged_balanceOf _) (untagged_balanceOf _) h)⟩

end EntityGraph
