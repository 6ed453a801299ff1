import EntityGraph.Proofs.Evaluation
import EntityGraph.Proofs.NormalForms
import EntityGraph.Proofs.Renaming
import EntityGraph.Proofs.Reordering

/-!
# Updates of children

An input that updates children takes a list of entries, each for the child with a given identity.
The stored list of children is transformed as a whole: every child stays at its place, and what
replaces it is found by trying the entries in order. An identity is compared as it is after
coercion, where a number and its decimal text are the same, and a list that gives one twice is
refused. So at most one entry is for a child, whichever is tried first.

`Plan.choice` is what is left of a plan once its conditions are decided. For a child it is the
update that its entry makes, or the child itself. The order of entries makes no difference, but for
the numbers of variables: entries draw theirs one after another, and `Plan.Renamed` says that this
is all.

## Main definitions

* `Plan.choice` — the branch of a plan that is taken
* `Value.Addresses` — the identity that an entry is for
* `Shape.Dispatches` — what is chosen for each child

## Main results

* `Shape.MakesUpdates.dispatches` — the chain of updates chooses by identity
* `Shape.Dispatches.renamed` — entries in another order choose the same
* `children_updated_by_identity` — updates of children in accepted schemas
-/

namespace EntityGraph

variable {s : Schema} {one all : Shape} {filter i : Input} {r u v w x : Value} {type : TypeDef}
  {store : Store} {env : Environment} {child : Variable} {n m : Nat}

/-! ### Choices -/

namespace Plan

/-- What is left of a plan when its conditions are decided. -/
def choice (store : Store) : Plan → Environment → Option Plan
  | .conditional condition yes no, env =>
    ((eval store condition env).bind Value.bool?).bind fun holds =>
      bif holds then choice store yes env else choice store no env
  | p, _ => some p

/-- The value of a plan is that of what is left of it. -/
theorem eval_eq_choice (p : Plan) :
    p.eval store env = (p.choice store env).bind (·.eval store env) := by
  induction p using Plan.induct_parts with
  | step p ih =>
    cases p with
    | conditional condition yes no =>
      rw [eval, choice]
      cases (eval store condition env).bind Value.bool? with
      | none => rfl
      | some holds =>
        cases holds with
        | true => exact ih yes (by simp [parts])
        | false => exact ih no (by simp [parts])
    | _ => rfl

/-- Updates are tried in order, until one has the identity of the child. -/
theorem choice_updateChain_cons (hx : env child.id = some x) (id : Value) (step : Plan)
    (updates : List (Value × Plan)) :
    (updateChain child ((id, step) :: updates)).choice store env =
      bif store.identity x == id then step.choice store env
      else (updateChain child updates).choice store env := by
  have htest : (Plan.eq (.entityId (.var child)) (.literal id)).eval store env =
      some (.bool (store.identity x == id)) := by
    rw [Plan.eq, eval, eval, eval, eval, hx]
    rfl
  show choice store (.conditional _ _ _) env = _
  rw [choice, htest]
  rfl

end Plan

theorem Value.beq_string_iff {text : String} :
    (v == Value.string text) = true ↔ v = .string text := by
  cases v with
  | string text' => rw [Value.beq_string, beq_iff_eq, Value.string.injEq]
  | null | bool | int | float | list | object => exact iff_of_false nofun nofun

/-! ### Entries and the children they are for -/

/-- The entry is for the child with the identity. -/
def Value.Addresses (r identity : Value) : Prop :=
  ∃ id, r.get? identityName = some id ∧ coerceId identityName id = .ok identity

theorem Value.addresses_iff {id own : Value} (hid : r.get? identityName = some id)
    (hown : coerceId identityName id = .ok own) (identity : Value) :
    r.Addresses identity ↔ identity = own := by
  constructor
  · rintro ⟨id', hid', hcoerce⟩
    obtain rfl : id = id' := Option.some.inj (hid.symm.trans hid')
    exact Except.ok.inj (hcoerce.symm.trans hown)
  · rintro rfl
    exact ⟨id, hid, hown⟩

namespace Shape

/-- A coerced entry has the identity that the supplied one is for, as text. -/
theorem Identifies.exists_text (h : Identifies one all filter) (hr : one.coerce s r = .ok u) :
    ∃ text, u.identityText? = some text ∧ one.identity? u = some (.string text) ∧
      ∀ identity, r.Addresses identity ↔ identity = .string text := by
  cases r with
  | null | bool | int | float | string | list => cases hr
  | object entries =>
    rw [coerce, coerceObject] at hr
    obtain ⟨coerced, hcoerced, hcomplete⟩ := bind_eq_ok.1 hr
    obtain ⟨-, hgiven, rfl⟩ := complete_eq_ok_iff.1 hcomplete
    have hgiven := hgiven filter h.filter?
    have hfilled : one.fillDefaults coerced = coerced := by rw [fillDefaults, h.role]
    rw [hfilled, h.name, Entries.has, Option.isSome_iff_exists] at hgiven
    rw [hfilled]
    obtain ⟨identity, hidentity⟩ := hgiven
    have hkept : ∀ x, filter.isNoChange x = false := by
      intro x
      rw [Input.isNoChange, h.kind]
    obtain ⟨raw, hraw, hvalue⟩ :=
      exists_get?_of_coerceEntries hcoerced h.input?_identity hkept hidentity
    rw [Input.coerce, Input.coerceWith, h.kind] at hvalue
    simp only [h.name] at hvalue
    have hstring := isString_of_coerceId hvalue
    cases identity with
    | null | bool | int | float | list | object => cases hstring
    | string text =>
      refine ⟨text, ?_, ?_, Value.addresses_iff hraw hvalue⟩
      · rw [Value.identityText?, Value.get?, Value.entries_object, hidentity]
        rfl
      · rw [identity?, h.filter?, Option.bind_some, h.name]
        exact hidentity

theorem update_ran {target : Plan} : (one.update target (changes s u)).Yields n
    (one.Updates s.Ran target u n) := update_yields fun _ _ _ _ h => h

/-- The plan updates a child as an entry says, with variables from some supply. -/
def MakesUpdate (s : Schema) (one : Shape) (child : Variable) (u : Value) (step : Plan) : Prop :=
  ∃ supply rest, (one.update (.var child) (changes s u)).outcome supply = (.ok step, rest)

theorem MakesUpdate.of_updates {step : Plan} (h : one.Updates s.Ran (.var child) u n step m) :
    one.MakesUpdate s child u step := by
  obtain ⟨steps, rfl, hsteps⟩ := h
  have hran : (changes s u one.inputs (.var ⟨n, "target"⟩)).outcome ⟨n + 1⟩ = (.ok steps, ⟨m⟩) :=
    hsteps
  refine ⟨⟨n⟩, ⟨m⟩, ?_⟩
  rw [update, Planner.outcome_bind, outcome_fresh]
  simp only [Planner.outcome_bind, hran, Planner.outcome_pure]

theorem MakesUpdate.choice {step : Plan} (h : one.MakesUpdate s child u step) :
    step.choice store env = some step := by
  obtain ⟨supply, rest, hstep⟩ := h
  obtain ⟨steps, rfl, -⟩ := update_ran.result hstep
  rfl

/-- Updates from one entry are the same up to variables. -/
theorem MakesUpdate.renamed {child' : Variable} {step step' : Plan} (hone : s.HasShape one)
    (h : one.MakesUpdate s child u step) (h' : one.MakesUpdate s child' u step') :
    Plan.Renamed [(child, child')] [step] [step'] := by
  obtain ⟨supply, rest, hstep⟩ := h
  obtain ⟨supply', rest', hstep'⟩ := h'
  have hchild : Plan.Renamed [(child, child')] [.var child] [.var child'] := .var .here .nil
  have hupdates : (one.update (.var child) (changes s u)).Yields supply.next
      (one.Updates s.Repeats (.var child) u supply.next) :=
    update_yields (s.hereditary_repeats.changes u one hone)
  exact Updates.renamed hchild (hupdates.result hstep) (update_ran.result hstep')

/-- What a plan chooses for each child: the update of its entry, and the child where there is none.
-/
structure Dispatches (s : Schema) (one : Shape) (rs : List Value) (child : Variable)
    (inner : Plan) : Prop where
  addressed (store : Store) (env : Environment) (x : Value) (hx : env child.id = some x) (r : Value)
    (hr : r ∈ rs) (h : r.Addresses (store.identity x)) :
    ∃ u step, one.coerce s r = .ok u ∧ one.MakesUpdate s child u step ∧
      inner.choice store env = some step
  others (store : Store) (env : Environment) (x : Value) (hx : env child.id = some x)
    (h : ∀ r ∈ rs, ¬r.Addresses (store.identity x)) :
    inner.choice store env = some (.var child) ∧ inner.eval store env = some x

end Shape

/-! ### The chain of updates -/

section Chain

variable {us : List Value} {updates : List (Value × Plan)} {text : String}

/-- Updates that were made from entries with identities, in their order. -/
def Shape.MakesUpdates (s : Schema) (one : Shape) (child : Variable) :
    List Value → List (Value × Plan) → Prop :=
  List.Forall₂ fun u update => update.1 = (u.get? identityName).getD .null ∧
    one.MakesUpdate s child u update.2

theorem Value.getD_identity (h : u.identityText? = some text) :
    (u.get? identityName).getD .null = .string text := by
  rw [identityText?] at h
  obtain ⟨id, hid, hstring⟩ := Option.bind_eq_some_iff.1 h
  rw [hid]
  cases id with
  | string text' => rw [Option.getD_some, Option.some.inj hstring]
  | null | bool | int | float | list | object => cases hstring

/-- The update of an entry is chosen for its child, wherever it stands, if no other entry has the
identity. -/
theorem Shape.MakesUpdates.choice_of_mem (h : one.MakesUpdates s child us updates)
    (htexts : ∀ u ∈ us, ∃ text, u.identityText? = some text)
    (hnodup : (us.map Value.identityText?).Nodup) (hu : u ∈ us)
    (htext : u.identityText? = some text) (hx : env child.id = some x)
    (hid : store.identity x = .string text) :
    ∃ step, one.MakesUpdate s child u step ∧
      (updateChain child updates).choice store env = some step := by
  induction h with
  | nil => cases hu
  | @cons u' update us updates hupdate _ ih =>
    obtain ⟨id, step⟩ := update
    obtain ⟨hown, hstep⟩ := hupdate
    obtain ⟨⟨text', htext'⟩, htexts⟩ := List.forall_mem_cons.1 htexts
    obtain ⟨hfirst, hnodup⟩ := List.nodup_cons.1 hnodup
    rw [Plan.choice_updateChain_cons hx]
    obtain rfl : id = .string text' := hown.trans (Value.getD_identity htext')
    rcases List.mem_cons.1 hu with rfl | hu
    · obtain rfl : text' = text := Option.some.inj (htext'.symm.trans htext)
      refine ⟨step, hstep, ?_⟩
      rw [Value.beq_string_iff.2 hid, cond_true, hstep.choice]
    · -- The first entry is for another child, so the chain goes on.
      have hne : (store.identity x == .string text') = false := by
        rw [hid, Value.beq_string, beq_eq_false_iff_ne]
        rintro rfl
        exact hfirst (htext'.trans htext.symm ▸ List.mem_map_of_mem hu)
      rw [hne, cond_false]
      exact ih htexts hnodup hu

/-- A child that no entry is for stays as it is. -/
theorem Shape.MakesUpdates.choice_of_forall (h : one.MakesUpdates s child us updates)
    (htexts : ∀ u ∈ us, ∃ text, u.identityText? = some text ∧ store.identity x ≠ .string text)
    (hx : env child.id = some x) :
    (updateChain child updates).choice store env = some (.var child) := by
  induction h with
  | nil => rfl
  | @cons u update us updates hupdate _ ih =>
    obtain ⟨id, step⟩ := update
    obtain ⟨⟨text, htext, hne⟩, htexts⟩ := List.forall_mem_cons.1 htexts
    obtain rfl : id = .string text := hupdate.1.trans (Value.getD_identity htext)
    have hother : (store.identity x == .string text) = false := by
      rw [Bool.eq_false_iff, ne_eq, Value.beq_string_iff]
      exact hne
    rw [Plan.choice_updateChain_cons hx, hother, cond_false]
    exact ih htexts

end Chain

/-! ### The input -/

namespace Input

/-- The step that transforms the stored children, where they stand and without a limit. -/
def transformChildren (i : Input) (current : Plan) (child : Variable) (inner : Plan) : Plan :=
  i.set (.transformList (i.storedParts current) child none none (some inner))

/-- The steps of an input that updates children. -/
theorem plan_updateChildren {role : Role} {f : FieldDef} {current : Plan} (hi : s.Offers role f i)
    (hkind : i.kind = .updateChildren type) (hone : s.shape .update type = .ok one) :
    (i.plan s w current).Yields n fun steps _ =>
      (w.items = [] → steps = []) ∧ (w.items ≠ [] → ∃ updates,
        steps = [i.transformChildren current ⟨n, "child"⟩ (updateChain ⟨n, "child"⟩ updates)] ∧
        one.MakesUpdates s ⟨n, "child"⟩ w.items updates) := by
  refine (plan_makes hi (i.objectsYield_ran s w)).imp fun steps m hmakes => ?_
  have hform : i.form w = if w.items.isEmpty then .nothing else .updateChildren := by
    rw [form, hkind]
  rw [hform] at hmakes
  constructor
  · intro hnil
    rw [hnil] at hmakes
    cases hmakes
    rfl
  · intro hne
    rw [if_neg (mt List.isEmpty_iff.1 hne)] at hmakes
    cases hmakes with
    | updateChildren hn hshape hupdates _ hkind' =>
      cases hkind.symm.trans hkind'
      obtain rfl := Except.ok.inj (hone.symm.trans hshape)
      refine ⟨_, rfl, hupdates.forall₂ fun u _ k update l hupdate => ⟨hupdate.1, ?_⟩⟩
      exact .of_updates hupdate.2

end Input

/-! ### Coerced lists of entries -/

section Entries

variable {rs us : List Value}

/-- The identities of coerced entries are texts. -/
theorem exists_text_of_mem (h : Shape.Identifies one all filter)
    (hus : rs.mapM (one.coerce s) = .ok us) (hu : u ∈ us) :
    ∃ text, u.identityText? = some text ∧ one.identity? u = some (.string text) := by
  obtain ⟨r, -, hr⟩ := exists_of_mem_mapM hus hu
  obtain ⟨text, htext, hidentity, -⟩ := h.exists_text hr
  exact ⟨text, htext, hidentity⟩

/-- No identity is given twice exactly if the texts are distinct. -/
theorem firstRepeated?_eq_none_iff_nodup (h : Shape.Identifies one all filter)
    (hus : rs.mapM (one.coerce s) = .ok us) :
    firstRepeated? [] (us.filterMap one.identity?) = none ↔
      (us.map Value.identityText?).Nodup :=
  firstRepeated?_identities fun _ hu => exists_text_of_mem h hus hu

/-- Entries with distinct identities are for different children. -/
theorem pairwise_addresses (h : Shape.Identifies one all filter)
    (hus : rs.mapM (one.coerce s) = .ok us) (hnodup : (us.map Value.identityText?).Nodup) :
    rs.Pairwise fun r r' => ∀ identity, r.Addresses identity → ¬r'.Addresses identity := by
  have hcoerced := forall₂_of_mapM_eq_ok hus
  clear hus
  induction hcoerced with
  | nil => exact .nil
  | @cons r u rs us hr hrs ih =>
    obtain ⟨hfirst, hnodup⟩ := List.nodup_cons.1 hnodup
    refine List.pairwise_cons.2 ⟨fun r' hr' identity hown hother => ?_, ih hnodup⟩
    obtain ⟨u', hu', hcoerce⟩ := exists_of_forall₂_of_mem hrs.flip hr'
    obtain ⟨text, htext, -, haddress⟩ := h.exists_text hr
    obtain ⟨text', htext', -, haddress'⟩ := h.exists_text hcoerce
    have hsame := ((haddress identity).1 hown).symm.trans ((haddress' identity).1 hother)
    obtain rfl := Value.string.inj hsame
    exact hfirst (htext.trans htext'.symm ▸ List.mem_map_of_mem hu')

/-- The chain of updates chooses for each child what its entry makes. -/
theorem Shape.MakesUpdates.dispatches {updates : List (Value × Plan)}
    (h : Shape.Identifies one all filter) (hus : rs.mapM (one.coerce s) = .ok us)
    (hnodup : (us.map Value.identityText?).Nodup) (hupdates : one.MakesUpdates s child us updates) :
    one.Dispatches s rs child (updateChain child updates) := by
  have hcoerced := forall₂_of_mapM_eq_ok hus
  constructor
  · intro store env x hx r hr haddresses
    obtain ⟨u, hu, hcoerce⟩ := exists_of_forall₂_of_mem hcoerced.flip hr
    obtain ⟨text, htext, -, haddress⟩ := h.exists_text hcoerce
    have htexts : ∀ u ∈ us, ∃ text, u.identityText? = some text := by
      intro u hu
      obtain ⟨text, htext, -⟩ := exists_text_of_mem h hus hu
      exact ⟨text, htext⟩
    obtain ⟨step, hstep, hchoice⟩ := hupdates.choice_of_mem htexts hnodup hu htext hx
      ((haddress _).1 haddresses)
    exact ⟨u, step, hcoerce, hstep, hchoice⟩
  · intro store env x hx hothers
    have hchoice : (updateChain child updates).choice store env = some (.var child) := by
      refine hupdates.choice_of_forall (fun u hu => ?_) hx
      obtain ⟨r, hr, hcoerce⟩ := exists_of_mem_mapM hus hu
      obtain ⟨text, htext, -, haddress⟩ := h.exists_text hcoerce
      exact ⟨text, htext, fun hid => hothers r hr ((haddress _).2 hid)⟩
    refine ⟨hchoice, ?_⟩
    rw [Plan.eval_eq_choice, hchoice, Option.bind_some, Plan.eval, hx]

/-- Two plans that choose by the same entries choose the same, up to variables. -/
theorem Shape.Dispatches.renamed {rs' : List Value} {child' : Variable} {inner inner' : Plan}
    {env' : Environment} (hone : s.HasShape one) (hperm : rs'.Perm rs)
    (h : one.Dispatches s rs child inner) (h' : one.Dispatches s rs' child' inner')
    (hx : env child.id = some x) (hx' : env' child'.id = some x) :
    ∃ p p', inner.choice store env = some p ∧ inner'.choice store env' = some p' ∧
      Plan.Renamed [(child, child')] [p] [p'] := by
  -- Both lists have the same entries, so either both have one for the child or neither has.
  by_cases haddressed : ∃ r ∈ rs, r.Addresses (store.identity x)
  · obtain ⟨r, hr, haddresses⟩ := haddressed
    obtain ⟨u, step, hu, hstep, hchoice⟩ := h.addressed store env x hx r hr haddresses
    obtain ⟨u', step', hu', hstep', hchoice'⟩ :=
      h'.addressed store env' x hx' r (hperm.mem_iff.2 hr) haddresses
    obtain rfl : u = u' := Except.ok.inj (hu.symm.trans hu')
    exact ⟨step, step', hchoice, hchoice', hstep.renamed hone hstep'⟩
  · push Not at haddressed
    have hchoice := (h.others store env x hx haddressed).1
    have hchoice' := (h'.others store env' x hx' fun r hr =>
      haddressed r (hperm.mem_iff.1 hr)).1
    exact ⟨_, _, hchoice, hchoice', .var .here .nil⟩

/-- The steps for entries: none without entries, and otherwise a transformation that dispatches to
them. -/
def Input.Revises (s : Schema) (one : Shape) (i : Input) (rs : List Value) (current : Plan)
    (n : Nat) (steps : List Plan) : Prop :=
  (rs = [] → steps = []) ∧ (rs ≠ [] → ∃ inner,
    steps = [i.transformChildren current ⟨n, "child"⟩ inner] ∧
      one.Dispatches s rs ⟨n, "child"⟩ inner)

theorem Input.Revises.dispatches {current inner : Plan}
    (h : i.Revises s one rs current n [i.transformChildren current ⟨n, "child"⟩ inner]) :
    one.Dispatches s rs ⟨n, "child"⟩ inner := by
  by_cases hnil : rs = []
  · cases h.1 hnil
  · obtain ⟨inner', hinner, hdispatches⟩ := h.2 hnil
    cases hinner
    exact hdispatches

/-- An input that updates children dispatches to its entries. -/
theorem Input.plan_revises {role : Role} {f : FieldDef} (hi : s.Offers role f i)
    (hkind : i.kind = .updateChildren type) (hone : s.shape .update type = .ok one)
    (h : Shape.Identifies one all filter) (hus : rs.mapM (one.coerce s) = .ok us)
    (hnodup : (us.map Value.identityText?).Nodup) (current : Plan) (n : Nat) :
    (i.plan s (.list us) current).Yields n fun steps _ => i.Revises s one rs current n steps := by
  have hempty : rs = [] ↔ us = [] := by
    rw [← List.length_eq_zero_iff, ← List.length_eq_zero_iff, (forall₂_of_mapM_eq_ok hus).length_eq]
  refine (plan_updateChildren hi hkind hone).imp fun steps m hsteps =>
    ⟨fun hnil => ?_, fun hne => ?_⟩
  · exact hsteps.1 (hempty.1 hnil)
  · obtain ⟨updates, hplan, hupdates⟩ := hsteps.2 fun hnil => hne (hempty.2 hnil)
    exact ⟨_, hplan, hupdates.dispatches h hus hnodup⟩

end Entries

/-- Every value has its steps, whatever input of the schema it is given to. -/
theorem Schema.Lawful.plan_succeeds (h : s.Lawful) (hi : s.HasInput i) (v : Value)
    (current : Plan) : (i.plan s v current).Ensures (fun _ => True) fun _ => False := by
  rw [Input.plan, itemWriters_eq]
  refine h.planWith_succeeds hi v (h.changes_succeed v) ?_ current
  rw [List.forall_mem_map]
  exact fun u _ => h.changes_succeed u

/-! ### Accepted schemas -/

/-- **Children are updated by their identities.** Updates of children reach exactly the children
that they are for, in whatever order they are given. An identity is given once at most, where a
number is its decimal text. -/
theorem children_updated_by_identity {decl : SchemaDecl} {a : AcceptedSchema}
    (h : decl.accept = .ok a) {t : TypeDef} (ht : t ∈ a.schema.types) {role : Role} {shape : Shape}
    (hshape : a.schema.shape role t = .ok shape) (hi : i ∈ shape.inputs)
    (hkind : i.kind = .updateChildren type) (hw : i.coerce a.schema v = .ok w) :
    ∃ one, a.schema.shape .update type = .ok one ∧
      (∀ r ∈ v.items, ∃ text, r.Addresses (.string text)) ∧
      (v.items.Pairwise fun r r' => ∀ identity, r.Addresses identity → ¬r'.Addresses identity) ∧
      (∀ current n, ∃ steps rest, (i.plan a.schema w current).outcome ⟨n⟩ = (.ok steps, rest) ∧
        i.Revises a.schema one v.items current n steps) ∧
      (∀ rs : List Value, rs.Perm v.items → ∃ w', i.coerce a.schema (.list rs) = .ok w' ∧
        w'.items.Perm w.items ∧
        ∀ current n n' inner inner' rest rest',
          (i.plan a.schema w current).outcome ⟨n⟩ =
            (.ok [i.transformChildren current ⟨n, "child"⟩ inner], rest) →
          (i.plan a.schema w' current).outcome ⟨n'⟩ =
            (.ok [i.transformChildren current ⟨n', "child"⟩ inner'], rest') →
          ∀ store env env' x, env n = some x → env' n' = some x →
            ∃ p p', inner.choice store env = some p ∧ inner'.choice store env' = some p' ∧
              Plan.Renamed [(⟨n, "child"⟩, ⟨n', "child"⟩)] [p] [p']) ∧
      ∀ r : Value, (∀ number, r.get? identityName = some (.int number) →
          ∀ identity, r.Addresses identity ↔ identity = .string (toString number.toInt)) ∧
        ∀ text, r.get? identityName = some (.string text) →
          ∀ identity, r.Addresses identity ↔ identity = .string text := by
  have hs := SchemaDecl.lawful_of_accept h
  obtain ⟨f, hf, hoffers⟩ := Schema.exists_offers_of_mem_shape hshape hi
  have hhas : a.schema.HasInput i := ⟨role, t, ht, f, hf, hoffers⟩
  obtain ⟨one, all, filter, hone, hidentifies⟩ :=
    Input.exists_identifies_of_updateChildren hs hhas hkind
  obtain ⟨us, hus, hfresh, rfl⟩ := Input.coerced_updateChildren hkind hone hw
  have hnodup := (firstRepeated?_eq_none_iff_nodup hidentifies hus).1 hfresh
  -- Supplies are not compared: each order of the entries dispatches by itself.
  refine ⟨one, hone, fun r hr => ?_, pairwise_addresses hidentifies hus hnodup, fun current n => ?_,
    fun rs hperm => ?_, fun r => ⟨fun number hid => Value.addresses_iff hid rfl,
      fun text hid => Value.addresses_iff hid rfl⟩⟩
  · obtain ⟨u, -, hu⟩ := exists_of_forall₂_of_mem (forall₂_of_mapM_eq_ok hus).flip hr
    obtain ⟨text, -, -, haddress⟩ := hidentifies.exists_text hu
    exact ⟨text, (haddress _).2 rfl⟩
  · obtain ⟨steps, rest, hsteps, -⟩ := (hs.plan_succeeds hhas (.list us) current).exists_ok ⟨n⟩
    exact ⟨steps, rest, hsteps,
      (Input.plan_revises hoffers hkind hone hidentifies hus hnodup current n).result hsteps⟩
  · obtain ⟨us', hus', hitems⟩ := exists_mapM_perm hperm.symm hus
    have hnodup' := (hitems.map Value.identityText?).nodup_iff.1 hnodup
    have hfresh' := (firstRepeated?_eq_none_iff_nodup hidentifies hus').2 hnodup'
    refine ⟨.list us', Input.coerce_updateChildren hkind hone hus' hfresh', hitems.symm, ?_⟩
    intro current n n' inner inner' rest rest' hplan hplan' store env env' x hx hx'
    have hrevises := Input.plan_revises hoffers hkind hone hidentifies hus hnodup current n
    have hrevises' := Input.plan_revises hoffers hkind hone hidentifies hus' hnodup' current n'
    have hnested : i.kind.nested? = some (.update, type) := by
      rw [hkind]
      rfl
    have hmade := (Schema.hasShape_of_shape (hhas.nested_mem hnested) hone).1
    exact (hrevises.result hplan).dispatches.renamed hmade hperm
      (hrevises'.result hplan').dispatches hx hx'

/-- Two items of an order in the shop are changed, one given by a number and one by a text. -/
theorem shop_items_updated_in_any_order : ∃ order ∈ shop.schema.types, order.name = "Order" ∧
    ∃ shape i item one w w' inner inner' rest rest', shop.schema.shape .update order = .ok shape ∧
      i ∈ shape.inputs ∧ i.name = "updateItems" ∧ i.kind = .updateChildren item ∧
      shop.schema.shape .update item = .ok one ∧
      i.coerce shop.schema (.list [.object [("id", .int 4), ("sku", .string "red")],
        .object [("id", .string "5"), ("sku", .string "blue")]]) = .ok w ∧
      i.coerce shop.schema (.list [.object [("id", .string "5"), ("sku", .string "blue")],
        .object [("id", .int 4), ("sku", .string "red")]]) = .ok w' ∧
      (i.plan shop.schema w (.entities order.id)).outcome ⟨5⟩ =
        (.ok [i.transformChildren (.entities order.id) ⟨5, "child"⟩ inner], rest) ∧
      (i.plan shop.schema w' (.entities order.id)).outcome ⟨9⟩ =
        (.ok [i.transformChildren (.entities order.id) ⟨9, "child"⟩ inner'], rest') ∧
      (∀ store env x, env 5 = some x → store.identity x = .string "4" → ∃ u step,
        one.coerce shop.schema (.object [("id", .int 4), ("sku", .string "red")]) = .ok u ∧
          one.MakesUpdate shop.schema ⟨5, "child"⟩ u step ∧ inner.choice store env = some step) ∧
      (∀ store env x, env 5 = some x → store.identity x = .string "6" →
        inner.choice store env = some (.var ⟨5, "child"⟩)) ∧
      ∀ store env env' x, env 5 = some x → env' 9 = some x → ∃ p p',
        inner.choice store env = some p ∧ inner'.choice store env' = some p' ∧
          Plan.Renamed [(⟨5, "child"⟩, ⟨9, "child"⟩)] [p] [p'] := by
  have ht : shop.schema.types.get ⟨8, by decide⟩ ∈ shop.schema.types := List.get_mem _ _
  have hevaluated : ∃ shape, shop.schema.shape .update (shop.schema.types.get ⟨8, by decide⟩) =
      .ok shape ∧ ∃ i, shape.input? "updateItems" = some i ∧ ∃ item, i.kind = .updateChildren item ∧
      ∃ w, i.coerce shop.schema (.list [.object [("id", .int 4), ("sku", .string "red")],
        .object [("id", .string "5"), ("sku", .string "blue")]]) = .ok w :=
    ⟨_, rfl, _, rfl, _, rfl, _, rfl⟩
  obtain ⟨shape, hshape, i, hi, item, hkind, w, hw⟩ := hevaluated
  have hmem : i ∈ shape.inputs := List.mem_of_find?_eq_some hi
  have hname : i.name = "updateItems" := by simpa using List.find?_some hi
  obtain ⟨one, hone, -, -, hplan, hperm, haddresses⟩ :=
    children_updated_by_identity accept_shopDecl ht hshape hmem hkind hw
  obtain ⟨steps, rest, hsteps, hrevises⟩ := hplan (.entities _) 5
  obtain ⟨inner, rfl, hdispatches⟩ := hrevises.2 nofun
  obtain ⟨w', hw', -, hsame⟩ := hperm _ (.swap _ _ [])
  obtain ⟨one', -, -, -, hplan', -⟩ :=
    children_updated_by_identity accept_shopDecl ht hshape hmem hkind hw'
  obtain ⟨steps', rest', hsteps', hrevises'⟩ := hplan' (.entities _) 9
  obtain ⟨inner', rfl, -⟩ := hrevises'.2 nofun
  refine ⟨_, ht, rfl, shape, i, item, one, w, w', inner, inner', rest, rest', hshape, hmem, hname,
    hkind, hone, hw, hw', hsteps, hsteps', fun store env x hx hid => ?_,
    fun store env x hx hid => ?_, hsame _ 5 9 inner inner' rest rest' hsteps hsteps'⟩
  · exact hdispatches.addressed store env x hx _ (.head _) (((haddresses _).1 4 rfl _).2 hid)
  · refine (hdispatches.others store env x hx fun r hr haddress => ?_).1
    rw [hid] at haddress
    rcases List.mem_pair.1 hr with rfl | rfl
    · exact absurd (Value.string.inj (((haddresses _).1 4 rfl _).1 haddress)) (by decide)
    · exact absurd (Value.string.inj (((haddresses _).2 "5" rfl _).1 haddress)) (by decide)

end EntityGraph
