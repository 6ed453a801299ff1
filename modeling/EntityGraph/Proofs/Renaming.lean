import EntityGraph.Proofs.Binding
import EntityGraph.Proofs.Steps

/-!
# Plans up to the numbers of their variables

The numbers of the variables in a plan depend on the supply that it was made with, and nothing else
of it does. `Plan.Renamed` relates two plans that differ in the variables that they bind and have
these in the same places. It walks through both at once, with a list that pairs the variables in
scope on one side with those on the other, innermost first. Every variable has to be in scope.

What an input object changes mentions no variable but the one of its own object and those bound
inside. So pairs for what lies around can be added at the far end of the list, where they shadow
nothing, and the numbers of the two supplies need not be compared at all.

## Main definitions

* `Plan.frame` — the outermost step of a plan by itself
* `Plan.Paired`, `Plan.Renamed` — the same plans with other variables
* `Schema.Repeats` — the law of steps that are the same up to variables whenever they are made

## Main results

* `Plan.Renamed.plain`, `Plan.Renamed.bind` — steps that bind nothing, and steps that bind
* `Input.Makes.renamed` — steps of one form are the same up to variables
* `Schema.hereditary_repeats` — an input object makes the same changes from every supply
-/

namespace EntityGraph

namespace Plan

/-! ### Frames -/

/-- The outermost step of a plan by itself, without its parts and the number of its variable. -/
def frame : Plan → Plan
  | .field _ f name => .field null f name
  | .entityId _ => .entityId null
  | .conditional _ _ _ => .conditional null null null
  | .typeCheck _ shape => .typeCheck null shape
  | .transformList _ item filter maxCount inner =>
    .transformList null ⟨0, item.label⟩ (filter.map fun _ => null) maxCount
      (inner.map fun _ => null)
  | .firstOfList _ => .firstOfList null
  | .followEdge side _ => .followEdge side null
  | .binary op _ _ => .binary op null null
  | .unary op _ => .unary op null
  | .object properties => .object (properties.map fun property => (property.1, null))
  | .list _ => .list []
  | .setField f name _ => .setField f name null
  | .addEdges side _ _ => .addEdges side null null
  | .removeEdges side _ _ => .removeEdges side null null
  | .setEdge side _ target => .setEdge side null (target.map fun _ => null)
  | .createObject type binding _ => .createObject type ⟨0, binding.label⟩ []
  | .updateObject _ binding _ => .updateObject null ⟨0, binding.label⟩ []
  | .deleteObject type _ => .deleteObject type null
  | p => p

/-! ### Renamed plans -/

/-- The innermost pair with one of the two variables has both. -/
inductive Paired : List (Variable × Variable) → Variable → Variable → Prop
  | here {scope : List (Variable × Variable)} {v v' : Variable} : Paired ((v, v') :: scope) v v'
  | there {scope : List (Variable × Variable)} {b b' v v' : Variable} (hne : v.id ≠ b.id)
      (hne' : v'.id ≠ b'.id) (h : Paired scope v v') : Paired ((b, b') :: scope) v v'

/-- The plans are the same up to the numbers of their variables, which are in scope in pairs. -/
inductive Renamed : List (Variable × Variable) → List Plan → List Plan → Prop
  | nil {scope : List (Variable × Variable)} : Renamed scope [] []
  | var {scope : List (Variable × Variable)} {v v' : Variable} {ps qs : List Plan}
      (hv : Paired scope v v') (hps : Renamed scope ps qs) :
    Renamed scope (.var v :: ps) (.var v' :: qs)
  | step {scope : List (Variable × Variable)} {p q : Plan} {ps qs : List Plan}
      (hvar : p.isVar = false) (hframe : p.frame = q.frame)
      (hunbound : Renamed scope p.unbound q.unbound)
      (hbound : Renamed (p.binder?.toList.zip q.binder?.toList ++ scope) p.bound q.bound)
      (hps : Renamed scope ps qs) : Renamed scope (p :: ps) (q :: qs)

variable {scope : List (Variable × Variable)} {v v' : Variable} {p q : Plan} {ps qs : List Plan}

theorem Paired.weaken (h : Paired scope v v') (outer : List (Variable × Variable)) :
    Paired (scope ++ outer) v v' := by
  induction h with
  | here => exact .here
  | there hne hne' _ ih => exact .there hne hne' ih

namespace Renamed

/-- Variables further out than those in scope are shadowed by them, and shadow none. -/
theorem weaken (h : Renamed scope ps qs) (outer : List (Variable × Variable)) :
    Renamed (scope ++ outer) ps qs := by
  induction h with
  | nil => exact .nil
  | var hv _ ih => exact .var (hv.weaken outer) ih
  | step hvar hframe _ _ _ ihunbound ihbound ih =>
    rw [List.append_assoc] at ihbound
    exact .step hvar hframe ihunbound ihbound ih

theorem append {ps' qs' : List Plan} (h : Renamed scope ps qs) (h' : Renamed scope ps' qs') :
    Renamed scope (ps ++ ps') (qs ++ qs') := by
  induction h with
  | nil => exact h'
  | var hv _ ih => exact .var hv (ih h')
  | step hvar hframe hunbound hbound _ _ _ ih => exact .step hvar hframe hunbound hbound (ih h')

theorem cons (h : Renamed scope [p] [q]) (hps : Renamed scope ps qs) :
    Renamed scope (p :: ps) (q :: qs) := h.append hps

/-- Lists of plans that are the same one by one are so when joined. -/
theorem flatten {pss qss : List (List Plan)} (h : List.Forall₂ (Renamed scope) pss qss) :
    Renamed scope pss.flatten qss.flatten := by
  induction h with
  | nil => exact .nil
  | cons hhead _ ih => exact hhead.append ih

theorem ofForall₂ (h : List.Forall₂ (fun p q => Renamed scope [p] [q]) ps qs) :
    Renamed scope ps qs := by
  induction h with
  | nil => exact .nil
  | cons hhead _ ih => exact hhead.cons ih

/-- A step that binds nothing, from its parts. -/
theorem plain (hvar : p.isVar = false) (hframe : p.frame = q.frame) (hbinder : p.binder? = none)
    (hbinder' : q.binder? = none) (h : Renamed scope p.parts q.parts) : Renamed scope [p] [q] := by
  refine .step hvar hframe ?_ ?_ .nil
  · rw [unbound_eq_parts hbinder, unbound_eq_parts hbinder']
    exact h
  · rw [bound_eq_nil hbinder, bound_eq_nil hbinder']
    exact .nil

/-- A step that binds a variable on either side. -/
theorem bind {b b' : Variable} (hframe : p.frame = q.frame) (hbinder : p.binder? = some b)
    (hbinder' : q.binder? = some b') (hunbound : Renamed scope p.unbound q.unbound)
    (hbound : Renamed ((b, b') :: scope) p.bound q.bound) : Renamed scope [p] [q] := by
  refine .step (isVar_eq_false hbinder) hframe hunbound ?_ .nil
  rw [hbinder, hbinder']
  exact hbound

theorem literal (x : Value) : Renamed scope [.literal x] [.literal x] := .plain rfl rfl rfl rfl .nil

theorem binary {op : BinaryOperator} {lhs lhs' rhs rhs' : Plan} (hlhs : Renamed scope [lhs] [lhs'])
    (hrhs : Renamed scope [rhs] [rhs']) :
    Renamed scope [.binary op lhs rhs] [.binary op lhs' rhs'] :=
  .plain rfl rfl rfl rfl (hlhs.cons hrhs)

theorem list (h : Renamed scope ps qs) : Renamed scope [.list ps] [.list qs] :=
  .plain rfl rfl rfl rfl h

theorem storedField (h : Renamed scope [p] [q]) (f : FieldDef) :
    Renamed scope [.field p f.id f.name] [.field q f.id f.name] := .plain rfl rfl rfl rfl h

theorem ensure {fallback : Plan} {shape : ValueShape} (h : Renamed scope [p] [q])
    (hfallback : Renamed scope [fallback] [fallback]) :
    Renamed scope [p.ensure shape fallback] [q.ensure shape fallback] := by
  have htest : Renamed scope [.typeCheck p shape] [.typeCheck q shape] := .plain rfl rfl rfl rfl h
  exact .plain rfl rfl rfl rfl (htest.cons (h.cons hfallback))

theorem set (i : Input) (h : Renamed scope [p] [q]) : Renamed scope [i.set p] [i.set q] :=
  .plain rfl rfl rfl rfl h

theorem storedParts (i : Input) (h : Renamed scope [p] [q]) :
    Renamed scope [i.storedParts p] [i.storedParts q] := by
  have hstored := h.storedField i.field
  rw [Input.storedParts, Input.storedParts]
  split
  · exact hstored.ensure (list .nil)
  · exact hstored.ensure (.plain rfl rfl rfl rfl .nil)

theorem identitySteps (t : TypeDef) :
    Renamed scope (Shape.identitySteps t) (Shape.identitySteps t) := by
  rw [Shape.identitySteps]
  split
  · split
    · exact .plain rfl rfl rfl rfl (.plain rfl rfl rfl rfl .nil)
    · exact .nil
  · exact .nil

/-- An object that mentions no variable but its own, created under any scope. -/
theorem createObject {type : TypeDef} {b b' : Variable} (hlabel : b.label = b'.label)
    (h : Renamed [(b, b')] ps qs) :
    Renamed scope [.createObject type.id b (Shape.identitySteps type ++ ps)]
      [.createObject type.id b' (Shape.identitySteps type ++ qs)] := by
  refine .bind ?_ rfl rfl .nil ((identitySteps type).append (h.weaken scope))
  rw [frame, frame, hlabel]

theorem updateObject {b b' : Variable} (hlabel : b.label = b'.label)
    (htarget : Renamed scope [p] [q]) (h : Renamed [(b, b')] ps qs) :
    Renamed scope [.updateObject p b ps] [.updateObject q b' qs] := by
  refine .bind ?_ rfl rfl htarget (h.weaken scope)
  rw [frame, frame, hlabel]

end Renamed

end Plan

/-! ### Changes that are made again -/

open Plan (Renamed)

/-- If the changes of the input object are made again, from any supply and for an object that any
variable is bound to, they are the same up to variables. -/
def Schema.Repeats (s : Schema) : StepLaw := fun shape u b _ steps _ =>
  ∀ b' n', (changes s u shape.inputs (.var b')).Yields n' fun steps' _ =>
    Renamed [(b, b')] steps steps'

variable {s : Schema} {i : Input} {w u : Value} {shape : Shape} {b b' : Variable}
  {scope : List (Variable × Variable)} {n n' m m' : Nat} {p p' target target' : Plan}

namespace Shape

theorem Creates.renamed (h : shape.Creates s.Repeats u n p m)
    (h' : shape.Creates s.Ran u n' p' m') : Renamed scope [p] [p'] := by
  obtain ⟨steps, rfl, hsteps⟩ := h
  obtain ⟨steps', rfl, hsteps'⟩ := h'
  exact .createObject rfl ((hsteps _ _).result hsteps')

theorem Updates.renamed (htarget : Renamed scope [target] [target'])
    (h : shape.Updates s.Repeats target u n p m) (h' : shape.Updates s.Ran target' u n' p' m') :
    Renamed scope [p] [p'] := by
  obtain ⟨steps, rfl, hsteps⟩ := h
  obtain ⟨steps', rfl, hsteps'⟩ := h'
  exact .updateObject rfl htarget ((hsteps _ _).result hsteps')

/-- Objects that are created one after the other. -/
theorem renamed_of_chain {us : List Value} {ps ps' : List Plan}
    (h : Chain (shape.Creates s.Repeats) us n ps m)
    (h' : Chain (shape.Creates s.Ran) us n' ps' m') :
    Renamed scope ps ps' :=
  .ofForall₂ (h.both h' fun _ _ _ _ _ _ _ _ hp hp' => hp.renamed hp')

end Shape

/-- Updates that are tried in the same order, each the same up to variables. -/
theorem Plan.Renamed.updateChain {child child' : Variable} {updates updates' : List (Value × Plan)}
    (h : List.Forall₂ (fun update update' => update.1 = update'.1 ∧
      Renamed [(child, child')] [update.2] [update'.2]) updates updates') :
    Renamed [(child, child')] [EntityGraph.updateChain child updates]
      [EntityGraph.updateChain child' updates'] := by
  have hchild : Renamed [(child, child')] [.var child] [.var child'] := .var .here .nil
  induction h with
  | nil => exact hchild
  | @cons update update' _ _ hupdate _ ih =>
    obtain ⟨id, step⟩ := update
    obtain ⟨id', step'⟩ := update'
    obtain ⟨rfl, hstep⟩ : id = id' ∧ Renamed [(child, child')] [step] [step'] := hupdate
    have hid : Renamed [(child, child')] [.entityId (.var child)] [.entityId (.var child')] :=
      .plain rfl rfl rfl rfl hchild
    exact .plain rfl rfl rfl rfl ((hid.binary (.literal id)).cons (hstep.cons ih))

namespace Input

/-- The shape of the input objects of an input is the same whenever it is asked for. -/
theorem shape_unique {role : Role} {type type' : TypeDef} {shape shape' : Shape}
    (hn : i.kind.nested? = some (role, type)) (hshape : s.shape role type = .ok shape)
    (hn' : i.kind.nested? = some (role, type')) (hshape' : s.shape role type' = .ok shape') :
    shape = shape' := by
  obtain ⟨-, rfl⟩ := Prod.mk.inj (Option.some.inj (hn.symm.trans hn'))
  exact Except.ok.inj (hshape.symm.trans hshape')

/-- Steps of one form are the same up to variables. -/
theorem Makes.renamed {form : Form} {steps steps' : List Plan}
    (h : i.Makes s s.Repeats w (.var b) form n steps m)
    (h' : i.Makes s s.Ran w (.var b') form n' steps' m') : Renamed [(b, b')] steps steps' := by
  have hcurrent : Renamed [(b, b')] [.var b] [.var b'] := .var .here .nil
  have hstored := hcurrent.storedParts i
  have hliteral : Renamed [(b, b')] [.literal w] [.literal w] := .literal w
  have hsame : ∀ {side side' : RelationSide}, i.kind.side? = some side →
      i.kind.side? = some side' → side = side' :=
    fun hside hside' => Option.some.inj (hside.symm.trans hside')
  cases h with
  | nothing =>
    cases h'
    exact .nil
  | literal =>
    cases h'
    exact .set i hliteral
  | combine hkind =>
    cases h' with
    | combine hkind' =>
      cases hkind.symm.trans hkind'
      exact .set i ((hcurrent.storedField i.field).binary hliteral)
  | newObject hn hshape hp =>
    cases h' with
    | newObject hn' hshape' hp' =>
      obtain rfl := shape_unique hn hshape hn' hshape'
      exact .set i (hp.renamed hp')
  | newObjects hn hshape hps =>
    cases h' with
    | newObjects hn' hshape' hps' =>
      obtain rfl := shape_unique hn hshape hn' hshape'
      exact .set i (.list (Shape.renamed_of_chain hps hps'))
  | addChildren hn hshape hps =>
    cases h' with
    | addChildren hn' hshape' hps' =>
      obtain rfl := shape_unique hn hshape hn' hshape'
      exact .set i (hstored.binary (.list (Shape.renamed_of_chain hps hps')))
  | updateExtension hn hshape hp =>
    cases h' with
    | updateExtension hn' hshape' hp' =>
      obtain rfl := shape_unique hn hshape hn' hshape'
      exact .set i (Shape.Updates.renamed hstored hp hp')
  | updateChildren hn hshape hupdates =>
    cases h' with
    | updateChildren hn' hshape' hupdates' =>
      obtain rfl := shape_unique hn hshape hn' hshape'
      -- The updates of the children are made in the scope of the child alone.
      have hchild : Renamed [(⟨n, "child"⟩, ⟨n', "child"⟩)] [.var ⟨n, "child"⟩]
          [.var ⟨n', "child"⟩] := .var .here .nil
      refine .set i (.bind rfl rfl rfl hstored ?_)
      refine (Renamed.updateChain ?_).weaken [(b, b')]
      refine hupdates.both hupdates' fun u _ _ _ _ _ _ _ hupdate hupdate' => ?_
      exact ⟨hupdate.1.trans hupdate'.1.symm, Shape.Updates.renamed hchild hupdate.2 hupdate'.2⟩
  | removeChildren =>
    cases h'
    have hid : Renamed [(⟨n, "child"⟩, ⟨n', "child"⟩), (b, b')] [.entityId (.var ⟨n, "child"⟩)]
        [.entityId (.var ⟨n', "child"⟩)] := .plain rfl rfl rfl rfl (.var .here .nil)
    exact .set i (.bind rfl rfl rfl hstored (.plain rfl rfl rfl rfl (hid.binary (.literal w))))
  | addEdges hside =>
    cases h' with
    | addEdges hside' =>
      obtain rfl := hsame hside hside'
      exact .plain rfl rfl rfl rfl (hcurrent.cons hliteral)
  | removeEdges hside =>
    cases h' with
    | removeEdges hside' =>
      obtain rfl := hsame hside hside'
      exact .plain rfl rfl rfl rfl (hcurrent.cons hliteral)
  | setEdge hside =>
    cases h' with
    | setEdge hside' =>
      obtain rfl := hsame hside hside'
      refine .plain rfl rfl rfl rfl (hcurrent.cons ?_)
      split
      · exact .nil
      · exact hliteral
  | createAndAddEdges hside hn hshape hps =>
    cases h' with
    | createAndAddEdges hside' hn' hshape' hps' =>
      obtain rfl := hsame hside hside'
      obtain rfl := shape_unique hn hshape hn' hshape'
      exact .plain rfl rfl rfl rfl (hcurrent.cons (.list (Shape.renamed_of_chain hps hps')))
  | createAndSetEdge hside hn hshape hp =>
    cases h' with
    | createAndSetEdge hside' hn' hshape' hp' =>
      obtain rfl := hsame hside hside'
      obtain rfl := shape_unique hn hshape hn' hshape'
      exact .plain rfl rfl rfl rfl (hcurrent.cons (hp.renamed hp'))

end Input

/-- What an input object changes is the same up to variables, whenever it is made. -/
theorem Schema.hereditary_repeats (s : Schema) : s.Hereditary s.Repeats := by
  refine ⟨fun {shape u b n m stepss} hshape hchain b' n' => ?_⟩
  refine (hshape.changes_contribute (fun i _ w _ => i.objectsYield_ran s w) b' n').imp ?_
  rintro _ m' ⟨stepss', rfl, hchain'⟩
  refine .flatten (hchain.both hchain' fun i _ _ _ _ _ _ _ hsteps hsteps' => ?_)
  -- Both times the input is given the same value, or none.
  obtain ⟨hnone, rfl, -⟩ | ⟨w, hw, hmakes⟩ := hsteps
  · obtain ⟨-, rfl, -⟩ | ⟨w, hw, -⟩ := hsteps'
    · exact .nil
    · cases hnone.symm.trans hw
  · obtain ⟨hnone, -⟩ | ⟨w', hw', hmakes'⟩ := hsteps'
    · cases hw.symm.trans hnone
    · obtain rfl : w = w' := Option.some.inj (hw.symm.trans hw')
      exact hmakes.renamed hmakes'

end EntityGraph
