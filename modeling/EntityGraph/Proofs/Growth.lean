import EntityGraph.Proofs.Arena

/-!
# Calls and declarations

A row of calls builds the same schema as the declaration that collects what did not fail. The
declaration gives all profiles before the first type and stops at the first failure, so this rests
on profiles and types not getting in each other's way, and on failures leaving nothing behind.

Schemas and their tables have both properties, and nothing else about them is used. The argument is
made once, for any state that calls add to.

## Main definitions

* `firstError?` — the first failure of a row of calls
* `Additive` — calls add types and profiles, which do not get in each other's way
* `extend` — everything that calls ask for, profiles first

## Main results

* `Additive.extend_succeeded` — what did not fail builds what the calls built
* `Additive.extend_eq_ok_iff`, `Additive.extend_eq_error_iff` — when everything can be built
* `calls_build_collected` — building by calls and building from the collected declaration agree
* `declarations_store_schema` — tables and schemas of declarations agree
-/

namespace EntityGraph

/-- The first error among the answers to a row of calls. -/
def firstError? (answers : List BuildAnswer) : Option BuildError := answers.findSome? (·.error?)

/-! ### Collected declarations -/

namespace SchemaDecl

theorem foldl_withCall (calls : List BuildCall) (d : SchemaDecl) :
    calls.foldl withCall d =
      ⟨d.types ++ calls.filterMap (·.addition.getLeft?),
        d.profiles ++ calls.filterMap (·.addition.getRight?)⟩ := by
  induction calls generalizing d with
  | nil => simp
  | cons call calls ih =>
    rw [List.foldl_cons, ih, withCall]
    cases hcall : call.addition <;> simp [hcall, withType, withProfile]

theorem collect_eq (calls : List BuildCall) :
    collect calls =
      ⟨calls.filterMap (·.addition.getLeft?), calls.filterMap (·.addition.getRight?)⟩ :=
  foldl_withCall calls empty

/-- The calls that a declaration amounts to. -/
def calls (d : SchemaDecl) : List BuildCall := d.profiles.map .addProfile ++ d.types.map .addType

theorem collect_calls (d : SchemaDecl) : collect d.calls = d := by
  rw [collect_eq, calls]
  simp [List.filterMap_append, List.filterMap_map, Function.comp_def, BuildCall.addition]

end SchemaDecl

/-! ### States that calls add to -/

section Additive

variable {σ : Type}

/-- Calls add types and profiles to a state. A type that cannot be added leaves the state as it is,
and types and profiles do not get in each other's way. -/
structure Additive (perform : σ → BuildCall → BuildAnswer × σ)
    (addType : σ → TypeDecl → Except BuildError σ) (addProfile : σ → Profile → σ) : Prop where
  profile : ∀ (s : σ) (call : BuildCall) (profile : Profile), call.addition = .inr profile →
    perform s call = (.ok none, addProfile s profile)
  added : ∀ (s : σ) (call : BuildCall) (decl : TypeDecl) (next : σ), call.addition = .inl decl →
    addType s decl = .ok next → ∃ id, perform s call = (.ok (some id), next)
  failed : ∀ (s : σ) (call : BuildCall) (decl : TypeDecl) (e : BuildError),
    call.addition = .inl decl → addType s decl = .error e → perform s call = (.error e, s)
  comm : ∀ (s : σ) (profile : Profile) (decl : TypeDecl),
    addType (addProfile s profile) decl = (addType s decl).map (addProfile · profile)

/-- The state with everything that calls ask for, profiles first. -/
def extend (addType : σ → TypeDecl → Except BuildError σ) (addProfile : σ → Profile → σ) (s : σ)
    (calls : List BuildCall) : Except BuildError σ :=
  (calls.filterMap (·.addition.getLeft?)).foldlM addType
    ((calls.filterMap (·.addition.getRight?)).foldl addProfile s)

variable {perform : σ → BuildCall → BuildAnswer × σ}
  {addType : σ → TypeDecl → Except BuildError σ} {addProfile : σ → Profile → σ}

theorem runCalls_cons (s : σ) (call : BuildCall) (calls : List BuildCall) :
    runCalls perform s (call :: calls) =
      ((perform s call).1 :: (runCalls perform (perform s call).2 calls).1,
        (runCalls perform (perform s call).2 calls).2) := rfl

theorem succeededCalls_cons (s : σ) (call : BuildCall) (calls : List BuildCall) :
    succeededCalls perform s (call :: calls) =
      (if (perform s call).1.error?.isNone then [call] else []) ++
        succeededCalls perform (perform s call).2 calls := by
  rw [succeededCalls, runCalls_cons, List.zip_cons_cons, List.filter_cons]
  split <;> rfl

namespace Additive

/-- A call adds a profile, adds a type, or fails and changes nothing. -/
theorem cases (h : Additive perform addType addProfile) (s : σ) (call : BuildCall) :
    (∃ profile, call.addition = .inr profile ∧
      perform s call = (.ok none, addProfile s profile)) ∨
    (∃ decl next id, call.addition = .inl decl ∧ addType s decl = .ok next ∧
      perform s call = (.ok (some id), next)) ∨
    (∃ decl e, call.addition = .inl decl ∧ addType s decl = .error e ∧
      perform s call = (.error e, s)) := by
  cases hcall : call.addition with
  | inr profile => exact .inl ⟨profile, rfl, h.profile s call profile hcall⟩
  | inl decl =>
    cases hadd : addType s decl with
    | ok next =>
      obtain ⟨id, hperform⟩ := h.added s call decl next hcall hadd
      exact .inr (.inl ⟨decl, next, id, rfl, hadd, hperform⟩)
    | error e => exact .inr (.inr ⟨decl, e, rfl, hadd, h.failed s call decl e hcall hadd⟩)

theorem comm_foldl (h : Additive perform addType addProfile) (s : σ) (profiles : List Profile)
    (decl : TypeDecl) : addType (profiles.foldl addProfile s) decl =
      (addType s decl).map (profiles.foldl addProfile ·) := by
  induction profiles generalizing s with
  | nil =>
    rw [List.foldl_nil]
    cases addType s decl <;> rfl
  | cons profile profiles ih =>
    rw [List.foldl_cons, ih, h.comm]
    cases addType s decl <;> rfl

variable {s next : σ} {call : BuildCall} {decl : TypeDecl}

theorem extend_of_profile {profile : Profile} (hcall : call.addition = .inr profile)
    (calls : List BuildCall) : extend addType addProfile s (call :: calls) =
      extend addType addProfile (addProfile s profile) calls := by
  simp [extend, hcall]

theorem extend_of_type (h : Additive perform addType addProfile) (hcall : call.addition = .inl decl)
    (calls : List BuildCall) : extend addType addProfile s (call :: calls) =
      addType s decl >>= fun next => extend addType addProfile next calls := by
  simp only [extend, List.filterMap_cons, hcall, Sum.getLeft?_inl, Sum.getRight?_inl,
    List.foldlM_cons, h.comm_foldl]
  cases addType s decl <;> rfl

/-- What did not fail builds the state that the calls built. -/
theorem extend_succeeded (h : Additive perform addType addProfile) (s : σ)
    (calls : List BuildCall) : extend addType addProfile s (succeededCalls perform s calls) =
      .ok (runCalls perform s calls).2 := by
  induction calls generalizing s with
  | nil => rfl
  | cons call calls ih =>
    rw [succeededCalls_cons, runCalls_cons]
    obtain ⟨profile, hadd, hcall⟩ | ⟨decl, next, id, hadd, hnext, hcall⟩ | ⟨decl, e, -, -, hcall⟩ :=
      h.cases s call
    · rw [hcall]
      exact (extend_of_profile hadd _).trans (ih _)
    · rw [hcall]
      refine (h.extend_of_type hadd _).trans ?_
      rw [hnext]
      exact ih _
    · rw [hcall]
      exact ih s

/-- Building everything ends with the first error of the calls, or else as the calls do. -/
theorem extend_eq (h : Additive perform addType addProfile) (s : σ) (calls : List BuildCall) :
    extend addType addProfile s calls =
      ((firstError? (runCalls perform s calls).1).map .error).getD
        (.ok (runCalls perform s calls).2) := by
  induction calls generalizing s with
  | nil => rfl
  | cons call calls ih =>
    rw [runCalls_cons, firstError?, List.findSome?_cons]
    obtain ⟨profile, hadd, hcall⟩ | ⟨decl, next, id, hadd, hnext, hcall⟩ |
      ⟨decl, e, hadd, he, hcall⟩ := h.cases s call
    · rw [hcall, extend_of_profile hadd]
      exact ih _
    · rw [hcall, h.extend_of_type hadd, hnext]
      exact ih _
    · rw [hcall, h.extend_of_type hadd, he]
      rfl

theorem extend_eq_error_iff (h : Additive perform addType addProfile) (s : σ)
    (calls : List BuildCall) (e : BuildError) : extend addType addProfile s calls = .error e ↔
      firstError? (runCalls perform s calls).1 = some e := by
  rw [h.extend_eq]
  cases firstError? (runCalls perform s calls).1 <;> simp

theorem extend_eq_ok_iff (h : Additive perform addType addProfile) (s last : σ)
    (calls : List BuildCall) : extend addType addProfile s calls = .ok last ↔
      firstError? (runCalls perform s calls).1 = none ∧ (runCalls perform s calls).2 = last := by
  rw [h.extend_eq]
  cases firstError? (runCalls perform s calls).1 <;> simp

end Additive

end Additive

/-! ### Schemas and tables -/

namespace Schema

theorem additive : Additive perform addType addProfile where
  profile _ _ _ := perform_of_profile
  added s call decl next hcall hadd := by
    obtain ⟨drafts, hdrafts, rfl⟩ := addType_eq_ok.1 hadd
    exact ⟨s.nextType, perform_of_ok hcall hdrafts⟩
  failed s call decl e hcall hadd := by
    simp only [perform, hcall, hadd]
  comm s profile decl := by
    rw [addType, addType]
    cases decl.drafts <;> rfl

theorem ofDecl_collect (calls : List BuildCall) :
    ofDecl (SchemaDecl.collect calls) = extend addType addProfile initial calls := by
  rw [SchemaDecl.collect_eq, ofDecl, extend]

end Schema

namespace Arena

theorem tryType_of_ok {decl : TypeDecl} {drafts : List FieldDraft} (h : decl.drafts = .ok drafts)
    (a : Arena) : a.tryType decl = .ok (a.withType decl drafts) := by
  rw [tryType, addType_of_ok h]
  rfl

theorem tryType_of_error {decl : TypeDecl} {e : BuildError} (h : decl.drafts = .error e)
    (a : Arena) : a.tryType decl = .error e := by
  rw [tryType, addType_of_error h]
  rfl

theorem additive : Additive perform tryType addProfile where
  profile a call profile hcall := by rw [perform, hcall]
  added a call decl next hcall hadd := by
    cases hdrafts : decl.drafts with
    | ok drafts =>
      rw [tryType_of_ok hdrafts] at hadd
      obtain rfl := Except.ok.inj hadd
      exact ⟨a.nextType, by simp only [perform, hcall, addType_of_ok hdrafts]; rfl⟩
    | error e =>
      rw [tryType_of_error hdrafts] at hadd
      cases hadd
  failed a call decl e hcall hadd := by
    cases hdrafts : decl.drafts with
    | ok drafts =>
      rw [tryType_of_ok hdrafts] at hadd
      cases hadd
    | error e' =>
      rw [tryType_of_error hdrafts] at hadd
      obtain rfl := Except.error.inj hadd
      simp only [perform, hcall, addType_of_error hdrafts]
      rfl
  comm a profile decl := by
    cases hdrafts : decl.drafts with
    | ok drafts =>
      rw [tryType_of_ok hdrafts, tryType_of_ok hdrafts]
      rfl
    | error e =>
      rw [tryType_of_error hdrafts, tryType_of_error hdrafts]
      rfl

theorem ofDecl_collect (calls : List BuildCall) :
    ofDecl (SchemaDecl.collect calls) = extend tryType addProfile new calls := by
  rw [SchemaDecl.collect_eq, ofDecl, extend]

end Arena

/-- **Calls build what a declaration builds.** The declaration that collects all calls but those
that fail builds the schema that the calls build. The declaration that collects all of them fails
exactly if a call does, and with the error of the first. The same holds of tables, number by
number. -/
theorem calls_build_collected (calls : List BuildCall) :
    (Schema.ofDecl (SchemaDecl.collect (Schema.initial.succeeded calls)) =
          .ok (Schema.initial.run calls).2 ∧
        ∀ e, Schema.ofDecl (SchemaDecl.collect calls) = .error e ↔
          firstError? (Schema.initial.run calls).1 = some e) ∧
      Arena.ofDecl (SchemaDecl.collect (Arena.new.succeeded calls)) =
          .ok (Arena.new.run calls).2 ∧
        ∀ e, Arena.ofDecl (SchemaDecl.collect calls) = .error e ↔
          firstError? (Arena.new.run calls).1 = some e := by
  refine ⟨⟨?_, fun e => ?_⟩, ?_, fun e => ?_⟩
  · rw [Schema.ofDecl_collect]
    exact Schema.additive.extend_succeeded _ calls
  · rw [Schema.ofDecl_collect]
    exact Schema.additive.extend_eq_error_iff _ calls e
  · rw [Arena.ofDecl_collect]
    exact Arena.additive.extend_succeeded _ calls
  · rw [Arena.ofDecl_collect]
    exact Arena.additive.extend_eq_error_iff _ calls e

/-- Whether a call fails does not depend on what was built before it. -/
theorem error?_perform (a : Arena) (s : Schema) (call : BuildCall) :
    (a.perform call).1.error? = (s.perform call).1.error? := by
  obtain ⟨profile, hadd, hcall⟩ | ⟨decl, drafts, hadd, hdrafts, hcall⟩ |
    ⟨decl, e, hadd, hdrafts, hcall⟩ := a.perform_cases call
  · rw [hcall, Schema.perform_of_profile hadd]
  · rw [hcall, Schema.perform_of_ok hadd hdrafts]
    rfl
  · rw [hcall, Schema.perform_of_drafts_error hadd hdrafts]

theorem firstError?_run (a : Arena) (s : Schema) (calls : List BuildCall) :
    firstError? (a.run calls).1 = firstError? (s.run calls).1 := by
  induction calls generalizing a s with
  | nil => rfl
  | cons call calls ih =>
    rw [Arena.run, Schema.run, runCalls_cons, runCalls_cons, firstError?, firstError?,
      List.findSome?_cons, List.findSome?_cons, error?_perform a s]
    cases (s.perform call).1.error? with
    | some e => rfl
    | none => exact ih _ _

/-- **Tables of declarations hold their schemas.** Tables cannot be built from a declaration exactly
if a schema cannot, and for the same reason. Otherwise, as long as numbers fit, the complete tables
hold the schema. -/
theorem declarations_store_schema (decl : SchemaDecl) :
    (∀ e, Arena.ofDecl decl = .error e ↔ Schema.ofDecl decl = .error e) ∧
      ∀ a, Arena.ofDecl decl = .ok a → a.Fits →
        ∃ s, Schema.ofDecl decl = .ok s ∧ a.build.Stores s := by
  rw [← decl.collect_calls, Arena.ofDecl_collect, Schema.ofDecl_collect]
  have herrors := firstError?_run Arena.new Schema.initial decl.calls
  refine ⟨fun e => ?_, fun a ha hfits => ?_⟩
  · rw [Arena.additive.extend_eq_error_iff, Schema.additive.extend_eq_error_iff]
    exact Eq.congr_left herrors
  · obtain ⟨hnone, rfl⟩ := (Arena.additive.extend_eq_ok_iff _ _ _).1 ha
    refine ⟨(Schema.initial.run decl.calls).2, ?_, (calls_store_schema decl.calls hfits).2⟩
    exact (Schema.additive.extend_eq_ok_iff _ _ _).2 ⟨herrors.symm.trans hnone, rfl⟩

end EntityGraph
