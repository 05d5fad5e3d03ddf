import NestBatch.Core.GraphRules
import NestBatch.Lib.JsRecord

/-!
# The job builder and the compiler

`JobBuilder` collects steps under their ids and remembers the order they were
added in; `compileFromBuilderConfig` files them under their ids once more and
validates the job.  Both records are plain objects, so the executor lists the
steps in the order of the keys of one.
-/

namespace NestBatch

/-- A transition under construction; an unset field is `none`. -/
structure CurrentTransition where
  fromStepId : Option String := none
  onStatus : Option String := none
  toStepId : Option (Option String) := none

/-- The builder of a job, as far as its calls have filled it. -/
structure JobBuilder where
  id : String
  restartable : Bool := false
  allowDuplicateInstances : Bool := false
  steps : JsRecord StepDefinition := .empty
  stepOrder : List String := []
  transitions : List TransitionDefinition := []
  deciders : List DeciderDefinition := []
  listeners : List ListenerDefinition := []
  currentTransition : Option CurrentTransition := none

/-- What `build` hands to the compiler. -/
structure JobBuilderConfig where
  id : String
  restartable : Bool
  allowDuplicateInstances : Bool
  steps : List StepDefinition
  startStepId : String
  transitions : List TransitionDefinition
  deciders : List DeciderDefinition
  listeners : List ListenerDefinition

/-- A step to add: a literal, or what building it in a callback comes to. -/
inductive StepArgument
  | literal (step : StepDefinition)
  | callback (built : Except Thrown StepDefinition)

/-- A call of one of the builder's methods; a transition is made by `from`, `on`, `to` and `end`. -/
inductive BuilderCall
  | restartable (value : Bool)
  | allowDuplicateInstances (value : Bool)
  | addStep (step : StepArgument)
  | fromStep (stepId : String)
  | onStatus (status : String)
  | toStep (stepId : String)
  | endFlow
  | addDecider (afterStepId : String) (decide : Handle)
  | useFlow (transitions : List TransitionDefinition) (deciders : Option (List DeciderDefinition))
  | addListener (listener : ListenerDefinition)

namespace JobBuilder

def create (id : String) : JobBuilder := { id := id }

/-- The step of an argument, which a callback may fail to build. -/
def StepArgument.build : StepArgument → Except Thrown StepDefinition
  | .literal step => .ok step
  | .callback built => built

/-- `addStep` of a step that has been built. -/
def addBuilt (b : JobBuilder) (step : StepDefinition) : JobBuilder :=
  { b with steps := b.steps.set step.id step, stepOrder := b.stepOrder ++ [step.id] }

/-- `addStep` takes a step or a callback that builds one. -/
def addStep (b : JobBuilder) (step : StepArgument) : Except Thrown JobBuilder :=
  (StepArgument.build step).map b.addBuilt

/-- The transition is kept if it is complete; an empty `fromStepId` is none. -/
def commitTransition (b : JobBuilder) : JobBuilder :=
  match b.currentTransition with
  | none => b
  | some t =>
      match t.fromStepId, t.onStatus, t.toStepId with
      | some fromStepId, some onStatus, some toStepId =>
          if fromStepId = "" then { b with currentTransition := none }
          else
            { b with
              transitions := b.transitions ++ [{ fromStepId, onStatus, toStepId }]
              currentTransition := none }
      | _, _, _ => { b with currentTransition := none }

/-- `from`. -/
def fromStep (b : JobBuilder) (stepId : String) : JobBuilder :=
  let complete := b.currentTransition.any fun t => t.onStatus.isSome && t.toStepId.isSome
  { (if complete then b.commitTransition else b) with
    currentTransition := some { fromStepId := some stepId } }

/-- `on` sets the status of the transition that `fromStep` opened. -/
def on (b : JobBuilder) (status : String) : Except Thrown JobBuilder :=
  match b.currentTransition with
  | some t =>
      if t.fromStepId.getD "" = "" then .error (.error "Transition must start with .from(stepId)")
      else .ok { b with currentTransition := some { t with onStatus := some status } }
  | none => .error (.error "Transition must start with .from(stepId)")

/-- `to` and `end`: the target is set and the transition committed. -/
def finish (b : JobBuilder) (toStepId : Option String) (message : String) :
    Except Thrown JobBuilder :=
  match b.currentTransition with
  | some t =>
      .ok { b with currentTransition := some { t with toStepId := some toStepId } }.commitTransition
  | none => .error (.error message)

/-- What a call makes of the builder, or throws. -/
def call (b : JobBuilder) : BuilderCall → Except Thrown JobBuilder
  | .restartable value => .ok { b with restartable := value }
  | .allowDuplicateInstances value => .ok { b with allowDuplicateInstances := value }
  | .addStep step => b.addStep step
  | .fromStep stepId => .ok (b.fromStep stepId)
  | .onStatus status => b.on status
  | .toStep stepId => b.finish (some stepId) "Use .from(stepId) before .to(stepId)"
  | .endFlow => b.finish none "Use .from(stepId) before .end()"
  | .addDecider afterStepId decide =>
      .ok { b with deciders := b.deciders ++ [{ afterStepId, decide }] }
  | .useFlow transitions deciders =>
      .ok { b with
        transitions := b.transitions ++ transitions
        deciders := b.deciders ++ deciders.getD [] }
  | .addListener listener => .ok { b with listeners := b.listeners ++ [listener] }

/-- `build` commits the open transition and takes the first step for the start. -/
def build (b : JobBuilder) : Except Thrown JobBuilderConfig :=
  let b := b.commitTransition
  match b.stepOrder with
  | [] => .error (.error ("JobBuilder: job \"" ++ b.id ++ "\" has no steps"))
  | startStepId :: _ =>
      .ok { id := b.id
            restartable := b.restartable
            allowDuplicateInstances := b.allowDuplicateInstances
            steps := b.stepOrder.map fun id => (b.steps.get? id).getD .inherited
            startStepId := startStepId
            transitions := b.transitions
            deciders := b.deciders
            listeners := b.listeners }

end JobBuilder

/-- A definition as it is compiled, its steps still in a plain object. -/
structure CompiledJob where
  id : String
  steps : JsRecord StepDefinition
  startStepId : String
  transitions : List TransitionDefinition
  deciders : List DeciderDefinition
  listeners : List ListenerDefinition
  restartable : Bool
  allowDuplicateInstances : Bool

namespace CompiledJob

/-- The definition with the own steps only, in the order of their keys. -/
def definition (job : CompiledJob) : JobDefinition where
  id := job.id
  steps := job.steps.entries
  startStepId := job.startStepId
  transitions := job.transitions
  deciders := job.deciders
  listeners := job.listeners
  restartable := job.restartable
  allowDuplicateInstances := job.allowDuplicateInstances

/-- `stepId in job.steps`: what was written under `__proto__` lends its own names. -/
def hasStep (fields : StepDefinition → List String) (job : CompiledJob) (stepId : String) : Bool :=
  job.definition.hasStep stepId || job.steps.proto.any fun step => (fields step).contains stepId

end CompiledJob

namespace DefinitionValidator

variable (hasStep : String → Bool)

/-- `validateTransition`, with the lookup of a step as given. -/
def validateTransitionBy (t : TransitionDefinition) : Except Thrown Unit := do
  if hasStep t.fromStepId = false then
    throw (.InvalidFlowGraphError "MISSING_TARGET"
      ("Transition fromStepId \"" ++ t.fromStepId ++ "\" not found in steps"))
  match t.toStepId with
  | none => .ok ()
  | some toStepId =>
      if hasStep toStepId = false then
        throw (.InvalidFlowGraphError "MISSING_TARGET"
          ("Transition toStepId \"" ++ toStepId ++ "\" not found in steps"))

@[inherit_doc validateTransitionBy]
def validateDecidersBy : List DeciderDefinition → List String → Except Thrown Unit
  | [], _ => .ok ()
  | d :: rest, seen => do
      if hasStep d.afterStepId = false then
        throw (.InvalidFlowGraphError "MISSING_TARGET"
          ("Decider afterStepId \"" ++ d.afterStepId ++ "\" not found in steps"))
      if seen.contains d.afterStepId then
        throw (.InvalidFlowGraphError "DUPLICATE_DECIDER"
          ("Step \"" ++ d.afterStepId ++ "\" has multiple deciders"))
      validateDecidersBy rest (d.afterStepId :: seen)

@[inherit_doc validateTransitionBy]
def validateBy (job : JobDefinition) : Except Thrown Unit := do
  if job.stepOrder = [] then
    throw (.InvalidFlowGraphError "EMPTY_JOB" ("Job \"" ++ job.id ++ "\" has no steps"))
  if hasStep job.startStepId = false then
    throw (.InvalidFlowGraphError "NO_START_STEP"
      ("Job \"" ++ job.id ++ "\" startStepId \"" ++ job.startStepId ++ "\" is not in steps"))
  job.steps.entries.forM fun e => validateStep e.1 e.2
  job.transitions.forM (validateTransitionBy hasStep)
  validateDecidersBy hasStep job.deciders []
  job.stepOrder.forM (checkReachable job)
  assertAcyclic job

theorem validateDecidersBy_self (job : JobDefinition) (deciders : List DeciderDefinition)
    (seen : List String) :
    validateDecidersBy job.hasStep deciders seen = validateDeciders job deciders seen := by
  induction deciders generalizing seen with
  | nil => rfl
  | cons d rest ih => simp only [validateDecidersBy, validateDeciders, ih]

/-- With the lookup of the job itself this is `validate`. -/
theorem validateBy_self (job : JobDefinition) : validateBy job.hasStep job = validate job := by
  unfold validateBy validate
  rw [validateDecidersBy_self]
  rfl

end DefinitionValidator

namespace DefinitionCompiler

variable (fields : StepDefinition → List String)

def validate (job : CompiledJob) : Except Thrown Unit :=
  DefinitionValidator.validateBy (job.hasStep fields) job.definition

/-- The steps filed one by one, and the job validated.  `fields` are the names the object of a step
has; optional ones may be left out of a literal. -/
def compileFromBuilderConfig (config : JobBuilderConfig) : Except Thrown CompiledJob :=
  let job : CompiledJob :=
    { id := config.id
      steps := config.steps.foldl (fun steps s => steps.set s.id s) .empty
      startStepId := config.startStepId
      transitions := config.transitions
      deciders := config.deciders
      listeners := config.listeners
      restartable := config.restartable
      allowDuplicateInstances := config.allowDuplicateInstances }
  (validate fields job).map fun _ => job

/-- A job built by some calls and compiled. -/
def compileCalls (id : String) (calls : List BuilderCall) : Except Thrown CompiledJob := do
  let b ← calls.foldlM JobBuilder.call (JobBuilder.create id)
  let config ← b.build
  compileFromBuilderConfig fields config

/-- A job whose object has no step for a prototype is validated as its definition is. -/
theorem validate_eq_definition {job : CompiledJob} (h : job.steps.proto = none) :
    validate fields job = DefinitionValidator.validate job.definition := by
  have hsame : job.hasStep fields = job.definition.hasStep := by
    funext stepId
    rw [CompiledJob.hasStep, h, Option.any_none, Bool.or_false]
  rw [validate, hsame, DefinitionValidator.validateBy_self]

end DefinitionCompiler

/-! ### What has been added -/

/-- The step that a call adds. -/
def BuilderCall.added : BuilderCall → List StepDefinition
  | .addStep (.literal step) => [step]
  | .addStep (.callback (.ok step)) => [step]
  | _ => []

/-- The steps that calls add, in turn. -/
def addedSteps (calls : List BuilderCall) : List StepDefinition := calls.flatMap BuilderCall.added

namespace JobBuilder

/-- The builder holds the steps added so far: each under its id, and their ids in order. -/
structure Holds (b : JobBuilder) (added : List StepDefinition) : Prop where
  steps : b.steps = JsRecord.ofList StepDefinition.id added
  stepOrder : b.stepOrder = added.map StepDefinition.id

variable {b b' : JobBuilder} {steps : List StepDefinition}

/-- A built step is held last. -/
theorem Holds.addBuilt (h : b.Holds steps) (step : StepDefinition) :
    (b.addBuilt step).Holds (steps ++ [step]) := by
  constructor
  · rw [JsRecord.ofList_concat, ← h.steps]
    rfl
  · rw [List.map_append, List.map_singleton, ← h.stepOrder]
    rfl

/-- Only the steps of a builder matter here. -/
theorem Holds.of_same (h : b.Holds steps) (hsteps : b'.steps = b.steps)
    (horder : b'.stepOrder = b.stepOrder) : b'.Holds steps :=
  ⟨hsteps.trans h.steps, horder.trans h.stepOrder⟩

/-- Committing a transition keeps the steps. -/
theorem commitTransition_same (b : JobBuilder) :
    b.commitTransition.steps = b.steps ∧ b.commitTransition.stepOrder = b.stepOrder := by
  unfold commitTransition
  split
  · exact ⟨rfl, rfl⟩
  · split
    · split <;> exact ⟨rfl, rfl⟩
    · exact ⟨rfl, rfl⟩

/-- Going back to a step keeps the steps. -/
theorem fromStep_same (b : JobBuilder) (stepId : String) :
    (b.fromStep stepId).steps = b.steps ∧ (b.fromStep stepId).stepOrder = b.stepOrder := by
  unfold fromStep
  dsimp only
  split
  · exact commitTransition_same b
  · exact ⟨rfl, rfl⟩

/-- One call adds its own step, if it adds one. -/
theorem Holds.call (h : b.Holds steps) {c : BuilderCall} (hcall : b.call c = .ok b') :
    b'.Holds (steps ++ c.added) := by
  have hnone : ∀ {b' : JobBuilder}, b'.steps = b.steps ∧ b'.stepOrder = b.stepOrder →
      b'.Holds (steps ++ []) := by
    intro b' hsame
    rw [List.append_nil]
    exact h.of_same hsame.1 hsame.2
  cases c with
  | addStep step =>
      match step with
      | .literal step =>
          cases hcall
          exact h.addBuilt step
      | .callback (.ok step) =>
          cases hcall
          exact h.addBuilt step
      | .callback (.error err) => cases hcall
  | fromStep stepId =>
      cases hcall
      exact hnone (fromStep_same b stepId)
  | onStatus status =>
      rw [JobBuilder.call, JobBuilder.on] at hcall
      split at hcall
      · split at hcall
        · cases hcall
        · cases hcall
          exact hnone ⟨rfl, rfl⟩
      · cases hcall
  | toStep stepId =>
      rw [JobBuilder.call, finish] at hcall
      split at hcall
      · cases hcall
        exact hnone (commitTransition_same _)
      · cases hcall
  | endFlow =>
      rw [JobBuilder.call, finish] at hcall
      split at hcall
      · cases hcall
        exact hnone (commitTransition_same _)
      · cases hcall
  | restartable value | allowDuplicateInstances value | addListener value =>
      cases hcall
      exact hnone ⟨rfl, rfl⟩
  | addDecider afterStepId decide =>
      cases hcall
      exact hnone ⟨rfl, rfl⟩
  | useFlow transitions deciders =>
      cases hcall
      exact hnone ⟨rfl, rfl⟩

/-- Calls add their steps one after another. -/
theorem Holds.calls (h : b.Holds steps) {calls : List BuilderCall}
    (hcalls : calls.foldlM JobBuilder.call b = .ok b') : b'.Holds (steps ++ addedSteps calls) := by
  induction calls generalizing b steps with
  | nil =>
      cases hcalls
      rw [addedSteps, List.flatMap_nil, List.append_nil]
      exact h
  | cons c calls ih =>
      rw [List.foldlM_cons] at hcalls
      obtain ⟨middle, hcall, hrest⟩ := DefinitionValidator.ok_of_bind hcalls
      rw [addedSteps, List.flatMap_cons, ← List.append_assoc]
      exact ih (h.call hcall) hrest

/-- What is built has a step for every id, in order, though not always the one added there. -/
theorem Holds.build (h : b.Holds steps) {config : JobBuilderConfig}
    (hbuild : b.build = .ok config) :
    config.steps.map StepDefinition.id = steps.map StepDefinition.id ∧
      ((steps.map StepDefinition.id).Nodup → "__proto__" ∉ steps.map StepDefinition.id →
        config.steps = steps) := by
  have hcommit := h.of_same (commitTransition_same b).1 (commitTransition_same b).2
  have hsteps : config.steps = (steps.map StepDefinition.id).map fun id =>
      ((JsRecord.ofList StepDefinition.id steps).get? id).getD .inherited := by
    unfold JobBuilder.build at hbuild
    dsimp only at hbuild
    split at hbuild
    · cases hbuild
    · cases hbuild
      rw [← hcommit.stepOrder, ← hcommit.steps]
  rw [hsteps]
  constructor
  · rw [List.map_map]
    conv_rhs => rw [← List.map_id (steps.map StepDefinition.id)]
    apply List.map_congr_left
    intro id hid
    obtain ⟨step, hget, heq⟩ := JsRecord.exists_get?_ofList hid
    rw [Function.comp_apply, hget]
    exact heq
  · intro hnodup hproto
    rw [List.map_map]
    conv_rhs => rw [← List.map_id steps]
    apply List.map_congr_left
    intro step hstep
    rw [Function.comp_apply, JsRecord.get?_ofList hnodup hproto hstep]
    rfl

end JobBuilder

/-! ### What the compiled job has -/

/-- The job has every step that was added, and lists them in the order they were added in. -/
structure KeepsDeclaredSteps (steps : List StepDefinition) (job : CompiledJob) : Prop where
  has : ∀ step ∈ steps, job.steps.get? step.id = some step
  order : job.steps.keys = steps.map StepDefinition.id

/-- The ids differ, none is `__proto__`, and array indices come first and ascend. -/
structure DeclaredInKeyOrder (stepIds : List String) : Prop where
  nodup : stepIds.Nodup
  proto : "__proto__" ∉ stepIds
  ordered : stepIds.Pairwise KeyBefore

namespace DefinitionCompiler

variable {fields : StepDefinition → List String} {id : String} {calls : List BuilderCall}
  {job : CompiledJob}

/-- The steps of a compiled job are those of its configuration, filed one by one. -/
theorem steps_of_compileFromBuilderConfig {config : JobBuilderConfig}
    (h : compileFromBuilderConfig fields config = .ok job) :
    job.steps = JsRecord.ofList StepDefinition.id config.steps := by
  unfold compileFromBuilderConfig at h
  dsimp only at h
  generalize validate fields _ = checked at h
  cases checked with
  | error err => cases h
  | ok u =>
      cases h
      rfl

/-- **When compilation keeps the declared steps**: exactly where the ids are declared in the order
of their keys. -/
theorem compiled_keeps_steps_iff (h : compileCalls fields id calls = .ok job) :
    KeepsDeclaredSteps (addedSteps calls) job ↔
      DeclaredInKeyOrder ((addedSteps calls).map StepDefinition.id) := by
  obtain ⟨b, hcalls, h⟩ := DefinitionValidator.ok_of_bind h
  obtain ⟨config, hbuild, h⟩ := DefinitionValidator.ok_of_bind h
  have hcreate : (JobBuilder.create id).Holds [] := ⟨rfl, rfl⟩
  obtain ⟨hids, hsame⟩ := (hcreate.calls hcalls).build hbuild
  rw [List.nil_append] at hids hsame
  have hsteps := steps_of_compileFromBuilderConfig h
  constructor
  · intro hkeeps
    have horder := hkeeps.order
    rw [hsteps, ← hids] at horder
    obtain ⟨hnodup, hproto, hordered⟩ := JsRecord.keys_ofList_iff.mp horder
    rw [hids] at hnodup hproto hordered
    exact ⟨hnodup, hproto, hordered⟩
  · intro hdeclared
    rw [hsame hdeclared.nodup hdeclared.proto] at hsteps
    constructor
    · intro step hstep
      rw [hsteps]
      exact JsRecord.get?_ofList hdeclared.nodup hdeclared.proto hstep
    · rw [hsteps]
      exact JsRecord.keys_ofList_iff.mpr ⟨hdeclared.nodup, hdeclared.proto, hdeclared.ordered⟩

/-! ### Steps that are lost or moved -/

/-- A job is validated by the listing of its steps. -/
theorem validate_of_listed {steps : JsMap String StepDefinition} (hproto : job.steps.proto = none)
    (hlisted : JsRecord.listed job.steps.own.entries = steps.entries) :
    validate fields job = DefinitionValidator.validate { job.definition with steps := steps } := by
  have hsteps : job.definition.steps = steps := JsMap.ext_entries hlisted
  rw [validate_eq_definition fields hproto, ← hsteps]

/-- The names of a tasklet step. -/
def taskletFields (_ : StepDefinition) : List String := ["kind", "id", "tasklet", "listeners"]

/-- A tasklet step that runs the function. -/
def taskletStep (id : String) (fn : Handle) : StepDefinition :=
  .tasklet { id := id, tasklet := { kind := .BuilderLambda, fn := some fn } }

/-- What comes of calls that add no more than steps and transitions. -/
def compiled (steps : List StepDefinition) (startStepId : String)
    (transitions : List TransitionDefinition) : CompiledJob where
  id := "nightly"
  steps := JsRecord.ofList StepDefinition.id steps
  startStepId := startStepId
  transitions := transitions
  deciders := []
  listeners := []
  restartable := false
  allowDuplicateInstances := false

/-- Calls compile to a job that is valid in the order its steps are listed in. -/
theorem compileCalls_of_listed (steps : JsMap String StepDefinition)
    (hcalls : compileCalls fields id calls = (validate fields job).map fun _ => job)
    (hproto : job.steps.proto = none)
    (hlisted : JsRecord.listed job.steps.own.entries = steps.entries)
    (hvalid : DefinitionValidator.validate { job.definition with steps := steps } = .ok ()) :
    compileCalls fields id calls = .ok job := by
  rw [hcalls, validate_of_listed hproto hlisted, hvalid]
  rfl

section Named

/-- Two steps and the way between them. -/
def namedCalls : List BuilderCall :=
  [.addStep (.literal (taskletStep "extract" 1)), .addStep (.literal (taskletStep "load" 2)),
    .fromStep "extract", .onStatus "COMPLETED", .toStep "load"]

def namedJob : CompiledJob :=
  compiled [taskletStep "extract" 1, taskletStep "load" 2] "extract"
    [{ fromStepId := "extract", onStatus := "COMPLETED", toStepId := some "load" }]

/-- Every key may stand before a name that is no index. -/
theorem keyBefore_load (key : String) : KeyBefore key "load" := by
  have hload : arrayIndex? "load" = none := rfl
  intro n hn
  rw [hload] at hn
  cases hn

/-- The named calls compile to the named job. -/
theorem compileCalls_named : compileCalls taskletFields "nightly" namedCalls = .ok namedJob := by
  apply compileCalls_of_listed namedJob.steps.own rfl rfl
  · apply (JsRecord.listed_eq_self_iff _).mpr
    exact List.pairwise_pair.mpr (keyBefore_load "extract")
  · rfl

/-- The named job keeps its declared steps. -/
theorem compiled_keeps_steps_named : KeepsDeclaredSteps (addedSteps namedCalls) namedJob := by
  apply (compiled_keeps_steps_iff compileCalls_named).mpr
  exact ⟨by decide, by decide, List.pairwise_pair.mpr (keyBefore_load "extract")⟩

end Named

section Lost

/-- A step is added, then another one under its id. -/
def replacingCalls : List BuilderCall :=
  [.addStep (.literal (taskletStep "load" 1)), .addStep (.literal (taskletStep "load" 2))]

def replacedJob : CompiledJob :=
  compiled [taskletStep "load" 2, taskletStep "load" 2] "load" []

/-- The replacing calls compile to the replaced job. -/
theorem compileCalls_replacing :
    compileCalls taskletFields "nightly" replacingCalls = .ok replacedJob := by
  apply compileCalls_of_listed replacedJob.steps.own rfl rfl
  · apply (JsRecord.listed_eq_self_iff _).mpr
    exact List.pairwise_singleton _ _
  · rfl

/-- Steps with numbers for ids, the larger number first. -/
def numberedCalls : List BuilderCall :=
  [.addStep (.literal (taskletStep "10" 1)), .addStep (.literal (taskletStep "2" 2)),
    .fromStep "10", .onStatus "COMPLETED", .toStep "2"]

def numberedJob : CompiledJob :=
  compiled [taskletStep "10" 1, taskletStep "2" 2] "10"
    [{ fromStepId := "10", onStatus := "COMPLETED", toStepId := some "2" }]

/-- The numbers in ascending order. -/
def numberedSteps : JsMap String StepDefinition :=
  (JsMap.empty.set "2" (taskletStep "2" 2)).set "10" (taskletStep "10" 1)

/-- The numbered steps are listed by their numbers. -/
theorem listed_numbered :
    JsRecord.listed numberedJob.steps.own.entries = numberedSteps.entries := by
  have hten : arrayIndex? "10" = some 10 := rfl
  have htwo : arrayIndex? "2" = some 2 := rfl
  have hown : numberedJob.steps.own.entries =
      [("10", taskletStep "10" 1), ("2", taskletStep "2" 2)] := rfl
  have hsteps : numberedSteps.entries =
      [("2", taskletStep "2" 2), ("10", taskletStep "10" 1)] := rfl
  rw [hown, hsteps]
  simp [JsRecord.listed, JsRecord.isIndex, JsRecord.indexLe, hten, htwo, List.mergeSort,
    List.MergeSort.Internal.splitInTwo]

/-- The numbered calls compile to the numbered job. -/
theorem compileCalls_numbered :
    compileCalls taskletFields "nightly" numberedCalls = .ok numberedJob := by
  apply compileCalls_of_listed _ rfl rfl listed_numbered
  rfl

/-- **A step is lost to a later one with its id, and steps with numbers for ids change places.** -/
theorem declared_steps_lost :
    (∃ job, compileCalls taskletFields "nightly" replacingCalls = .ok job ∧
      ¬ KeepsDeclaredSteps (addedSteps replacingCalls) job) ∧
    ∃ job, compileCalls taskletFields "nightly" numberedCalls = .ok job ∧
      ¬ KeepsDeclaredSteps (addedSteps numberedCalls) job := by
  constructor
  · refine ⟨_, compileCalls_replacing, fun h => ?_⟩
    have hfirst := h.has (taskletStep "load" 1) List.mem_cons_self
    have hlast : replacedJob.steps.get? "load" = some (taskletStep "load" 2) := rfl
    exact nomatch hlast.symm.trans hfirst
  · refine ⟨_, compileCalls_numbered, fun h => ?_⟩
    have hkeys : numberedJob.steps.keys = ["2", "10"] :=
      congrArg (List.map Prod.fst) listed_numbered
    rw [h.order] at hkeys
    exact absurd hkeys (by decide)

end Lost

end DefinitionCompiler

end NestBatch
