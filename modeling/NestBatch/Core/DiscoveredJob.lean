import NestBatch.Core.JobBuilder
import NestBatch.Flow.Evaluator

/-!
# Compiling decorated classes

`compileFromDiscovered` turns what the explorer found on a decorated class into
a definition.  A decorated transition names its status as a member of
`FlowExecutionStatus`: the compiler looks the name up in the enum object and
takes UNKNOWN for a name that is not there, while the builder's statuses are
patterns and pass as they are.
-/

namespace NestBatch

/-- A method of an instance: itself, bound, and a function that returns it. -/
structure MethodHandles where
  bound : Handle
  thunk : Handle

/-- The options of a `@Stepable` method. -/
structure StepableOptions where
  id : String
  chunkSize : Option Nat := none
  skipPolicy : Option SkipPolicyConfig := none
  retryPolicy : Option RetryPolicyConfig := none
  partitions : Option ChunkPartitionConfig := none

/-- A method found as a step. -/
structure DiscoveredStep where
  methodName : String
  options : StepableOptions
  isTasklet : Bool

/-- What an item method does. -/
inductive DiscoveredItemKind
  | reader | processor | writer
  deriving DecidableEq, Repr

/-- A method found as reader, processor or writer. -/
structure DiscoveredItemMethod where
  methodName : String
  kind : DiscoveredItemKind
  factory : Option Bool := none

/-- A method found as a listener. -/
structure DiscoveredListener where
  methodName : String
  kind : ListenerKind
  phase : ListenerPhase
  skipKind : Option SkipSubKind := none
  nonCritical : Option Bool := none

/-- A method found as the source of a transition. -/
structure DiscoveredTransition where
  methodName : String
  fromStep : String
  onStatus : String
  /-- `none` ends the flow. -/
  toStep : Option String

/-- The options of a `@Jobable` class. -/
structure JobableOptions where
  id : String
  restartable : Option Bool := none
  allowDuplicateInstances : Option Bool := none

structure DiscoveredJob where
  /-- `classRef.name` -/
  className : String
  /-- `instance?.[methodName]` -/
  method? : String → Option MethodHandles
  jobOptions : JobableOptions
  stepMethods : List DiscoveredStep
  itemMethods : List DiscoveredItemMethod
  listenerMethods : List DiscoveredListener
  transitionMethods : List DiscoveredTransition

/-- What `FlowExecutionStatus[name] ?? FlowExecutionStatus.UNKNOWN` is: a status, or the function or
object that every plain object inherits under the name. -/
inductive StatusValue
  | status (value : String)
  | inherited (name : String)
  deriving DecidableEq, Repr

/-- A transition whose status is the value that the lookup gave. -/
structure DecoratedTransition where
  fromStepId : String
  onStatus : StatusValue
  toStepId : Option String
  deriving DecidableEq, Repr

/-- The job that the decorators compile to. -/
structure DecoratedJob where
  id : String
  steps : JsRecord StepDefinition
  startStepId : String
  transitions : List DecoratedTransition
  listeners : List ListenerDefinition
  restartable : Bool
  allowDuplicateInstances : Bool

/-- The transition with its status as a pattern, if it has one. -/
def DecoratedTransition.definition? (t : DecoratedTransition) : Option TransitionDefinition :=
  match t.onStatus with
  | .status value => some { fromStepId := t.fromStepId, onStatus := value, toStepId := t.toStepId }
  | .inherited _ => none

namespace DecoratedJob

/-- The transitions as the builder's, if each status is a pattern. -/
def definitions? (job : DecoratedJob) : Option (List TransitionDefinition) :=
  if job.transitions.all fun t => t.definition?.isSome then
    some (job.transitions.filterMap DecoratedTransition.definition?)
  else none

/-- `evaluate`: a pattern that is no string has no `includes`. -/
def evaluate (job : DecoratedJob) (fromStepId status : String) : Except Thrown (Option String) :=
  if job.transitions.any fun t => t.fromStepId = fromStepId && t.definition?.isNone then
    .error ⟨.typeError, "pattern.includes is not a function"⟩
  else
    FlowEvaluator.evaluate (job.transitions.filterMap DecoratedTransition.definition?) fromStepId
      status

/-- Patterns are evaluated as the builder's are. -/
theorem evaluate_of_definitions {job : DecoratedJob} {ts : List TransitionDefinition}
    (h : job.definitions? = some ts) (fromStepId status : String) :
    job.evaluate fromStepId status = FlowEvaluator.evaluate ts fromStepId status := by
  unfold definitions? at h
  split at h
  · next hall =>
      cases h
      rw [evaluate, if_neg]
      intro hany
      obtain ⟨t, ht, hnone⟩ := List.any_eq_true.mp hany
      have hsome := List.all_eq_true.mp hall t ht
      simp_all
  · cases h

end DecoratedJob

/-- The names of the enum members, each its own value. -/
def flowStatusNames : List String :=
  [FlowExecutionStatus.COMPLETED, .FAILED, .STOPPED, .UNKNOWN].map FlowExecutionStatus.value

namespace DefinitionCompiler

variable (fields : StepDefinition → List String) (discovered : DiscoveredJob)

def ProviderNotFoundError (token : String) : Thrown :=
  ⟨.user "ProviderNotFoundError", "Provider not found: " ++ token⟩

/-- The reference of a listener method. -/
def buildListenerRef (methodName : String) : Ref :=
  match discovered.method? methodName with
  | some method => { kind := .BuilderLambda, fn := some method.bound }
  | none =>
      { kind := .Method, classToken := some discovered.className, methodName := some methodName }

/-- The reference of a reader, processor or writer method. -/
def buildItemMethodRef (methodName : String) : Ref :=
  match discovered.method? methodName with
  | some method => { kind := .BuilderLambda, fn := some method.thunk }
  | none =>
      { kind := .Method, classToken := some discovered.className, methodName := some methodName }

/-- The reference of a reader, which may be a factory. -/
def buildReaderMethodRef (method : DiscoveredItemMethod) : Ref :=
  let ref := buildItemMethodRef discovered method.methodName
  if method.factory = some true then { ref with factory := true } else ref

/-- The first item handler of the kind. -/
def findItemMethod (kind : DiscoveredItemKind) : Option DiscoveredItemMethod :=
  discovered.itemMethods.find? fun method => method.kind = kind

/-- The step of a method that is a tasklet. -/
def buildTaskletStep (step : DiscoveredStep) : StepDefinition :=
  .tasklet { id := step.options.id, tasklet := buildItemMethodRef discovered step.methodName }

/-- The step of a method that configures a chunk, with the class's item methods. -/
def buildChunkStep (step : DiscoveredStep) : Except Thrown StepDefinition :=
  match findItemMethod discovered .reader, findItemMethod discovered .writer with
  | none, _ =>
      .error (ProviderNotFoundError ("@ItemReader for job " ++ discovered.jobOptions.id ++
        " (step " ++ step.options.id ++ ")"))
  | some _, none =>
      .error (ProviderNotFoundError ("@ItemWriter for job " ++ discovered.jobOptions.id ++
        " (step " ++ step.options.id ++ ")"))
  | some reader, some writer => do
      (validatePartitions step.options.partitions).mapError
        (DefinitionValidator.invalidPartitions step.options.id)
      .ok (.chunk
        { id := step.options.id
          chunkSize := step.options.chunkSize.getD 100
          reader := buildReaderMethodRef discovered reader
          processor := (findItemMethod discovered .processor).map fun processor =>
            buildItemMethodRef discovered processor.methodName
          writer := buildItemMethodRef discovered writer.methodName
          skipPolicy := step.options.skipPolicy
          retryPolicy := step.options.retryPolicy
          partitions := step.options.partitions })

/-- The step of a decorated method. -/
def buildStep (step : DiscoveredStep) : Except Thrown StepDefinition :=
  if step.isTasklet then .ok (buildTaskletStep discovered step) else buildChunkStep discovered step

/-- The listener of a decorated method. -/
def buildListener (l : DiscoveredListener) : ListenerDefinition :=
  { kind := l.kind, ref := buildListenerRef discovered l.methodName, phase := l.phase
    skipKind := l.skipKind, nonCritical := l.nonCritical }

/-- `FlowExecutionStatus[name] ?? FlowExecutionStatus.UNKNOWN`. -/
def lookupStatus (name : String) : StatusValue :=
  if name ∈ flowStatusNames then .status name
  else if name ∈ objectPrototypeKeys then .inherited name
  else .status FlowExecutionStatus.UNKNOWN.value

/-- The transition of a decorated method, its status looked up. -/
def buildTransition (t : DiscoveredTransition) : DecoratedTransition :=
  { fromStepId := t.fromStep, onStatus := lookupStatus t.onStatus, toStepId := t.toStep }

/-- A transition as a builder declares it, its status a pattern. -/
def declare (t : DiscoveredTransition) : TransitionDefinition :=
  { fromStepId := t.fromStep, onStatus := t.onStatus, toStepId := t.toStep }

/-- What the validator sees of a decorated job, whose checks read no status. -/
def outline (job : DecoratedJob) : CompiledJob where
  id := job.id
  steps := job.steps
  startStepId := job.startStepId
  transitions := job.transitions.map fun t =>
    { fromStepId := t.fromStepId, onStatus := "", toStepId := t.toStepId }
  deciders := []
  listeners := job.listeners
  restartable := job.restartable
  allowDuplicateInstances := job.allowDuplicateInstances

/-- The job of the steps that have been built. -/
def assemble (steps : List StepDefinition) : DecoratedJob where
  id := discovered.jobOptions.id
  steps := steps.foldl (fun steps s => steps.set s.id s) .empty
  startStepId := (discovered.stepMethods.head?.map (·.options.id)).getD ""
  transitions := discovered.transitionMethods.map buildTransition
  listeners := discovered.listenerMethods.map (buildListener discovered)
  restartable := discovered.jobOptions.restartable.getD false
  allowDuplicateInstances := discovered.jobOptions.allowDuplicateInstances.getD false

/-- The job of a decorated class, validated. -/
def compileFromDiscovered : Except Thrown DecoratedJob := do
  let steps ← discovered.stepMethods.mapM (buildStep discovered)
  (validate fields (outline (assemble discovered steps))).map fun _ => assemble discovered steps

/-- A builder's configuration of the same job. -/
def configOf (steps : List StepDefinition) : JobBuilderConfig where
  id := discovered.jobOptions.id
  restartable := discovered.jobOptions.restartable.getD false
  allowDuplicateInstances := discovered.jobOptions.allowDuplicateInstances.getD false
  steps := steps
  startStepId := (discovered.stepMethods.head?.map (·.options.id)).getD ""
  transitions := discovered.transitionMethods.map declare
  deciders := []
  listeners := discovered.listenerMethods.map (buildListener discovered)

end DefinitionCompiler

/-! ### Validation reads no status -/

namespace DefinitionValidator

section SameEndpoints

variable {β : Type} {g g' : β → TransitionDefinition} {xs : List β} {job job' : JobDefinition}

/-- The two lists of transitions have the same endpoints. -/
def SameEndpoints (g g' : β → TransitionDefinition) : Prop :=
  ∀ x, (g x).fromStepId = (g' x).fromStepId ∧ (g x).toStepId = (g' x).toStepId

/-- Two jobs that differ in their statuses alone. -/
structure SameButStatuses (g g' : β → TransitionDefinition) (xs : List β)
    (job job' : JobDefinition) : Prop where
  id : job.id = job'.id
  steps : job.steps = job'.steps
  startStepId : job.startStepId = job'.startStepId
  deciders : job.deciders = job'.deciders
  transitions : job.transitions = xs.map g
  transitions' : job'.transitions = xs.map g'
  endpoints : SameEndpoints g g'

/-- Jobs that differ in statuses alone have as many transitions. -/
theorem SameButStatuses.length (h : SameButStatuses g g' xs job job') :
    job.transitions.length = job'.transitions.length := by
  rw [h.transitions, h.transitions', List.length_map, List.length_map]

/-- Jobs that differ in statuses alone have the same targets. -/
theorem SameButStatuses.targets (h : SameButStatuses g g' xs job job') (stepId : String) :
    DefinitionValidator.targets job stepId = DefinitionValidator.targets job' stepId := by
  rw [DefinitionValidator.targets, DefinitionValidator.targets, h.transitions, h.transitions',
    List.filterMap_map, List.filterMap_map]
  congr 1
  funext x
  obtain ⟨hfrom, hto⟩ := h.endpoints x
  simp only [Function.comp_apply, hfrom, hto]

/-- Jobs that differ in statuses alone reach the same steps. -/
theorem SameButStatuses.collectReachableFrom (h : SameButStatuses g g' xs job job') (fuel : Nat)
    (queue reachable : List String) :
    DefinitionValidator.collectReachableFrom job fuel queue reachable =
      DefinitionValidator.collectReachableFrom job' fuel queue reachable := by
  induction fuel generalizing queue reachable with
  | zero => rfl
  | succ fuel ih =>
      cases queue with
      | nil => rfl
      | cons cur queue =>
          simp only [DefinitionValidator.collectReachableFrom, h.targets, ih]

/-- Jobs that differ in statuses alone pass the same reachability checks. -/
theorem SameButStatuses.checkReachable (h : SameButStatuses g g' xs job job') (stepId : String) :
    DefinitionValidator.checkReachable job stepId =
      DefinitionValidator.checkReachable job' stepId := by
  have hcollect : collectReachable job = collectReachable job' := by
    rw [collectReachable, collectReachable, h.length, h.startStepId, h.collectReachableFrom]
  rw [DefinitionValidator.checkReachable, DefinitionValidator.checkReachable, hcollect,
    h.startStepId]

/-- Jobs that differ in statuses alone have the same cycles. -/
theorem SameButStatuses.detectCycle (h : SameButStatuses g g' xs job job') (depth : Nat)
    (path : List String) (stepId : String) (search : Search) :
    DefinitionValidator.detectCycle job depth path stepId search =
      DefinitionValidator.detectCycle job' depth path stepId search := by
  induction depth generalizing path stepId search with
  | zero => rfl
  | succ depth ih => simp only [DefinitionValidator.detectCycle, h.targets, h.id, ih]

/-- Transitions with the same ends pass the same checks. -/
theorem forM_validateTransitionBy (h : SameEndpoints g g') (hasStep : String → Bool)
    (xs : List β) : (xs.map g).forM (validateTransitionBy hasStep) =
      (xs.map g').forM (validateTransitionBy hasStep) := by
  induction xs with
  | nil => rfl
  | cons x xs ih =>
      have hsame : validateTransitionBy hasStep (g x) = validateTransitionBy hasStep (g' x) := by
        obtain ⟨hfrom, hto⟩ := h x
        rw [validateTransitionBy, validateTransitionBy, hfrom, hto]
      change (validateTransitionBy hasStep (g x) >>= fun _ => (xs.map g).forM _) =
        (validateTransitionBy hasStep (g' x) >>= fun _ => (xs.map g').forM _)
      rw [hsame, ih]

/-- **Validation looks at the endpoints of the transitions only.** -/
theorem SameButStatuses.validateBy (h : SameButStatuses g g' xs job job')
    (hasStep : String → Bool) :
    DefinitionValidator.validateBy hasStep job = DefinitionValidator.validateBy hasStep job' := by
  have hstepOrder : job.stepOrder = job'.stepOrder := by
    rw [JobDefinition.stepOrder, JobDefinition.stepOrder, h.steps]
  have htransitions : job.transitions.forM (validateTransitionBy hasStep) =
      job'.transitions.forM (validateTransitionBy hasStep) := by
    rw [h.transitions, h.transitions']
    exact forM_validateTransitionBy h.endpoints hasStep xs
  have hacyclic : assertAcyclic job = assertAcyclic job' := by
    simp only [assertAcyclic, h.length, h.startStepId, h.detectCycle]
  have hreachable : DefinitionValidator.checkReachable job =
      DefinitionValidator.checkReachable job' := funext h.checkReachable
  simp only [DefinitionValidator.validateBy, hstepOrder, htransitions, hacyclic, hreachable, h.id,
    h.steps, h.startStepId, h.deciders]

end SameEndpoints

end DefinitionValidator

/-! ### One flow, declared twice -/

namespace DefinitionCompiler

variable {fields : StepDefinition → List String} {discovered : DiscoveredJob} {job : DecoratedJob}

/-- The name of a status, or UNKNOWN. -/
def orUnknown (t : TransitionDefinition) : TransitionDefinition :=
  { t with onStatus := if t.onStatus ∈ flowStatusNames then t.onStatus
                       else FlowExecutionStatus.UNKNOWN.value }

/-- A status that plain objects inherit is no pattern; any other one is resolved. -/
theorem definition?_buildTransition {t : DiscoveredTransition}
    (h : t.onStatus ∉ objectPrototypeKeys) :
    (buildTransition t).definition? = some (orUnknown (declare t)) := by
  unfold buildTransition lookupStatus orUnknown declare
  by_cases hname : t.onStatus ∈ flowStatusNames
  · simp [DecoratedTransition.definition?, hname]
  · simp [DecoratedTransition.definition?, hname, h]

/-- Exactly the names of the enum members are kept as they are. -/
theorem definition?_buildTransition_iff {t : DiscoveredTransition} :
    (buildTransition t).definition? = some (declare t) ↔ t.onStatus ∈ flowStatusNames := by
  unfold buildTransition lookupStatus declare
  by_cases hname : t.onStatus ∈ flowStatusNames
  · simp [DecoratedTransition.definition?, hname]
  · by_cases hinherited : t.onStatus ∈ objectPrototypeKeys
    · simp [DecoratedTransition.definition?, hname, hinherited]
    · have hne : FlowExecutionStatus.UNKNOWN.value ≠ t.onStatus := by
        intro heq
        exact hname (heq ▸ by decide)
      simp [DecoratedTransition.definition?, hname, hinherited, hne]

/-- A partial map of a list is total and is `g` exactly where it is `g` on every member. -/
theorem filterMap_eq_map_iff {β γ : Type} {f : β → Option γ} {g : β → γ} {xs : List β} :
    (xs.all (fun x => (f x).isSome) = true ∧ xs.filterMap f = xs.map g) ↔
      ∀ x ∈ xs, f x = some (g x) := by
  induction xs with
  | nil => simp
  | cons x xs ih =>
      cases hx : f x with
      | none => simp [hx]
      | some y =>
          simp only [List.all_cons, hx, Option.isSome_some, Bool.true_and, List.filterMap_cons,
            List.map_cons, List.cons.injEq, List.forall_mem_cons, Option.some.injEq, ← ih]
          tauto

/-- The transitions are definitions exactly when each status has one. -/
theorem definitions?_eq_map_iff {xs : List DiscoveredTransition}
    (hjob : job.transitions = xs.map buildTransition)
    {g : DiscoveredTransition → TransitionDefinition} :
    job.definitions? = some (xs.map g) ↔
      ∀ t ∈ xs, (buildTransition t).definition? = some (g t) := by
  rw [← filterMap_eq_map_iff, DecoratedJob.definitions?, hjob, List.all_map, List.filterMap_map]
  by_cases hall : (xs.all fun t => (buildTransition t).definition?.isSome) = true
  · simp [Function.comp_def, hall]
  · simp [Function.comp_def, hall]

/-- The validator takes a job and the builder's for the same. -/
theorem validate_configOf (steps : List StepDefinition) :
    compileFromBuilderConfig fields (configOf discovered steps) =
      (validate fields (outline (assemble discovered steps))).map fun _ =>
        { outline (assemble discovered steps) with
          transitions := discovered.transitionMethods.map declare } := by
  have hsame : DefinitionValidator.SameButStatuses
      (fun t => { fromStepId := t.fromStep, onStatus := "", toStepId := t.toStep }) declare
      discovered.transitionMethods (outline (assemble discovered steps)).definition
      { (outline (assemble discovered steps)).definition with
        transitions := discovered.transitionMethods.map declare } :=
    ⟨rfl, rfl, rfl, rfl, List.map_map, rfl, fun _ => ⟨rfl, rfl⟩⟩
  have hvalid := hsame.validateBy ((outline (assemble discovered steps)).hasStep fields)
  rw [validate, hvalid]
  rfl

/-- What a decorated class compiles to, the builder's configuration of the same steps compiles to up
to the transitions. -/
theorem compile_configOf (h : compileFromDiscovered fields discovered = .ok job) :
    job.transitions = discovered.transitionMethods.map buildTransition ∧
      ∃ steps job', discovered.stepMethods.mapM (buildStep discovered) = .ok steps ∧
        compileFromBuilderConfig fields (configOf discovered steps) = .ok job' ∧
        job'.steps = job.steps ∧
        job'.transitions = discovered.transitionMethods.map declare := by
  obtain ⟨steps, hsteps, h⟩ := DefinitionValidator.ok_of_bind h
  cases hvalid : validate fields (outline (assemble discovered steps)) with
  | error err =>
      rw [hvalid] at h
      cases h
  | ok u =>
      rw [hvalid] at h
      cases h
      refine ⟨rfl, steps,
        { outline (assemble discovered steps) with
          transitions := discovered.transitionMethods.map declare }, hsteps, ?_, rfl, rfl⟩
      rw [validate_configOf, hvalid]
      rfl

/-- **A decorated flow is the builder's** exactly where its statuses are names of enum members; any
other status, unless plain objects inherit its name, is taken for UNKNOWN. -/
theorem decorated_flow_agrees (h : compileFromDiscovered fields discovered = .ok job) :
    ∃ steps job', discovered.stepMethods.mapM (buildStep discovered) = .ok steps ∧
      compileFromBuilderConfig fields (configOf discovered steps) = .ok job' ∧
      job'.steps = job.steps ∧ job'.transitions = discovered.transitionMethods.map declare ∧
      (job.definitions? = some job'.transitions ↔
        ∀ t ∈ discovered.transitionMethods, t.onStatus ∈ flowStatusNames) ∧
      ((∀ t ∈ discovered.transitionMethods, t.onStatus ∈ flowStatusNames) →
        ∀ stepId status, job.evaluate stepId status =
          FlowEvaluator.evaluate job'.transitions stepId status) ∧
      ((∀ t ∈ discovered.transitionMethods, t.onStatus ∉ objectPrototypeKeys) →
        job.definitions? = some (job'.transitions.map orUnknown)) := by
  obtain ⟨hjob, steps, job', hsteps, hbuilt, hsame, hdeclared⟩ := compile_configOf h
  have hiff : job.definitions? = some job'.transitions ↔
      ∀ t ∈ discovered.transitionMethods, t.onStatus ∈ flowStatusNames := by
    rw [hdeclared, definitions?_eq_map_iff hjob]
    exact forall₂_congr fun t _ => definition?_buildTransition_iff
  refine ⟨steps, job', hsteps, hbuilt, hsame, hdeclared, hiff, ?_, ?_⟩
  · intro hnames stepId status
    exact DecoratedJob.evaluate_of_definitions (hiff.mpr hnames) stepId status
  · intro hplain
    rw [hdeclared, List.map_map, definitions?_eq_map_iff hjob]
    intro t ht
    exact definition?_buildTransition (hplain t ht)

section Decorated

/-- A decorated class of two tasklets with a transition from the first to the second. -/
def extractThenLoad (onStatus : String) : DiscoveredJob where
  className := "NightlyJob"
  method? := fun _ => none
  jobOptions := { id := "nightly" }
  stepMethods :=
    [{ methodName := "extract", options := { id := "extract" }, isTasklet := true },
      { methodName := "load", options := { id := "load" }, isTasklet := true }]
  itemMethods := []
  listenerMethods := []
  transitionMethods :=
    [{ methodName := "onExtract", fromStep := "extract", onStatus := onStatus,
       toStep := some "load" }]

def extractThenLoadSteps : List StepDefinition :=
  [.tasklet { id := "extract", tasklet := buildItemMethodRef (extractThenLoad "") "extract" },
    .tasklet { id := "load", tasklet := buildItemMethodRef (extractThenLoad "") "load" }]

/-- The job that extracts and loads is valid for every status. -/
theorem validate_extractThenLoad (onStatus : String) : validate taskletFields
    (outline (assemble (extractThenLoad onStatus) extractThenLoadSteps)) = .ok () := by
  let job := assemble (extractThenLoad onStatus) extractThenLoadSteps
  have hlisted : JsRecord.listed job.steps.own.entries = job.steps.own.entries := by
    apply (JsRecord.listed_eq_self_iff _).mpr
    exact List.pairwise_pair.mpr (keyBefore_load "extract")
  rw [validate_of_listed rfl hlisted]
  rfl

/-- The job that extracts and loads compiles to its own assembly. -/
theorem compile_extractThenLoad (onStatus : String) :
    compileFromDiscovered taskletFields (extractThenLoad onStatus) =
      .ok (assemble (extractThenLoad onStatus) extractThenLoadSteps) := by
  have hsteps : (extractThenLoad onStatus).stepMethods.mapM (buildStep (extractThenLoad onStatus)) =
      .ok extractThenLoadSteps := rfl
  rw [compileFromDiscovered, hsteps]
  change (validate _ _).map _ = _
  rw [validate_extractThenLoad]
  rfl

/-- With the status FAILED the two paths still part. -/
theorem decorated_flow_agrees_failed :
    ∃ steps job', (extractThenLoad "FAILED").stepMethods.mapM
        (buildStep (extractThenLoad "FAILED")) = .ok steps ∧
      compileFromBuilderConfig taskletFields (configOf (extractThenLoad "FAILED") steps) =
        .ok job' ∧
      (assemble (extractThenLoad "FAILED") extractThenLoadSteps).definitions? =
        some job'.transitions := by
  obtain ⟨steps, job', hsteps, hbuilt, -, -, hiff, -⟩ :=
    decorated_flow_agrees (compile_extractThenLoad "FAILED")
  exact ⟨steps, job', hsteps, hbuilt, hiff.mpr (by decide)⟩

/-- **A custom exit status is redirected**: the builder's job goes on to `load`, the decorated one
knows no transition for the status. -/
theorem custom_status_redirected :
    ∃ job job', compileFromDiscovered taskletFields (extractThenLoad "EXPIRED") = .ok job ∧
      compileFromBuilderConfig taskletFields
        (configOf (extractThenLoad "EXPIRED") extractThenLoadSteps) = .ok job' ∧
      job.definitions? ≠ some job'.transitions ∧
      FlowEvaluator.evaluate job'.transitions "extract" "EXPIRED" = .ok (some "load") ∧
      job.evaluate "extract" "EXPIRED" = .ok none := by
  have hbuilt : compileFromBuilderConfig taskletFields
      (configOf (extractThenLoad "EXPIRED") extractThenLoadSteps) = _ :=
    validate_configOf extractThenLoadSteps
  rw [validate_extractThenLoad] at hbuilt
  exact ⟨_, _, compile_extractThenLoad "EXPIRED", hbuilt, by decide, by decide, by decide⟩

end Decorated

end DefinitionCompiler

end NestBatch
