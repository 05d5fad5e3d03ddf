import NestBatch.Core.Types

/-!
# Thrown values and the job definition IR

User code appears in a `JobDefinition` as references; what such code does is
given by the environment a program runs in, so a reference is only a number.
The configuration of the skip and retry policies holds error classes and
predicates, described by what the policies ask of them.
-/

namespace NestBatch

/-- Classes of the errors thrown by the batch code itself, and user errors by class name. -/
inductive ErrorName
  | user (className : String)
  /-- A value that has no string form: `String(err)` throws the value of this name and message. -/
  | textless (name : ErrorName) (message : String)
  | error
  | typeError
  | jobNotFound
  | duplicateJob
  | jobExecutionAlreadyRunning
  | jobExecutionNotFound
  | jobInstanceNotFound
  | invalidJobOperation
  | jobNotRestartable
  | invalidFlowGraph (code : String)
  | invalidPartitions
  | inProcessPartitionsNotSupported
  | skipLimitExceeded
  | retryLimitExceeded
  deriving DecidableEq, Repr

/-- A thrown value; `message` is its message, or the value itself as a string.  Of a value without
a string form it only says which one it is. -/
structure Thrown where
  name : ErrorName
  message : String
  deriving DecidableEq, Repr

namespace Thrown

/-- `err instanceof Error ? err.message : String(err)`, as every `catch` block reads it. -/
def text : Thrown → Except Thrown String
  | ⟨.textless name message, _⟩ => .error ⟨name, message⟩
  | err => .ok err.message

/-- `Object.create(null)`, which has no `toString`. -/
def bareObject : Thrown :=
  ⟨.textless .typeError "Cannot convert object to primitive value", "Object.create(null)"⟩

def error (message : String) : Thrown := ⟨.error, message⟩

def JobNotFoundError (jobId : String) : Thrown := ⟨.jobNotFound, "Job not found: " ++ jobId⟩

def DuplicateJobDefinitionError (jobId : String) : Thrown :=
  ⟨.duplicateJob, "Job already registered: " ++ jobId⟩

def JobExecutionAlreadyRunningError (jobInstanceId : String) : Thrown :=
  ⟨.jobExecutionAlreadyRunning, "Job instance already running: " ++ jobInstanceId⟩

def JobExecutionNotFoundError (executionId : String) : Thrown :=
  ⟨.jobExecutionNotFound, "Job execution not found: " ++ executionId⟩

def JobInstanceNotFoundError (jobInstanceId : String) : Thrown :=
  ⟨.jobInstanceNotFound, "Job instance not found: " ++ jobInstanceId⟩

def InvalidJobOperationError (message : String) : Thrown := ⟨.invalidJobOperation, message⟩

def JobNotRestartableError (jobId : String) : Thrown :=
  ⟨.jobNotRestartable, "Job is not restartable: " ++ jobId⟩

def InvalidFlowGraphError (code message : String) : Thrown := ⟨.invalidFlowGraph code, message⟩

def InvalidPartitionsError (message : String) : Thrown := ⟨.invalidPartitions, message⟩

def InProcessPartitionsNotSupportedError (stepId : String) (count : Int) : Thrown :=
  ⟨.inProcessPartitionsNotSupported,
    "InProcessExecutionStrategy does not support partitions.count > 1 (step \"" ++ stepId ++
      "\" declares count=" ++ toString count ++ "). " ++
      "Use a transport strategy (BullMQ / Kafka) for parallel partitioning."⟩

def SkipLimitExceededError (limit : Int) : Thrown :=
  ⟨.skipLimitExceeded, "Skip limit exceeded: " ++ toString limit⟩

def RetryLimitExceededError (limit : Int) : Thrown :=
  ⟨.retryLimitExceeded, "Retry limit exceeded: " ++ toString limit⟩

end Thrown

/-- A user function or object; what it does is up to the environment. -/
abbrev Handle := Nat

/-- How a reference is resolved.  `undefined` is the kind of a value that is no
reference at all: reading it throws. -/
inductive RefKind
  | ProviderToken | BuilderLambda | Method | undefined
  deriving DecidableEq, Repr

structure Ref where
  kind : RefKind
  token : Option String := none
  fn : Option Handle := none
  classToken : Option String := none
  methodName : Option String := none
  factory : Bool := false
  deriving DecidableEq, Repr

/-- A function of the host language, by what the policies do with it; `ν` are the values that can be
thrown. -/
structure FunctionValue (ν : Type) where
  length : Nat
  /-- `f.prototype !== undefined && f.prototype instanceof Error` -/
  prototypeInstanceofError : Bool
  /-- What `v instanceof f` answers, `none` when it throws: `f` has no prototype. -/
  hasInstance : ν → Option Bool
  /-- Truthiness of `f(v)`, `none` when the call throws. -/
  call : ν → Option Bool

/-- An entry of `skippable` or `retryable`: an error class or a predicate. -/
abbrev Skippable := FunctionValue Thrown

structure SkipPolicyConfig where
  limit : Int
  skippable : List Skippable

/-- The backoff between attempts is real time and is not modelled. -/
structure RetryPolicyConfig where
  limit : Int
  retryable : List Skippable

/-- `ChunkPartitionConfig`; `range i n` is the half-open `[from, to)`, or what the resolver
throws. -/
structure ChunkPartitionConfig where
  count : Int
  range : Option (Int → Int → Except Thrown (Int × Int)) := none

structure ChunkStepDefinition where
  id : String
  chunkSize : Nat
  reader : Ref
  processor : Option Ref := none
  writer : Ref
  skipPolicy : Option SkipPolicyConfig := none
  retryPolicy : Option RetryPolicyConfig := none
  partitions : Option ChunkPartitionConfig := none

structure TaskletStepDefinition where
  id : String
  tasklet : Ref

/-- A step; `inherited` is what `steps[name]` finds under a name that every
plain object inherits, a value with no field of a step. -/
inductive StepDefinition
  | chunk (step : ChunkStepDefinition)
  | tasklet (step : TaskletStepDefinition)
  | inherited

def StepDefinition.id : StepDefinition → String
  | .chunk step => step.id
  | .tasklet step => step.id
  | .inherited => "undefined"

def StepDefinition.kind : StepDefinition → String
  | .chunk _ => "chunk"
  | .tasklet _ => "tasklet"
  | .inherited => "undefined"

structure TransitionDefinition where
  fromStepId : String
  onStatus : String
  /-- `none` is END. -/
  toStepId : Option String
  deriving DecidableEq, Repr

structure DeciderDefinition where
  afterStepId : String
  decide : Handle
  deriving DecidableEq, Repr

inductive ListenerKind
  | job | step | chunk | itemRead | itemProcess | itemWrite | skip | transition
  deriving DecidableEq, Repr

inductive ListenerPhase
  | before | after | onError
  deriving DecidableEq, Repr

inductive SkipSubKind
  | read | process | write
  deriving DecidableEq, Repr

structure ListenerDefinition where
  kind : ListenerKind
  ref : Ref
  phase : ListenerPhase
  skipKind : Option SkipSubKind := none
  nonCritical : Option Bool := none
  deriving DecidableEq, Repr

/-- `steps` lists the own entries in `Object.keys` order. -/
structure JobDefinition where
  id : String
  steps : JsMap String StepDefinition
  startStepId : String
  transitions : List TransitionDefinition := []
  deciders : List DeciderDefinition := []
  listeners : List ListenerDefinition := []
  restartable : Bool
  allowDuplicateInstances : Bool := false

/-- The names every plain object inherits. -/
def objectPrototypeKeys : List String :=
  ["constructor", "__defineGetter__", "__defineSetter__", "hasOwnProperty", "__lookupGetter__",
    "__lookupSetter__", "isPrototypeOf", "propertyIsEnumerable", "toString", "valueOf",
    "__proto__", "toLocaleString"]

/-- An inherited property taken for a chunk step: every field reads `undefined`. -/
def inheritedStep : ChunkStepDefinition :=
  { id := "undefined", chunkSize := 0, reader := { kind := .undefined },
    writer := { kind := .undefined } }

namespace JobDefinition

/-- `stepId in job.steps`. -/
def hasStep (job : JobDefinition) (stepId : String) : Bool :=
  (job.steps.get? stepId).isSome || objectPrototypeKeys.contains stepId

/-- `job.steps[stepId]`. -/
def step? (job : JobDefinition) (stepId : String) : Option StepDefinition :=
  match job.steps.get? stepId with
  | some step => some step
  | none => if objectPrototypeKeys.contains stepId then some .inherited else none

/-- A step on file is found under its id. -/
theorem step?_of_get? {job : JobDefinition} {stepId : String} {step : StepDefinition}
    (h : job.steps.get? stepId = some step) : job.step? stepId = some step := by
  simp [step?, h]

/-- `Object.keys(job.steps)`. -/
def stepOrder (job : JobDefinition) : List String := job.steps.keys

end JobDefinition

end NestBatch
