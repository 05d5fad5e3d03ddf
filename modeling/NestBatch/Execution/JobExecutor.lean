import NestBatch.Execution.TaskletStep
import NestBatch.Flow.Evaluator

/-!
# The job executor

`JobExecutor.execute` drives one job execution to its end: it marks the row
STARTED, walks the steps from `startStepId` along the transitions of the
definition, and writes the final status.  Whether the run is a restart is
decided once, from the status of the execution object it was handed.

`fuel` bounds the step loop and every chunk loop below it.
-/

namespace NestBatch

/-- The partition routing a transport attaches to a run. -/
structure PartitionArgs where
  partitionIndex : Option Int := none
  partitionCount : Option Int := none
  deriving DecidableEq, Repr

/-- White space and line terminators, as `String.prototype.trim` removes them. -/
def isTrimmable (c : Char) : Bool :=
  [0x09, 0x0A, 0x0B, 0x0C, 0x0D, 0x20, 0xA0, 0x1680, 0x2028, 0x2029, 0x202F, 0x205F, 0x3000,
    0xFEFF].contains c.toNat || (0x2000 ≤ c.toNat && c.toNat ≤ 0x200A)

/-- `String.prototype.trim`. -/
def jsTrim (s : String) : String :=
  String.ofList ((s.toList.dropWhile isTrimmable).reverse.dropWhile isTrimmable).reverse

namespace JobExecutor

variable {α : Type}

/-- `resolveListenerRef`: only a builder lambda has a function to call. -/
def resolveListenerRef (listener : ListenerDefinition) : Option Handle :=
  match listener.ref.kind with
  | .BuilderLambda => listener.ref.fn
  | _ => none

/-- The key of a listener, without its name segment. -/
def listenerKey (listener : ListenerDefinition) : ListenerKey :=
  match listener.kind, listener.skipKind with
  | .skip, some skipKind => .onSkip skipKind
  | kind, _ => .lifecycle listener.phase kind

/-- `buildResolverMap`. -/
def buildResolverMap (jobDef : JobDefinition) : ResolverMap :=
  jobDef.listeners.filterMap fun listener =>
    (resolveListenerRef listener).map fun fn =>
      (listenerKey listener, { fn := fn, nonCritical := listener.nonCritical.getD false })

/-- Whether a key is one of the three the legacy map keeps. -/
def isStepKey (key : ListenerKey) : Bool :=
  key = .lifecycle .before .step || key = .lifecycle .after .step ||
    key = .lifecycle .onError .step

/-- `buildLegacyStepResolvers`: the step-level entries, without failure policy. -/
def buildLegacyStepResolvers (resolvers : ResolverMap) : ResolverMap :=
  (resolvers.filter fun e => isStepKey e.1).map fun e => (e.1, { fn := e.2.fn })

/-- The listener context of the job itself. -/
def jobContext (execution : JobExecution) : ListenerContext :=
  { jobExecutionId := execution.id, stepExecutionId := "<job>", stepName := none
    jobParameters := execution.params }

/-- A run that takes up an execution which ended FAILED or STOPPED. -/
def isRestart (execution : JobExecution) : Bool :=
  execution.status = .FAILED || execution.status = .STOPPED

/-- What a run keeps from its arguments. -/
structure Run where
  execution : JobExecution
  jobDef : JobDefinition
  partition : PartitionArgs

namespace Run

/-- The listeners of the job, resolved. -/
def jobResolvers (R : Run) : ResolverMap := buildResolverMap R.jobDef

/-- The listeners that a step executor gets. -/
def stepResolvers (R : Run) : ResolverMap := buildLegacyStepResolvers R.jobResolvers

def isRestart (R : Run) : Bool := JobExecutor.isRestart R.execution

/-- The context of a tasklet step. -/
def taskletContext (R : Run) (stepExecution : StepExecution) (step : TaskletStepDefinition) :
    TaskletExecutionContext :=
  { jobExecutionId := R.execution.id
    stepExecutionId := some stepExecution.id
    stepName := some step.id
    jobParameters := R.execution.params
    listenerResolvers := R.stepResolvers }

/-- The partition routing reaches the chunk executor only as a pair. -/
def partitionArgs (R : Run) : PartitionArgs :=
  if R.partition.partitionIndex.isSome ∧ R.partition.partitionCount.isSome then R.partition
  else {}

/-- The context of a chunk step. -/
def chunkContext (R : Run) (stepExecution : StepExecution) (step : ChunkStepDefinition)
    (resumeFromChunkIndex : Option Int) : ChunkExecutionContext :=
  { jobExecutionId := R.execution.id
    stepExecutionId := stepExecution.id
    stepName := some step.id
    jobParameters := R.execution.params
    listenerResolvers := R.jobResolvers
    jobExecutionId2 := R.execution.id
    resumeFromChunkIndex := resumeFromChunkIndex
    partitionIndex := R.partitionArgs.partitionIndex
    partitionCount := R.partitionArgs.partitionCount }

/-- The context of the latest step execution, when that one FAILED and this is a
restart of a chunk step. -/
def restartStepContext (R : Run) (step : StepDefinition) : Code α (Option ExecutionContext) :=
  if R.isRestart ∧ step.kind = "chunk" then do
    let priorFailed ← findLatestStepExecution R.execution.id step.id
    match priorFailed with
    | none => .pure none
    | some prior =>
        if prior.status = .FAILED then do
          let ctx ← getExecutionContext (.stepExecutionId prior.id)
          .pure (some ctx)
        else .pure none
  else .pure none

/-- Copy the context of the failed step execution into the new one. -/
def copyContext (stepExecution : StepExecution) : Option ExecutionContext → Code α Unit
  | none => .pure ()
  | some ctx => saveExecutionContext (.stepExecutionId stepExecution.id) ctx

/-- Hand a step to its executor. -/
def dispatch (R : Run) (fuel : Nat) (step : StepDefinition) (stepExecution : StepExecution)
    (resumeFromChunkIndex : Option Int) : Code α StepResult :=
  match step with
  | .tasklet step => TaskletStepExecutor.execute step (R.taskletContext stepExecution step)
  | .chunk step =>
      ChunkStepExecutor.execute fuel step (R.chunkContext stepExecution step resumeFromChunkIndex)
  | .inherited =>
      ChunkStepExecutor.execute fuel inheritedStep
        (R.chunkContext stepExecution inheritedStep resumeFromChunkIndex)

/-- Persist the step as FAILED when its executor throws, and throw on.  An error without a string
form gives way to the one its text throws, before anything is persisted. -/
def orFailStep (stepExecution : StepExecution) (p : Code α StepResult) : Code α StepResult :=
  p.tryCatch fun stepErr => do
    let exitMessage ← .ofExcept stepErr.text
    let endTime ← now
    updateStepExecution stepExecution.id
      { status := some .FAILED, exitCode := some "FAILED", exitMessage := some exitMessage
        endTime := some (some endTime) }
    .throw stepErr

/-- The patch that records the result of a step. -/
def resultPatch (result : StepResult) (endTime : Time) : StepExecutionPatch :=
  { status := some result.status, readCount := some result.readCount
    writeCount := some result.writeCount, skipCount := some result.skipCount
    commitCount := result.commitCount, exitCode := some result.exitCode
    exitMessage := some result.exitMessage, endTime := some (some endTime) }

/-- The event that announces the result of a step. -/
def stepEventType (status : StepStatus) : BatchEventType :=
  if status = .FAILED then .STEP_FAILED else .STEP_COMPLETED

/-- Run a step execution from its start event to its persisted result. -/
def runCreated (R : Run) (fuel : Nat) (step : StepDefinition) (stepExecution : StepExecution)
    (resumeFromChunkIndex : Option Int) : Code α StepResult := do
  let startedAt ← now
  emit { type := .STEP_STARTED, timestamp := startedAt, jobExecutionId := R.execution.id
         stepExecutionId := some stepExecution.id
         data := .obj [("stepId", .str step.id), ("kind", .str step.kind)] }
  let result ← orFailStep stepExecution (R.dispatch fuel step stepExecution resumeFromChunkIndex)
  let endTime ← now
  updateStepExecution stepExecution.id (resultPatch result endTime)
  let emittedAt ← now
  emit { type := stepEventType result.status, timestamp := emittedAt
         jobExecutionId := R.execution.id, stepExecutionId := some stepExecution.id
         data := .obj [("stepId", .str step.id), ("status", .str result.status.value),
                       ("exitCode", .str result.exitCode)] }
  .pure result

/-- Run one step from its lookup to its persisted result. -/
def runStep (R : Run) (fuel : Nat) (step : StepDefinition) :
    Code α (StepExecution × StepResult) := do
  let restartContext ← R.restartStepContext step
  let stepExecution ← createStepExecution R.execution.id step.id
  copyContext stepExecution restartContext
  let result ← R.runCreated fuel step stepExecution (restartContext.bind readLastCheckpoint)
  .pure (stepExecution, result)

/-- `resolveDeciderExitStatus`: the first decider of the step, unless it answers a blank. -/
def resolveDeciderExitStatus (R : Run) (stepId : String) (ctx : DeciderContext) :
    Code α (Option String) :=
  match R.jobDef.deciders.find? fun d => d.afterStepId = stepId with
  | none => .pure none
  | some decider => do
      let status ← orThrow (request (.user (.decide decider.decide ctx)))
      .pure (if jsTrim status = "" then none else some (jsTrim status))

/-- Anything but COMPLETED and FAILED counts as UNKNOWN. -/
def flowStatus : StepStatus → FlowExecutionStatus
  | .COMPLETED => .COMPLETED
  | .FAILED => .FAILED
  | _ => .UNKNOWN

/-- `deciderExitStatus ?? (result.exitCode || flowStatus)`. -/
def flowExitStatus (decider : Option String) (result : StepResult) : String :=
  decider.getD (if result.exitCode = "" then (flowStatus result.status).value else result.exitCode)

/-- `jobDef.transitions.some(matches)`. -/
def hasMatchingTransition (jobDef : JobDefinition) (stepId status : String) : Bool :=
  jobDef.transitions.any fun t => FlowEvaluator.isMatch t stepId status

/-- The target of the transition taken on `exitStatus`, else on `flowStatus`;
`none` when no transition matches either. -/
def transitionTarget (jobDef : JobDefinition) (stepId exitStatus flowStatus : String) :
    Except Thrown (Option (Option String)) := do
  let target ← FlowEvaluator.evaluate jobDef.transitions stepId exitStatus
  if hasMatchingTransition jobDef stepId exitStatus then pure (some target)
  else if exitStatus ≠ flowStatus then do
    let target ← FlowEvaluator.evaluate jobDef.transitions stepId flowStatus
    if hasMatchingTransition jobDef stepId flowStatus then pure (some target) else pure none
  else pure none

/-- The step declared after `stepId`; after the last one, END. -/
def linearNext (jobDef : JobDefinition) (stepId : String) : Option String :=
  if stepId ∈ jobDef.stepOrder then jobDef.stepOrder[jobDef.stepOrder.idxOf stepId + 1]?
  else jobDef.stepOrder[0]?

/-- Where the flow goes after a step. -/
inductive Next
  | goto (stepId : String)
  | finish
  | fail
  deriving DecidableEq, Repr

/-- The next step of a target, where no target ends the flow. -/
def Next.ofTarget : Option String → Next
  | some stepId => .goto stepId
  | none => .finish

/-- The decision of the step loop on the result of a step. -/
def nextStep (jobDef : JobDefinition) (stepId : String) (decider : Option String)
    (result : StepResult) : Except Thrown Next := do
  let target ← transitionTarget jobDef stepId (flowExitStatus decider result)
    (flowStatus result.status).value
  match target with
  | some target => pure (.ofTarget target)
  | none =>
      if result.status = .FAILED then pure .fail else pure (.ofTarget (linearNext jobDef stepId))

/-- Mark the execution FAILED with the exit data of a step. -/
def failJob (R : Run) (exitCode exitMessage : String) : Code α JobStatus := do
  let endTime ← now
  updateJobExecution R.execution.id
    { status := some .FAILED, endTime := some (some endTime), exitCode := some exitCode
      exitMessage := some exitMessage }
  .pure .FAILED

/-- `while (currentStepId !== null)`: the final status the loop leaves. -/
def stepLoop (R : Run) (loopFuel : Nat) : Nat → String → Code α JobStatus
  | 0, _ => .spin
  | fuel + 1, stepId =>
      match R.jobDef.step? stepId with
      | none => R.failJob "NO_SUCH_STEP" ("Step \"" ++ stepId ++ "\" not found")
      | some step => do
          let (stepExecution, result) ← R.runStep loopFuel step
          let decider ← R.resolveDeciderExitStatus stepId
            { jobExecution := R.execution, stepId := step.id, stepExecutionId := stepExecution.id
              stepStatus := result.status, exitCode := result.exitCode
              exitMessage := result.exitMessage }
          let next ← .ofExcept (nextStep R.jobDef stepId decider result)
          match next with
          | .goto next => R.stepLoop loopFuel fuel next
          | .finish => .pure .COMPLETED
          | .fail => R.failJob result.exitCode result.exitMessage

/-- The final write of a run whose loop did not fail. -/
def completeJob (R : Run) (finalStatus : JobStatus) : Code α JobStatus :=
  if finalStatus = .COMPLETED then do
    let endTime ← now
    updateJobExecution R.execution.id
      { status := some .COMPLETED, endTime := some (some endTime), exitCode := some "COMPLETED" }
    .pure .COMPLETED
  else .pure finalStatus

/-- The `catch` block: leave the job FAILED rather than crash the host. -/
def onError (R : Run) (err : Thrown) : Code α JobStatus := do
  let endTime ← now
  let exitMessage ← .ofExcept err.text
  updateJobExecution R.execution.id
    { status := some .FAILED, endTime := some (some endTime), exitMessage := some exitMessage }
  .pure .FAILED

/-- The `try` block and its `catch`: the final status of the run. -/
def drive (R : Run) (fuel : Nat) : Code α JobStatus :=
  Prog.tryCatch (do
    let finalStatus ← R.stepLoop fuel fuel R.jobDef.startStepId
    R.completeJob finalStatus) R.onError

/-- Mark the row STARTED and tell the observer. -/
def begin_ (R : Run) : Code α Unit := do
  let startTime ← now
  updateJobExecution R.execution.id
    { status := some .STARTED, startTime := some (some startTime) }
  let timestamp ← now
  emit { type := .JOB_STARTED, timestamp := timestamp, jobExecutionId := R.execution.id
         data := .obj [("jobName", .str R.jobDef.id)] }

/-- Tell the listeners and the observer the final status. -/
def finish (R : Run) (finalStatus : JobStatus) : Code α Unit := do
  ListenerInvoker.invokeAfterJob R.jobResolvers (jobContext R.execution) finalStatus
  let timestamp ← now
  emit { type := if finalStatus = .COMPLETED then .JOB_COMPLETED else .JOB_FAILED
         timestamp := timestamp, jobExecutionId := R.execution.id
         data := .obj [("status", .str finalStatus.value)] }

/-- A run that was let in. -/
def proceed (R : Run) (fuel : Nat) : Code α JobExecution := do
  R.begin_
  ListenerInvoker.invokeBefore R.jobResolvers .job (jobContext R.execution)
  let finalStatus ← R.drive fuel
  R.finish finalStatus
  let latest ← getJobExecution R.execution.id
  .pure (latest.getD R.execution)

end Run

/-- `execute`: a restart is let in only when the job is restartable. -/
def execute (fuel : Nat) (execution : JobExecution) (jobDef : JobDefinition)
    (partition : PartitionArgs) : Code α JobExecution :=
  if isRestart execution ∧ jobDef.restartable = false then
    .throw (.JobNotRestartableError jobDef.id)
  else Run.proceed { execution := execution, jobDef := jobDef, partition := partition } fuel

end JobExecutor

end NestBatch
