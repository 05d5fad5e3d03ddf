import NestBatch.Core.Validation
import NestBatch.Execution.JobExecutor

/-!
# The job launcher and the job operator

`JobLauncher.launch` creates the execution row under the concurrency guard and
hands it to the execution strategy, if one is bound, else straight to the
executor.  `JobLauncher.run` and with it `JobOperator.restart` hand an existing
row to the executor and bypass both.

A `Host` holds what Nest injects.  `canonicalJobKey` is any function here: the
launcher only asks it for a key.
-/

namespace NestBatch

/-- `ExecutionStrategyContext`. -/
structure ExecutionStrategyContext where
  executionId : String
  jobExecutionId : String

/-- `LaunchResult`. -/
inductive LaunchResult
  | completed (status : JobStatus)
  | enqueued (queueJobId : String)

/-- `IExecutionStrategy.launch`. -/
abbrev ExecutionStrategy (α : Type) :=
  JobDefinition → JobParameters → ExecutionStrategyContext → Code α LaunchResult

/-- The host of a launch: its registry, its key function and its strategy. -/
structure Host (α : Type) where
  registry : JobRegistry
  canonicalJobKey : JobParameters → String
  strategy : Option (ExecutionStrategy α)
  /-- Bound of every loop of the executors. -/
  fuel : Nat

variable {α : Type}

/-! ### The in-process strategy -/

/-- What an in-process launch does with a partitioned step. -/
inductive InProcessPartitionViolationMode
  | throw
  | warn
  deriving DecidableEq, Repr

namespace InProcessExecutionStrategy

/-- `assertPartitionsSupported`, over the entries of the job; a warning is only logged. -/
def assertPartitionsSupported (mode : InProcessPartitionViolationMode) :
    List (String × StepDefinition) → Except Thrown Unit
  | [] => .ok ()
  | (stepId, .chunk step) :: rest =>
      match step.partitions with
      | none => assertPartitionsSupported mode rest
      | some partitions =>
          if partitions.count ≤ 1 ∨ mode = .warn then assertPartitionsSupported mode rest
          else .error (.InProcessPartitionsNotSupportedError stepId partitions.count)
  | (_, _) :: rest => assertPartitionsSupported mode rest

/-- Runs the job at once, in the process of the launch. -/
def launch (mode : InProcessPartitionViolationMode) (fuel : Nat) : ExecutionStrategy α :=
  fun job _params ctx => do
    .ofExcept (assertPartitionsSupported mode job.steps.entries)
    let execution ← getJobExecution ctx.executionId
    match execution with
    | none =>
        .throw (.error ("[InProcessExecutionStrategy] expected JobExecution " ++
          ctx.executionId ++ " to exist"))
    | some execution => do
        let finished ← JobExecutor.execute fuel execution job {}
        .pure (.completed finished.status)

end InProcessExecutionStrategy

/-! ### The launcher -/

namespace JobLauncher

/-- The key of the instance: a job that allows duplicates gets a fresh one each time. -/
def jobKey (host : Host α) (jobDef : JobDefinition) (identifying : JobParameters) :
    Code α String :=
  if jobDef.allowDuplicateInstances then do
    let nonce ← randomUUID
    .pure (host.canonicalJobKey identifying ++ "::" ++ nonce)
  else .pure (host.canonicalJobKey identifying)

/-- Hand a new execution to the strategy, or straight to the executor. -/
def handOver (host : Host α) (jobDef : JobDefinition) (params : JobParameters)
    (execution : JobExecution) : Code α JobExecution :=
  match host.strategy with
  | none => JobExecutor.execute host.fuel execution jobDef {}
  | some strategy => do
      let _ ← strategy jobDef params
        { executionId := execution.id, jobExecutionId := execution.id }
      let latest ← getJobExecution execution.id
      .pure (latest.getD execution)

/-- `launch`: looks the job up, creates its execution and hands it over. -/
def launch (host : Host α) (jobId : String) (params : JobParameters)
    (identifyingParams : Option JobParameters := none) : Code α JobExecution := do
  let jobDef ← .ofExcept (host.registry.get jobId)
  let key ← jobKey host jobDef (identifyingParams.getD params)
  let execution ← createExecutionAtomic jobId key params
  handOver host jobDef params execution

/-- `run`: no strategy, no guard. -/
def run (host : Host α) (execution : JobExecution) (jobDef : JobDefinition) :
    Code α JobExecution :=
  JobExecutor.execute host.fuel execution jobDef {}

end JobLauncher

/-! ### The explorer and the operator -/

namespace JobExplorer

/-- The contexts of the step executions, in their order. -/
def stepContexts : List StepExecution → Code α (List (String × ExecutionContext))
  | [] => .pure []
  | step :: rest => do
      let context ← getExecutionContext (.stepExecutionId step.id)
      let contexts ← stepContexts rest
      .pure ((step.id, context) :: contexts)

/-- The execution with its instance, its steps and their contexts. -/
def getJobExecutionDetails (executionId : String) : Code α JobExecutionDetails := do
  let jobExecution ← getJobExecution executionId
  match jobExecution with
  | none => .throw (.JobExecutionNotFoundError executionId)
  | some jobExecution => do
      let jobInstance ← getJobInstance jobExecution.jobInstanceId
      match jobInstance with
      | none => .throw (.JobInstanceNotFoundError jobExecution.jobInstanceId)
      | some jobInstance => do
          let stepExecutions ← findStepExecutions executionId
          let jobContext ← getExecutionContext (.jobExecutionId executionId)
          let contexts ← stepContexts stepExecutions
          .pure { jobInstance := jobInstance, jobExecution := jobExecution
                  stepExecutions := stepExecutions, jobContext := jobContext
                  stepContexts := contexts }

end JobExplorer

namespace JobOperator

/-- The statuses in which an execution is still going on. -/
def isActive (status : JobStatus) : Bool :=
  status = .STARTING || status = .STARTED || status = .STOPPING

/-- Marks an active execution STOPPED. -/
def stop (executionId : String) : Code α JobExecutionDetails := do
  let details ← JobExplorer.getJobExecutionDetails executionId
  let status := details.jobExecution.status
  if status = .STOPPED then .pure details
  else if isActive status = false then
    .throw (.InvalidJobOperationError ("Cannot stop execution in " ++ status.value ++ " state"))
  else do
    let endTime ← now
    updateJobExecution executionId
      { status := some .STOPPED, endTime := some (some endTime), exitCode := some "STOPPED"
        exitMessage := some "Stopped by JobOperator" }
    JobExplorer.getJobExecutionDetails executionId

/-- `details.jobExecution.endTime ?? new Date()`. -/
def endTimeOr (endTime : Option Time) : Code α Time :=
  match endTime with
  | some time => .pure time
  | none => now

/-- Marks an execution ABANDONED that is neither active nor COMPLETED. -/
def abandon (executionId : String) : Code α JobExecutionDetails := do
  let details ← JobExplorer.getJobExecutionDetails executionId
  let status := details.jobExecution.status
  if status = .ABANDONED then .pure details
  else if isActive status ∨ status = .COMPLETED then
    .throw (.InvalidJobOperationError ("Cannot abandon execution in " ++ status.value ++ " state"))
  else do
    let endTime ← endTimeOr details.jobExecution.endTime
    updateJobExecution executionId
      { status := some .ABANDONED, endTime := some (some endTime), exitCode := some "ABANDONED"
        exitMessage := some "Abandoned by JobOperator" }
    JobExplorer.getJobExecutionDetails executionId

/-- Runs a FAILED or STOPPED execution again. -/
def restart (host : Host α) (executionId : String) : Code α JobExecutionDetails := do
  let details ← JobExplorer.getJobExecutionDetails executionId
  let status := details.jobExecution.status
  if status ≠ .FAILED ∧ status ≠ .STOPPED then
    .throw (.InvalidJobOperationError ("Cannot restart execution in " ++ status.value ++ " state"))
  else do
    let jobDef ← .ofExcept (host.registry.get details.jobInstance.jobName)
    let execution ← JobLauncher.run host details.jobExecution jobDef
    JobExplorer.getJobExecutionDetails execution.id

/-- `startNextInstance`: launch with a fresh run id among the parameters. -/
def startNextInstance (host : Host α) (jobId : String) (params : JobParameters) :
    Code α JobExecution := do
  let runId ← randomUUID
  JobLauncher.launch host jobId (JsonValue.setField params "_nestBatchRunId" (.str runId))

end JobOperator

end NestBatch
