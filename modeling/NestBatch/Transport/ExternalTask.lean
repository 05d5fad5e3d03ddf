import NestBatch.Execution.CallLog
import NestBatch.Execution.JobLauncher
import NestBatch.Execution.WorkerArgs
import NestBatch.Lib.Utf16

/-!
# External tasks

`ExternalTaskExecutionStrategy` has a task started elsewhere for every launch and
tells it by arguments what to run.  There `BatchWorkerRunner` looks the execution up
and hands it to the executor; without an execution it creates one, as the launcher
would, but for the strategy.

The service that starts tasks is a parameter.  So is what becomes of the values that
the arguments carry as JSON or as numbers.
-/

namespace NestBatch

open JsString

variable {α : Type}

/-- Parameters and numbers, as they are written to arguments and read from them. -/
structure ArgumentValues where
  write : JobParameters → JsonParameters
  read : List (JsString × JsTree) → JobParameters
  /-- `Number` -/
  number : JsString → JsNumber
  index : JsNumber → Int

/-! ### The strategy -/

structure ExternalTaskStrategyOptions where
  workerCommand : Option (List JsString) := none
  env : JsMap String String := .empty
  labels : JsMap String String := .empty

structure ExternalTaskLaunchRequest where
  jobId : String
  jobExecutionId : String
  params : JobParameters
  workerArgs : List JsString
  env : JsMap String String
  labels : JsMap String String

structure ExternalTaskLaunchResult where
  provider : String
  externalId : String

/-- `ExternalTaskLauncher.launch`. -/
abbrev ExternalTaskLauncher (α : Type) :=
  ExternalTaskLaunchRequest → Code α ExternalTaskLaunchResult

namespace ExternalTaskExecutionStrategy

variable (values : ArgumentValues) (options : ExternalTaskStrategyOptions)

def request (job : JobDefinition) (params : JobParameters) (ctx : ExecutionStrategyContext) :
    ExternalTaskLaunchRequest :=
  { jobId := job.id
    jobExecutionId := ctx.jobExecutionId
    params := params
    workerArgs := buildWorkerArgs options.workerCommand (units job.id) (units ctx.jobExecutionId)
      (values.write params)
    env := (options.env.set "NEST_BATCH_JOB_ID" job.id).set "NEST_BATCH_JOB_EXECUTION_ID"
      ctx.jobExecutionId
    labels := (options.labels.set "nest-batch/job-id" job.id).set "nest-batch/job-execution-id"
      ctx.jobExecutionId }

def launch (launcher : ExternalTaskLauncher α) : ExecutionStrategy α := fun job params ctx => do
  let result ← launcher (request values options job params ctx)
  .pure (.enqueued (result.provider ++ ":" ++ result.externalId))

end ExternalTaskExecutionStrategy

/-! ### The worker -/

structure BatchWorkerRunResult where
  jobExecution : JobExecution
  status : JobStatus
  processExitCode : Nat

namespace BatchWorkerRunner

/-- What the worker reports of the run. -/
def resultOf (jobExecution : JobExecution) : BatchWorkerRunResult :=
  { jobExecution := jobExecution
    status := jobExecution.status
    processExitCode := if jobExecution.status = .COMPLETED then 0 else 1 }

/-- The execution that is named, and its job, which may be named as well. -/
def existing (executionId : String) (jobId : Option String) : Code α (JobExecution × String) := do
  let execution ← getJobExecution executionId
  match execution with
  | none => .throw (.JobExecutionNotFoundError executionId)
  | some execution =>
      match jobId with
      | some jobId => .pure (execution, jobId)
      | none => do
          let inst ← getJobInstance execution.jobInstanceId
          match inst with
          | none => .throw (.JobInstanceNotFoundError execution.jobInstanceId)
          | some inst => .pure (execution, inst.jobName)

/-- A new execution of the job that is named. -/
def created (host : Host α) (jobId : Option String) (params : JobParameters) :
    Code α (JobExecution × String) :=
  match jobId with
  | none =>
      .throw (.InvalidJobOperationError
        "BatchWorkerRunner requires either jobExecutionId or jobId")
  | some jobId => do
      let jobDef ← .ofExcept (host.registry.get jobId)
      let key ← JobLauncher.jobKey host jobDef params
      let execution ← createExecutionAtomic jobId key params
      .pure (execution, jobId)

/-- `run`; the strategy of the host is not asked. -/
def run (values : ArgumentValues) (host : Host α) (options : BatchWorkerRunOptions) :
    Code α BatchWorkerRunResult := do
  let jobId := options.jobId.map text
  let params := (options.params.map values.read).getD []
  let (execution, jobId) ←
    match options.jobExecutionId.or options.executionId with
    | some executionId => existing (text executionId) jobId
    | none => created host jobId params
  let jobDef ← .ofExcept (host.registry.get jobId)
  let jobExecution ← JobExecutor.execute host.fuel execution jobDef
    { partitionIndex := options.partitionIndex.map values.index
      partitionCount := options.partitionCount.map values.index }
  .pure (resultOf jobExecution)

/-- A worker runs what its arguments say. -/
def main (values : ArgumentValues) (host : Host α) (argv : List JsString) :
    Code α BatchWorkerRunResult := do
  let options ← .ofExcept (parseBatchWorkerArgs values.number argv)
  run values host options

end BatchWorkerRunner

/-! ### From the strategy to the worker -/

/-- An id that is not taken for a flag. -/
def PlainId (id : String) : Prop := isFlag (units id) = false

instance (id : String) : Decidable (PlainId id) := by unfold PlainId; infer_instance

/-- Ids that are not taken for flags are decoded to what they were. -/
theorem parse_build_of_plain (number : JsString → JsNumber) {jobId executionId : String}
    (hjob : PlainId jobId) (hexecution : PlainId executionId) (params : JsonParameters) :
    parseBatchWorkerArgs number (buildWorkerArgs none (units jobId) (units executionId) params) =
      .ok { jobExecutionId := some (units executionId), jobId := some (units jobId)
            params := some params.entries } := by
  have hexecutionId : (decoded (units jobId) (units executionId) params.json).get?
      (units "job-execution-id") = some (units executionId) := by
    rw [get?_decoded (by decide), get?_given_self_iff]
    exact hexecution
  have hjobId : (decoded (units jobId) (units executionId) params.json).get? (units "job-id") =
      some (units jobId) := by
    rw [get?_decoded (by decide), get?_given_of_ne hexecution (by decide), get?_given_self_iff]
    exact hjob
  have hindex : (decoded (units jobId) (units executionId) params.json).get?
      (units "partition-index") = none :=
    get?_decoded_of_ne hjob hexecution (by decide) (by decide) (by decide)
  have hcount : (decoded (units jobId) (units executionId) params.json).get?
      (units "partition-count") = none :=
    get?_decoded_of_ne hjob hexecution (by decide) (by decide) (by decide)
  rw [parse_build]
  simp only [hexecutionId, hjobId, hindex, hcount, Option.some_or, Option.map_none]

/-- A lookup goes on with the row on file. -/
theorem run_getJobExecution {β υ : Type} (env : Environment α υ) (id : String)
    (f : Option JobExecution → Code α β) (s : World υ × Calls α) :
    (getJobExecution id >>= f).run (handle env).traced s =
      (f (s.1.repo.getJobExecution id)).run (handle env).traced
        (s.1, s.2 ++ [⟨.getJobExecution id, s.1.repo.getJobExecution id⟩]) := rfl

/-- **What a worker does that was started for a launch**: it looks the execution up, and runs it as
the job that was launched, without a partition. -/
theorem BatchWorkerRunner.run_main {υ : Type} {env : Environment α υ} {values : ArgumentValues}
    {host : Host α} {job : JobDefinition} {execution : JobExecution}
    (hregistered : host.registry.get job.id = .ok job) {options : ExternalTaskStrategyOptions}
    (hcommand : options.workerCommand = none) (params : JobParameters) (hjob : PlainId job.id)
    (hexecution : PlainId execution.id) {s : World υ × Calls α}
    (hrow : s.1.repo.getJobExecution execution.id = some execution) :
    (main values host (ExternalTaskExecutionStrategy.request values options job params
        { executionId := execution.id, jobExecutionId := execution.id }).workerArgs).run
        (handle env).traced s =
      (JobExecutor.execute host.fuel execution job {} >>= fun finished =>
        (.pure (resultOf finished) : Code α BatchWorkerRunResult)).run (handle env).traced
        (s.1, s.2 ++ [⟨.getJobExecution execution.id, some execution⟩]) := by
  have hparsed := parse_build_of_plain values.number hjob hexecution (values.write params)
  have hfound : (existing execution.id (some job.id) : Code α (JobExecution × String)).run
      (handle env).traced s = (.returned (execution, job.id), s.1,
        s.2 ++ [⟨.getJobExecution execution.id, some execution⟩]) := by
    unfold existing
    rw [run_getJobExecution, hrow]
    rfl
  unfold main ExternalTaskExecutionStrategy.request
  dsimp only
  rw [hcommand, hparsed]
  unfold run
  simp only [Prog.ofExcept, Prog.pure_bind, Option.some_or, Option.map_some, text_units]
  rw [Prog.run_bind, hfound]
  dsimp only
  rw [hregistered]
  rfl

end NestBatch
