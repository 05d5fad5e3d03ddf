import NestBatch.Core.Ir

/-!
# The in-memory job repository

`InMemoryJobRepository` keeps instances, executions, step executions and
contexts in insertion-ordered maps.  Each of its methods takes effect in one
piece: the check and the insertion of `createExecutionAtomic` are separated by
no await.  Ids come from a generator that never repeats itself.
-/

namespace NestBatch

/-- A source of unique ids. -/
structure IdGenerator where
  next : Nat → String
  unique : Function.Injective next

/-- The state of an `InMemoryJobRepository`; `issued` counts the ids handed out. -/
structure InMemoryJobRepository where
  idGen : IdGenerator
  issued : Nat
  instances : JsMap String JobInstance
  instancesByKey : JsMap String JobInstance
  executions : JsMap String JobExecution
  stepExecutions : JsMap String StepExecution
  contexts : JsMap ExecutionScope ExecutionContext

/-- `STARTING` or `STARTED`: the statuses that block another launch. -/
def JobStatus.blocksLaunch (status : JobStatus) : Bool :=
  status = .STARTING || status = .STARTED

namespace InMemoryJobRepository

/-- A fresh repository. -/
def new (idGen : IdGenerator) : InMemoryJobRepository :=
  { idGen := idGen, issued := 0, instances := .empty, instancesByKey := .empty,
    executions := .empty, stepExecutions := .empty, contexts := .empty }

/-- The id the generator hands out next. -/
def nextId (repo : InMemoryJobRepository) : String := repo.idGen.next repo.issued

/-- The key of `instancesByKey`. -/
def instanceKey (name jobKey : String) : String := name ++ "::" ++ jobKey

/-- The body shared by `getOrCreateJobInstance` and `createExecutionAtomic`. -/
def getOrCreateJobInstance (repo : InMemoryJobRepository) (now : Time) (name jobKey : String) :
    JobInstance × InMemoryJobRepository :=
  match repo.instancesByKey.get? (instanceKey name jobKey) with
  | some existing => (existing, repo)
  | none =>
      let inst : JobInstance :=
        { id := repo.nextId, jobName := name, jobKey := jobKey, createdAt := now }
      (inst, { repo with
        issued := repo.issued + 1
        instances := repo.instances.set inst.id inst
        instancesByKey := repo.instancesByKey.set (instanceKey name jobKey) inst })

/-- A new execution row, in `STARTING`. -/
def newExecution (id jobInstanceId : String) (params : JobParameters) : JobExecution :=
  { id := id, jobInstanceId := jobInstanceId, status := .STARTING, startTime := none,
    endTime := none, exitCode := "", exitMessage := "", params := params }

/-- Insert a new execution row of an instance. -/
def createJobExecution (repo : InMemoryJobRepository) (jobInstanceId : String)
    (params : JobParameters) : JobExecution × InMemoryJobRepository :=
  let exec := newExecution repo.nextId jobInstanceId params
  (exec, { repo with issued := repo.issued + 1, executions := repo.executions.set exec.id exec })

/-- The first execution of the instance that is `STARTING` or `STARTED`. -/
def getRunningJobExecution (repo : InMemoryJobRepository) (jobInstanceId : String) :
    Option JobExecution :=
  repo.executions.values.find? fun exec =>
    exec.jobInstanceId = jobInstanceId && exec.status.blocksLaunch

/-- Get or create the instance, refuse if one of its executions is running,
insert a new execution.  An instance created on the way stays. -/
def createExecutionAtomic (repo : InMemoryJobRepository) (now : Time) (name jobKey : String)
    (params : JobParameters) : Except Thrown JobExecution × InMemoryJobRepository :=
  let (inst, repo) := repo.getOrCreateJobInstance now name jobKey
  match repo.getRunningJobExecution inst.id with
  | some exec => (.error (.JobExecutionAlreadyRunningError exec.id), repo)
  | none =>
      let (exec, repo) := repo.createJobExecution inst.id params
      (.ok exec, repo)

/-- Creating an instance touches the two instance maps only. -/
theorem getOrCreateJobInstance_frame (repo : InMemoryJobRepository) (now : Time)
    (name jobKey : String) :
    (repo.getOrCreateJobInstance now name jobKey).2.executions = repo.executions ∧
    (repo.getOrCreateJobInstance now name jobKey).2.stepExecutions = repo.stepExecutions ∧
    (repo.getOrCreateJobInstance now name jobKey).2.contexts = repo.contexts := by
  unfold getOrCreateJobInstance
  split <;> exact ⟨rfl, rfl, rfl⟩

/-- Creating an instance issues ids, and takes none back. -/
theorem getOrCreateJobInstance_ids (repo : InMemoryJobRepository) (now : Time)
    (name jobKey : String) :
    (repo.getOrCreateJobInstance now name jobKey).2.idGen = repo.idGen ∧
    repo.issued ≤ (repo.getOrCreateJobInstance now name jobKey).2.issued := by
  unfold getOrCreateJobInstance
  split
  · exact ⟨rfl, Nat.le_refl _⟩
  · exact ⟨rfl, Nat.le_succ _⟩

/-- So does a launch. -/
theorem createExecutionAtomic_ids (repo : InMemoryJobRepository) (now : Time)
    (name jobKey : String) (params : JobParameters) :
    (repo.createExecutionAtomic now name jobKey params).2.idGen = repo.idGen ∧
    repo.issued ≤ (repo.createExecutionAtomic now name jobKey params).2.issued := by
  have hinst := repo.getOrCreateJobInstance_ids now name jobKey
  unfold createExecutionAtomic
  dsimp only
  split
  · exact hinst
  · exact ⟨hinst.1, Nat.le_succ_of_le hinst.2⟩

/-- A launch touches no step execution and no context. -/
theorem createExecutionAtomic_frame (repo : InMemoryJobRepository) (now : Time)
    (name jobKey : String) (params : JobParameters) :
    (repo.createExecutionAtomic now name jobKey params).2.stepExecutions = repo.stepExecutions ∧
    (repo.createExecutionAtomic now name jobKey params).2.contexts = repo.contexts := by
  have hframe := repo.getOrCreateJobInstance_frame now name jobKey
  unfold createExecutionAtomic
  cases hinst : repo.getOrCreateJobInstance now name jobKey with
  | mk inst repo' =>
      rw [hinst] at hframe
      dsimp only
      cases repo'.getRunningJobExecution inst.id with
      | none => exact hframe.2
      | some exec => exact hframe.2

def updateJobExecution (repo : InMemoryJobRepository) (executionId : String)
    (patch : JobExecutionPatch) : Except Thrown Unit × InMemoryJobRepository :=
  match repo.executions.get? executionId with
  | none => (.error (.error ("JobExecution not found: " ++ executionId)), repo)
  | some cur =>
      (.ok (), { repo with executions := repo.executions.set executionId (patch.applyTo cur) })

def getJobExecution (repo : InMemoryJobRepository) (executionId : String) : Option JobExecution :=
  repo.executions.get? executionId

def getJobInstance (repo : InMemoryJobRepository) (jobInstanceId : String) : Option JobInstance :=
  repo.instances.get? jobInstanceId

/-- A new step execution row, in `STARTING`. -/
def newStepExecution (id jobExecutionId stepName : String) : StepExecution :=
  { id := id, jobExecutionId := jobExecutionId, stepName := stepName, status := .STARTING,
    readCount := 0, writeCount := 0, skipCount := 0, rollbackCount := 0, commitCount := 0,
    startTime := none, endTime := none, exitCode := "", exitMessage := "" }

def createStepExecution (repo : InMemoryJobRepository) (jobExecutionId stepName : String) :
    StepExecution × InMemoryJobRepository :=
  let step := newStepExecution repo.nextId jobExecutionId stepName
  (step, { repo with
    issued := repo.issued + 1, stepExecutions := repo.stepExecutions.set step.id step })

def updateStepExecution (repo : InMemoryJobRepository) (stepExecutionId : String)
    (patch : StepExecutionPatch) : Except Thrown Unit × InMemoryJobRepository :=
  match repo.stepExecutions.get? stepExecutionId with
  | none => (.error (.error ("StepExecution not found: " ++ stepExecutionId)), repo)
  | some cur =>
      (.ok (), { repo with
        stepExecutions := repo.stepExecutions.set stepExecutionId (patch.applyTo cur) })

def findStepExecutions (repo : InMemoryJobRepository) (jobExecutionId : String) :
    List StepExecution :=
  repo.stepExecutions.values.filter fun step => step.jobExecutionId = jobExecutionId

def getExecutionContext (repo : InMemoryJobRepository) (scope : ExecutionScope) :
    ExecutionContext :=
  (repo.contexts.get? scope).getD { data := .null, version := 0 }

/-- Every `JsonValue` is serializable, so saving one never fails; the executors
never pass an explicit version. -/
def saveExecutionContext (repo : InMemoryJobRepository) (scope : ExecutionScope)
    (ctx : ExecutionContext) : InMemoryJobRepository :=
  let version := ((repo.contexts.get? scope).map (·.version)).getD 0 + 1
  { repo with contexts := repo.contexts.set scope { data := ctx.data, version := version } }

/-- The version a context gets: the one passed, or the next. -/
def nextVersion (repo : InMemoryJobRepository) (scope : ExecutionScope) : Option Nat → Nat
  | some version => version
  | none => ((repo.contexts.get? scope).map (·.version)).getD 0 + 1

/-- `saveExecutionContext` with the version a caller may pass. -/
def saveExecutionContextVersion (repo : InMemoryJobRepository) (scope : ExecutionScope)
    (ctx : ExecutionContext) (version : Option Nat) : InMemoryJobRepository :=
  let saved : ExecutionContext := { data := ctx.data, version := repo.nextVersion scope version }
  { repo with contexts := repo.contexts.set scope saved }

def getStepExecution (repo : InMemoryJobRepository) (stepExecutionId : String) :
    Option StepExecution :=
  repo.stepExecutions.get? stepExecutionId

/-- The most recently created step execution of the pair: the last in insertion order. -/
def findLatestStepExecution (repo : InMemoryJobRepository) (jobExecutionId stepName : String) :
    Option StepExecution :=
  (repo.stepExecutions.values.filter fun step =>
    step.jobExecutionId = jobExecutionId && step.stepName = stepName).getLast?

end InMemoryJobRepository

end NestBatch
