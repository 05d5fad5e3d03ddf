import NestBatch.Repository.InMemory

/-!
# Queries by a filter

`JobExplorer` lists instances and executions by filters whose fields are all
optional.  The in-memory repository goes through its rows in the order in which
they were created and skips those that a field excludes.
-/

namespace NestBatch

structure JobInstanceFilter where
  jobName : Option String := none
  jobKey : Option String := none

namespace JobInstanceFilter

variable (filter : JobInstanceFilter)

def nameAllows (inst : JobInstance) : Bool := filter.jobName.all fun name => inst.jobName = name

def keyAllows (inst : JobInstance) : Bool := filter.jobKey.all fun key => inst.jobKey = key

/-- The rows that the loop does not skip. -/
def allows (inst : JobInstance) : Bool := filter.nameAllows inst && filter.keyAllows inst

end JobInstanceFilter

/-- `status?: JobStatus | readonly JobStatus[]`. -/
inductive StatusFilter
  | one (status : JobStatus)
  | anyOf (statuses : List JobStatus)
  deriving DecidableEq, Repr

/-- `Array.isArray(filter.status) ? filter.status : [filter.status]`. -/
def StatusFilter.statuses : StatusFilter → List JobStatus
  | .one status => [status]
  | .anyOf statuses => statuses

structure JobExecutionFilter where
  jobInstanceId : Option String := none
  status : Option StatusFilter := none
  startedAfter : Option Time := none
  startedBefore : Option Time := none

namespace JobExecutionFilter

variable (filter : JobExecutionFilter)

def instanceAllows (execution : JobExecution) : Bool :=
  filter.jobInstanceId.all fun id => execution.jobInstanceId = id

def statusAllows (execution : JobExecution) : Bool :=
  filter.status.all fun status => execution.status ∈ status.statuses

/-- `startTime === null || startTime < startedAfter` excludes a row. -/
def startedAfterAllows (execution : JobExecution) : Bool :=
  filter.startedAfter.all fun time => execution.startTime.any fun start => !decide (start < time)

/-- `startTime === null || startTime > startedBefore` excludes a row. -/
def startedBeforeAllows (execution : JobExecution) : Bool :=
  filter.startedBefore.all fun time => execution.startTime.any fun start => !decide (time < start)

/-- The rows that the loop does not skip. -/
def allows (execution : JobExecution) : Bool :=
  filter.instanceAllows execution && filter.statusAllows execution &&
    filter.startedAfterAllows execution && filter.startedBeforeAllows execution

end JobExecutionFilter

namespace InMemoryJobRepository

def findJobInstances (repo : InMemoryJobRepository) (filter : JobInstanceFilter) :
    List JobInstance :=
  repo.instances.values.filter filter.allows

def findJobExecutions (repo : InMemoryJobRepository) (filter : JobExecutionFilter) :
    List JobExecution :=
  repo.executions.values.filter filter.allows

end InMemoryJobRepository

end NestBatch
