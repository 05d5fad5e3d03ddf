import NestBatch.Lib.JsMap

/-!
# Statuses, JSON values and repository rows

The data the batch runtime persists and passes around.  Times are milliseconds
of the host clock.  Numbers inside a JSON value are integers here; the runtime
itself only ever stores chunk indices.
-/

namespace NestBatch

inductive JobStatus
  | STARTING | STARTED | COMPLETED | FAILED | STOPPING | STOPPED | ABANDONED | UNKNOWN
  deriving DecidableEq, Repr

inductive StepStatus
  | STARTING | STARTED | COMPLETED | FAILED | STOPPED | UNKNOWN
  deriving DecidableEq, Repr

inductive FlowExecutionStatus
  | COMPLETED | FAILED | STOPPED | UNKNOWN
  deriving DecidableEq, Repr

/-- The string an enum member stands for. -/
def FlowExecutionStatus.value : FlowExecutionStatus → String
  | .COMPLETED => "COMPLETED"
  | .FAILED => "FAILED"
  | .STOPPED => "STOPPED"
  | .UNKNOWN => "UNKNOWN"

@[inherit_doc FlowExecutionStatus.value]
def StepStatus.value : StepStatus → String
  | .STARTING => "STARTING"
  | .STARTED => "STARTED"
  | .COMPLETED => "COMPLETED"
  | .FAILED => "FAILED"
  | .STOPPED => "STOPPED"
  | .UNKNOWN => "UNKNOWN"

@[inherit_doc FlowExecutionStatus.value]
def JobStatus.value : JobStatus → String
  | .STARTING => "STARTING"
  | .STARTED => "STARTED"
  | .COMPLETED => "COMPLETED"
  | .FAILED => "FAILED"
  | .STOPPING => "STOPPING"
  | .STOPPED => "STOPPED"
  | .ABANDONED => "ABANDONED"
  | .UNKNOWN => "UNKNOWN"

/-- JSON values; an object keeps its keys in insertion order. -/
inductive JsonValue : Type
  | null
  | bool (b : Bool)
  | num (n : Int)
  | str (s : String)
  | arr (xs : List JsonValue)
  | obj (fields : List (String × JsonValue))

namespace JsonValue

/-- `{ ...fields, [key]: value }`: a present key keeps its place. -/
def setField : List (String × JsonValue) → String → JsonValue → List (String × JsonValue)
  | [], key, value => [(key, value)]
  | f :: fs, key, value => if f.1 = key then (key, value) :: fs else f :: setField fs key value

/-- `fields[key]`. -/
def getField : List (String × JsonValue) → String → Option JsonValue
  | [], _ => none
  | f :: fs, key => if f.1 = key then some f.2 else getField fs key

@[simp] theorem getField_setField_self (fs : List (String × JsonValue)) (key : String)
    (value : JsonValue) : getField (setField fs key value) key = some value := by
  induction fs with
  | nil => simp [setField, getField]
  | cons f fs ih =>
      by_cases h : f.1 = key
      · simp [setField, getField, h]
      · simp [setField, getField, h, ih]

/-- Setting a field leaves the others alone. -/
theorem getField_setField_of_ne (fs : List (String × JsonValue)) {key key' : String}
    (value : JsonValue) (hne : key' ≠ key) :
    getField (setField fs key value) key' = getField fs key' := by
  induction fs with
  | nil => simp [setField, getField, Ne.symm hne]
  | cons f fs ih =>
      by_cases h : f.1 = key
      · simp [setField, getField, h, Ne.symm hne]
      · simp [setField, getField, h, ih]

end JsonValue

/-- Host clock, in milliseconds. -/
abbrev Time := Nat

/-- `Record<string, JsonValue>`. -/
abbrev JobParameters := List (String × JsonValue)

structure JobInstance where
  id : String
  jobName : String
  jobKey : String
  createdAt : Time

structure JobExecution where
  id : String
  jobInstanceId : String
  status : JobStatus
  startTime : Option Time
  endTime : Option Time
  exitCode : String
  exitMessage : String
  params : JobParameters

/-- A partial update; an absent field is `none`. -/
structure JobExecutionPatch where
  status : Option JobStatus := none
  startTime : Option (Option Time) := none
  endTime : Option (Option Time) := none
  exitCode : Option String := none
  exitMessage : Option String := none

/-- `{ ...cur, ...patch }`. -/
def JobExecutionPatch.applyTo (patch : JobExecutionPatch) (cur : JobExecution) : JobExecution :=
  { cur with
    status := patch.status.getD cur.status
    startTime := patch.startTime.getD cur.startTime
    endTime := patch.endTime.getD cur.endTime
    exitCode := patch.exitCode.getD cur.exitCode
    exitMessage := patch.exitMessage.getD cur.exitMessage }

structure StepExecution where
  id : String
  jobExecutionId : String
  stepName : String
  status : StepStatus
  readCount : Nat
  writeCount : Nat
  skipCount : Nat
  rollbackCount : Nat
  commitCount : Nat
  startTime : Option Time
  endTime : Option Time
  exitCode : String
  exitMessage : String

@[inherit_doc JobExecutionPatch]
structure StepExecutionPatch where
  status : Option StepStatus := none
  readCount : Option Nat := none
  writeCount : Option Nat := none
  skipCount : Option Nat := none
  rollbackCount : Option Nat := none
  commitCount : Option Nat := none
  startTime : Option (Option Time) := none
  endTime : Option (Option Time) := none
  exitCode : Option String := none
  exitMessage : Option String := none

@[inherit_doc JobExecutionPatch.applyTo]
def StepExecutionPatch.applyTo (patch : StepExecutionPatch) (cur : StepExecution) : StepExecution :=
  { cur with
    status := patch.status.getD cur.status
    readCount := patch.readCount.getD cur.readCount
    writeCount := patch.writeCount.getD cur.writeCount
    skipCount := patch.skipCount.getD cur.skipCount
    rollbackCount := patch.rollbackCount.getD cur.rollbackCount
    commitCount := patch.commitCount.getD cur.commitCount
    startTime := patch.startTime.getD cur.startTime
    endTime := patch.endTime.getD cur.endTime
    exitCode := patch.exitCode.getD cur.exitCode
    exitMessage := patch.exitMessage.getD cur.exitMessage }

structure ExecutionContext where
  data : JsonValue
  version : Nat

inductive ExecutionScope
  | jobExecutionId (id : String)
  | stepExecutionId (id : String)
  deriving DecidableEq, Repr

structure JobExecutionDetails where
  jobInstance : JobInstance
  jobExecution : JobExecution
  stepExecutions : List StepExecution
  jobContext : ExecutionContext
  stepContexts : List (String × ExecutionContext)

/-- `BATCH_EVENT`: the types the executors emit. -/
inductive BatchEventType
  | JOB_STARTED | JOB_COMPLETED | JOB_FAILED | STEP_STARTED | STEP_COMPLETED | STEP_FAILED
  deriving DecidableEq, Repr

structure BatchEvent where
  type : BatchEventType
  timestamp : Time
  jobExecutionId : String
  stepExecutionId : Option String := none
  data : JsonValue

/-- What a step executor returns; a tasklet leaves `commitCount` undefined. -/
structure StepResult where
  status : StepStatus
  exitCode : String
  exitMessage : String
  readCount : Nat
  writeCount : Nat
  skipCount : Nat
  commitCount : Option Nat
  deriving DecidableEq, Repr

/-- Key of the chunk checkpoint in a step's context. -/
def lastChunkIndexKey : String := "lastChunkIndex"

/-- `readLastCheckpoint`: the checkpoint of a step context, if it holds one. -/
def readLastCheckpoint (ctx : ExecutionContext) : Option Int :=
  match ctx.data with
  | .obj fields =>
      match JsonValue.getField fields lastChunkIndexKey with
      | some (.num n) => some n
      | _ => none
  | _ => none

/-- `withLastChunkIndex`: the context with its checkpoint moved to `chunkIndex`. -/
def withLastChunkIndex (ctx : ExecutionContext) (chunkIndex : Int) : ExecutionContext :=
  { data :=
      match ctx.data with
      | .obj fields => .obj (JsonValue.setField fields lastChunkIndexKey (.num chunkIndex))
      | _ => .obj [(lastChunkIndexKey, .num chunkIndex)]
    version := ctx.version }

/-- The checkpoint that was written is read. -/
@[simp] theorem readLastCheckpoint_withLastChunkIndex (ctx : ExecutionContext) (i : Int) :
    readLastCheckpoint (withLastChunkIndex ctx i) = some i := by
  unfold withLastChunkIndex readLastCheckpoint
  cases ctx.data <;> simp [JsonValue.getField]

end NestBatch
