import Mathlib.Order.WithBot
import NestBatch.Sql.LaunchGuard
import NestBatch.Sql.StepTable

/-!
# The TypeORM job repository over its tables

One call after the other.  Every table is keyed by its primary key, and the text
columns that hold JSON hold the value itself.  `inserted` counts the rows that
carry a UUID of their own; a UUID that is drawn for a row which is then not
inserted leaves no trace.
-/

namespace NestBatch

/-- The tables of a `TypeOrmJobRepository`. -/
structure TypeOrmDatabase where
  uuids : IdGenerator
  inserted : Nat
  instances : JsMap String JobInstance
  executions : JsMap String JobExecution
  stepExecutions : JsMap String StepExecutionRow
  jobContexts : JsMap String ExecutionContext
  stepContexts : JsMap String ExecutionContext

/-- `ORDER BY "start_time" ... NULLS LAST`, the other way round. -/
def JobExecution.startOrder (exec : JobExecution) : WithBot Time := exec.startTime

namespace TypeOrmDatabase

/-- Empty tables. -/
def new (uuids : IdGenerator) : TypeOrmDatabase :=
  { uuids := uuids, inserted := 0, instances := .empty, executions := .empty,
    stepExecutions := .empty, jobContexts := .empty, stepContexts := .empty }

/-- The UUID of the next row. -/
def randomUUID (db : TypeOrmDatabase) : String := db.uuids.next db.inserted

/-- Select the row of the unique key, or insert one. -/
def getOrCreateJobInstance (db : TypeOrmDatabase) (now : Time) (name jobKey : String) :
    JobInstance × TypeOrmDatabase :=
  match db.instances.values.find? (·.hasKey name jobKey) with
  | some existing => (existing, db)
  | none =>
      let inst := newInstance db.randomUUID name jobKey now
      (inst, { db with
        inserted := db.inserted + 1
        instances := db.instances.set inst.id inst })

def createJobExecution (db : TypeOrmDatabase) (jobInstanceId : String) (params : JobParameters) :
    JobExecution × TypeOrmDatabase :=
  let exec := InMemoryJobRepository.newExecution db.randomUUID jobInstanceId params
  (exec, { db with
    inserted := db.inserted + 1
    executions := db.executions.set exec.id exec })

/-- The transaction.  What it throws rolls its insert back, and which of several
running executions it names is up to the database. -/
def createExecutionAtomic (db : TypeOrmDatabase) (now : Time) (name jobKey : String)
    (params : JobParameters) : Except Thrown JobExecution × TypeOrmDatabase :=
  let upserted := db.getOrCreateJobInstance now name jobKey
  match upserted.2.executions.values.find? (·.runs upserted.1.id) with
  | some running => (.error (.JobExecutionAlreadyRunningError running.id), db)
  | none =>
      let created := upserted.2.createJobExecution upserted.1.id params
      (.ok created.1, created.2)

/-- An `UPDATE` of the row under the id, if there is one. -/
def updateJobExecution (db : TypeOrmDatabase) (executionId : String) (patch : JobExecutionPatch) :
    TypeOrmDatabase :=
  match db.executions.get? executionId with
  | none => db
  | some row => { db with executions := db.executions.set executionId (patch.applyTo row) }

def getJobExecution (db : TypeOrmDatabase) (executionId : String) : Option JobExecution :=
  db.executions.get? executionId

def getJobInstance (db : TypeOrmDatabase) (jobInstanceId : String) : Option JobInstance :=
  db.instances.get? jobInstanceId

/-- What `getRunningJobExecution` may return: of the running executions one that started last. -/
def IsRunningJobExecution (db : TypeOrmDatabase) (jobInstanceId : String)
    (found : Option JobExecution) : Prop :=
  if jobInstanceId = "" then found = none
  else
    match found with
    | none => ∀ exec ∈ db.executions.values, exec.runs jobInstanceId = false
    | some exec => (exec ∈ db.executions.values ∧ exec.runs jobInstanceId) ∧
        ∀ other ∈ db.executions.values, other.runs jobInstanceId →
          other.startOrder ≤ exec.startOrder

def createStepExecution (db : TypeOrmDatabase) (now : Time) (jobExecutionId stepName : String) :
    StepExecution × TypeOrmDatabase :=
  let row := newStepExecutionRow db.randomUUID jobExecutionId stepName now
  (mapStepExecution row, { db with
    inserted := db.inserted + 1
    stepExecutions := db.stepExecutions.set row.id row })

@[inherit_doc updateJobExecution]
def updateStepExecution (db : TypeOrmDatabase) (stepExecutionId : String)
    (patch : StepExecutionPatch) : TypeOrmDatabase :=
  match db.stepExecutions.get? stepExecutionId with
  | none => db
  | some row =>
      { db with stepExecutions := db.stepExecutions.set stepExecutionId (patch.applyToRow row) }

def getStepExecution (db : TypeOrmDatabase) (stepExecutionId : String) : Option StepExecution :=
  (db.stepExecutions.get? stepExecutionId).map mapStepExecution

/-- Select the context row under an id. -/
def selectContext (table : JsMap String ExecutionContext) (id : String) : ExecutionContext :=
  (table.get? id).getD { data := .null, version := 0 }

/-- Update the context row under an id, or insert one. -/
def upsertContext (table : JsMap String ExecutionContext) (id : String) (data : JsonValue)
    (version : Option Nat) : JsMap String ExecutionContext :=
  let nextVersion :=
    match version with
    | some version => version
    | none =>
        match table.get? id with
        | some existing => existing.version + 1
        | none => 0
  table.set id { data := data, version := nextVersion }

def getExecutionContext (db : TypeOrmDatabase) : ExecutionScope → ExecutionContext
  | .jobExecutionId id => selectContext db.jobContexts id
  | .stepExecutionId id => selectContext db.stepContexts id

def saveExecutionContext (db : TypeOrmDatabase) (scope : ExecutionScope) (ctx : ExecutionContext)
    (version : Option Nat) : TypeOrmDatabase :=
  match scope with
  | .jobExecutionId id =>
      { db with jobContexts := upsertContext db.jobContexts id ctx.data version }
  | .stepExecutionId id =>
      { db with stepContexts := upsertContext db.stepContexts id ctx.data version }

end TypeOrmDatabase

end NestBatch
