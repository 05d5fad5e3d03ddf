import NestBatch.Lib.Pool
import NestBatch.Sql.ReadCommitted
import NestBatch.Repository.InMemory

/-!
# The SQL launch guard

`createExecutionAtomic` of the SQL repositories is one transaction of four
statements: insert the instance row unless its key is taken, lock it, look for
a running execution, insert a new one.  The repositories differ in the text of
the statements only; the SQLite branch of the TypeORM one takes no lock.

A statement is one step of the database.  The calls are programs side by side,
and a call that is past its first statement stands in one of a few phases.
-/

namespace NestBatch

/-- The statements of `createExecutionAtomic`, with the end of its transaction. -/
inductive GuardStatement
  | randomUUID
  /-- `INSERT ... ON CONFLICT ("job_name", "job_key") DO NOTHING` -/
  | insertInstance (id name jobKey : String)
  /-- `SELECT ... FOR UPDATE SKIP LOCKED`, with the limit if it has one -/
  | lockInstance (name jobKey : String) (limit : Option Nat)
  /-- `SELECT ... LIMIT 1` without a lock -/
  | selectInstance (name jobKey : String)
  /-- `SELECT "id" ... "status" IN ('STARTING', 'STARTED') LIMIT 1` -/
  | selectRunning (instanceId : String)
  /-- `INSERT INTO "batch_job_execution" ... RETURNING` -/
  | insertExecution (id instanceId : String) (params : JobParameters)
  | commit
  | rollback

/-- What a statement returns. -/
abbrev GuardStatement.Answer : GuardStatement → Type
  | .randomUUID => String
  | .insertInstance _ _ _ => Unit
  | .lockInstance _ _ _ => List String
  | .selectInstance _ _ => List String
  | .selectRunning _ => List String
  | .insertExecution _ _ _ => JobExecution
  | .commit => Unit
  | .rollback => Unit

/-- The tables the guard works on, the row locks of the instance table, and the
ids drawn so far. -/
structure GuardDatabase (τ : Type) where
  instances : Sql.Table τ JobInstance
  executions : Sql.Table τ JobExecution
  locks : Sql.Locks String τ
  drawn : List String

/-- The unique key of the instance table. -/
def JobInstance.hasKey (name jobKey : String) (inst : JobInstance) : Bool :=
  inst.jobName = name && inst.jobKey = jobKey

/-- An execution of the instance that blocks another launch. -/
def JobExecution.runs (instanceId : String) (exec : JobExecution) : Bool :=
  exec.jobInstanceId = instanceId && exec.status.blocksLaunch

/-- A new row of the instance table. -/
def newInstance (id name jobKey : String) (now : Time) : JobInstance :=
  { id := id, jobName := name, jobKey := jobKey, createdAt := now }

/-- `LIMIT n`, if there is one. -/
def limitTo {α : Type} (limit : Option Nat) (rows : List α) : List α :=
  match limit with
  | none => rows
  | some n => rows.take n

/-- `rows` can be the result of a query with `LIMIT 1` over `matching`. -/
def IsLimitOne {α : Type} (rows matching : List α) : Prop :=
  (rows = [] ∧ matching = []) ∨ ∃ row ∈ matching, rows = [row]

namespace GuardDatabase

variable {τ : Type} [DecidableEq τ]

/-- The rows `t` can lock. -/
def lockable (db : GuardDatabase τ) (t : τ) (name jobKey : String) : List JobInstance :=
  (db.instances.visible t).filter fun inst => inst.hasKey name jobKey && db.locks.grants t inst.id

/-- The executions `t` sees running. -/
def running (db : GuardDatabase τ) (t : τ) (instanceId : String) : List JobExecution :=
  (db.executions.visible t).filter (·.runs instanceId)

/-- The end of a transaction makes its rows visible and gives its locks back. -/
def commit (db : GuardDatabase τ) (t : τ) : GuardDatabase τ :=
  { db with
    instances := db.instances.commit t
    executions := db.executions.commit t
    locks := db.locks.release t }

@[inherit_doc commit]
def rollback (db : GuardDatabase τ) (t : τ) : GuardDatabase τ :=
  { db with
    instances := db.instances.rollback t
    executions := db.executions.rollback t
    locks := db.locks.release t }

end GuardDatabase

/-- The meaning of a statement of the transaction `t`. -/
def GuardStatement.trans {τ : Type} [DecidableEq τ] (t : τ) :
    (o : GuardStatement) → GuardDatabase τ → o.Answer → GuardDatabase τ → Prop
  | .randomUUID, db, id, db' => id ∉ db.drawn ∧ db' = { db with drawn := id :: db.drawn }
  | .insertInstance id name jobKey, db, _, db' =>
      ¬ db.instances.Contended t (·.hasKey name jobKey) ∧
      if ∃ inst ∈ db.instances.visible t, inst.hasKey name jobKey then db' = db
      else ∃ now,
        db' = { db with instances := db.instances.insert t (newInstance id name jobKey now) }
  | .lockInstance name jobKey limit, db, ids, db' =>
      ids = (limitTo limit (db.lockable t name jobKey)).map (·.id) ∧
      db' = { db with locks := db.locks.take t ids }
  | .selectInstance name jobKey, db, ids, db' =>
      db' = db ∧ IsLimitOne ids
        (((db.instances.visible t).filter (·.hasKey name jobKey)).map (·.id))
  | .selectRunning instanceId, db, ids, db' =>
      db' = db ∧ IsLimitOne ids ((db.running t instanceId).map (·.id))
  | .insertExecution id instanceId params, db, exec, db' =>
      exec = InMemoryJobRepository.newExecution id instanceId params ∧
      db' = { db with executions := db.executions.insert t exec }
  | .commit, db, _, db' => db' = db.commit t
  | .rollback, db, _, db' => db' = db.rollback t

/-- Programs over the statements. -/
abbrev GuardProg (α : Type) := Prog GuardStatement GuardStatement.Answer Thrown α

/-- `transaction(body)`: commit what the body returned, or roll back and rethrow. -/
def transaction {α : Type} (body : GuardProg α) : GuardProg α := do
  match ← body.attempt with
  | .ok a => do
      Prog.perform GuardStatement.commit
      return a
  | .error e => do
      Prog.perform GuardStatement.rollback
      Prog.throw e

/-- The part of the guard under the lock: refuse, or create the execution row. -/
def checkAndInsert (params : JobParameters) (instanceId : String) : GuardProg JobExecution := do
  match ← Prog.perform (GuardStatement.selectRunning instanceId) with
  | running :: _ => Prog.throw (Thrown.JobExecutionAlreadyRunningError running)
  | [] => do
      let execId ← Prog.perform GuardStatement.randomUUID
      Prog.perform (GuardStatement.insertExecution execId instanceId params)

/-- From the second statement on, which is `select`. -/
def selectAndInsert (select : GuardStatement) (ids : select.Answer → List String) (name : String)
    (params : JobParameters) : GuardProg JobExecution := do
  match ids (← Prog.perform select) with
  | [] => Prog.throw (Thrown.JobExecutionAlreadyRunningError name)
  | instanceId :: _ => checkAndInsert params instanceId

/-- The four statements, with `select` as the second. -/
def guardedInsert (select : GuardStatement) (ids : select.Answer → List String)
    (name jobKey : String) (params : JobParameters) : GuardProg JobExecution := do
  let instId ← Prog.perform GuardStatement.randomUUID
  Prog.perform (GuardStatement.insertInstance instId name jobKey)
  selectAndInsert select ids name params

/-- The guard of a repository that locks the instance row. -/
def lockedInsert (limit : Option Nat) (name jobKey : String) (params : JobParameters) :
    GuardProg JobExecution :=
  transaction (guardedInsert (.lockInstance name jobKey limit) id name jobKey params)

/-- TypeORM locks the instance row, except on SQLite. -/
def TypeOrmJobRepository.createExecutionAtomic (isSqlite : Bool) (name jobKey : String)
    (params : JobParameters) : GuardProg JobExecution :=
  if isSqlite then
    transaction (guardedInsert (.selectInstance name jobKey) id name jobKey params)
  else
    lockedInsert none name jobKey params

/-- Drizzle locks the one instance row. -/
def DrizzleJobRepository.createExecutionAtomic (name jobKey : String) (params : JobParameters) :
    GuardProg JobExecution :=
  lockedInsert (some 1) name jobKey params

/-- Prisma locks the one instance row. -/
def PrismaJobRepository.createExecutionAtomic (name jobKey : String) (params : JobParameters) :
    GuardProg JobExecution :=
  lockedInsert (some 1) name jobKey params

end NestBatch
