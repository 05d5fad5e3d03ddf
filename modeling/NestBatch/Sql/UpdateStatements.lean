import NestBatch.Sql.FilterQueries

/-!
# Updates as statements

TypeORM's repository writes a patch in one `UPDATE`.  `sets`, `values` and the
counter `i` grow with every field that the patch has, the id is the last value,
and no statement is issued for a patch without a field.  The statement makes of
the tables what `updateJobExecution` and `updateStepExecution` make of them, and
nothing else.
-/

namespace NestBatch

open SqlStatement Autocommit

/-- The columns of `batch_step_execution`. -/
inductive StepExecutionField
  | id | job_execution_id | step_name | status
  | read_count | write_count | skip_count | rollback_count | commit_count
  | exit_code | exit_message | created_at
  deriving DecidableEq, Repr

def StepExecutionRow.field (row : StepExecutionRow) : StepExecutionField → Option SqlValue
  | .id => some (.text row.id)
  | .job_execution_id => some (.text row.jobExecutionId)
  | .step_name => some (.text row.stepName)
  | .status => some (.text row.status.value)
  | .read_count => some (.integer row.readCount)
  | .write_count => some (.integer row.writeCount)
  | .skip_count => some (.integer row.skipCount)
  | .rollback_count => some (.integer row.rollbackCount)
  | .commit_count => some (.integer row.commitCount)
  | .exit_code => some (.text row.exitCode)
  | .exit_message => some (.text row.exitMessage)
  | .created_at => some (.timestamp row.createdAt)

/-! ### The statements -/

/-- The fields that `updateJobExecution` looks at, in its order. -/
def JobExecutionPatch.assignments (patch : JobExecutionPatch) :
    List (JobExecutionField × Option (Option SqlValue)) :=
  [(.status, patch.status.map fun status => some (.text status.value)),
    (.start_time, patch.startTime.map fun time => time.map .timestamp),
    (.end_time, patch.endTime.map fun time => time.map .timestamp),
    (.exit_code, patch.exitCode.map fun code => some (.text code)),
    (.exit_message, patch.exitMessage.map fun message => some (.text message))]

/-- The fields that `updateStepExecution` looks at, in its order. -/
def StepExecutionPatch.assignments (patch : StepExecutionPatch) :
    List (StepExecutionField × Option (Option SqlValue)) :=
  [(.status, patch.status.map fun status => some (.text status.value)),
    (.read_count, patch.readCount.map fun count => some (.integer count)),
    (.write_count, patch.writeCount.map fun count => some (.integer count)),
    (.skip_count, patch.skipCount.map fun count => some (.integer count)),
    (.rollback_count, patch.rollbackCount.map fun count => some (.integer count)),
    (.commit_count, patch.commitCount.map fun count => some (.integer count)),
    (.exit_code, patch.exitCode.map fun code => some (.text code)),
    (.exit_message, patch.exitMessage.map fun message => some (.text message))]

namespace TypeOrmDatabase

/-- `UPDATE "batch_job_execution" SET ... WHERE "id" = ...`, if there is anything to set. -/
def executionUpdate (executionId : String) (patch : JobExecutionPatch) :
    Option (Draft (Clause JobExecutionField) (Option SqlValue)) :=
  (Draft.setAll {} patch.assignments).update .id (some (.text executionId))

/-- `UPDATE "batch_step_execution" SET ... WHERE "id" = ...`, if there is anything to set. -/
def stepExecutionUpdate (stepExecutionId : String) (patch : StepExecutionPatch) :
    Option (Draft (Clause StepExecutionField) (Option SqlValue)) :=
  (Draft.setAll {} patch.assignments).update .id (some (.text stepExecutionId))

end TypeOrmDatabase

/-! ### Columns and rows -/

/-- A step status is known by its text. -/
theorem StepStatus.value_injective : Function.Injective StepStatus.value := by
  intro s t h
  cases s <;> cases t <;> first | rfl | exact absurd h (by decide)

/-- A row is its columns and its parameters. -/
theorem JobExecution.eq_of_field {a b : JobExecution} (hfield : a.field = b.field)
    (hparams : a.params = b.params) : a = b := by
  have hcolumn (c : JobExecutionField) : a.field c = b.field c := congrFun hfield c
  have hid := hcolumn .id
  have hinstance := hcolumn .job_instance_id
  have hstatus := hcolumn .status
  have hstart := hcolumn .start_time
  have hend := hcolumn .end_time
  have hcode := hcolumn .exit_code
  have hmessage := hcolumn .exit_message
  have htimestamp : Function.Injective SqlValue.timestamp := fun _ _ h => by injection h
  have htime : Function.Injective (Option.map SqlValue.timestamp) :=
    Option.map_injective htimestamp
  simp only [field, Option.some.injEq, SqlValue.text.injEq] at hid hinstance hstatus
  simp only [field, Option.some.injEq, SqlValue.text.injEq] at hstart hend hcode hmessage
  cases a
  cases b
  simp only [JobExecution.mk.injEq]
  exact ⟨hid, hinstance, JobStatus.value_injective hstatus, htime hstart, htime hend, hcode,
    hmessage, hparams⟩

/-- A row is known by its fields. -/
theorem StepExecutionRow.eq_of_field {a b : StepExecutionRow} (hfield : a.field = b.field) :
    a = b := by
  have hcolumn (c : StepExecutionField) : a.field c = b.field c := congrFun hfield c
  have hid := hcolumn .id
  have hexecution := hcolumn .job_execution_id
  have hname := hcolumn .step_name
  have hstatus := hcolumn .status
  have hreads := hcolumn .read_count
  have hwrites := hcolumn .write_count
  have hskips := hcolumn .skip_count
  have hrollbacks := hcolumn .rollback_count
  have hcommits := hcolumn .commit_count
  have hcode := hcolumn .exit_code
  have hmessage := hcolumn .exit_message
  have hcreated := hcolumn .created_at
  simp only [field, Option.some.injEq, SqlValue.text.injEq] at hid hexecution hname hstatus
  simp only [field, Option.some.injEq, SqlValue.integer.injEq] at hreads hwrites hskips
  simp only [field, Option.some.injEq, SqlValue.integer.injEq] at hrollbacks hcommits
  simp only [field, Option.some.injEq, SqlValue.text.injEq] at hcode hmessage
  simp only [field, Option.some.injEq, SqlValue.timestamp.injEq] at hcreated
  cases a
  cases b
  simp only [StepExecutionRow.mk.injEq]
  exact ⟨hid, hexecution, hname, StepStatus.value_injective hstatus, hreads, hwrites, hskips,
    hrollbacks, hcommits, hcode, hmessage, hcreated⟩

/-- A column of a patched row is what the patch has for it, or what it was. -/
theorem JobExecutionPatch.field_applyTo (patch : JobExecutionPatch) (row : JobExecution)
    (column : JobExecutionField) : (patch.applyTo row).field column =
      (patch.assignments.lookup column).join.getD (row.field column) := by
  obtain ⟨status, startTime, endTime, exitCode, exitMessage⟩ := patch
  cases column with
  | status => cases status <;> rfl
  | start_time => cases startTime <;> rfl
  | end_time => cases endTime <;> rfl
  | exit_code => cases exitCode <;> rfl
  | exit_message => cases exitMessage <;> rfl
  | _ => rfl

@[inherit_doc JobExecutionPatch.field_applyTo]
theorem StepExecutionPatch.field_applyToRow (patch : StepExecutionPatch) (row : StepExecutionRow)
    (column : StepExecutionField) : (patch.applyToRow row).field column =
      (patch.assignments.lookup column).join.getD (row.field column) := by
  obtain ⟨status, reads, writes, skips, rollbacks, commits, startTime, endTime, exitCode,
    exitMessage⟩ := patch
  cases column with
  | status => cases status <;> rfl
  | read_count => cases reads <;> rfl
  | write_count => cases writes <;> rfl
  | skip_count => cases skips <;> rfl
  | rollback_count => cases rollbacks <;> rfl
  | commit_count => cases commits <;> rfl
  | exit_code => cases exitCode <;> rfl
  | exit_message => cases exitMessage <;> rfl
  | _ => rfl

/-! ### What the statements do -/

section Updates

variable {db : TypeOrmDatabase}

/-- The UPDATE of an execution carries out the patch. -/
theorem executionUpdate_carriedOut (hfiled : FiledBy JobExecution.id db.executions)
    (executionId : String) (patch : JobExecutionPatch) :
    CarriedOut JobExecution.field JobExecution.params db.executions.values
      (db.updateJobExecution executionId patch).executions.values
      (TypeOrmDatabase.executionUpdate executionId patch) := by
  have hnodup : (patch.assignments.map (·.1)).Nodup := by
    change [JobExecutionField.status, .start_time, .end_time, .exit_code, .exit_message].Nodup
    decide
  have hdone := carriedOut_update JobExecution.field JobExecution.params patch.applyTo hnodup
    (fun _ _ => JobExecution.eq_of_field) (fun _ => rfl) patch.field_applyTo .id
    (.text executionId) db.executions.values
  rw [TypeOrmDatabase.executions_updateJobExecution, hfiled.values_updateRow]
  simp only [JobExecution.field, Option.some.injEq, SqlValue.text.injEq] at hdone
  exact hdone

/-- The UPDATE of a step execution carries out the patch. -/
theorem stepExecutionUpdate_carriedOut
    (hfiled : FiledBy StepExecutionRow.id db.stepExecutions) (stepExecutionId : String)
    (patch : StepExecutionPatch) :
    CarriedOut StepExecutionRow.field (fun _ => ()) db.stepExecutions.values
      (db.updateStepExecution stepExecutionId patch).stepExecutions.values
      (TypeOrmDatabase.stepExecutionUpdate stepExecutionId patch) := by
  have hnodup : (patch.assignments.map (·.1)).Nodup := by
    change [StepExecutionField.status, .read_count, .write_count, .skip_count, .rollback_count,
      .commit_count, .exit_code, .exit_message].Nodup
    decide
  have hdone := carriedOut_update StepExecutionRow.field (fun _ => ()) patch.applyToRow hnodup
    (fun _ _ hfield _ => StepExecutionRow.eq_of_field hfield) (fun _ => rfl)
    patch.field_applyToRow .id (.text stepExecutionId) db.stepExecutions.values
  rw [TypeOrmDatabase.stepExecutions_updateStepExecution, hfiled.values_updateRow]
  simp only [StepExecutionRow.field, Option.some.injEq, SqlValue.text.injEq] at hdone
  exact hdone

/-- **The statements say what the updates do.**  After any run, the statement for any patch binds
every value to its column, is one that the database accepts, and makes of the rows what the
repository's update makes of them and nothing else; none is issued where there is nothing to
change. -/
theorem updates_carried_out {uuids : IdGenerator} {calls : List RepositoryCall}
    {answers : List RepositoryAnswer}
    (hruns : Lockstep.Runs TypeOrmDatabase.Answers (.new uuids) calls answers db) (id : String) :
    (∀ patch, CarriedOut JobExecution.field JobExecution.params db.executions.values
        (db.updateJobExecution id patch).executions.values
        (TypeOrmDatabase.executionUpdate id patch)) ∧
      ∀ patch, CarriedOut StepExecutionRow.field (fun _ => ()) db.stepExecutions.values
        (db.updateStepExecution id patch).stepExecutions.values
        (TypeOrmDatabase.stepExecutionUpdate id patch) :=
  have hfiled := TypeOrmDatabase.Filed.runs hruns
  ⟨executionUpdate_carriedOut hfiled.executions id,
    stepExecutionUpdate_carriedOut hfiled.stepExecutions id⟩

/-- The last field is `$2`, and the id `$3`. -/
example : TypeOrmDatabase.executionUpdate "e1"
    { status := some .FAILED, exitCode := some "Error" } = some
    { pieces := [(.set .status, [1]), (.set .exit_code, [2]), (.whereEqual .id, [3])]
      values := [some (.text "FAILED"), some (.text "Error"), some (.text "e1")]
      next := 4 } := by decide

end Updates

/-- The start of an execution, written to the one that was created. -/
theorem updates_carried_out_started : ∃ answers db,
    Lockstep.Runs TypeOrmDatabase.Answers (.new (countedIds 'u'))
      [.createExecutionAtomic 5 "import" "nightly" []] answers db ∧
    db.executions.values.map (·.id) = ["uu"] ∧
    CarriedOut JobExecution.field JobExecution.params db.executions.values
      (db.updateJobExecution "uu" { status := some .STARTED, startTime := some (some 7) }
        ).executions.values
      (TypeOrmDatabase.executionUpdate "uu"
        { status := some .STARTED, startTime := some (some 7) }) := by
  have hcreated : ∃ answers db, Lockstep.Runs TypeOrmDatabase.Answers (.new (countedIds 'u'))
      [.createExecutionAtomic 5 "import" "nightly" []] answers db ∧
      db.executions.values.map (·.id) = ["uu"] := ⟨_, _, .cons ⟨rfl, rfl⟩ (.nil _), rfl⟩
  obtain ⟨answers, db, hruns, hids⟩ := hcreated
  exact ⟨answers, db, hruns, hids, (updates_carried_out hruns "uu").1 _⟩

end NestBatch
