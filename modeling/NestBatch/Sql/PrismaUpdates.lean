import NestBatch.Lib.Autocommit
import NestBatch.Sql.StepTable

/-!
# Patches as the SQL repositories write them

Drizzle writes a patch in one `UPDATE`.  Prisma issues an `UPDATE` of its own
for every field the patch sets, each committed before the next one starts.
-/

namespace NestBatch

open Autocommit

/-- `SET` of one column of `batch_job_execution`. -/
inductive JobExecutionColumn
  | status (value : JobStatus)
  | startTime (value : Option Time)
  | endTime (value : Option Time)
  | exitCode (value : String)
  | exitMessage (value : String)

namespace JobExecutionColumn

/-- Assigns one column of a job execution. -/
def assign : JobExecutionColumn → JobExecution → JobExecution
  | .status value, row => { row with status := value }
  | .startTime value, row => { row with startTime := value }
  | .endTime value, row => { row with endTime := value }
  | .exitCode value, row => { row with exitCode := value }
  | .exitMessage value, row => { row with exitMessage := value }

/-- The row has the value in the column. -/
def Has : JobExecutionColumn → JobExecution → Prop
  | .status value, row => row.status = value
  | .startTime value, row => row.startTime = value
  | .endTime value, row => row.endTime = value
  | .exitCode value, row => row.exitCode = value
  | .exitMessage value, row => row.exitMessage = value

/-- A column has its value exactly when assigning it changes nothing. -/
theorem has_iff (column : JobExecutionColumn) (row : JobExecution) :
    column.Has row ↔ column.assign row = row := by
  cases row
  cases column <;> simp [Has, assign, eq_comm]

end JobExecutionColumn

/-- The columns a patch sets, in the order of the source. -/
def JobExecutionPatch.columns (patch : JobExecutionPatch) : List JobExecutionColumn :=
  (patch.status.map JobExecutionColumn.status).toList ++
    (patch.startTime.map JobExecutionColumn.startTime).toList ++
    (patch.endTime.map JobExecutionColumn.endTime).toList ++
    (patch.exitCode.map JobExecutionColumn.exitCode).toList ++
    (patch.exitMessage.map JobExecutionColumn.exitMessage).toList

/-- All columns together are the patch. -/
theorem JobExecutionPatch.runAll_columns (patch : JobExecutionPatch) (row : JobExecution) :
    runAll (patch.columns.map JobExecutionColumn.assign) row = patch.applyTo row := by
  simp only [columns, List.map_append, runAll_append]
  rw [runAll_optional JobExecutionColumn.assign .status (·.status) fun _ => rfl,
    runAll_optional JobExecutionColumn.assign .startTime (·.startTime) fun _ => rfl,
    runAll_optional JobExecutionColumn.assign .endTime (·.endTime) fun _ => rfl,
    runAll_optional JobExecutionColumn.assign .exitCode (·.exitCode) fun _ => rfl,
    runAll_optional JobExecutionColumn.assign .exitMessage (·.exitMessage) fun _ => rfl]
  rfl

/-- `SET` of one column of `batch_step_execution`. -/
inductive StepExecutionColumn
  | status (value : StepStatus)
  | readCount (value : Nat)
  | writeCount (value : Nat)
  | skipCount (value : Nat)
  | rollbackCount (value : Nat)
  | commitCount (value : Nat)
  | exitCode (value : String)
  | exitMessage (value : String)

namespace StepExecutionColumn

/-- Assigns one column of a step execution. -/
def assign : StepExecutionColumn → StepExecutionRow → StepExecutionRow
  | .status value, row => { row with status := value }
  | .readCount value, row => { row with readCount := value }
  | .writeCount value, row => { row with writeCount := value }
  | .skipCount value, row => { row with skipCount := value }
  | .rollbackCount value, row => { row with rollbackCount := value }
  | .commitCount value, row => { row with commitCount := value }
  | .exitCode value, row => { row with exitCode := value }
  | .exitMessage value, row => { row with exitMessage := value }

@[inherit_doc JobExecutionColumn.Has]
def Has : StepExecutionColumn → StepExecutionRow → Prop
  | .status value, row => row.status = value
  | .readCount value, row => row.readCount = value
  | .writeCount value, row => row.writeCount = value
  | .skipCount value, row => row.skipCount = value
  | .rollbackCount value, row => row.rollbackCount = value
  | .commitCount value, row => row.commitCount = value
  | .exitCode value, row => row.exitCode = value
  | .exitMessage value, row => row.exitMessage = value

/-- Assigning a value that is there changes nothing. -/
theorem assign_of_has (column : StepExecutionColumn) (row : StepExecutionRow)
    (h : column.Has row) : column.assign row = row := by
  cases row
  cases column <;> cases h <;> rfl

/-- A column whose assignment no one sees has its value. -/
theorem has_of_mapStepExecution (column : StepExecutionColumn) (row : StepExecutionRow)
    (h : mapStepExecution (column.assign row) = mapStepExecution row) : column.Has row := by
  cases row
  cases column <;> simp_all [Has, assign, mapStepExecution]

end StepExecutionColumn

@[inherit_doc JobExecutionPatch.columns]
def StepExecutionPatch.columns (patch : StepExecutionPatch) : List StepExecutionColumn :=
  (patch.status.map StepExecutionColumn.status).toList ++
    (patch.readCount.map StepExecutionColumn.readCount).toList ++
    (patch.writeCount.map StepExecutionColumn.writeCount).toList ++
    (patch.skipCount.map StepExecutionColumn.skipCount).toList ++
    (patch.rollbackCount.map StepExecutionColumn.rollbackCount).toList ++
    (patch.commitCount.map StepExecutionColumn.commitCount).toList ++
    (patch.exitCode.map StepExecutionColumn.exitCode).toList ++
    (patch.exitMessage.map StepExecutionColumn.exitMessage).toList

/-- All columns together are what the patch sets of a row. -/
theorem StepExecutionPatch.runAll_columns (patch : StepExecutionPatch) (row : StepExecutionRow) :
    runAll (patch.columns.map StepExecutionColumn.assign) row = patch.applyToRow row := by
  simp only [columns, List.map_append, runAll_append]
  rw [runAll_optional StepExecutionColumn.assign .status (·.status) fun _ => rfl,
    runAll_optional StepExecutionColumn.assign .readCount (·.readCount) fun _ => rfl,
    runAll_optional StepExecutionColumn.assign .writeCount (·.writeCount) fun _ => rfl,
    runAll_optional StepExecutionColumn.assign .skipCount (·.skipCount) fun _ => rfl,
    runAll_optional StepExecutionColumn.assign .rollbackCount (·.rollbackCount) fun _ => rfl,
    runAll_optional StepExecutionColumn.assign .commitCount (·.commitCount) fun _ => rfl,
    runAll_optional StepExecutionColumn.assign .exitCode (·.exitCode) fun _ => rfl,
    runAll_optional StepExecutionColumn.assign .exitMessage (·.exitMessage) fun _ => rfl]
  rfl

namespace PrismaJobRepository

/-- The statements of `updateJobExecution`. -/
def updateJobExecution (executionId : String) (patch : JobExecutionPatch) :
    List (JsMap String JobExecution → JsMap String JobExecution) :=
  patch.columns.map fun column => updateRow executionId column.assign

/-- The statements of `updateStepExecution`. -/
def updateStepExecution (stepExecutionId : String) (patch : StepExecutionPatch) :
    List (JsMap String StepExecutionRow → JsMap String StepExecutionRow) :=
  patch.columns.map fun column => updateRow stepExecutionId column.assign

end PrismaJobRepository

namespace DrizzleJobRepository

@[inherit_doc PrismaJobRepository.updateJobExecution]
def updateJobExecution (executionId : String) (patch : JobExecutionPatch) :
    List (JsMap String JobExecution → JsMap String JobExecution) :=
  together executionId (patch.columns.map JobExecutionColumn.assign)

@[inherit_doc PrismaJobRepository.updateStepExecution]
def updateStepExecution (stepExecutionId : String) (patch : StepExecutionPatch) :
    List (JsMap String StepExecutionRow → JsMap String StepExecutionRow) :=
  together stepExecutionId (patch.columns.map StepExecutionColumn.assign)

end DrizzleJobRepository

/-- The statements apply the whole patch to a row of `batch_job_execution` or leave it as it was,
for every reader and wherever one of them fails. -/
def JobPatchAllOrNothing (statements : List (JsMap String JobExecution → JsMap String JobExecution))
    (executionId : String) (patch : JobExecutionPatch) (rows : JsMap String JobExecution) : Prop :=
  AllOrNothing (fun rows => rows.get? executionId) ((rows.get? executionId).map patch.applyTo)
    statements rows

/-- The same for a row of `batch_step_execution`, as `mapStepExecution` reads it. -/
def StepPatchAllOrNothing
    (statements : List (JsMap String StepExecutionRow → JsMap String StepExecutionRow))
    (stepExecutionId : String) (patch : StepExecutionPatch)
    (rows : JsMap String StepExecutionRow) : Prop :=
  AllOrNothing (fun rows => (rows.get? stepExecutionId).map mapStepExecution)
    ((rows.get? stepExecutionId).map fun row => patch.applyTo (mapStepExecution row))
    statements rows

/-- The patch sets no time of a step but to `null`. -/
def StepExecutionPatch.SetsNoTime (patch : StepExecutionPatch) : Prop :=
  (∀ time ∈ patch.startTime, time = none) ∧ ∀ time ∈ patch.endTime, time = none

section

variable {executionId stepExecutionId : String}

/-- A patch is seen as written exactly when it sets no time. -/
theorem mapStepExecution_applyToRow_iff (patch : StepExecutionPatch) (row : StepExecutionRow) :
    mapStepExecution (patch.applyToRow row) = patch.applyTo (mapStepExecution row) ↔
      patch.SetsNoTime := by
  have hiff : mapStepExecution (patch.applyToRow row) = patch.applyTo (mapStepExecution row) ↔
      none = patch.startTime.getD none ∧ none = patch.endTime.getD none := by
    simp [mapStepExecution, StepExecutionPatch.applyToRow, StepExecutionPatch.applyTo]
  rw [hiff]
  unfold StepExecutionPatch.SetsNoTime
  cases patch.startTime <;> cases patch.endTime <;> simp [eq_comm]

/-- **When a patch of a job execution is all or nothing.** -/
theorem updateJobExecution_allOrNothing_iff (patch : JobExecutionPatch)
    (rows : JsMap String JobExecution) :
    JobPatchAllOrNothing (PrismaJobRepository.updateJobExecution executionId patch) executionId
        patch rows ↔
      ∀ row ∈ rows.get? executionId, ∀ column ∈ patch.columns.dropLast, column.Has row := by
  have hcolumns := allOrNothing_columns_iff id
    (fun c row => (JobExecutionColumn.has_iff c row).mp)
    (fun c row => (JobExecutionColumn.has_iff c row).mpr) executionId patch.columns patch.applyTo
    rows
  simp only [Option.map_id, id] at hcolumns
  unfold JobPatchAllOrNothing PrismaJobRepository.updateJobExecution
  rw [hcolumns]
  refine forall₂_congr fun row _ => and_iff_right (patch.runAll_columns row)

/-- **When a patch of a step execution is all or nothing.** -/
theorem updateStepExecution_allOrNothing_iff (patch : StepExecutionPatch)
    (rows : JsMap String StepExecutionRow) :
    StepPatchAllOrNothing (PrismaJobRepository.updateStepExecution stepExecutionId patch)
        stepExecutionId patch rows ↔
      ∀ row ∈ rows.get? stepExecutionId,
        patch.SetsNoTime ∧ ∀ column ∈ patch.columns.dropLast, column.Has row := by
  unfold StepPatchAllOrNothing PrismaJobRepository.updateStepExecution
  rw [allOrNothing_columns_iff mapStepExecution StepExecutionColumn.assign_of_has
    StepExecutionColumn.has_of_mapStepExecution]
  refine forall₂_congr fun row _ => and_congr_left' ?_
  rw [patch.runAll_columns, mapStepExecution_applyToRow_iff]

/-- One `UPDATE` is all or nothing: Drizzle's patches of a job execution always are. -/
theorem drizzle_updateJobExecution_allOrNothing (patch : JobExecutionPatch)
    (rows : JsMap String JobExecution) :
    JobPatchAllOrNothing (DrizzleJobRepository.updateJobExecution executionId patch) executionId
      patch rows := by
  have htogether := allOrNothing_together_iff id executionId
    (patch.columns.map JobExecutionColumn.assign) patch.applyTo rows
  simp only [Option.map_id, id] at htogether
  exact htogether.mpr fun row _ => patch.runAll_columns row

/-- Drizzle's patches of a step execution are all or nothing but for the times. -/
theorem drizzle_updateStepExecution_allOrNothing_iff (patch : StepExecutionPatch)
    (rows : JsMap String StepExecutionRow) :
    StepPatchAllOrNothing (DrizzleJobRepository.updateStepExecution stepExecutionId patch)
        stepExecutionId patch rows ↔
      ∀ row ∈ rows.get? stepExecutionId, patch.SetsNoTime := by
  unfold StepPatchAllOrNothing DrizzleJobRepository.updateStepExecution
  rw [allOrNothing_together_iff]
  refine forall₂_congr fun row _ => ?_
  rw [patch.runAll_columns, mapStepExecution_applyToRow_iff]

end

/-- **When Prisma's patches are all or nothing**: where every field that is set, but for the one
written last, has its value already, and a step is given no times. -/
theorem prisma_patches_allOrNothing_iff (executionId stepExecutionId : String) :
    (∀ patch rows,
      JobPatchAllOrNothing (PrismaJobRepository.updateJobExecution executionId patch) executionId
          patch rows ↔
        ∀ row ∈ rows.get? executionId, ∀ column ∈ patch.columns.dropLast, column.Has row) ∧
      ∀ patch rows,
        StepPatchAllOrNothing (PrismaJobRepository.updateStepExecution stepExecutionId patch)
            stepExecutionId patch rows ↔
          ∀ row ∈ rows.get? stepExecutionId,
            patch.SetsNoTime ∧ ∀ column ∈ patch.columns.dropLast, column.Has row :=
  ⟨updateJobExecution_allOrNothing_iff, updateStepExecution_allOrNothing_iff⟩

section Torn

/-- A running execution. -/
def runningExecution : JobExecution :=
  { id := "e1", jobInstanceId := "i1", status := .STARTED, startTime := some 10, endTime := none,
    exitCode := "", exitMessage := "", params := [] }

/-- What the executor writes at the end of a run. -/
def completedPatch : JobExecutionPatch :=
  { status := some .COMPLETED, endTime := some (some 20), exitCode := some "COMPLETED" }

/-- **A terminal status is seen without its end time**, and stays so where the second statement
fails. -/
theorem completed_without_endTime :
    ¬ JobPatchAllOrNothing (PrismaJobRepository.updateJobExecution "e1" completedPatch) "e1"
        completedPatch ⟨[("e1", runningExecution)], by decide⟩ ∧
      (issue (PrismaJobRepository.updateJobExecution "e1" completedPatch) 1
        ⟨[("e1", runningExecution)], by decide⟩).left.get? "e1" =
          some { runningExecution with status := .COMPLETED } := by
  refine ⟨fun h => ?_, rfl⟩
  have hread := (h 1).2
  cases hread

end Torn

end NestBatch
