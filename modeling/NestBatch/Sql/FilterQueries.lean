import Mathlib.Data.Prod.Lex
import NestBatch.Lib.Autocommit
import NestBatch.Lib.SqlStatement
import NestBatch.Repository.Queries
import NestBatch.Sql.RepositoryAgreement

/-!
# Queries by a filter, in SQL

TypeORM's repository puts the `WHERE` clause of a filter together with numbered
placeholders and Drizzle's with the values in place.  Prisma's has a statement
for every choice of fields of an instance; of the executions it selects all and
filters the rows itself.  Instances come by their creation, executions by their
start, the latest first and those without one last, and both then by the id; how
ids compare is up to the collation of the database.
-/

namespace NestBatch

open SqlStatement Autocommit

/-- What stands in a column, or is handed over for a placeholder; `NULL` is `none`. -/
inductive SqlValue
  | text (s : String)
  | integer (n : Nat)
  | timestamp (time : Time)
  deriving DecidableEq, Repr

/-- The only values compared by `<=` are timestamps. -/
def SqlValue.le : SqlValue → SqlValue → Bool
  | .timestamp a, .timestamp b => decide (a ≤ b)
  | _, _ => false

/-- The columns of `batch_job_instance`. -/
inductive JobInstanceField
  | id | job_name | job_key | created_at
  deriving DecidableEq, Repr

def JobInstance.field (row : JobInstance) : JobInstanceField → Option SqlValue
  | .id => some (.text row.id)
  | .job_name => some (.text row.jobName)
  | .job_key => some (.text row.jobKey)
  | .created_at => some (.timestamp row.createdAt)

/-- The columns of `batch_job_execution`, but for `params`. -/
inductive JobExecutionField
  | id | job_instance_id | status | start_time | end_time | exit_code | exit_message
  deriving DecidableEq, Repr

def JobExecution.field (row : JobExecution) : JobExecutionField → Option SqlValue
  | .id => some (.text row.id)
  | .job_instance_id => some (.text row.jobInstanceId)
  | .status => some (.text row.status.value)
  | .start_time => row.startTime.map .timestamp
  | .end_time => row.endTime.map .timestamp
  | .exit_code => some (.text row.exitCode)
  | .exit_message => some (.text row.exitMessage)

/-- Conditions on the columns of a table, with their values. -/
abbrev Conditions (φ : Type) := List (Condition φ × List (Option SqlValue))

/-- `conditions.push(...)` of a field that is set. -/
def conditionIf {φ : Type} (condition : Condition φ) (values : Option (List (Option SqlValue))) :
    Conditions φ := (values.map fun values => (condition, values)).toList

/-! ### The statements -/

section Instances

variable (filter : JobInstanceFilter)

namespace JobInstanceFilter

def nameValues : Option (List (Option SqlValue)) :=
  filter.jobName.map fun name => [some (.text name)]

def keyValues : Option (List (Option SqlValue)) :=
  filter.jobKey.map fun key => [some (.text key)]

end JobInstanceFilter

/-- `where`, `values` and `i` of `findJobInstances`. -/
def TypeOrmDatabase.instancesDraft : Draft (Condition JobInstanceField) (Option SqlValue) :=
  Draft.addIf (Draft.addIf {} (.job_name, .equal) filter.nameValues)
    (.job_key, .equal) filter.keyValues

/-- `conditions` of `findJobInstances`. -/
def DrizzleJobRepository.instanceConditions : Conditions JobInstanceField :=
  conditionIf (.job_name, .equal) filter.nameValues ++
    conditionIf (.job_key, .equal) filter.keyValues

/-- The conditions of the statement that `findJobInstances` chooses. -/
def PrismaJobRepository.instanceConditions : Conditions JobInstanceField :=
  match filter.jobName, filter.jobKey with
  | some name, some key =>
      [((.job_name, .equal), [some (.text name)]), ((.job_key, .equal), [some (.text key)])]
  | some name, none => [((.job_name, .equal), [some (.text name)])]
  | none, some key => [((.job_key, .equal), [some (.text key)])]
  | none, none => []

end Instances

section Executions

variable (filter : JobExecutionFilter)

namespace JobExecutionFilter

def instanceValues : Option (List (Option SqlValue)) :=
  filter.jobInstanceId.map fun id => [some (.text id)]

def statusValues : Option (List (Option SqlValue)) :=
  filter.status.map fun status => status.statuses.map fun s => some (.text s.value)

def startedAfterValues : Option (List (Option SqlValue)) :=
  filter.startedAfter.map fun time => [some (.timestamp time)]

def startedBeforeValues : Option (List (Option SqlValue)) :=
  filter.startedBefore.map fun time => [some (.timestamp time)]

end JobExecutionFilter

/-- `where`, `values` and `i` of `findJobExecutions`. -/
def TypeOrmDatabase.executionsDraft : Draft (Condition JobExecutionField) (Option SqlValue) :=
  Draft.addIf (Draft.addIf (Draft.addIf (Draft.addIf {}
    (.job_instance_id, .equal) filter.instanceValues)
    (.status, .among) filter.statusValues)
    (.start_time, .atLeast) filter.startedAfterValues)
    (.start_time, .atMost) filter.startedBeforeValues

/-- `conditions` of `findJobExecutions`. -/
def DrizzleJobRepository.executionConditions : Conditions JobExecutionField :=
  conditionIf (.job_instance_id, .equal) filter.instanceValues ++
    conditionIf (.status, .among) filter.statusValues ++
    conditionIf (.start_time, .atLeast) filter.startedAfterValues ++
    conditionIf (.start_time, .atMost) filter.startedBeforeValues

end Executions

/-! ### What they answer -/

section Answers

variable {φ ρ : Type}

/-- What a `SELECT` with these conditions may answer; `none` if it is rejected. -/
def Selects (comesFirst : ρ → ρ → Prop) (field : ρ → φ → Option SqlValue) (rows : List ρ)
    (conditions : Conditions φ) (answer : Option (List ρ)) : Prop :=
  if Acceptable conditions then
    ∃ found, answer = some found ∧
      Selected comesFirst (fun row => keeps SqlValue.le conditions (field row)) rows found
  else answer = none

/-- The same of a statement with placeholders. -/
def SelectsBound (comesFirst : ρ → ρ → Prop) (field : ρ → φ → Option SqlValue) (rows : List ρ)
    (draft : Draft (Condition φ) (Option SqlValue)) (answer : Option (List ρ)) : Prop :=
  match draft.bind with
  | none => answer = none
  | some conditions => Selects comesFirst field rows conditions answer

end Answers

section Order

variable {κ : Type} [LinearOrder κ] (collate : String → κ)

/-- `"created_at" ASC, "id" ASC`: the smaller key stands first. -/
def JobInstance.sortKey (row : JobInstance) : Time ×ₗ κ := toLex (row.createdAt, collate row.id)

def JobInstance.comesFirst (a b : JobInstance) : Prop := a.sortKey collate ≤ b.sortKey collate

/-- `"start_time" DESC NULLS LAST, "id" DESC`: the greater key stands first. -/
def JobExecution.sortKey (row : JobExecution) : WithBot Time ×ₗ κ :=
  toLex (row.startOrder, collate row.id)

def JobExecution.comesFirst (a b : JobExecution) : Prop := b.sortKey collate ≤ a.sortKey collate

namespace TypeOrmDatabase

variable (db : TypeOrmDatabase)

def FindsJobInstances (filter : JobInstanceFilter) (answer : Option (List JobInstance)) : Prop :=
  SelectsBound (JobInstance.comesFirst collate) JobInstance.field db.instances.values
    (instancesDraft filter) answer

def FindsJobExecutions (filter : JobExecutionFilter) (answer : Option (List JobExecution)) :
    Prop :=
  SelectsBound (JobExecution.comesFirst collate) JobExecution.field db.executions.values
    (executionsDraft filter) answer

end TypeOrmDatabase

namespace DrizzleJobRepository

variable (db : TypeOrmDatabase)

/-- Over the same tables. -/
def FindsJobInstances (filter : JobInstanceFilter) (answer : Option (List JobInstance)) : Prop :=
  Selects (JobInstance.comesFirst collate) JobInstance.field db.instances.values
    (instanceConditions filter) answer

@[inherit_doc FindsJobInstances]
def FindsJobExecutions (filter : JobExecutionFilter) (answer : Option (List JobExecution)) :
    Prop :=
  Selects (JobExecution.comesFirst collate) JobExecution.field db.executions.values
    (executionConditions filter) answer

end DrizzleJobRepository

namespace PrismaJobRepository

variable (db : TypeOrmDatabase)

/-- Over the same tables. -/
def FindsJobInstances (filter : JobInstanceFilter) (answer : Option (List JobInstance)) : Prop :=
  Selects (JobInstance.comesFirst collate) JobInstance.field db.instances.values
    (instanceConditions filter) answer

@[inherit_doc FindsJobInstances]
def FindsJobExecutions (filter : JobExecutionFilter) (answer : Option (List JobExecution)) :
    Prop :=
  ∃ allRows, Selected (JobExecution.comesFirst collate) (fun _ => true) db.executions.values
      allRows ∧
    answer = some (((allRows.filter filter.instanceAllows).filter filter.statusAllows).filter
      fun row => filter.startedAfterAllows row && filter.startedBeforeAllows row)

end PrismaJobRepository

end Order

/-! ### What the statements mean -/

/-- A job status is known by its text. -/
theorem JobStatus.value_injective : Function.Injective JobStatus.value := by
  intro s t h
  cases s <;> cases t <;> first | rfl | exact absurd h (by decide)

/-- A condition that is left out asks nothing. -/
theorem forall_conditionIf {φ : Type} {condition : Condition φ}
    {values : Option (List (Option SqlValue))}
    {P : Condition φ × List (Option SqlValue) → Prop} :
    (∀ c ∈ conditionIf condition values, P c) ↔ ∀ vs ∈ values, P (condition, vs) := by
  unfold conditionIf
  cases values with
  | none => simp
  | some vs => simp

section InstanceMeaning

variable {filter : JobInstanceFilter} {row : JobInstance}

/-- **The placeholders name their values**: bound, TypeORM's clause is Drizzle's. -/
theorem instancesDraft_means (filter : JobInstanceFilter) :
    (TypeOrmDatabase.instancesDraft filter).Means
      (DrizzleJobRepository.instanceConditions filter) :=
  (Draft.means_empty.addIf _ _).addIf _ _

/-- Prisma's statements are Drizzle's. -/
theorem prisma_instanceConditions (filter : JobInstanceFilter) :
    PrismaJobRepository.instanceConditions filter =
      DrizzleJobRepository.instanceConditions filter := by
  unfold PrismaJobRepository.instanceConditions DrizzleJobRepository.instanceConditions
    JobInstanceFilter.nameValues JobInstanceFilter.keyValues
  cases filter.jobName <;> cases filter.jobKey <;> rfl

/-- The name is allowed exactly when its condition holds. -/
theorem nameAllows_iff : filter.nameAllows row = true ↔
    ∀ vs ∈ filter.nameValues,
      holds SqlValue.le .equal (row.field .job_name) vs = some true := by
  unfold JobInstanceFilter.nameAllows JobInstanceFilter.nameValues
  cases filter.jobName with
  | none => simp
  | some name => simp [holds_equal, JobInstance.field]

/-- The key is allowed exactly when its condition holds. -/
theorem keyAllows_iff : filter.keyAllows row = true ↔
    ∀ vs ∈ filter.keyValues,
      holds SqlValue.le .equal (row.field .job_key) vs = some true := by
  unfold JobInstanceFilter.keyAllows JobInstanceFilter.keyValues
  cases filter.jobKey with
  | none => simp
  | some key => simp [holds_equal, JobInstance.field]

/-- **`WHERE` keeps what the filter allows.** -/
theorem keeps_instanceConditions (filter : JobInstanceFilter) (row : JobInstance) :
    keeps SqlValue.le (DrizzleJobRepository.instanceConditions filter) row.field =
      filter.allows row := by
  rw [Bool.eq_iff_iff, keeps_iff]
  unfold DrizzleJobRepository.instanceConditions JobInstanceFilter.allows
  simp only [List.forall_mem_append, forall_conditionIf, Bool.and_eq_true, nameAllows_iff,
    keyAllows_iff]

/-- The conditions on instances can be sent. -/
theorem acceptable_instanceConditions (filter : JobInstanceFilter) :
    Acceptable (DrizzleJobRepository.instanceConditions filter) := by
  unfold Acceptable DrizzleJobRepository.instanceConditions
  simp only [List.forall_mem_append, forall_conditionIf, JobInstanceFilter.nameValues,
    JobInstanceFilter.keyValues]
  cases filter.jobName <;> cases filter.jobKey <;> simp

end InstanceMeaning

section ExecutionMeaning

variable {filter : JobExecutionFilter} {row : JobExecution}

@[inherit_doc instancesDraft_means]
theorem executionsDraft_means (filter : JobExecutionFilter) :
    (TypeOrmDatabase.executionsDraft filter).Means
      (DrizzleJobRepository.executionConditions filter) :=
  (((Draft.means_empty.addIf _ _).addIf _ _).addIf _ _).addIf _ _

/-- The instance is allowed exactly when its condition holds. -/
theorem instanceAllows_iff : filter.instanceAllows row = true ↔
    ∀ vs ∈ filter.instanceValues,
      holds SqlValue.le .equal (row.field .job_instance_id) vs = some true := by
  unfold JobExecutionFilter.instanceAllows JobExecutionFilter.instanceValues
  cases filter.jobInstanceId with
  | none => simp
  | some id => simp [holds_equal, JobExecution.field]

/-- The status is allowed exactly when its condition holds. -/
theorem statusAllows_iff : filter.statusAllows row = true ↔
    ∀ vs ∈ filter.statusValues,
      holds SqlValue.le .among (row.field .status) vs = some true := by
  unfold JobExecutionFilter.statusAllows JobExecutionFilter.statusValues
  cases filter.status with
  | none => simp
  | some status =>
      have hamong : holds SqlValue.le .among (row.field .status)
          ((status.statuses.map fun s => SqlValue.text s.value).map some) = some true ↔ _ :=
        holds_among
      rw [List.map_map] at hamong
      simp only [Option.all_some, decide_eq_true_iff, Option.map_some, Option.mem_some_iff,
        forall_eq']
      refine Iff.trans ?_ hamong.symm
      constructor
      · intro hmem
        exact ⟨_, List.mem_map_of_mem hmem, rfl⟩
      · intro h
        obtain ⟨v, hv, heq⟩ := h
        obtain ⟨s, hs, rfl⟩ := List.mem_map.mp hv
        have hvalue : row.status.value = s.value := by
          have htext := Option.some.inj heq
          injection htext
        rw [JobStatus.value_injective hvalue]
        exact hs

/-- A start is late enough exactly when its condition holds. -/
theorem startedAfterAllows_iff : filter.startedAfterAllows row = true ↔
    ∀ vs ∈ filter.startedAfterValues,
      holds SqlValue.le .atLeast (row.field .start_time) vs = some true := by
  unfold JobExecutionFilter.startedAfterAllows JobExecutionFilter.startedAfterValues
  cases filter.startedAfter with
  | none => simp
  | some time => cases hstart : row.startTime <;>
      simp [holds_atLeast, JobExecution.field, hstart, SqlValue.le]

/-- A start is early enough exactly when its condition holds. -/
theorem startedBeforeAllows_iff : filter.startedBeforeAllows row = true ↔
    ∀ vs ∈ filter.startedBeforeValues,
      holds SqlValue.le .atMost (row.field .start_time) vs = some true := by
  unfold JobExecutionFilter.startedBeforeAllows JobExecutionFilter.startedBeforeValues
  cases filter.startedBefore with
  | none => simp
  | some time => cases hstart : row.startTime <;>
      simp [holds_atMost, JobExecution.field, hstart, SqlValue.le]

@[inherit_doc keeps_instanceConditions]
theorem keeps_executionConditions (filter : JobExecutionFilter) (row : JobExecution) :
    keeps SqlValue.le (DrizzleJobRepository.executionConditions filter) row.field =
      filter.allows row := by
  rw [Bool.eq_iff_iff, keeps_iff]
  unfold DrizzleJobRepository.executionConditions JobExecutionFilter.allows
  simp only [List.forall_mem_append, forall_conditionIf, Bool.and_eq_true, instanceAllows_iff,
    statusAllows_iff, startedAfterAllows_iff, startedBeforeAllows_iff]

/-- Only an empty list of statuses makes a clause that the database rejects. -/
theorem acceptable_executionConditions_iff (filter : JobExecutionFilter) :
    Acceptable (DrizzleJobRepository.executionConditions filter) ↔
      filter.status ≠ some (.anyOf []) := by
  unfold Acceptable DrizzleJobRepository.executionConditions
  simp only [List.forall_mem_append, forall_conditionIf, JobExecutionFilter.instanceValues,
    JobExecutionFilter.statusValues, JobExecutionFilter.startedAfterValues,
    JobExecutionFilter.startedBeforeValues]
  cases filter.status with
  | none => simp
  | some status =>
      cases status with
      | one status => simp [StatusFilter.statuses]
      | anyOf statuses => simp [StatusFilter.statuses]

end ExecutionMeaning

/-! ### One answer -/

section OneAnswer

variable {φ ρ : Type} {comesFirst : ρ → ρ → Prop} {field : ρ → φ → Option SqlValue}
  {kept : ρ → Bool} {rows found : List ρ} {conditions : Conditions φ}

/-- A filter has one answer if no two rows stand in each other's place. -/
theorem selects_iff (hanti : ∀ a ∈ rows, ∀ b ∈ rows, comesFirst a b → comesFirst b a → a = b)
    (hfound : Selected comesFirst kept rows found)
    (hkept : ∀ row, keeps SqlValue.le conditions (field row) = kept row)
    (haccepted : Acceptable conditions) (answer : Option (List ρ)) :
    Selects comesFirst field rows conditions answer ↔ answer = some found := by
  unfold Selects
  rw [if_pos haccepted]
  constructor
  · intro h
    obtain ⟨found', hanswer, hfound'⟩ := h
    rw [hanswer, hfound.unique hanti (hfound'.congr fun row _ => hkept row)]
  · intro hanswer
    exact ⟨found, hanswer, hfound.congr fun row _ => (hkept row).symm⟩

/-- A statement says what its draft comes to. -/
theorem selectsBound_iff {draft : Draft (Condition φ) (Option SqlValue)}
    (h : draft.Means conditions) (answer : Option (List ρ)) :
    SelectsBound comesFirst field rows draft answer ↔
      Selects comesFirst field rows conditions answer := by
  unfold SelectsBound
  rw [h.bind]

end OneAnswer

section Ordered

variable {κ : Type} [LinearOrder κ] (collate : String → κ)

/-- Some instances are selected, whatever is kept. -/
theorem JobInstance.exists_selected (kept : JobInstance → Bool) (rows : List JobInstance) :
    ∃ found, Selected (JobInstance.comesFirst collate) kept rows found := by
  classical
  refine SqlStatement.exists_selected (fun a b => ?_) (fun a b c hab hbc => ?_) kept rows
  · exact le_total (a.sortKey collate) (b.sortKey collate)
  · have hchain : a.sortKey collate ≤ c.sortKey collate := le_trans hab hbc
    exact hchain

/-- Some executions are selected, whatever is kept. -/
theorem JobExecution.exists_selected (kept : JobExecution → Bool) (rows : List JobExecution) :
    ∃ found, Selected (JobExecution.comesFirst collate) kept rows found := by
  classical
  refine SqlStatement.exists_selected (fun a b => ?_) (fun a b c hab hbc => ?_) kept rows
  · exact le_total (b.sortKey collate) (a.sortKey collate)
  · have hchain : c.sortKey collate ≤ a.sortKey collate := le_trans hbc hab
    exact hchain

end Ordered

section Answers

variable {κ : Type} [LinearOrder κ] {collate : String → κ} {db : TypeOrmDatabase}

/-- Two instances of a table never stand in each other's place. -/
theorem JobInstance.comesFirst_antisymm (hcollate : Function.Injective collate)
    (hfiled : FiledBy JobInstance.id db.instances) {a b : JobInstance}
    (ha : a ∈ db.instances.values) (hb : b ∈ db.instances.values)
    (hab : a.comesFirst collate b) (hba : b.comesFirst collate a) : a = b := by
  have hkey : a.sortKey collate = b.sortKey collate := le_antisymm hab hba
  have hcollated : collate a.id = collate b.id := congrArg (fun key => (ofLex key).2) hkey
  exact hfiled.unique ha hb (hcollate hcollated)

/-- Nor do two executions. -/
theorem JobExecution.comesFirst_antisymm (hcollate : Function.Injective collate)
    (hfiled : FiledBy JobExecution.id db.executions) {a b : JobExecution}
    (ha : a ∈ db.executions.values) (hb : b ∈ db.executions.values)
    (hab : a.comesFirst collate b) (hba : b.comesFirst collate a) : a = b := by
  have hkey : a.sortKey collate = b.sortKey collate := le_antisymm hba hab
  have hcollated : collate a.id = collate b.id := congrArg (fun key => (ofLex key).2) hkey
  exact hfiled.unique ha hb (hcollate hcollated)

/-- A filter of instances has one answer, by whichever repository it is asked. -/
theorem exists_instances (hcollate : Function.Injective collate)
    (hfiled : FiledBy JobInstance.id db.instances) (filter : JobInstanceFilter) :
    ∃ rows, Selected (JobInstance.comesFirst collate) filter.allows db.instances.values rows ∧
      ∀ answer, (PrismaJobRepository.FindsJobInstances collate db filter answer ↔
          answer = some rows) ∧
        (DrizzleJobRepository.FindsJobInstances collate db filter answer ↔ answer = some rows) ∧
        (db.FindsJobInstances collate filter answer ↔ answer = some rows) := by
  obtain ⟨rows, hrows⟩ := JobInstance.exists_selected collate filter.allows db.instances.values
  have hdrizzle (answer : Option (List JobInstance)) :
      DrizzleJobRepository.FindsJobInstances collate db filter answer ↔ answer = some rows :=
    selects_iff (fun a ha b hb => JobInstance.comesFirst_antisymm hcollate hfiled ha hb) hrows
      (keeps_instanceConditions filter) (acceptable_instanceConditions filter) answer
  refine ⟨rows, hrows, fun answer => ⟨?_, hdrizzle answer, ?_⟩⟩
  · unfold PrismaJobRepository.FindsJobInstances
    rw [prisma_instanceConditions]
    exact hdrizzle answer
  · exact (selectsBound_iff (instancesDraft_means filter) answer).trans (hdrizzle answer)

/-- So has a filter of executions; but the clause of an empty list of statuses is rejected. -/
theorem exists_executions (hcollate : Function.Injective collate)
    (hfiled : FiledBy JobExecution.id db.executions) (filter : JobExecutionFilter) :
    ∃ rows, Selected (JobExecution.comesFirst collate) filter.allows db.executions.values rows ∧
      ∀ answer, (PrismaJobRepository.FindsJobExecutions collate db filter answer ↔
          answer = some rows) ∧
        (DrizzleJobRepository.FindsJobExecutions collate db filter answer ↔
          answer = if filter.status = some (.anyOf []) then none else some rows) ∧
        (db.FindsJobExecutions collate filter answer ↔
          answer = if filter.status = some (.anyOf []) then none else some rows) := by
  have hanti : ∀ a ∈ db.executions.values, ∀ b ∈ db.executions.values, a.comesFirst collate b →
      b.comesFirst collate a → a = b :=
    fun a ha b hb => JobExecution.comesFirst_antisymm hcollate hfiled ha hb
  obtain ⟨rows, hrows⟩ := JobExecution.exists_selected collate filter.allows db.executions.values
  have hdrizzle (answer : Option (List JobExecution)) :
      DrizzleJobRepository.FindsJobExecutions collate db filter answer ↔
        answer = if filter.status = some (.anyOf []) then none else some rows := by
    by_cases hempty : filter.status = some (.anyOf [])
    · unfold DrizzleJobRepository.FindsJobExecutions Selects
      rw [if_neg fun haccepted => (acceptable_executionConditions_iff filter).mp haccepted hempty,
        if_pos hempty]
    · rw [if_neg hempty]
      exact selects_iff hanti hrows (keeps_executionConditions filter)
        ((acceptable_executionConditions_iff filter).mpr hempty) answer
  refine ⟨rows, hrows, fun answer => ⟨?_, hdrizzle answer, ?_⟩⟩
  · have hfiltered {allRows : List JobExecution} (hall : Selected
        (JobExecution.comesFirst collate) (fun _ => true) db.executions.values allRows) :
        ((allRows.filter filter.instanceAllows).filter filter.statusAllows).filter
          (fun row => filter.startedAfterAllows row && filter.startedBeforeAllows row) = rows := by
      refine Selected.unique hanti ((((hall.filter _).filter _).filter _).congr
        fun row _ => ?_) hrows
      unfold JobExecutionFilter.allows
      cases filter.instanceAllows row <;> cases filter.statusAllows row <;> simp
    constructor
    · intro h
      obtain ⟨allRows, hall, hanswer⟩ := h
      rw [hanswer, hfiltered hall]
    · intro hanswer
      obtain ⟨allRows, hall⟩ :=
        JobExecution.exists_selected collate (fun _ => true) db.executions.values
      exact ⟨allRows, hall, hanswer.trans (congrArg some (hfiltered hall).symm)⟩
  · exact (selectsBound_iff (executionsDraft_means filter) answer).trans (hdrizzle answer)

end Answers

/-! ### Along a run -/

namespace TypeOrmDatabase

/-- Rows are filed under their own ids. -/
structure Filed (db : TypeOrmDatabase) : Prop where
  instances : FiledBy JobInstance.id db.instances
  executions : FiledBy JobExecution.id db.executions
  stepExecutions : FiledBy StepExecutionRow.id db.stepExecutions

/-- A fresh database is filed. -/
theorem Filed.new (uuids : IdGenerator) : (new uuids).Filed where
  instances := .empty
  executions := .empty
  stepExecutions := .empty

variable {db : TypeOrmDatabase}

/-- Getting or creating an instance keeps the database filed. -/
theorem Filed.getOrCreateJobInstance (h : db.Filed) (now : Time) (name jobKey : String) :
    (db.getOrCreateJobInstance now name jobKey).2.Filed := by
  unfold TypeOrmDatabase.getOrCreateJobInstance
  split
  · exact h
  · exact { h with instances := h.instances.set rfl }

/-- Creating an execution keeps the database filed. -/
theorem Filed.createJobExecution (h : db.Filed) (jobInstanceId : String)
    (params : JobParameters) : (db.createJobExecution jobInstanceId params).2.Filed :=
  { h with executions := h.executions.set rfl }

/-- An update of an execution is one of its row. -/
theorem executions_updateJobExecution (executionId : String) (patch : JobExecutionPatch) :
    (db.updateJobExecution executionId patch).executions =
      updateRow executionId patch.applyTo db.executions := by
  unfold updateJobExecution updateRow
  cases db.executions.get? executionId <;> rfl

/-- An update of a step execution updates its row. -/
theorem stepExecutions_updateStepExecution (stepExecutionId : String)
    (patch : StepExecutionPatch) :
    (db.updateStepExecution stepExecutionId patch).stepExecutions =
      updateRow stepExecutionId patch.applyToRow db.stepExecutions := by
  unfold updateStepExecution updateRow
  cases db.stepExecutions.get? stepExecutionId <;> rfl

/-- Updating an execution keeps the database filed. -/
theorem Filed.updateJobExecution (h : db.Filed) (executionId : String)
    (patch : JobExecutionPatch) : (db.updateJobExecution executionId patch).Filed where
  instances := by
    unfold TypeOrmDatabase.updateJobExecution
    split <;> exact h.instances
  executions := by
    rw [executions_updateJobExecution]
    have hid (row : JobExecution) : (patch.applyTo row).id = row.id := rfl
    exact h.executions.updateRow hid executionId
  stepExecutions := by
    unfold TypeOrmDatabase.updateJobExecution
    split <;> exact h.stepExecutions

/-- Updating a step execution keeps the database filed. -/
theorem Filed.updateStepExecution (h : db.Filed) (stepExecutionId : String)
    (patch : StepExecutionPatch) : (db.updateStepExecution stepExecutionId patch).Filed where
  instances := by
    unfold TypeOrmDatabase.updateStepExecution
    split <;> exact h.instances
  executions := by
    unfold TypeOrmDatabase.updateStepExecution
    split <;> exact h.executions
  stepExecutions := by
    rw [stepExecutions_updateStepExecution]
    have hid (row : StepExecutionRow) : (patch.applyToRow row).id = row.id := rfl
    exact h.stepExecutions.updateRow hid stepExecutionId

/-- Every call keeps the rows filed. -/
theorem Filed.answers {db' : TypeOrmDatabase} {call : RepositoryCall} {answer : RepositoryAnswer}
    (h : db.Filed) (hanswer : db.Answers call answer db') : db'.Filed := by
  cases call with
  | getOrCreateJobInstance now name jobKey =>
      obtain ⟨-, rfl⟩ := hanswer
      exact h.getOrCreateJobInstance now name jobKey
  | createJobExecution jobInstanceId params =>
      obtain ⟨-, rfl⟩ := hanswer
      exact h.createJobExecution jobInstanceId params
  | createExecutionAtomic now name jobKey params =>
      obtain ⟨-, rfl⟩ := hanswer
      unfold createExecutionAtomic
      dsimp only
      split
      · exact h
      · exact (h.getOrCreateJobInstance now name jobKey).createJobExecution _ params
  | updateJobExecution executionId patch =>
      obtain ⟨-, rfl⟩ := hanswer
      exact h.updateJobExecution executionId patch
  | createStepExecution now jobExecutionId stepName =>
      obtain ⟨-, rfl⟩ := hanswer
      exact { h with stepExecutions := h.stepExecutions.set rfl }
  | updateStepExecution stepExecutionId patch =>
      obtain ⟨-, rfl⟩ := hanswer
      exact h.updateStepExecution stepExecutionId patch
  | saveExecutionContext scope ctx version =>
      obtain ⟨-, rfl⟩ := hanswer
      cases scope <;> exact { h with }
  | _ =>
      obtain ⟨-, rfl⟩ := hanswer
      exact h

/-- And so does every run. -/
theorem Filed.runs {uuids : IdGenerator} {calls : List RepositoryCall}
    {answers : List RepositoryAnswer} (h : Lockstep.Runs Answers (.new uuids) calls answers db) :
    db.Filed := h.keeps (fun _ _ _ _ hfiled hanswer => hfiled.answers hanswer) (.new uuids)

end TypeOrmDatabase

section Run

variable {idGen uuids : IdGenerator} {ρ : IdRenaming idGen uuids}

/-- The same filter, on the ids of the other run. -/
def JobExecutionFilter.renamed (r : String → String) (filter : JobExecutionFilter) :
    JobExecutionFilter := { filter with jobInstanceId := filter.jobInstanceId.map r }

namespace Mirrors

variable {repo : InMemoryJobRepository} {db : TypeOrmDatabase}

/-- The rows that a filter of instances allows are the renamed ones. -/
theorem filter_instances (h : Mirrors ρ repo db) (filter : JobInstanceFilter) :
    db.instances.values.filter filter.allows =
      (repo.findJobInstances filter).map (·.renamed ρ.rename) := by
  unfold InMemoryJobRepository.findJobInstances
  rw [h.instances, JsMap.values_rekey, List.filter_map]
  rfl

/-- So are those that the renamed filter of executions allows. -/
theorem filter_executions (h : Mirrors ρ repo db) (filter : JobExecutionFilter) :
    db.executions.values.filter (filter.renamed ρ.rename).allows =
      (repo.findJobExecutions filter).map (·.renamed ρ.rename) := by
  unfold InMemoryJobRepository.findJobExecutions
  rw [h.executions, JsMap.values_rekey, List.filter_map]
  congr 1
  refine List.filter_congr fun exec _ => ?_
  have hinstance : (filter.renamed ρ.rename).instanceAllows (exec.renamed ρ.rename) =
      filter.instanceAllows exec := by
    unfold JobExecutionFilter.instanceAllows JobExecutionFilter.renamed
    cases filter.jobInstanceId with
    | none => rfl
    | some id => exact decide_eq_decide.mpr ρ.injective.eq_iff
  unfold JobExecutionFilter.allows
  dsimp only [Function.comp]
  rw [hinstance]
  rfl

end Mirrors

section

variable {calls : List RepositoryCall} {answers : List RepositoryAnswer} {db : TypeOrmDatabase}
  {κ : Type} [LinearOrder κ] {collate : String → κ}

/-- **Every repository finds the same instances.**  After any run of calls on which the in-memory
and the TypeORM repository agree, a filter has one answer that all three SQL repositories give: the
instances that the in-memory repository finds, ordered by their creation and their ids. -/
theorem find_job_instances_alike (hagree : Lockstep.Allowed InMemoryJobRepository.answer
      InMemoryJobRepository.AgreesOn (.new idGen) calls)
    (hruns : Lockstep.Runs TypeOrmDatabase.Answers (.new uuids)
      (calls.map (·.renamed ρ.rename)) answers db)
    (hcollate : Function.Injective collate) (filter : JobInstanceFilter) :
    ∃ rows, rows.Perm (((Lockstep.run InMemoryJobRepository.answer (.new idGen)
        calls).2.findJobInstances filter).map (·.renamed ρ.rename)) ∧
      rows.Pairwise (JobInstance.comesFirst collate) ∧
      ∀ answer, (PrismaJobRepository.FindsJobInstances collate db filter answer ↔
          answer = some rows) ∧
        (DrizzleJobRepository.FindsJobInstances collate db filter answer ↔ answer = some rows) ∧
        (db.FindsJobInstances collate filter answer ↔ answer = some rows) := by
  have hmirrors := ((mirrors_simulates ρ).run_answers (.start ρ) hagree hruns).2
  have hfiled := TypeOrmDatabase.Filed.runs hruns
  obtain ⟨rows, hrows, hanswers⟩ := exists_instances hcollate hfiled.instances filter
  refine ⟨rows, ?_, hrows.ordered, hanswers⟩
  rw [← hmirrors.filter_instances]
  exact hrows.perm

/-- **Every repository answers a filter of executions alike.**  After any run of calls on which the
in-memory and the TypeORM repository agree, there is one list of rows, ordered by start and id, that
Prisma's repository answers, and so do Drizzle's and TypeORM's, which put the filter into SQL; it
holds the executions that the in-memory repository finds.  Only an empty list of statuses, which the
in-memory and Prisma's repository answer with no rows, is rejected by the other two. -/
theorem find_job_executions_alike (hagree : Lockstep.Allowed InMemoryJobRepository.answer
      InMemoryJobRepository.AgreesOn (.new idGen) calls)
    (hruns : Lockstep.Runs TypeOrmDatabase.Answers (.new uuids)
      (calls.map (·.renamed ρ.rename)) answers db)
    (hcollate : Function.Injective collate) (filter : JobExecutionFilter) :
    ∃ rows, rows.Perm (((Lockstep.run InMemoryJobRepository.answer (.new idGen)
        calls).2.findJobExecutions filter).map (·.renamed ρ.rename)) ∧
      rows.Pairwise (JobExecution.comesFirst collate) ∧
      ∀ answer, (PrismaJobRepository.FindsJobExecutions collate db (filter.renamed ρ.rename)
          answer ↔ answer = some rows) ∧
        (DrizzleJobRepository.FindsJobExecutions collate db (filter.renamed ρ.rename) answer ↔
          answer = if filter.status = some (.anyOf []) then none else some rows) ∧
        (db.FindsJobExecutions collate (filter.renamed ρ.rename) answer ↔
          answer = if filter.status = some (.anyOf []) then none else some rows) := by
  have hmirrors := ((mirrors_simulates ρ).run_answers (.start ρ) hagree hruns).2
  have hfiled := TypeOrmDatabase.Filed.runs hruns
  obtain ⟨rows, hrows, hanswers⟩ :=
    exists_executions hcollate hfiled.executions (filter.renamed ρ.rename)
  refine ⟨rows, ?_, hrows.ordered, hanswers⟩
  rw [← hmirrors.filter_executions]
  exact hrows.perm

end

end Run

/-- A launch that is running. -/
def startedLaunch : List RepositoryCall :=
  [.createExecutionAtomic 5 "import" "nightly" [],
    .updateJobExecution "mm" { status := some .STARTED, startTime := some (some 7) }]

def recentlyStarted : JobExecutionFilter :=
  { status := some (.anyOf [.STARTING, .STARTED]), startedAfter := some 6 }

theorem find_job_executions_alike_started : ∃ answers db rows,
    Lockstep.Runs TypeOrmDatabase.Answers (.new (countedIds 'u'))
      (startedLaunch.map (·.renamed swapIds.rename)) answers db ∧
    rows.length = 1 ∧ db.FindsJobExecutions id recentlyStarted (some rows) := by
  have hagree : Lockstep.Allowed InMemoryJobRepository.answer InMemoryJobRepository.AgreesOn
      (.new (countedIds 'm')) startedLaunch :=
    ⟨⟨fun _ hget => (by cases hget), fun _ => rfl⟩, rfl, trivial⟩
  obtain ⟨answers, db, hruns⟩ := (mirrors_simulates swapIds).exists_run (.start swapIds) hagree
  have hid : Function.Injective (id : String → String) := Function.injective_id
  obtain ⟨rows, hperm, -, hfinds⟩ := find_job_executions_alike hagree hruns hid recentlyStarted
  exact ⟨answers, db, rows, hruns, hperm.length_eq.trans rfl, (hfinds _).2.2.mpr rfl⟩

end NestBatch
