import Mathlib.Data.List.MinMax
import Mathlib.Data.Prod.Lex
import Mathlib.Data.String.Basic
import NestBatch.Repository.StepRows

/-!
# The newest step execution of a step

A restart resumes from the step execution that was created last.  The in-memory
repository keeps its rows in the order of their creation; the SQL repositories
sort, by `created_at` and then by the random `id`, or by `ctid`, the place of
the current version of a row.  An `UPDATE` writes a new version, and its place
is up to the database.

The in-memory lookup always finds the newest row.  The others find it exactly
when it also comes last in their order.
-/

namespace Sql

/-- `ORDER BY key DESC LIMIT 1` over rows with different keys. -/
abbrev lastBy {ρ κ : Type} [LinearOrder κ] (key : ρ → κ) (rows : List ρ) : Option ρ :=
  rows.argmax key

/-- The last row of a list comes last in the order exactly when its key is the greatest. -/
theorem lastBy_concat_iff {ρ κ : Type} [LinearOrder κ] {key : ρ → κ} {rows : List ρ} {row : ρ}
    (hnew : row ∉ rows) : lastBy key (rows ++ [row]) = some row ↔ ∀ r ∈ rows, key r < key row := by
  rw [lastBy, List.argmax_concat]
  cases hmax : rows.argmax key with
  | none =>
      rw [List.argmax_eq_none.mp hmax]
      simp
  | some m =>
      have hm : m ∈ rows := List.argmax_mem hmax
      dsimp only
      by_cases hlt : key m < key row
      · rw [if_pos hlt]
        refine ⟨fun _ r hr => ?_, fun _ => rfl⟩
        exact lt_of_le_of_lt (List.le_of_mem_argmax hr hmax) hlt
      · rw [if_neg hlt]
        constructor
        · intro h
          cases h
          exact absurd hm hnew
        · intro h
          exact absurd (h m hm) hlt

end Sql

namespace NestBatch

/-- A row of `batch_step_execution`. -/
structure StepExecutionRow where
  id : String
  jobExecutionId : String
  stepName : String
  status : StepStatus
  readCount : Nat
  writeCount : Nat
  skipCount : Nat
  rollbackCount : Nat
  commitCount : Nat
  exitCode : String
  exitMessage : String
  createdAt : Time

/-- The table has no column for the times of a step execution. -/
def mapStepExecution (r : StepExecutionRow) : StepExecution :=
  { id := r.id, jobExecutionId := r.jobExecutionId, stepName := r.stepName, status := r.status,
    readCount := r.readCount, writeCount := r.writeCount, skipCount := r.skipCount,
    rollbackCount := r.rollbackCount, commitCount := r.commitCount, startTime := none,
    endTime := none, exitCode := r.exitCode, exitMessage := r.exitMessage }

/-- The row an `INSERT` of a new step execution writes. -/
def newStepExecutionRow (id jobExecutionId stepName : String) (createdAt : Time) :
    StepExecutionRow :=
  { id := id, jobExecutionId := jobExecutionId, stepName := stepName, status := .STARTING,
    readCount := 0, writeCount := 0, skipCount := 0, rollbackCount := 0, commitCount := 0,
    exitCode := "", exitMessage := "", createdAt := createdAt }

/-- The columns an `UPDATE` sets; there is none for `startTime` and `endTime`. -/
def StepExecutionPatch.applyToRow (patch : StepExecutionPatch) (r : StepExecutionRow) :
    StepExecutionRow :=
  { r with
    status := patch.status.getD r.status
    readCount := patch.readCount.getD r.readCount
    writeCount := patch.writeCount.getD r.writeCount
    skipCount := patch.skipCount.getD r.skipCount
    rollbackCount := patch.rollbackCount.getD r.rollbackCount
    commitCount := patch.commitCount.getD r.commitCount
    exitCode := patch.exitCode.getD r.exitCode
    exitMessage := patch.exitMessage.getD r.exitMessage }

/-- A row with the place of its current version. -/
structure StoredStep where
  row : StepExecutionRow
  ctid : Nat

/-- `WHERE "job_execution_id" = jobExecutionId AND "step_name" = stepName` -/
def StoredStep.isOf (jobExecutionId stepName : String) (stored : StoredStep) : Bool :=
  stored.row.jobExecutionId = jobExecutionId && stored.row.stepName = stepName

/-- The table, in the order the rows were inserted. -/
abbrev StepTable := List StoredStep

namespace StepTable

/-- The rows of a step of an execution. -/
def rowsOf (table : StepTable) (jobExecutionId stepName : String) : StepTable :=
  table.filter (·.isOf jobExecutionId stepName)

/-- `ORDER BY "created_at" DESC, "id" DESC LIMIT 1` -/
def latestByCreation (table : StepTable) (jobExecutionId stepName : String) :
    Option StepExecution :=
  (Sql.lastBy (fun stored => toLex (stored.row.createdAt, stored.row.id))
    (table.rowsOf jobExecutionId stepName)).map fun stored => mapStepExecution stored.row

end StepTable

/-- TypeORM orders by the creation time, then by the id. -/
def TypeOrmJobRepository.findLatestStepExecution (table : StepTable)
    (jobExecutionId stepName : String) : Option StepExecution :=
  table.latestByCreation jobExecutionId stepName

/-- Drizzle orders by the creation time, then by the id. -/
def DrizzleJobRepository.findLatestStepExecution (table : StepTable)
    (jobExecutionId stepName : String) : Option StepExecution :=
  table.latestByCreation jobExecutionId stepName

/-- Prisma orders by the creation time, then by the id. -/
def PrismaJobRepository.findLatestStepExecution (table : StepTable)
    (jobExecutionId stepName : String) : Option StepExecution :=
  table.latestByCreation jobExecutionId stepName

/-- A raw row read as an entity: of its columns only these go by the name of a
field, and every other field comes back undefined. -/
structure RawStepExecution where
  id : String
  status : StepStatus

/-- MikroORM takes the row that stands last in the table, of which id and status come through. -/
def MikroORMJobRepository.findLatestStepExecution (table : StepTable)
    (jobExecutionId stepName : String) : Option RawStepExecution :=
  (Sql.lastBy StoredStep.ctid (table.rowsOf jobExecutionId stepName)).map fun stored =>
    { id := stored.row.id, status := stored.row.status }

/-- What happened to the table: the calls, with what the database chose. -/
inductive StepEvent
  | created (id : String) (createdAt : Time) (ctid : Nat) (jobExecutionId stepName : String)
  | updated (id : String) (patch : StepExecutionPatch) (ctid : Nat)

namespace StepTable

/-- One event.  An update of an unknown id changes nothing. -/
def record (table : StepTable) : StepEvent → StepTable
  | .created id createdAt ctid jobExecutionId stepName =>
      table ++ [{ row := newStepExecutionRow id jobExecutionId stepName createdAt, ctid := ctid }]
  | .updated id patch ctid => table.map fun stored =>
      if stored.row.id = id then { row := patch.applyToRow stored.row, ctid := ctid } else stored

/-- The table after a history. -/
def after (events : List StepEvent) : StepTable := events.foldl record []

end StepTable

/-- The id of a step execution created for the step, if the event is one. -/
def StepEvent.createdFor (jobExecutionId stepName : String) : StepEvent → Option String
  | .created id _ _ jobExecutionId' stepName' =>
      if jobExecutionId' = jobExecutionId ∧ stepName' = stepName then some id else none
  | .updated _ _ _ => none

/-- The id of the step execution of the step that was created last. -/
def lastCreated (events : List StepEvent) (jobExecutionId stepName : String) : Option String :=
  (events.filterMap (·.createdFor jobExecutionId stepName)).getLast?

/-- The clock reading of a creation. -/
def StepEvent.createdAt? : StepEvent → Option Time
  | .created _ createdAt _ _ _ => some createdAt
  | .updated _ _ _ => none

/-- The id of a creation. -/
def StepEvent.createdId? : StepEvent → Option String
  | .created id _ _ _ _ => some id
  | .updated _ _ _ => none

/-- A history a database can have: ids are unique, timestamps do not decrease in
the order of creation, and two rows are never in one place. -/
structure StepHistory where
  events : List StepEvent
  ids : (events.filterMap StepEvent.createdId?).Nodup
  times : (events.filterMap StepEvent.createdAt?).Pairwise (· ≤ ·)
  places : ((StepTable.after events).map StoredStep.ctid).Nodup

/-- The rows of one step that share the instant of the newest come before it by id. -/
def NewestWinsTies (table : StepTable) (jobExecutionId stepName : String) : Prop :=
  ∀ rows newest, table.rowsOf jobExecutionId stepName = rows ++ [newest] →
    ∀ stored ∈ rows, stored.row.createdAt = newest.row.createdAt → stored.row.id < newest.row.id

/-- The current version of the newest row lies behind those of the older ones. -/
def NewestLiesLast (table : StepTable) (jobExecutionId stepName : String) : Prop :=
  ∀ rows newest, table.rowsOf jobExecutionId stepName = rows ++ [newest] →
    ∀ stored ∈ rows, stored.ctid < newest.ctid

namespace StepTable

variable {e name : String}

theorem after_concat (events : List StepEvent) (event : StepEvent) :
    after (events ++ [event]) = (after events).record event := by
  simp [after]

/-- An update changes neither the id of a row, nor its step, nor its timestamp. -/
theorem update_keeps (id : String) (patch : StepExecutionPatch) (ctid : Nat) (stored : StoredStep) :
    ∀ stored', stored' = (if stored.row.id = id then
        { row := patch.applyToRow stored.row, ctid := ctid } else stored) →
      stored'.row.id = stored.row.id ∧ stored'.row.createdAt = stored.row.createdAt ∧
      ∀ e name, stored'.isOf e name = stored.isOf e name := by
  intro stored' h
  by_cases hid : stored.row.id = id
  · rw [if_pos hid] at h
    subst h
    exact ⟨rfl, rfl, fun _ _ => rfl⟩
  · rw [if_neg hid] at h
    subst h
    exact ⟨rfl, rfl, fun _ _ => rfl⟩

/-- The ids in the table are those created. -/
theorem map_id_after (events : List StepEvent) :
    (after events).map (·.row.id) = events.filterMap StepEvent.createdId? := by
  induction events using List.reverseRecOn with
  | nil => rfl
  | append_singleton events event ih =>
      rw [after_concat, List.filterMap_append]
      cases event with
      | created id at' ctid e n => simp [record, ih, StepEvent.createdId?, newStepExecutionRow]
      | updated id patch ctid =>
          have hnone : [StepEvent.updated id patch ctid].filterMap StepEvent.createdId? = [] := rfl
          rw [hnone, List.append_nil, ← ih, record, List.map_map]
          apply List.map_congr_left
          intro stored _
          exact (update_keeps id patch ctid stored _ rfl).1

/-- The times in the table are those of the creations. -/
theorem map_createdAt_after (events : List StepEvent) :
    (after events).map (·.row.createdAt) = events.filterMap StepEvent.createdAt? := by
  induction events using List.reverseRecOn with
  | nil => rfl
  | append_singleton events event ih =>
      rw [after_concat, List.filterMap_append]
      cases event with
      | created id at' ctid e n => simp [record, ih, StepEvent.createdAt?, newStepExecutionRow]
      | updated id patch ctid =>
          have hnone : [StepEvent.updated id patch ctid].filterMap StepEvent.createdAt? = [] := rfl
          rw [hnone, List.append_nil, ← ih, record, List.map_map]
          apply List.map_congr_left
          intro stored _
          exact (update_keeps id patch ctid stored _ rfl).2.1

/-- The rows of a step stand in the order of their creation. -/
theorem map_id_rowsOf (events : List StepEvent) :
    ((after events).rowsOf e name).map (·.row.id) = events.filterMap (·.createdFor e name) := by
  induction events using List.reverseRecOn with
  | nil => rfl
  | append_singleton events event ih =>
      rw [after_concat, List.filterMap_append]
      cases event with
      | created id at' ctid e' name' =>
          rw [record, rowsOf, List.filter_append, List.map_append, ← ih]
          congr 1
          by_cases hsame : e' = e ∧ name' = name
          · simp [StoredStep.isOf, newStepExecutionRow, StepEvent.createdFor, hsame.1, hsame.2]
          · have hmiss : (StepEvent.created id at' ctid e' name').createdFor e name = none :=
              if_neg hsame
            simpa [StoredStep.isOf, newStepExecutionRow, hmiss] using hsame
      | updated id patch ctid =>
          have hnone : [StepEvent.updated id patch ctid].filterMap (·.createdFor e name) = [] := rfl
          have hfilter : ((fun stored : StoredStep => stored.isOf e name) ∘ fun stored =>
              if stored.row.id = id then { row := patch.applyToRow stored.row, ctid := ctid }
              else stored) = fun stored => stored.isOf e name := by
            funext stored
            exact (update_keeps id patch ctid stored _ rfl).2.2 e name
          rw [hnone, List.append_nil, ← ih, record, rowsOf, List.filter_map, hfilter, List.map_map]
          apply List.map_congr_left
          intro stored _
          exact (update_keeps id patch ctid stored _ rfl).1

end StepTable

/-- A sorted lookup by a key finds the newest row exactly when its key is the greatest. -/
theorem lookup_finds_iff {κ : Type} [LinearOrder κ] {key : StoredStep → κ} {rows : StepTable}
    {newest : StoredStep} (hids : ((rows ++ [newest]).map (·.row.id)).Nodup) :
    (Sql.lastBy key (rows ++ [newest])).map (·.row.id) = some newest.row.id ↔
      ∀ stored ∈ rows, key stored < key newest := by
  have hinj := List.inj_on_of_nodup_map hids
  have hnew : newest ∉ rows := by
    intro hmem
    rw [List.map_append, List.nodup_append] at hids
    exact hids.2.2 _ (List.mem_map_of_mem hmem) _ (List.mem_singleton.mpr rfl) rfl
  rw [← Sql.lastBy_concat_iff hnew]
  constructor
  · intro h
    obtain ⟨m, hm, hid⟩ := Option.map_eq_some_iff.mp h
    rw [hm, hinj (List.argmax_mem hm) (List.mem_append_right _ (List.mem_singleton.mpr rfl)) hid]
  · intro h
    rw [h]
    rfl

namespace StepHistory

variable (h : StepHistory) (e name : String)

/-- The table at the end of the history. -/
def table : StepTable := StepTable.after h.events

/-- The step created last is the last row of its step. -/
theorem lastCreated_eq :
    lastCreated h.events e name = ((h.table.rowsOf e name).map (·.row.id)).getLast? := by
  rw [lastCreated, table, StepTable.map_id_rowsOf]

/-- No two rows have one id. -/
theorem rowsOf_ids : ((h.table.rowsOf e name).map (·.row.id)).Nodup := by
  have hids : (h.table.map (·.row.id)).Nodup := by
    rw [table, StepTable.map_id_after]
    exact h.ids
  exact hids.sublist (List.filter_sublist.map _)

/-- Rows come in the order of their times. -/
theorem rowsOf_times : ((h.table.rowsOf e name).map (·.row.createdAt)).Pairwise (· ≤ ·) := by
  have htimes : (h.table.map (·.row.createdAt)).Pairwise (· ≤ ·) := by
    rw [table, StepTable.map_createdAt_after]
    exact h.times
  exact htimes.sublist (List.filter_sublist.map _)

/-- **Sorting by creation.**  The newest row is found exactly when no older row
of its instant has a greater id. -/
theorem latestByCreation_iff :
    (h.table.latestByCreation e name).map (·.id) = lastCreated h.events e name ↔
      NewestWinsTies h.table e name := by
  rw [lastCreated_eq]
  unfold StepTable.latestByCreation NewestWinsTies
  have hids := h.rowsOf_ids e name
  have htimes := h.rowsOf_times e name
  rw [Option.map_map]
  rcases List.eq_nil_or_concat (h.table.rowsOf e name) with hnil | ⟨rows, newest, hrows⟩
  · rw [hnil]
    simp
  · rw [List.concat_eq_append] at hrows
    rw [hrows] at hids htimes ⊢
    rw [List.map_append, List.map_singleton, List.getLast?_concat]
    refine (lookup_finds_iff hids).trans ?_
    have hle : ∀ stored ∈ rows, stored.row.createdAt ≤ newest.row.createdAt := by
      intro stored hstored
      rw [List.map_append, List.pairwise_append] at htimes
      exact htimes.2.2 _ (List.mem_map_of_mem hstored) _ (List.mem_singleton.mpr rfl)
    constructor
    · intro hlt rows' newest' heq stored hstored htie
      obtain ⟨hr, hn⟩ := List.append_inj' heq rfl
      cases hn
      subst hr
      exact (Prod.Lex.toLex_lt_toLex'.mp (hlt stored hstored)).2 htie
    · intro hties stored hstored
      exact Prod.Lex.toLex_lt_toLex'.mpr ⟨hle stored hstored, hties rows newest rfl stored hstored⟩

/-- **Sorting by place.**  The newest row is found exactly when its current
version lies last. -/
theorem mikroORM_iff :
    (MikroORMJobRepository.findLatestStepExecution h.table e name).map (·.id) =
      lastCreated h.events e name ↔ NewestLiesLast h.table e name := by
  rw [lastCreated_eq]
  unfold MikroORMJobRepository.findLatestStepExecution NewestLiesLast
  have hids := h.rowsOf_ids e name
  rw [Option.map_map]
  rcases List.eq_nil_or_concat (h.table.rowsOf e name) with hnil | ⟨rows, newest, hrows⟩
  · rw [hnil]
    simp
  · rw [List.concat_eq_append] at hrows
    rw [hrows] at hids ⊢
    rw [List.map_append, List.map_singleton, List.getLast?_concat]
    refine (lookup_finds_iff hids).trans ?_
    constructor
    · intro hlt rows' newest' heq
      obtain ⟨hr, hn⟩ := List.append_inj' heq rfl
      cases hn
      subst hr
      exact hlt
    · intro hlast
      exact hlast rows newest rfl

end StepHistory

/-- A call that writes step executions. -/
inductive StepCall
  | create (jobExecutionId stepName : String)
  | update (id : String) (patch : StepExecutionPatch)

namespace InMemoryJobRepository

/-- The repository after one call; an update of an unknown id throws. -/
def afterCall (repo : InMemoryJobRepository) : StepCall → InMemoryJobRepository
  | .create jobExecutionId stepName => (repo.createStepExecution jobExecutionId stepName).2
  | .update id patch => (repo.updateStepExecution id patch).2

/-- The repository after a history of calls. -/
def afterCalls (repo : InMemoryJobRepository) (calls : List StepCall) : InMemoryJobRepository :=
  calls.foldl afterCall repo

/-- The ids that the calls which create an execution of the step return. -/
def returnedIds (e name : String) : InMemoryJobRepository → List StepCall → List String
  | _, [] => []
  | repo, .create e' name' :: calls =>
      (if e' = e ∧ name' = name then [(repo.createStepExecution e' name').1.id] else []) ++
        returnedIds e name (repo.afterCall (.create e' name')) calls
  | repo, .update id patch :: calls => returnedIds e name (repo.afterCall (.update id patch)) calls

/-- The rows of a step after calls are those before, and those created. -/
theorem stepRows_afterCalls {repo : InMemoryJobRepository} (h : repo.StepsFiled) (e name : String)
    (calls : List StepCall) : ((repo.afterCalls calls).stepRows e name).map (·.id) =
      (repo.stepRows e name).map (·.id) ++ returnedIds e name repo calls := by
  induction calls generalizing repo with
  | nil => simp [afterCalls, returnedIds]
  | cons call calls ih =>
      rw [afterCalls, List.foldl_cons]
      cases call with
      | create e' name' =>
          have hnext := ih (h.create e' name')
          rw [stepRows_create h, List.map_append, List.append_assoc] at hnext
          refine hnext.trans ?_
          rw [returnedIds]
          by_cases hsame : e' = e ∧ name' = name
          · rw [if_pos hsame, if_pos hsame]
            rfl
          · rw [if_neg hsame, if_neg hsame]
            rfl
      | update id patch =>
          have hnext := ih (h.update id patch)
          rw [stepRows_update h, List.map_map] at hnext
          refine hnext.trans ?_
          rw [returnedIds]
          congr 1
          apply List.map_congr_left
          intro step _
          by_cases hid : step.id = id
          · simp [hid, StepExecutionPatch.applyTo]
          · simp [hid]

theorem stepsFiled_new (idGen : IdGenerator) : (new idGen).StepsFiled := by
  constructor
  · intro id step hget
    cases hget
  · intro id step hget
    cases hget

/-- **Insertion order.**  The in-memory lookup finds the newest row. -/
theorem findLatest_afterCalls (idGen : IdGenerator) (calls : List StepCall) (e name : String) :
    (((new idGen).afterCalls calls).findLatestStepExecution e name).map (·.id) =
      (returnedIds e name (new idGen) calls).getLast? := by
  have hrows := stepRows_afterCalls (stepsFiled_new idGen) e name calls
  rw [findLatestStepExecution_eq, ← List.getLast?_map, hrows]
  rfl

end InMemoryJobRepository

/-- **When the lookup of the restart finds the newest step execution.**  Always
in memory; by the order of creation, exactly when the newest row wins the ties of
its instant; by place, exactly when its current version lies last. -/
theorem findLatestStepExecution_iff (idGen : IdGenerator) (calls : List StepCall)
    (h : StepHistory) (e name : String) :
    (((InMemoryJobRepository.new idGen).afterCalls calls).findLatestStepExecution e name).map
        (·.id) = ((InMemoryJobRepository.new idGen).returnedIds e name calls).getLast? ∧
      ((TypeOrmJobRepository.findLatestStepExecution h.table e name).map (·.id) =
          lastCreated h.events e name ↔ NewestWinsTies h.table e name) ∧
      ((DrizzleJobRepository.findLatestStepExecution h.table e name).map (·.id) =
          lastCreated h.events e name ↔ NewestWinsTies h.table e name) ∧
      ((PrismaJobRepository.findLatestStepExecution h.table e name).map (·.id) =
          lastCreated h.events e name ↔ NewestWinsTies h.table e name) ∧
      ((MikroORMJobRepository.findLatestStepExecution h.table e name).map (·.id) =
          lastCreated h.events e name ↔ NewestLiesLast h.table e name) := by
  have hcreation := h.latestByCreation_iff e name
  exact ⟨InMemoryJobRepository.findLatest_afterCalls idGen calls e name, hcreation, hcreation,
    hcreation, h.mikroORM_iff e name⟩

/-- Two step executions of one instant; the second has the smaller id. -/
def tiedHistory : StepHistory where
  events :=
    [.created "f47ac10b-58cc-4372-a567-0e02b2c3d479" 1700000000000 1 "execution" "load",
      .created "16fd2706-8baf-433b-82eb-8c7fada847da" 1700000000000 2 "execution" "load"]
  ids := by decide
  times := by decide
  places := by decide

/-- Two step executions; the first is updated after the second was created. -/
def movedHistory : StepHistory where
  events :=
    [.created "16fd2706-8baf-433b-82eb-8c7fada847da" 1700000000000 1 "execution" "load",
      .created "f47ac10b-58cc-4372-a567-0e02b2c3d479" 1700000000005 2 "execution" "load",
      .updated "16fd2706-8baf-433b-82eb-8c7fada847da" { status := some .FAILED } 3]
  ids := by decide
  times := by decide
  places := by decide

/-- A tie makes the sorting repositories return the older row, and a late update
the one that sorts by place. -/
theorem findLatestStepExecution_misses :
    ((TypeOrmJobRepository.findLatestStepExecution tiedHistory.table "execution" "load").map
        (·.id) = some "f47ac10b-58cc-4372-a567-0e02b2c3d479" ∧
      lastCreated tiedHistory.events "execution" "load" =
        some "16fd2706-8baf-433b-82eb-8c7fada847da") ∧
    (MikroORMJobRepository.findLatestStepExecution movedHistory.table "execution" "load").map
        (·.id) = some "16fd2706-8baf-433b-82eb-8c7fada847da" ∧
      lastCreated movedHistory.events "execution" "load" =
        some "f47ac10b-58cc-4372-a567-0e02b2c3d479" := by
  decide

end NestBatch
