import NestBatch.Lib.Lockstep
import NestBatch.Sql.TypeOrmDatabase

/-!
# The in-memory and the TypeORM repository side by side

One sequence of calls on both repositories.  The ids they hand out differ, so
the calls of the second run name the ids of the second run, and its answers are
compared up to that renaming.  The repositories part where the SQL one leaves
something out: a missing row, the times of a step, the first version of a
context, the insertion order of running executions; and where the in-memory one
joins the two halves of a key.
-/

namespace NestBatch

/-- A call of a job repository; `now` is what the clock reads. -/
inductive RepositoryCall
  | getOrCreateJobInstance (now : Time) (name jobKey : String)
  | createJobExecution (jobInstanceId : String) (params : JobParameters)
  | createExecutionAtomic (now : Time) (name jobKey : String) (params : JobParameters)
  | updateJobExecution (executionId : String) (patch : JobExecutionPatch)
  | getJobExecution (executionId : String)
  | getJobInstance (jobInstanceId : String)
  | getRunningJobExecution (jobInstanceId : String)
  | createStepExecution (now : Time) (jobExecutionId stepName : String)
  | updateStepExecution (stepExecutionId : String) (patch : StepExecutionPatch)
  | getStepExecution (stepExecutionId : String)
  | getExecutionContext (scope : ExecutionScope)
  | saveExecutionContext (scope : ExecutionScope) (ctx : ExecutionContext) (version : Option Nat)

/-- What a call shows to its caller; which error it throws is left open. -/
inductive RepositoryAnswer
  | threw
  | done
  | jobInstance (row : Option JobInstance)
  | jobExecution (row : Option JobExecution)
  | stepExecution (row : Option StepExecution)
  | context (ctx : ExecutionContext)

/-- The answer of a call that may throw. -/
def RepositoryAnswer.ofExcept {β : Type} (answer : β → RepositoryAnswer) :
    Except Thrown β → RepositoryAnswer
  | .ok value => answer value
  | .error _ => .threw

/-! ### The two machines -/

/-- One call of the in-memory repository. -/
def InMemoryJobRepository.answer (repo : InMemoryJobRepository) :
    RepositoryCall → RepositoryAnswer × InMemoryJobRepository
  | .getOrCreateJobInstance now name jobKey =>
      ((.jobInstance (repo.getOrCreateJobInstance now name jobKey).1),
        (repo.getOrCreateJobInstance now name jobKey).2)
  | .createJobExecution jobInstanceId params =>
      (.jobExecution (repo.createJobExecution jobInstanceId params).1,
        (repo.createJobExecution jobInstanceId params).2)
  | .createExecutionAtomic now name jobKey params =>
      (.ofExcept (fun exec => .jobExecution (some exec))
          (repo.createExecutionAtomic now name jobKey params).1,
        (repo.createExecutionAtomic now name jobKey params).2)
  | .updateJobExecution executionId patch =>
      (.ofExcept (fun _ => .done) (repo.updateJobExecution executionId patch).1,
        (repo.updateJobExecution executionId patch).2)
  | .getJobExecution executionId => (.jobExecution (repo.getJobExecution executionId), repo)
  | .getJobInstance jobInstanceId => (.jobInstance (repo.getJobInstance jobInstanceId), repo)
  | .getRunningJobExecution jobInstanceId =>
      (.jobExecution (repo.getRunningJobExecution jobInstanceId), repo)
  | .createStepExecution _ jobExecutionId stepName =>
      (.stepExecution (repo.createStepExecution jobExecutionId stepName).1,
        (repo.createStepExecution jobExecutionId stepName).2)
  | .updateStepExecution stepExecutionId patch =>
      (.ofExcept (fun _ => .done) (repo.updateStepExecution stepExecutionId patch).1,
        (repo.updateStepExecution stepExecutionId patch).2)
  | .getStepExecution stepExecutionId =>
      (.stepExecution (repo.getStepExecution stepExecutionId), repo)
  | .getExecutionContext scope => (.context (repo.getExecutionContext scope), repo)
  | .saveExecutionContext scope ctx version =>
      (.done, repo.saveExecutionContextVersion scope ctx version)

/-- One call of the TypeORM repository; only `getRunningJobExecution` leaves a choice. -/
def TypeOrmDatabase.Answers (db : TypeOrmDatabase) :
    RepositoryCall → RepositoryAnswer → TypeOrmDatabase → Prop
  | .getOrCreateJobInstance now name jobKey, answer, db' =>
      answer = .jobInstance (db.getOrCreateJobInstance now name jobKey).1 ∧
        db' = (db.getOrCreateJobInstance now name jobKey).2
  | .createJobExecution jobInstanceId params, answer, db' =>
      answer = .jobExecution (db.createJobExecution jobInstanceId params).1 ∧
        db' = (db.createJobExecution jobInstanceId params).2
  | .createExecutionAtomic now name jobKey params, answer, db' =>
      answer = .ofExcept (fun exec => .jobExecution (some exec))
          (db.createExecutionAtomic now name jobKey params).1 ∧
        db' = (db.createExecutionAtomic now name jobKey params).2
  | .updateJobExecution executionId patch, answer, db' =>
      answer = .done ∧ db' = db.updateJobExecution executionId patch
  | .getJobExecution executionId, answer, db' =>
      answer = .jobExecution (db.getJobExecution executionId) ∧ db' = db
  | .getJobInstance jobInstanceId, answer, db' =>
      answer = .jobInstance (db.getJobInstance jobInstanceId) ∧ db' = db
  | .getRunningJobExecution jobInstanceId, answer, db' =>
      (∃ found, db.IsRunningJobExecution jobInstanceId found ∧ answer = .jobExecution found) ∧
        db' = db
  | .createStepExecution now jobExecutionId stepName, answer, db' =>
      answer = .stepExecution (db.createStepExecution now jobExecutionId stepName).1 ∧
        db' = (db.createStepExecution now jobExecutionId stepName).2
  | .updateStepExecution stepExecutionId patch, answer, db' =>
      answer = .done ∧ db' = db.updateStepExecution stepExecutionId patch
  | .getStepExecution stepExecutionId, answer, db' =>
      answer = .stepExecution (db.getStepExecution stepExecutionId) ∧ db' = db
  | .getExecutionContext scope, answer, db' =>
      answer = .context (db.getExecutionContext scope) ∧ db' = db
  | .saveExecutionContext scope ctx version, answer, db' =>
      answer = .done ∧ db' = db.saveExecutionContext scope ctx version

/-! ### Renaming -/

/-- Takes the ids that one generator hands out to those of another, one by one. -/
structure IdRenaming (idGen uuids : IdGenerator) where
  rename : String → String
  injective : Function.Injective rename
  empty : rename "" = ""
  generated : ∀ n, rename (idGen.next n) = uuids.next n

section Rename

variable (r : String → String)

def JobInstance.renamed (inst : JobInstance) : JobInstance := { inst with id := r inst.id }

def JobExecution.renamed (exec : JobExecution) : JobExecution :=
  { exec with id := r exec.id, jobInstanceId := r exec.jobInstanceId }

def StepExecution.renamed (step : StepExecution) : StepExecution :=
  { step with id := r step.id, jobExecutionId := r step.jobExecutionId }

def ExecutionScope.renamed : ExecutionScope → ExecutionScope
  | .jobExecutionId id => .jobExecutionId (r id)
  | .stepExecutionId id => .stepExecutionId (r id)

/-- The same call, on the ids of the other run. -/
def RepositoryCall.renamed : RepositoryCall → RepositoryCall
  | .getOrCreateJobInstance now name jobKey => .getOrCreateJobInstance now name jobKey
  | .createJobExecution jobInstanceId params => .createJobExecution (r jobInstanceId) params
  | .createExecutionAtomic now name jobKey params => .createExecutionAtomic now name jobKey params
  | .updateJobExecution executionId patch => .updateJobExecution (r executionId) patch
  | .getJobExecution executionId => .getJobExecution (r executionId)
  | .getJobInstance jobInstanceId => .getJobInstance (r jobInstanceId)
  | .getRunningJobExecution jobInstanceId => .getRunningJobExecution (r jobInstanceId)
  | .createStepExecution now jobExecutionId stepName =>
      .createStepExecution now (r jobExecutionId) stepName
  | .updateStepExecution stepExecutionId patch => .updateStepExecution (r stepExecutionId) patch
  | .getStepExecution stepExecutionId => .getStepExecution (r stepExecutionId)
  | .getExecutionContext scope => .getExecutionContext (scope.renamed r)
  | .saveExecutionContext scope ctx version => .saveExecutionContext (scope.renamed r) ctx version

/-- The same answer, with the ids of the other run. -/
def RepositoryAnswer.renamed : RepositoryAnswer → RepositoryAnswer
  | .threw => .threw
  | .done => .done
  | .jobInstance row => .jobInstance (row.map (·.renamed r))
  | .jobExecution row => .jobExecution (row.map (·.renamed r))
  | .stepExecution row => .stepExecution (row.map (·.renamed r))
  | .context ctx => .context ctx

end Rename

/-! ### Where the repositories agree -/

/-- What stands under the joined key is the instance of this name and key. -/
def InMemoryJobRepository.KeepsApart (repo : InMemoryJobRepository) (name jobKey : String) : Prop :=
  ∀ existing, repo.instancesByKey.get? (instanceKey name jobKey) = some existing →
    existing.hasKey name jobKey

/-- The oldest of the running executions started after all the others. -/
def InMemoryJobRepository.OldestStartedLast (repo : InMemoryJobRepository)
    (jobInstanceId : String) : Prop :=
  ∀ oldest others,
    repo.executions.values.filter (·.runs jobInstanceId) = oldest :: others →
      ∀ other ∈ others, other.startOrder < oldest.startOrder

/-- The call does not touch on what the repositories do differently. -/
def InMemoryJobRepository.AgreesOn (repo : InMemoryJobRepository) : RepositoryCall → Prop
  | .getOrCreateJobInstance _ name jobKey => repo.KeepsApart name jobKey
  | .createExecutionAtomic _ name jobKey _ => repo.KeepsApart name jobKey ∧
      (repo.instancesByKey.get? (instanceKey name jobKey) = none →
        repo.getRunningJobExecution repo.nextId = none)
  | .getRunningJobExecution jobInstanceId =>
      (jobInstanceId = "" → repo.getRunningJobExecution "" = none) ∧
        repo.OldestStartedLast jobInstanceId
  | .updateJobExecution executionId _ => (repo.getJobExecution executionId).isSome
  | .updateStepExecution stepExecutionId patch => (repo.getStepExecution stepExecutionId).isSome ∧
      patch.startTime.getD none = none ∧ patch.endTime.getD none = none
  | .saveExecutionContext scope _ version => version = none → (repo.contexts.get? scope).isSome
  | _ => True

/-! ### Instances and their keys -/

/-- Instances are filed under issued ids, and each under its own key. -/
structure InMemoryJobRepository.InstancesFiled (repo : InMemoryJobRepository) : Prop where
  issued : ∀ id inst, repo.instances.get? id = some inst →
    ∃ n < repo.issued, id = repo.idGen.next n
  byKey : ∀ key inst, repo.instancesByKey.get? key = some inst → inst ∈ repo.instances.values
  stored : ∀ inst ∈ repo.instances.values,
    repo.instancesByKey.get? (instanceKey inst.jobName inst.jobKey) = some inst

namespace InMemoryJobRepository

variable {repo : InMemoryJobRepository} {name jobKey : String}

theorem instancesFiled_new (idGen : IdGenerator) : (new idGen).InstancesFiled where
  issued id inst hget := by cases hget
  byKey key inst hget := by cases hget
  stored inst hmem := by cases hmem

/-- Looking among the instances finds what stands under the joined key. -/
theorem InstancesFiled.find?_eq (h : repo.InstancesFiled) (hapart : repo.KeepsApart name jobKey) :
    repo.instances.values.find? (·.hasKey name jobKey) =
      repo.instancesByKey.get? (instanceKey name jobKey) := by
  have hunique : ∀ inst ∈ repo.instances.values, inst.hasKey name jobKey = true →
      repo.instancesByKey.get? (instanceKey name jobKey) = some inst := by
    intro inst hmem hkey
    have hstored := h.stored inst hmem
    unfold JobInstance.hasKey at hkey
    rw [Bool.and_eq_true, decide_eq_true_eq, decide_eq_true_eq] at hkey
    rw [hkey.1, hkey.2] at hstored
    exact hstored
  cases hfind : repo.instances.values.find? (·.hasKey name jobKey) with
  | some inst =>
      exact (hunique inst (List.mem_of_find?_eq_some hfind) (List.find?_some hfind)).symm
  | none =>
      cases hget : repo.instancesByKey.get? (instanceKey name jobKey) with
      | none => rfl
      | some existing =>
          have hmem := h.byKey _ _ hget
          exact absurd (hapart existing hget) (List.find?_eq_none.mp hfind existing hmem)

/-- The next id is not on file. -/
theorem InstancesFiled.fresh (h : repo.InstancesFiled) :
    repo.instances.get? repo.nextId = none := by
  cases hget : repo.instances.get? repo.nextId with
  | none => rfl
  | some inst =>
      obtain ⟨n, hn, hid⟩ := h.issued _ _ hget
      have heq : repo.issued = n := repo.idGen.unique hid
      omega

/-- Calls that leave the instances alone. -/
theorem InstancesFiled.of_same {repo' : InMemoryJobRepository} (h : repo.InstancesFiled)
    (hgen : repo'.idGen = repo.idGen) (hissued : repo.issued ≤ repo'.issued)
    (hinstances : repo'.instances = repo.instances)
    (hbyKey : repo'.instancesByKey = repo.instancesByKey) : repo'.InstancesFiled where
  issued id inst hget := by
    rw [hinstances] at hget
    obtain ⟨n, hn, hid⟩ := h.issued id inst hget
    rw [hgen]
    exact ⟨n, Nat.lt_of_lt_of_le hn hissued, hid⟩
  byKey key inst hget := by
    rw [hbyKey] at hget
    rw [hinstances]
    exact h.byKey key inst hget
  stored inst hmem := by
    rw [hinstances] at hmem
    rw [hbyKey]
    exact h.stored inst hmem

/-- Getting or creating an instance keeps every instance under its key. -/
theorem InstancesFiled.getOrCreate (h : repo.InstancesFiled) (now : Time) (name jobKey : String) :
    (repo.getOrCreateJobInstance now name jobKey).2.InstancesFiled := by
  unfold getOrCreateJobInstance
  split
  · exact h
  · next hget =>
      have hother : ∀ inst ∈ repo.instances.values,
          instanceKey inst.jobName inst.jobKey ≠ instanceKey name jobKey := by
        intro inst hmem heq
        have hstored := h.stored inst hmem
        rw [heq, hget] at hstored
        cases hstored
      constructor
      · intro id inst hinst
        simp only [JsMap.get?_set] at hinst
        split at hinst
        · next hid => exact ⟨repo.issued, Nat.lt_succ_self _, hid⟩
        · obtain ⟨n, hn, hid⟩ := h.issued _ _ hinst
          exact ⟨n, Nat.lt_succ_of_lt hn, hid⟩
      · intro key inst hinst
        simp only [JsMap.get?_set] at hinst
        rw [JsMap.mem_values_iff]
        split at hinst
        · cases hinst
          exact ⟨_, JsMap.get?_set_self _ _ _⟩
        · obtain ⟨id, hid⟩ := (JsMap.mem_values_iff _ _).mp (h.byKey _ _ hinst)
          have hne : id ≠ repo.nextId := by
            intro heq
            rw [heq, h.fresh] at hid
            cases hid
          exact ⟨id, (JsMap.get?_set_of_ne _ _ hne).trans hid⟩
      · intro inst hmem
        obtain ⟨id, hid⟩ := (JsMap.mem_values_iff _ _).mp hmem
        simp only [JsMap.get?_set] at hid ⊢
        split at hid
        · cases hid
          exact if_pos rfl
        · have hold := (JsMap.mem_values_iff _ _).mpr ⟨id, hid⟩
          rw [if_neg (hother inst hold)]
          exact h.stored inst hold

end InMemoryJobRepository

/-! ### One call -/

/-- The tables hold what the maps hold, under the other ids. -/
structure Mirrors {idGen uuids : IdGenerator} (ρ : IdRenaming idGen uuids)
    (repo : InMemoryJobRepository) (db : TypeOrmDatabase) : Prop where
  idGen : repo.idGen = idGen
  uuids : db.uuids = uuids
  inserted : db.inserted = repo.issued
  instances : db.instances = repo.instances.rekey ρ.injective (·.renamed ρ.rename)
  executions : db.executions = repo.executions.rekey ρ.injective (·.renamed ρ.rename)
  stepExecutions : db.stepExecutions.rekey Function.injective_id mapStepExecution =
    repo.stepExecutions.rekey ρ.injective (·.renamed ρ.rename)
  jobContexts : ∀ id,
    db.jobContexts.get? (ρ.rename id) = repo.contexts.get? (.jobExecutionId id)
  stepContexts : ∀ id,
    db.stepContexts.get? (ρ.rename id) = repo.contexts.get? (.stepExecutionId id)
  filed : repo.InstancesFiled

namespace Mirrors

variable {idGen uuids : IdGenerator} {ρ : IdRenaming idGen uuids} {repo : InMemoryJobRepository}
  {db : TypeOrmDatabase}

/-- Two fresh repositories mirror each other. -/
theorem start (ρ : IdRenaming idGen uuids) : Mirrors ρ (.new idGen) (.new uuids) where
  idGen := rfl
  uuids := rfl
  inserted := rfl
  instances := rfl
  executions := rfl
  stepExecutions := rfl
  jobContexts _ := rfl
  stepContexts _ := rfl
  filed := InMemoryJobRepository.instancesFiled_new idGen

/-- The ids that the two draw next correspond. -/
theorem randomUUID (h : Mirrors ρ repo db) : db.randomUUID = ρ.rename repo.nextId := by
  unfold TypeOrmDatabase.randomUUID InMemoryJobRepository.nextId
  rw [h.idGen, h.uuids, h.inserted, ρ.generated]

/-- The row of a key is the renamed one. -/
theorem find_instance (h : Mirrors ρ repo db) {name jobKey : String}
    (hapart : repo.KeepsApart name jobKey) :
    db.instances.values.find? (·.hasKey name jobKey) =
      (repo.instancesByKey.get? (InMemoryJobRepository.instanceKey name jobKey)).map
        (·.renamed ρ.rename) := by
  rw [h.instances, JsMap.values_rekey, List.find?_map, ← h.filed.find?_eq hapart]
  rfl

/-- Getting or creating an instance answers alike and keeps the mirror. -/
theorem getOrCreate (h : Mirrors ρ repo db) {name jobKey : String}
    (hapart : repo.KeepsApart name jobKey) (now : Time) :
    (db.getOrCreateJobInstance now name jobKey).1 =
      (repo.getOrCreateJobInstance now name jobKey).1.renamed ρ.rename ∧
    Mirrors ρ (repo.getOrCreateJobInstance now name jobKey).2
      (db.getOrCreateJobInstance now name jobKey).2 := by
  have hfiled := h.filed.getOrCreate now name jobKey
  have hfind := h.find_instance hapart
  unfold TypeOrmDatabase.getOrCreateJobInstance InMemoryJobRepository.getOrCreateJobInstance at *
  rw [hfind]
  cases hget : repo.instancesByKey.get? (InMemoryJobRepository.instanceKey name jobKey) with
  | some existing => exact ⟨rfl, h⟩
  | none =>
      rw [hget] at hfiled
      have hinst : newInstance db.randomUUID name jobKey now = JobInstance.renamed ρ.rename
          { id := repo.nextId, jobName := name, jobKey := jobKey, createdAt := now } := by
        rw [h.randomUUID]
        rfl
      refine ⟨hinst, { h with
        inserted := congrArg (· + 1) h.inserted
        instances := ?_
        filed := hfiled }⟩
      dsimp only [Option.map_none]
      rw [hinst, JsMap.rekey_set, h.instances]
      rfl

/-- The running executions are the renamed ones, in the same order. -/
theorem filter_running (h : Mirrors ρ repo db) (jobInstanceId : String) :
    db.executions.values.filter (·.runs (ρ.rename jobInstanceId)) =
      (repo.executions.values.filter (·.runs jobInstanceId)).map (·.renamed ρ.rename) := by
  rw [h.executions, JsMap.values_rekey, List.filter_map]
  congr 1
  apply List.filter_congr
  intro exec _
  have hiff : ρ.rename exec.jobInstanceId = ρ.rename jobInstanceId ↔
      exec.jobInstanceId = jobInstanceId := ρ.injective.eq_iff
  simp [JobExecution.runs, JobExecution.renamed, hiff]

/-- The running execution is the first one that runs the instance. -/
theorem getRunning_eq (repo : InMemoryJobRepository) (jobInstanceId : String) :
    repo.getRunningJobExecution jobInstanceId =
      (repo.executions.values.filter (·.runs jobInstanceId)).head? :=
  (List.head?_filter ..).symm

/-- Both repositories find the same running execution. -/
theorem find_running (h : Mirrors ρ repo db) (jobInstanceId : String) :
    db.executions.values.find? (·.runs (ρ.rename jobInstanceId)) =
      (repo.getRunningJobExecution jobInstanceId).map (·.renamed ρ.rename) := by
  rw [getRunning_eq, ← List.head?_map, ← h.filter_running, List.head?_filter]

/-- Creating a job execution answers alike and keeps the mirror. -/
theorem createJobExecution (h : Mirrors ρ repo db) (jobInstanceId : String)
    (params : JobParameters) :
    (db.createJobExecution (ρ.rename jobInstanceId) params).1 =
      (repo.createJobExecution jobInstanceId params).1.renamed ρ.rename ∧
    Mirrors ρ (repo.createJobExecution jobInstanceId params).2
      (db.createJobExecution (ρ.rename jobInstanceId) params).2 := by
  have hexec : InMemoryJobRepository.newExecution db.randomUUID (ρ.rename jobInstanceId) params =
      (InMemoryJobRepository.newExecution repo.nextId jobInstanceId params).renamed ρ.rename := by
    rw [h.randomUUID]
    rfl
  refine ⟨hexec, { h with
    inserted := congrArg (· + 1) h.inserted
    executions := ?_
    filed := h.filed.of_same rfl (Nat.le_succ _) rfl rfl }⟩
  unfold TypeOrmDatabase.createJobExecution InMemoryJobRepository.createJobExecution
  dsimp only
  rw [hexec, JsMap.rekey_set, h.executions]
  rfl

/-- Creating an execution atomically answers alike and keeps the mirror. -/
theorem createExecutionAtomic (h : Mirrors ρ repo db) {name jobKey : String}
    (hapart : repo.KeepsApart name jobKey)
    (hunused : repo.instancesByKey.get? (InMemoryJobRepository.instanceKey name jobKey) = none →
      repo.getRunningJobExecution repo.nextId = none) (now : Time) (params : JobParameters) :
    RepositoryAnswer.ofExcept (fun exec => .jobExecution (some exec))
        (db.createExecutionAtomic now name jobKey params).1 =
      (RepositoryAnswer.ofExcept (fun exec => .jobExecution (some exec))
        (repo.createExecutionAtomic now name jobKey params).1).renamed ρ.rename ∧
    Mirrors ρ (repo.createExecutionAtomic now name jobKey params).2
      (db.createExecutionAtomic now name jobKey params).2 := by
  obtain ⟨hinst, hmirrors⟩ := h.getOrCreate hapart now
  have hrunning := hmirrors.find_running (repo.getOrCreateJobInstance now name jobKey).1.id
  unfold TypeOrmDatabase.createExecutionAtomic InMemoryJobRepository.createExecutionAtomic
  have hid : (db.getOrCreateJobInstance now name jobKey).1.id =
      ρ.rename (repo.getOrCreateJobInstance now name jobKey).1.id := congrArg JobInstance.id hinst
  dsimp only
  rw [hid, hrunning]
  cases hfound : (repo.getOrCreateJobInstance now name jobKey).2.getRunningJobExecution
      (repo.getOrCreateJobInstance now name jobKey).1.id with
  | none =>
      obtain ⟨hexec, hcreated⟩ := hmirrors.createJobExecution
        (repo.getOrCreateJobInstance now name jobKey).1.id params
      refine ⟨?_, hcreated⟩
      exact congrArg (fun exec => RepositoryAnswer.jobExecution (some exec)) hexec
  | some running =>
      refine ⟨rfl, ?_⟩
      -- an instance that has just been made is not the one of a running execution
      have hsame : (repo.getOrCreateJobInstance now name jobKey).2 = repo := by
        unfold InMemoryJobRepository.getOrCreateJobInstance at hfound ⊢
        split
        · rfl
        · next hnone =>
            rw [hnone] at hfound
            have hnew := hunused hnone
            exact absurd (hfound.symm.trans hnew) (by simp)
      dsimp only
      rw [hsame]
      exact h

/-- Reading an execution answers alike. -/
theorem get_execution (h : Mirrors ρ repo db) (executionId : String) :
    db.executions.get? (ρ.rename executionId) =
      (repo.executions.get? executionId).map (·.renamed ρ.rename) := by
  rw [h.executions, JsMap.get?_rekey]

/-- Reading an instance answers alike. -/
theorem get_instance (h : Mirrors ρ repo db) (jobInstanceId : String) :
    db.instances.get? (ρ.rename jobInstanceId) =
      (repo.instances.get? jobInstanceId).map (·.renamed ρ.rename) := by
  rw [h.instances, JsMap.get?_rekey]

/-- Reading a step execution answers alike, once the row is mapped. -/
theorem get_step (h : Mirrors ρ repo db) (stepExecutionId : String) :
    (db.stepExecutions.get? (ρ.rename stepExecutionId)).map mapStepExecution =
      (repo.stepExecutions.get? stepExecutionId).map (·.renamed ρ.rename) := by
  have hrow := JsMap.get?_rekey Function.injective_id mapStepExecution db.stepExecutions
    (ρ.rename stepExecutionId)
  rw [h.stepExecutions] at hrow
  exact hrow.symm.trans (JsMap.get?_rekey ρ.injective _ _ _)

/-- Updating a known execution answers alike and keeps the mirror. -/
theorem updateJobExecution (h : Mirrors ρ repo db) {executionId : String}
    (hknown : (repo.executions.get? executionId).isSome) (patch : JobExecutionPatch) :
    (repo.updateJobExecution executionId patch).1 = .ok () ∧
    Mirrors ρ (repo.updateJobExecution executionId patch).2
      (db.updateJobExecution (ρ.rename executionId) patch) := by
  obtain ⟨cur, hcur⟩ := Option.isSome_iff_exists.mp hknown
  have hrow := h.get_execution executionId
  unfold TypeOrmDatabase.updateJobExecution InMemoryJobRepository.updateJobExecution
  rw [hrow, hcur]
  refine ⟨rfl, { h with
    executions := ?_
    filed := h.filed.of_same rfl (Nat.le_refl _) rfl rfl }⟩
  dsimp only [Option.map_some]
  rw [JsMap.rekey_set, h.executions]
  rfl

/-- Asking for the running execution answers alike. -/
theorem isRunning (h : Mirrors ρ repo db) {jobInstanceId : String}
    (hempty : jobInstanceId = "" → repo.getRunningJobExecution "" = none)
    (hlast : repo.OldestStartedLast jobInstanceId) {found : Option JobExecution}
    (hfound : db.IsRunningJobExecution (ρ.rename jobInstanceId) found) :
    found = (repo.getRunningJobExecution jobInstanceId).map (·.renamed ρ.rename) := by
  unfold TypeOrmDatabase.IsRunningJobExecution at hfound
  by_cases hid : jobInstanceId = ""
  · subst hid
    rw [ρ.empty, if_pos rfl] at hfound
    rw [hempty rfl, hfound]
    rfl
  · have hne : ρ.rename jobInstanceId ≠ "" := by
      intro heq
      rw [← ρ.empty] at heq
      exact hid (ρ.injective heq)
    have hfilter := h.filter_running jobInstanceId
    rw [if_neg hne] at hfound
    rw [getRunning_eq]
    cases found with
    | none =>
        have hnone : db.executions.values.filter (·.runs (ρ.rename jobInstanceId)) = [] := by
          rw [List.filter_eq_nil_iff]
          intro exec hmem hruns
          rw [hfound exec hmem] at hruns
          cases hruns
        rw [hnone] at hfilter
        rw [List.map_eq_nil_iff.mp hfilter.symm]
        rfl
    | some exec =>
        obtain ⟨hmem, hmost⟩ := hfound
        have hlisted := List.mem_filter.mpr hmem
        rw [hfilter] at hlisted
        cases hrunning : repo.executions.values.filter (·.runs jobInstanceId) with
        | nil =>
            rw [hrunning] at hlisted
            cases hlisted
        | cons oldest others =>
            rw [hrunning] at hlisted hfilter
            rw [List.map_cons, List.mem_cons] at hlisted
            rcases hlisted with hfirst | hother
            · rw [hfirst]
              rfl
            · obtain ⟨other, hmemOther, heq⟩ := List.mem_map.mp hother
              have hfirst : oldest.renamed ρ.rename ∈
                  db.executions.values.filter (·.runs (ρ.rename jobInstanceId)) := by
                rw [hfilter]
                exact List.mem_cons_self
              obtain ⟨hstored, hruns⟩ := List.mem_filter.mp hfirst
              have hle := hmost _ hstored hruns
              have hlt := hlast oldest others hrunning other hmemOther
              rw [← heq] at hle
              exact absurd hle (not_le_of_gt hlt)

/-- Creating a step execution answers alike and keeps the mirror. -/
theorem createStepExecution (h : Mirrors ρ repo db) (now : Time)
    (jobExecutionId stepName : String) :
    (db.createStepExecution now (ρ.rename jobExecutionId) stepName).1 =
      (repo.createStepExecution jobExecutionId stepName).1.renamed ρ.rename ∧
    Mirrors ρ (repo.createStepExecution jobExecutionId stepName).2
      (db.createStepExecution now (ρ.rename jobExecutionId) stepName).2 := by
  have hrow : mapStepExecution
      (newStepExecutionRow db.randomUUID (ρ.rename jobExecutionId) stepName now) =
      (InMemoryJobRepository.newStepExecution repo.nextId jobExecutionId stepName).renamed
        ρ.rename := by
    rw [h.randomUUID]
    rfl
  refine ⟨hrow, { h with
    inserted := congrArg (· + 1) h.inserted
    stepExecutions := ?_
    filed := h.filed.of_same rfl (Nat.le_succ _) rfl rfl }⟩
  unfold TypeOrmDatabase.createStepExecution InMemoryJobRepository.createStepExecution
  dsimp only
  rw [JsMap.rekey_set, JsMap.rekey_set, h.stepExecutions, hrow]
  dsimp only [newStepExecutionRow, InMemoryJobRepository.newStepExecution]
  rw [h.randomUUID]
  rfl

/-- A patch without times does to a row what it does to the object. -/
theorem mapStepExecution_applyToRow {patch : StepExecutionPatch}
    (hstart : patch.startTime.getD none = none) (hend : patch.endTime.getD none = none)
    (row : StepExecutionRow) :
    mapStepExecution (patch.applyToRow row) = patch.applyTo (mapStepExecution row) := by
  unfold StepExecutionPatch.applyTo
  dsimp only [mapStepExecution]
  rw [hstart, hend]
  rfl

/-- Updating a known step execution, its times apart, answers alike and keeps the mirror. -/
theorem updateStepExecution (h : Mirrors ρ repo db) {stepExecutionId : String}
    {patch : StepExecutionPatch} (hknown : (repo.stepExecutions.get? stepExecutionId).isSome)
    (hstart : patch.startTime.getD none = none) (hend : patch.endTime.getD none = none) :
    (repo.updateStepExecution stepExecutionId patch).1 = .ok () ∧
    Mirrors ρ (repo.updateStepExecution stepExecutionId patch).2
      (db.updateStepExecution (ρ.rename stepExecutionId) patch) := by
  obtain ⟨cur, hcur⟩ := Option.isSome_iff_exists.mp hknown
  have hrow := h.get_step stepExecutionId
  rw [hcur, Option.map_some, Option.map_eq_some_iff] at hrow
  obtain ⟨row, hget, hsame⟩ := hrow
  unfold TypeOrmDatabase.updateStepExecution InMemoryJobRepository.updateStepExecution
  rw [hget, hcur]
  refine ⟨rfl, { h with
    stepExecutions := ?_
    filed := h.filed.of_same rfl (Nat.le_refl _) rfl rfl }⟩
  dsimp only
  rw [JsMap.rekey_set, JsMap.rekey_set, h.stepExecutions,
    mapStepExecution_applyToRow hstart hend row, hsame]
  rfl

/-- One kind of context: the saved version is the same if there was one before, or one is given. -/
theorem upsertContext {table : JsMap String ExecutionContext} {scope : String → ExecutionScope}
    (hscope : Function.Injective scope)
    (htable : ∀ id, table.get? (ρ.rename id) = repo.contexts.get? (scope id)) {id : String}
    {version : Option Nat} (hversion : version = none → (repo.contexts.get? (scope id)).isSome)
    (data : JsonValue) (id' : String) :
    (TypeOrmDatabase.upsertContext table (ρ.rename id) data version).get? (ρ.rename id') =
      (repo.contexts.set (scope id)
        { data := data, version := repo.nextVersion (scope id) version }).get? (scope id') := by
  unfold TypeOrmDatabase.upsertContext
  rw [JsMap.get?_set, JsMap.get?_set, htable, htable]
  by_cases hid : id' = id
  · subst hid
    rw [if_pos rfl, if_pos rfl]
    cases version with
    | some version => rfl
    | none =>
        obtain ⟨existing, hexisting⟩ := Option.isSome_iff_exists.mp (hversion rfl)
        unfold InMemoryJobRepository.nextVersion
        rw [hexisting]
        rfl
  · rw [if_neg fun heq => hid (ρ.injective heq), if_neg fun heq => hid (hscope heq)]

/-- Reading a context answers alike. -/
theorem getExecutionContext (h : Mirrors ρ repo db) (scope : ExecutionScope) :
    db.getExecutionContext (scope.renamed ρ.rename) = repo.getExecutionContext scope := by
  cases scope with
  | jobExecutionId id =>
      have hcontext := h.jobContexts id
      dsimp only [ExecutionScope.renamed, TypeOrmDatabase.getExecutionContext]
      unfold TypeOrmDatabase.selectContext InMemoryJobRepository.getExecutionContext
      rw [hcontext]
  | stepExecutionId id =>
      have hcontext := h.stepContexts id
      dsimp only [ExecutionScope.renamed, TypeOrmDatabase.getExecutionContext]
      unfold TypeOrmDatabase.selectContext InMemoryJobRepository.getExecutionContext
      rw [hcontext]

/-- Saving a context keeps the mirror. -/
theorem saveExecutionContext (h : Mirrors ρ repo db) {scope : ExecutionScope}
    {version : Option Nat} (hversion : version = none → (repo.contexts.get? scope).isSome)
    (ctx : ExecutionContext) :
    Mirrors ρ (repo.saveExecutionContextVersion scope ctx version)
      (db.saveExecutionContext (scope.renamed ρ.rename) ctx version) := by
  have hfiled : (repo.saveExecutionContextVersion scope ctx version).InstancesFiled :=
    h.filed.of_same rfl (Nat.le_refl _) rfl rfl
  cases scope with
  | jobExecutionId id =>
      refine { h with jobContexts := ?_, stepContexts := ?_, filed := hfiled }
      · exact upsertContext (fun _ _ heq => ExecutionScope.jobExecutionId.inj heq) h.jobContexts
          hversion ctx.data
      · intro id'
        exact (h.stepContexts id').trans (JsMap.get?_set_of_ne _ _ (by simp)).symm
  | stepExecutionId id =>
      refine { h with jobContexts := ?_, stepContexts := ?_, filed := hfiled }
      · intro id'
        exact (h.jobContexts id').trans (JsMap.get?_set_of_ne _ _ (by simp)).symm
      · exact upsertContext (fun _ _ heq => ExecutionScope.stepExecutionId.inj heq) h.stepContexts
          hversion ctx.data

end Mirrors

/-- The database always has an answer to the query for a running execution. -/
theorem TypeOrmDatabase.exists_isRunning (db : TypeOrmDatabase) (jobInstanceId : String) :
    ∃ found, db.IsRunningJobExecution jobInstanceId found := by
  unfold IsRunningJobExecution
  by_cases hid : jobInstanceId = ""
  · exact ⟨none, by rw [if_pos hid]⟩
  · simp only [if_neg hid]
    cases hmax : (db.executions.values.filter (·.runs jobInstanceId)).argmax
        JobExecution.startOrder with
    | none =>
        refine ⟨none, ?_⟩
        intro exec hmem
        have hnil := List.argmax_eq_none.mp hmax
        exact Bool.eq_false_iff.mpr (List.filter_eq_nil_iff.mp hnil exec hmem)
    | some exec =>
        refine ⟨some exec, List.mem_filter.mp (List.argmax_mem hmax), ?_⟩
        intro other hmem hruns
        exact List.le_of_mem_argmax (List.mem_filter.mpr ⟨hmem, hruns⟩) hmax

/-- Every call has an answer. -/
theorem TypeOrmDatabase.exists_answer (db : TypeOrmDatabase) (call : RepositoryCall) :
    ∃ answer db', db.Answers call answer db' := by
  cases call with
  | getRunningJobExecution jobInstanceId =>
      obtain ⟨found, hfound⟩ := db.exists_isRunning jobInstanceId
      exact ⟨_, _, ⟨found, hfound, rfl⟩, rfl⟩
  | _ => exact ⟨_, _, rfl, rfl⟩

/-- **One call.**  On the calls they agree on, the repositories stay in step. -/
theorem mirrors_simulates {idGen uuids : IdGenerator} (ρ : IdRenaming idGen uuids) :
    Lockstep.Simulates InMemoryJobRepository.answer TypeOrmDatabase.Answers
      InMemoryJobRepository.AgreesOn (Mirrors ρ) (·.renamed ρ.rename) (·.renamed ρ.rename) where
  answers repo db call _ := db.exists_answer _
  keeps repo db call answer db' h hagrees hanswer := by
    cases call with
    | getOrCreateJobInstance now name jobKey =>
        obtain ⟨rfl, rfl⟩ := hanswer
        obtain ⟨hinst, hmirrors⟩ := h.getOrCreate hagrees now
        exact ⟨congrArg (fun inst => RepositoryAnswer.jobInstance (some inst)) hinst, hmirrors⟩
    | createJobExecution jobInstanceId params =>
        obtain ⟨rfl, rfl⟩ := hanswer
        obtain ⟨hexec, hmirrors⟩ := h.createJobExecution jobInstanceId params
        exact ⟨congrArg (fun exec => RepositoryAnswer.jobExecution (some exec)) hexec, hmirrors⟩
    | createExecutionAtomic now name jobKey params =>
        obtain ⟨rfl, rfl⟩ := hanswer
        exact h.createExecutionAtomic hagrees.1 hagrees.2 now params
    | updateJobExecution executionId patch =>
        obtain ⟨rfl, rfl⟩ := hanswer
        obtain ⟨hdone, hmirrors⟩ := h.updateJobExecution hagrees patch
        refine ⟨?_, hmirrors⟩
        dsimp only [InMemoryJobRepository.answer]
        rw [hdone]
        rfl
    | getJobExecution executionId =>
        obtain ⟨rfl, rfl⟩ := hanswer
        exact ⟨congrArg RepositoryAnswer.jobExecution (h.get_execution executionId), h⟩
    | getJobInstance jobInstanceId =>
        obtain ⟨rfl, rfl⟩ := hanswer
        exact ⟨congrArg RepositoryAnswer.jobInstance (h.get_instance jobInstanceId), h⟩
    | getRunningJobExecution jobInstanceId =>
        obtain ⟨⟨found, hfound, rfl⟩, rfl⟩ := hanswer
        exact ⟨congrArg RepositoryAnswer.jobExecution (h.isRunning hagrees.1 hagrees.2 hfound), h⟩
    | createStepExecution now jobExecutionId stepName =>
        obtain ⟨rfl, rfl⟩ := hanswer
        obtain ⟨hstep, hmirrors⟩ := h.createStepExecution now jobExecutionId stepName
        exact ⟨congrArg (fun step => RepositoryAnswer.stepExecution (some step)) hstep, hmirrors⟩
    | updateStepExecution stepExecutionId patch =>
        obtain ⟨rfl, rfl⟩ := hanswer
        obtain ⟨hdone, hmirrors⟩ := h.updateStepExecution hagrees.1 hagrees.2.1 hagrees.2.2
        refine ⟨?_, hmirrors⟩
        dsimp only [InMemoryJobRepository.answer]
        rw [hdone]
        rfl
    | getStepExecution stepExecutionId =>
        obtain ⟨rfl, rfl⟩ := hanswer
        exact ⟨congrArg RepositoryAnswer.stepExecution (h.get_step stepExecutionId), h⟩
    | getExecutionContext scope =>
        obtain ⟨rfl, rfl⟩ := hanswer
        exact ⟨congrArg RepositoryAnswer.context (h.getExecutionContext scope), h⟩
    | saveExecutionContext scope ctx version =>
        obtain ⟨rfl, rfl⟩ := hanswer
        exact ⟨rfl, h.saveExecutionContext hagrees ctx⟩

/-- The ids `c`, `cc`, `ccc` and so on. -/
def countedIds (c : Char) : IdGenerator where
  next n := String.ofList (List.replicate (n + 1) c)
  unique := by
    intro m n h
    have hlength := congrArg String.length h
    simpa using hlength

/-- Ids of `m` become ids of `u`, and the other way round. -/
def swapIds : IdRenaming (countedIds 'm') (countedIds 'u') where
  rename s := String.ofList
    (s.toList.map fun c => if c = 'm' then 'u' else if c = 'u' then 'm' else c)
  injective := by
    intro s t h
    have hlist := String.ofList_injective h
    have hinjective : Function.Injective
        (fun c : Char => if c = 'm' then 'u' else if c = 'u' then 'm' else c) := by
      intro a b hab
      dsimp only at hab
      grind
    exact String.toList_injective (hinjective.list_map hlist)
  empty := rfl
  generated n := by
    simp [countedIds]

end NestBatch
