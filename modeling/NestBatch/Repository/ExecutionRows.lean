import NestBatch.Repository.StepRows

/-!
# The rows of job executions

What a status write does to the row of an execution, and what a launch makes of
a repository whose ids are in order: one new row, STARTING, that belongs to an
instance of the job.
-/

namespace NestBatch

/-! ### The row of the execution -/

/-- The execution is on file, in `status`, and belongs to an instance of the job. -/
def HasRow (e jobId : String) (status : JobStatus) (repo : InMemoryJobRepository) : Prop :=
  ∃ row inst, repo.getJobExecution e = some row ∧ row.id = e ∧ row.status = status ∧
    repo.getJobInstance row.jobInstanceId = some inst ∧ inst.jobName = jobId

theorem HasRow.congr {e jobId : String} {status : JobStatus} {repo repo' : InMemoryJobRepository}
    (h : HasRow e jobId status repo) (hexec : repo'.executions = repo.executions)
    (hinst : repo'.instances = repo.instances) : HasRow e jobId status repo' := by
  obtain ⟨row, inst, hrow, hid, hstatus, hinstance, hname⟩ := h
  refine ⟨row, inst, ?_, hid, hstatus, ?_, hname⟩
  · unfold InMemoryJobRepository.getJobExecution at hrow ⊢
    rw [hexec, hrow]
  · unfold InMemoryJobRepository.getJobInstance at hinstance ⊢
    rw [hinst, hinstance]

/-- A row of an execution on file is updated, and stays its row. -/
theorem HasRow.update {e jobId : String} {status : JobStatus} {repo : InMemoryJobRepository}
    (h : HasRow e jobId status repo) (patch : JobExecutionPatch) :
    (repo.updateJobExecution e patch).1 = .ok () ∧
      HasRow e jobId (patch.status.getD status) (repo.updateJobExecution e patch).2 := by
  obtain ⟨row, inst, hrow, hid, hstatus, hinstance, hname⟩ := h
  unfold InMemoryJobRepository.getJobExecution at hrow
  unfold InMemoryJobRepository.updateJobExecution
  rw [hrow]
  refine ⟨rfl, patch.applyTo row, inst, ?_, hid, ?_, hinstance, hname⟩
  · exact JsMap.get?_set_self _ _ _
  · exact congrArg patch.status.getD hstatus

/-! ### The repository a launch starts from -/

/-- Ids on file have been issued, and the instances found under a key of the job
are the job's. -/
structure InMemoryJobRepository.Filed (repo : InMemoryJobRepository) (jobId : String) : Prop where
  steps : repo.StepsFiled
  contexts : ∀ n, repo.issued ≤ n →
    repo.contexts.get? (.stepExecutionId (repo.idGen.next n)) = none
  instances : ∀ jobKey inst, repo.instancesByKey.get?
    (InMemoryJobRepository.instanceKey jobId jobKey) = some inst →
      inst.jobName = jobId ∧ repo.getJobInstance inst.id = some inst

namespace InMemoryJobRepository

theorem filed_new (idGen : IdGenerator) (jobId : String) : (new idGen).Filed jobId where
  steps := ⟨(fun _ _ h => by cases h), (fun _ _ h => by cases h)⟩
  contexts _ _ := rfl
  instances _ _ h := by cases h

variable {repo : InMemoryJobRepository} {jobId : String}

/-- Issuing more ids leaves the steps filed. -/
theorem StepsFiled.of_issued {repo' : InMemoryJobRepository} (h : repo.StepsFiled)
    (hidGen : repo'.idGen = repo.idGen) (hissued : repo.issued ≤ repo'.issued)
    (hsteps : repo'.stepExecutions = repo.stepExecutions) : repo'.StepsFiled where
  own id step hget := h.own id step (hsteps ▸ hget)
  issued id step hget := by
    obtain ⟨n, hn, hid⟩ := h.issued id step (hsteps ▸ hget)
    exact ⟨n, by omega, hidGen ▸ hid⟩

/-- The instance of a launch is the job's, and on file. -/
theorem Filed.getOrCreate (h : repo.Filed jobId) (now : Time) (jobKey : String) :
    let created := repo.getOrCreateJobInstance now jobId jobKey
    created.1.jobName = jobId ∧ created.2.getJobInstance created.1.id = some created.1 ∧
      created.2.idGen = repo.idGen ∧ repo.issued ≤ created.2.issued := by
  unfold getOrCreateJobInstance
  split
  · next inst hinst =>
      obtain ⟨hname, hget⟩ := h.instances jobKey inst hinst
      exact ⟨hname, hget, rfl, Nat.le_refl _⟩
  · exact ⟨rfl, JsMap.get?_set_self _ _ _, rfl, Nat.le_succ _⟩

/-- A launch that is refused creates no execution. -/
theorem createExecutionAtomic_error {now : Time} {name jobKey : String} {params : JobParameters}
    {err : Thrown} (h : (repo.createExecutionAtomic now name jobKey params).1 = .error err) :
    (repo.createExecutionAtomic now name jobKey params).2.executions = repo.executions := by
  have hframe := repo.getOrCreateJobInstance_frame now name jobKey
  unfold createExecutionAtomic at h ⊢
  dsimp only at h ⊢
  split at h
  · exact hframe.1
  · cases h

/-- A launch that is let in creates one execution, STARTING, of an instance of the job. -/
theorem Filed.createExecution (h : repo.Filed jobId) {now : Time} {jobKey : String}
    {params : JobParameters} {execution : JobExecution}
    (hok : (repo.createExecutionAtomic now jobId jobKey params).1 = .ok execution) :
    let repo' := (repo.createExecutionAtomic now jobId jobKey params).2
    execution.status = .STARTING ∧ HasRow execution.id jobId .STARTING repo' ∧
      repo'.StepsFiled ∧ repo'.contexts.get? (.stepExecutionId repo'.nextId) = none ∧
      repo'.executions = repo.executions.set execution.id execution := by
  obtain ⟨hname, hinst, hidGen, hissued⟩ := h.getOrCreate now jobKey
  obtain ⟨hexecutions, hsteps, hcontexts⟩ := repo.getOrCreateJobInstance_frame now jobId jobKey
  unfold createExecutionAtomic at hok ⊢
  dsimp only at hok ⊢
  split at hok
  · cases hok
  · cases hok
    refine ⟨rfl, ?_, ?_, ?_, congrArg (JsMap.set · _ _) hexecutions⟩
    · exact ⟨_, _, JsMap.get?_set_self _ _ _, rfl, rfl, hinst, hname⟩
    · exact h.steps.of_issued hidGen (Nat.le_succ_of_le hissued) hsteps
    · have hnone := h.contexts _ (Nat.le_succ_of_le hissued)
      rw [← hidGen, ← hcontexts] at hnone
      exact hnone

end InMemoryJobRepository

end NestBatch
