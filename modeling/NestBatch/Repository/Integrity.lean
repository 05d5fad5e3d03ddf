import NestBatch.Execution.JobOutcome
import NestBatch.Repository.ExecutionRows
import NestBatch.Repository.InstanceKeys

/-!
# The repository as a whole

A step execution names its execution, an execution its instance, and an instance is
found under its key.  Ids are issued one after the other, so that no row is filed
over another, and what a row belongs to is settled when it is created: patches
change neither the execution of a step nor the instance or parameters of an execution.
-/

namespace NestBatch

variable {α υ : Type}

namespace InMemoryJobRepository

/-- Rows are filed under their own, issued ids, and what they belong to is on file. -/
structure Consistent (repo : InMemoryJobRepository) : Prop where
  instanceOwn : ∀ id inst, repo.instances.get? id = some inst → inst.id = id
  instanceIssued : ∀ id inst, repo.instances.get? id = some inst →
    ∃ n < repo.issued, id = repo.idGen.next n
  byKey : ∀ key inst, repo.instancesByKey.get? key = some inst →
    repo.instances.get? inst.id = some inst ∧ key = instanceKey inst.jobName inst.jobKey
  executionOwn : repo.ExecutionsFiled
  executionIssued : ∀ id row, repo.executions.get? id = some row →
    ∃ n < repo.issued, id = repo.idGen.next n
  executionOf : ∀ id row, repo.executions.get? id = some row →
    ∃ inst, repo.instances.get? row.jobInstanceId = some inst
  steps : repo.StepsFiled
  stepOf : ∀ id step, repo.stepExecutions.get? id = some step →
    ∃ row, repo.executions.get? step.jobExecutionId = some row

/-- Nothing on file is lost, and rows keep what is settled when they are created. -/
structure Extends (repo repo' : InMemoryJobRepository) : Prop where
  instances : ∀ id inst, repo.instances.get? id = some inst → repo'.instances.get? id = some inst
  executions : ∀ id row, repo.executions.get? id = some row → ∃ row',
    repo'.executions.get? id = some row' ∧ row'.jobInstanceId = row.jobInstanceId ∧
      row'.params = row.params
  steps : ∀ id step, repo.stepExecutions.get? id = some step → ∃ step',
    repo'.stepExecutions.get? id = some step' ∧ step'.jobExecutionId = step.jobExecutionId ∧
      step'.stepName = step.stepName

variable {repo repo' repo'' : InMemoryJobRepository}

theorem consistent_new (idGen : IdGenerator) : (new idGen).Consistent where
  instanceOwn _ _ h := by cases h
  instanceIssued _ _ h := by cases h
  byKey _ _ h := by cases h
  executionOwn := executionsFiled_new idGen
  executionIssued _ _ h := by cases h
  executionOf _ _ h := by cases h
  steps := (filed_new idGen "").steps
  stepOf _ _ h := by cases h

theorem Extends.refl (repo : InMemoryJobRepository) : repo.Extends repo where
  instances _ _ h := h
  executions _ row h := ⟨row, h, rfl, rfl⟩
  steps _ step h := ⟨step, h, rfl, rfl⟩

theorem Extends.trans (h : repo.Extends repo') (h' : repo'.Extends repo'') :
    repo.Extends repo'' where
  instances id inst hget := h'.instances id inst (h.instances id inst hget)
  executions id row hget := by
    obtain ⟨row', hget', hinst, hparams⟩ := h.executions id row hget
    obtain ⟨row'', hget'', hinst', hparams'⟩ := h'.executions id row' hget'
    exact ⟨row'', hget'', hinst'.trans hinst, hparams'.trans hparams⟩
  steps id step hget := by
    obtain ⟨step', hget', hexecution, hname⟩ := h.steps id step hget
    obtain ⟨step'', hget'', hexecution', hname'⟩ := h'.steps id step' hget'
    exact ⟨step'', hget'', hexecution'.trans hexecution, hname'.trans hname⟩

/-- What is on file is the same, up to contexts and ids issued. -/
theorem Extends.of_same (hinstances : repo'.instances = repo.instances)
    (hexecutions : repo'.executions = repo.executions)
    (hsteps : repo'.stepExecutions = repo.stepExecutions) : repo.Extends repo' where
  instances _ _ hget := hinstances ▸ hget
  executions _ row hget := ⟨row, hexecutions ▸ hget, rfl, rfl⟩
  steps _ step hget := ⟨step, hsteps ▸ hget, rfl, rfl⟩

/-- A repository with the same tables and no fewer ids issued stays consistent. -/
theorem Consistent.of_same (h : repo.Consistent) (hidGen : repo'.idGen = repo.idGen)
    (hissued : repo.issued ≤ repo'.issued) (hinstances : repo'.instances = repo.instances)
    (hbyKey : repo'.instancesByKey = repo.instancesByKey)
    (hexecutions : repo'.executions = repo.executions)
    (hsteps : repo'.stepExecutions = repo.stepExecutions) : repo'.Consistent where
  instanceOwn := by
    rw [hinstances]
    exact h.instanceOwn
  instanceIssued id inst hget := by
    rw [hinstances] at hget
    obtain ⟨n, hn, hid⟩ := h.instanceIssued id inst hget
    exact ⟨n, Nat.lt_of_lt_of_le hn hissued, hidGen ▸ hid⟩
  byKey := by
    rw [hbyKey, hinstances]
    exact h.byKey
  executionOwn := by
    unfold ExecutionsFiled
    rw [hexecutions]
    exact h.executionOwn
  executionIssued id row hget := by
    rw [hexecutions] at hget
    obtain ⟨n, hn, hid⟩ := h.executionIssued id row hget
    exact ⟨n, Nat.lt_of_lt_of_le hn hissued, hidGen ▸ hid⟩
  executionOf := by
    rw [hexecutions, hinstances]
    exact h.executionOf
  steps := h.steps.of_issued hidGen hissued hsteps
  stepOf := by
    rw [hsteps, hexecutions]
    exact h.stepOf

/-- An id that has been issued is not the next one. -/
theorem ne_nextId {id : String} (h : ∃ n < repo.issued, id = repo.idGen.next n) :
    id ≠ repo.nextId := by
  obtain ⟨n, hn, rfl⟩ := h
  intro heq
  have hsame : n = repo.issued := repo.idGen.unique heq
  omega

/-! ### Launches -/

section Launch

variable {now : Time} {name jobKey : String} {params : JobParameters}

/-- Getting or creating an instance keeps the repository consistent and extends it. -/
theorem Consistent.getOrCreate (h : repo.Consistent) (now : Time) (name jobKey : String) :
    (repo.getOrCreateJobInstance now name jobKey).2.Consistent ∧
      repo.Extends (repo.getOrCreateJobInstance now name jobKey).2 := by
  unfold getOrCreateJobInstance
  cases hget : repo.instancesByKey.get? (instanceKey name jobKey) with
  | some inst => exact ⟨h, .refl repo⟩
  | none =>
      have hfresh : ∀ id inst, repo.instances.get? id = some inst → id ≠ repo.nextId :=
        fun id inst hinst => ne_nextId (h.instanceIssued id inst hinst)
      refine ⟨?_, ?_, fun id row hrow => ⟨row, hrow, rfl, rfl⟩,
        fun id step hstep => ⟨step, hstep, rfl, rfl⟩⟩
      · constructor
        · intro id inst hinst
          simp only [JsMap.get?_set] at hinst
          split at hinst
          · next hid =>
              cases hinst
              exact hid.symm
          · exact h.instanceOwn id inst hinst
        · intro id inst hinst
          simp only [JsMap.get?_set] at hinst
          split at hinst
          · next hid => exact ⟨repo.issued, Nat.lt_succ_self _, hid⟩
          · obtain ⟨n, hn, hid⟩ := h.instanceIssued id inst hinst
            exact ⟨n, Nat.lt_succ_of_lt hn, hid⟩
        · intro key inst hinst
          simp only [JsMap.get?_set] at hinst ⊢
          split at hinst
          · next hkey =>
              cases hinst
              exact ⟨if_pos rfl, hkey⟩
          · obtain ⟨hfiled, hkey⟩ := h.byKey key inst hinst
            exact ⟨(if_neg (hfresh _ _ hfiled)).trans hfiled, hkey⟩
        · exact h.executionOwn
        · intro id row hrow
          obtain ⟨n, hn, hid⟩ := h.executionIssued id row hrow
          exact ⟨n, Nat.lt_succ_of_lt hn, hid⟩
        · intro id row hrow
          obtain ⟨inst, hinst⟩ := h.executionOf id row hrow
          exact ⟨inst, (JsMap.get?_set_of_ne _ _ (hfresh _ _ hinst)).trans hinst⟩
        · exact h.steps.of_issued rfl (Nat.le_succ _) rfl
        · exact h.stepOf
      · intro id inst hinst
        exact (JsMap.get?_set_of_ne _ _ (hfresh id inst hinst)).trans hinst

/-- The instance of a launch is on file. -/
theorem Consistent.getOrCreate_filed (h : repo.Consistent) (now : Time) (name jobKey : String) :
    let created := repo.getOrCreateJobInstance now name jobKey
    created.2.instances.get? created.1.id = some created.1 :=
  ((h.getOrCreate now name jobKey).1.byKey _ _
    (repo.getOrCreateJobInstance_filed now name jobKey)).1

/-- A new execution of an instance on file. -/
theorem Consistent.create (h : repo.Consistent) {inst : JobInstance}
    (hinst : repo.instances.get? inst.id = some inst) (params : JobParameters) :
    (repo.createJobExecution inst.id params).2.Consistent ∧
      repo.Extends (repo.createJobExecution inst.id params).2 := by
  have hfresh : ∀ id row, repo.executions.get? id = some row → id ≠ repo.nextId :=
    fun id row hrow => ne_nextId (h.executionIssued id row hrow)
  have hkept : ∀ id row, repo.executions.get? id = some row →
      (repo.createJobExecution inst.id params).2.executions.get? id = some row :=
    fun id row hrow => (JsMap.get?_set_of_ne _ _ (hfresh id row hrow)).trans hrow
  refine ⟨?_, fun _ _ hget => hget, fun id row hrow => ⟨row, hkept id row hrow, rfl, rfl⟩,
    fun id step hstep => ⟨step, hstep, rfl, rfl⟩⟩
  constructor
  · exact h.instanceOwn
  · intro id other hget
    obtain ⟨n, hn, hid⟩ := h.instanceIssued id other hget
    exact ⟨n, Nat.lt_succ_of_lt hn, hid⟩
  · exact h.byKey
  · intro id row hrow
    simp only [createJobExecution, JsMap.get?_set] at hrow
    split at hrow
    · next hid =>
        cases hrow
        exact hid.symm
    · exact h.executionOwn id row hrow
  · intro id row hrow
    simp only [createJobExecution, JsMap.get?_set] at hrow
    split at hrow
    · next hid => exact ⟨repo.issued, Nat.lt_succ_self _, hid⟩
    · obtain ⟨n, hn, hid⟩ := h.executionIssued id row hrow
      exact ⟨n, Nat.lt_succ_of_lt hn, hid⟩
  · intro id row hrow
    simp only [createJobExecution, JsMap.get?_set] at hrow
    split at hrow
    · cases hrow
      exact ⟨inst, hinst⟩
    · exact h.executionOf id row hrow
  · exact h.steps.of_issued rfl (Nat.le_succ _) rfl
  · intro id step hstep
    obtain ⟨row, hrow⟩ := h.stepOf id step hstep
    exact ⟨row, hkept _ row hrow⟩

/-- Creating an execution keeps the repository consistent and extends it. -/
theorem Consistent.createExecution (h : repo.Consistent) (now : Time) (name jobKey : String)
    (params : JobParameters) :
    (repo.createExecutionAtomic now name jobKey params).2.Consistent ∧
      repo.Extends (repo.createExecutionAtomic now name jobKey params).2 := by
  obtain ⟨hcreated, hextends⟩ := h.getOrCreate now name jobKey
  have hinst := h.getOrCreate_filed now name jobKey
  unfold createExecutionAtomic
  dsimp only
  split
  · exact ⟨hcreated, hextends⟩
  · obtain ⟨hconsistent, hmore⟩ := hcreated.create hinst params
    exact ⟨hconsistent, hextends.trans hmore⟩

end Launch

/-! ### Patches and steps -/

/-- Updating an execution keeps the repository consistent and extends it. -/
theorem Consistent.updateExecution (h : repo.Consistent) (e : String)
    (patch : JobExecutionPatch) :
    (repo.updateJobExecution e patch).2.Consistent ∧
      repo.Extends (repo.updateJobExecution e patch).2 := by
  have hown := h.executionOwn.update e patch
  unfold updateJobExecution at hown ⊢
  cases hcur : repo.executions.get? e with
  | none => exact ⟨h, .refl repo⟩
  | some cur =>
      rw [hcur] at hown
      have hkept : ∀ id row, repo.executions.get? id = some row → ∃ row',
          (repo.executions.set e (patch.applyTo cur)).get? id = some row' ∧
            row'.jobInstanceId = row.jobInstanceId ∧ row'.params = row.params := by
        intro id row hrow
        rw [JsMap.get?_set]
        split
        · next hid =>
            subst hid
            cases hcur.symm.trans hrow
            exact ⟨_, rfl, rfl, rfl⟩
        · exact ⟨row, hrow, rfl, rfl⟩
      refine ⟨?_, fun _ _ hget => hget, hkept, fun id step hstep => ⟨step, hstep, rfl, rfl⟩⟩
      constructor
      · exact h.instanceOwn
      · exact h.instanceIssued
      · exact h.byKey
      · exact hown
      · intro id row hrow
        simp only [JsMap.get?_set] at hrow
        split at hrow
        · next hid => exact hid ▸ h.executionIssued e cur hcur
        · exact h.executionIssued id row hrow
      · intro id row hrow
        simp only [JsMap.get?_set] at hrow
        split at hrow
        · cases hrow
          exact h.executionOf e cur hcur
        · exact h.executionOf id row hrow
      · exact h.steps.of_issued rfl (Nat.le_refl _) rfl
      · intro id step hstep
        obtain ⟨row, hrow⟩ := h.stepOf id step hstep
        obtain ⟨row', hrow', -⟩ := hkept _ row hrow
        exact ⟨row', hrow'⟩

/-- A new step execution of an execution on file. -/
theorem Consistent.createStep (h : repo.Consistent) {e : String} {row : JobExecution}
    (hrow : repo.executions.get? e = some row) (name : String) :
    (repo.createStepExecution e name).2.Consistent ∧
      repo.Extends (repo.createStepExecution e name).2 := by
  have hsteps := h.steps.create e name
  refine ⟨?_, fun _ _ hget => hget, fun id other hget => ⟨other, hget, rfl, rfl⟩, ?_⟩
  · constructor
    · exact h.instanceOwn
    · intro id inst hget
      obtain ⟨n, hn, hid⟩ := h.instanceIssued id inst hget
      exact ⟨n, Nat.lt_succ_of_lt hn, hid⟩
    · exact h.byKey
    · exact h.executionOwn
    · intro id other hget
      obtain ⟨n, hn, hid⟩ := h.executionIssued id other hget
      exact ⟨n, Nat.lt_succ_of_lt hn, hid⟩
    · exact h.executionOf
    · exact hsteps
    · intro id step hget
      simp only [createStepExecution, JsMap.get?_set] at hget
      split at hget
      · cases hget
        exact ⟨row, hrow⟩
      · exact h.stepOf id step hget
  · intro id step hget
    have hne : id ≠ repo.nextId := ne_nextId (h.steps.issued id step hget)
    exact ⟨step, (JsMap.get?_set_of_ne _ _ hne).trans hget, rfl, rfl⟩

/-- Updating a step execution keeps the repository consistent and extends it. -/
theorem Consistent.updateStep (h : repo.Consistent) (stepExecutionId : String)
    (patch : StepExecutionPatch) :
    (repo.updateStepExecution stepExecutionId patch).2.Consistent ∧
      repo.Extends (repo.updateStepExecution stepExecutionId patch).2 := by
  have hsteps := h.steps.update stepExecutionId patch
  unfold updateStepExecution at hsteps ⊢
  cases hcur : repo.stepExecutions.get? stepExecutionId with
  | none => exact ⟨h, .refl repo⟩
  | some cur =>
      rw [hcur] at hsteps
      refine ⟨?_, fun _ _ hget => hget, fun id row hrow => ⟨row, hrow, rfl, rfl⟩, ?_⟩
      · constructor
        · exact h.instanceOwn
        · exact h.instanceIssued
        · exact h.byKey
        · exact h.executionOwn
        · exact h.executionIssued
        · exact h.executionOf
        · exact hsteps
        · intro id step hget
          simp only [JsMap.get?_set] at hget
          split at hget
          · cases hget
            exact h.stepOf _ cur hcur
          · exact h.stepOf id step hget
      · intro id step hget
        rw [JsMap.get?_set]
        split
        · next hid =>
            subst hid
            cases hcur.symm.trans hget
            exact ⟨_, rfl, rfl, rfl⟩
        · exact ⟨step, hget, rfl, rfl⟩

end InMemoryJobRepository

/-- **What the operations do to the repository**: they add to it, and leave it consistent, as long
as steps are created for executions on file. -/
theorem handle_consistent (env : Environment α υ) {o : Op α} {w : World υ}
    (h : w.repo.Consistent)
    (hstep : ∀ e name, o = .createStepExecution e name →
      ∃ row, w.repo.executions.get? e = some row) :
    (handle env o w).2.repo.Consistent ∧ w.repo.Extends (handle env o w).2.repo := by
  cases o with
  | createExecutionAtomic name jobKey params => exact h.createExecution w.clock name jobKey params
  | updateJobExecution e patch => exact h.updateExecution e patch
  | createStepExecution e name =>
      obtain ⟨row, hrow⟩ := hstep e name rfl
      exact h.createStep hrow name
  | updateStepExecution id patch => exact h.updateStep id patch
  | user call =>
      have hkind : (Op.user call).kind ∉ rowKinds := by
        cases call <;> simp [rowKinds, Op.kind, UserCall.kind]
      have hrows := handle_sameRows env hkind w
      have hkey : (Op.user call).launchKey = none := rfl
      have hkeys := handle_sameKeys env hkey w
      exact ⟨h.of_same hrows.idGen hkeys.issued hrows.instances hkeys.instancesByKey
        hrows.executions hrows.stepExecutions,
        .of_same hrows.instances hrows.executions hrows.stepExecutions⟩
  | enqueue payload =>
      simp only [handle]
      split
      · exact ⟨h, .refl _⟩
      · exact ⟨h, .refl _⟩
  | saveExecutionContext scope ctx =>
      exact ⟨h.of_same rfl (Nat.le_refl _) rfl rfl rfl rfl, .of_same rfl rfl rfl⟩
  | _ => exact ⟨h, .refl _⟩

end NestBatch
