import NestBatch.Repository.Integrity

/-!
# Executions that are under way

A launch is refused while an execution of its instance is STARTING or STARTED, and
the check and the new row are one step.  A status write is not checked at all: one
that marks an execution STARTED keeps the instance at one execution under way
exactly when no other one is.
-/

namespace NestBatch

namespace InMemoryJobRepository

/-- No instance has two executions that are STARTING or STARTED. -/
def OneActive (repo : InMemoryJobRepository) : Prop :=
  ∀ e e' row row', repo.executions.get? e = some row → repo.executions.get? e' = some row' →
    row.jobInstanceId = row'.jobInstanceId → row.status.blocksLaunch = true →
    row'.status.blocksLaunch = true → e = e'

/-- No other execution of its instance is STARTING or STARTED. -/
def Uncontested (e : String) (repo : InMemoryJobRepository) : Prop :=
  ∀ row, repo.executions.get? e = some row → ∀ e' row', e' ≠ e →
    repo.executions.get? e' = some row' → row'.jobInstanceId = row.jobInstanceId →
    row'.status.blocksLaunch = false

variable {repo repo' : InMemoryJobRepository} {e : String} {patch : JobExecutionPatch}

theorem oneActive_new (idGen : IdGenerator) : (new idGen).OneActive := by
  intro e e' row row' hrow
  cases hrow

/-- The same executions have as few active ones. -/
theorem OneActive.of_same (h : repo.OneActive) (hsame : repo'.executions = repo.executions) :
    repo'.OneActive := by
  unfold OneActive
  rw [hsame]
  exact h

/-- The one active execution is uncontested. -/
theorem OneActive.uncontested (h : repo.OneActive) {row : JobExecution}
    (hrow : repo.executions.get? e = some row) (hactive : row.status.blocksLaunch = true) :
    repo.Uncontested e := by
  intro row₁ hrow₁ e' row' hne hrow' hinst
  cases hrow.symm.trans hrow₁
  by_contra hblocks
  exact hne (h e' e row' row hrow' hrow hinst (Bool.of_not_eq_false hblocks) hactive)

/-- **What a launch does to the rows**: nothing, or it files one new row, STARTING, of an instance
that has no execution under way. -/
theorem createExecutionAtomic_cases (repo : InMemoryJobRepository) (now : Time)
    (name jobKey : String) (params : JobParameters) :
    let created := repo.createExecutionAtomic now name jobKey params
    (∃ err, created.1 = .error err ∧ created.2.executions = repo.executions) ∨
    ∃ row, created.1 = .ok row ∧ row.status = .STARTING ∧
      created.2.executions = repo.executions.set row.id row ∧
      (∃ n, repo.issued ≤ n ∧ row.id = repo.idGen.next n) ∧
      ∀ e other, repo.executions.get? e = some other →
        other.jobInstanceId = row.jobInstanceId → other.status.blocksLaunch = false := by
  intro created
  have hframe := repo.getOrCreateJobInstance_frame now name jobKey
  have hids := repo.getOrCreateJobInstance_ids now name jobKey
  unfold created createExecutionAtomic
  dsimp only
  cases hrunning : (repo.getOrCreateJobInstance now name jobKey).2.getRunningJobExecution
      (repo.getOrCreateJobInstance now name jobKey).1.id with
  | some running => exact .inl ⟨_, rfl, hframe.1⟩
  | none =>
      refine .inr ⟨_, rfl, rfl, congrArg (JsMap.set · _ _) hframe.1,
        ⟨_, hids.2, congrArg (IdGenerator.next · _) hids.1⟩, ?_⟩
      intro e other hother hinst
      have hnone := List.find?_eq_none.mp hrunning other
      rw [hframe.1] at hnone
      have hblocks := hnone ((JsMap.mem_values_iff _ _).mpr ⟨e, hother⟩)
      rw [Bool.and_eq_true, decide_eq_true_iff, not_and] at hblocks
      exact Bool.eq_false_iff.mpr (hblocks hinst)

/-- A launch keeps every instance at one execution under way. -/
theorem OneActive.create (h : repo.OneActive) (now : Time) (name jobKey : String)
    (params : JobParameters) : (repo.createExecutionAtomic now name jobKey params).2.OneActive := by
  rcases repo.createExecutionAtomic_cases now name jobKey params with
    ⟨-, -, hsame⟩ | ⟨row, -, -, hset, -, hfree⟩
  · exact h.of_same hsame
  · intro e₁ e₂ row₁ row₂ hrow₁ hrow₂ hinst hactive₁ hactive₂
    rw [hset, JsMap.get?_set] at hrow₁ hrow₂
    split at hrow₁
    · next heq₁ =>
        cases hrow₁
        split at hrow₂
        · next heq₂ => exact heq₁.trans heq₂.symm
        · rw [hfree e₂ row₂ hrow₂ hinst.symm] at hactive₂
          cases hactive₂
    · split at hrow₂
      · cases hrow₂
        rw [hfree e₁ row₁ hrow₁ hinst] at hactive₁
        cases hactive₁
      · exact h e₁ e₂ row₁ row₂ hrow₁ hrow₂ hinst hactive₁ hactive₂

/-- The rows after a status write. -/
theorem get?_updateJobExecution {row : JobExecution} (hrow : repo.executions.get? e = some row)
    (patch : JobExecutionPatch) (e' : String) :
    (repo.updateJobExecution e patch).2.executions.get? e' =
      if e' = e then some (patch.applyTo row) else repo.executions.get? e' := by
  unfold updateJobExecution
  rw [hrow]
  exact JsMap.get?_set _ _ _ _

/-- A write to an execution that is not on file does nothing. -/
theorem updateJobExecution_none (hrow : repo.executions.get? e = none)
    (patch : JobExecutionPatch) : (repo.updateJobExecution e patch).2 = repo := by
  unfold updateJobExecution
  rw [hrow]

/-- A patch with a status sets it. -/
theorem applyTo_status {row : JobExecution} {status : JobStatus}
    (hpatch : patch.status = some status) : (patch.applyTo row).status = status := by
  unfold JobExecutionPatch.applyTo
  rw [hpatch]
  rfl

/-- A status write that marks no execution as under way, unless no other one is. -/
theorem OneActive.update (h : repo.OneActive) {status : JobStatus}
    (hpatch : patch.status = some status)
    (hfree : status.blocksLaunch = true → repo.Uncontested e) :
    (repo.updateJobExecution e patch).2.OneActive := by
  cases hrow : repo.executions.get? e with
  | none =>
      rw [updateJobExecution_none hrow]
      exact h
  | some row =>
      intro e₁ e₂ row₁ row₂ hrow₁ hrow₂ hinst hactive₁ hactive₂
      rw [get?_updateJobExecution hrow] at hrow₁ hrow₂
      split at hrow₁
      · next heq₁ =>
          cases hrow₁
          rw [applyTo_status hpatch] at hactive₁
          split at hrow₂
          · next heq₂ => exact heq₁.trans heq₂.symm
          · next hne =>
              rw [hfree hactive₁ row hrow e₂ row₂ hne hrow₂ hinst.symm] at hactive₂
              cases hactive₂
      · next hne =>
          split at hrow₂
          · cases hrow₂
            rw [applyTo_status hpatch] at hactive₂
            rw [hfree hactive₂ row hrow e₁ row₁ hne hrow₁ hinst] at hactive₁
            cases hactive₁
          · exact h e₁ e₂ row₁ row₂ hrow₁ hrow₂ hinst hactive₁ hactive₂

/-- Where a mark has kept the instance at one execution under way, no other one was. -/
theorem uncontested_of_update {row : JobExecution} {status : JobStatus}
    (hrow : repo.executions.get? e = some row) (hpatch : patch.status = some status)
    (hactive : status.blocksLaunch = true) (h : (repo.updateJobExecution e patch).2.OneActive) :
    repo.Uncontested e := by
  intro row₁ hrow₁ e' row' hne hrow' hinst
  cases hrow.symm.trans hrow₁
  by_contra hblocks
  have hself := get?_updateJobExecution hrow patch e
  have hother := get?_updateJobExecution hrow patch e'
  rw [if_pos rfl] at hself
  rw [if_neg hne, hrow'] at hother
  have hnow : (patch.applyTo row).status.blocksLaunch = true := by
    rw [applyTo_status hpatch]
    exact hactive
  exact hne (h e' e row' _ hother hself hinst (Bool.of_not_eq_false hblocks) hnow)

end InMemoryJobRepository

end NestBatch
