import NestBatch.Effects

/-!
# The executions under a key

An instance is filed under one key, and an execution names the instance it is of.
So the executions under a key are those a launch under that key has created, and
nothing else brings an execution under it.
-/

namespace NestBatch

variable {α υ : Type}

namespace InMemoryJobRepository

/-- Instances and executions name issued ids, and an instance is filed under one key. -/
structure KeysFiled (repo : InMemoryJobRepository) : Prop where
  instances : ∀ key inst, repo.instancesByKey.get? key = some inst →
    ∃ n < repo.issued, inst.id = repo.idGen.next n
  distinct : ∀ key key' inst inst', repo.instancesByKey.get? key = some inst →
    repo.instancesByKey.get? key' = some inst' → inst.id = inst'.id → key = key'
  rows : ∀ id row, repo.executions.get? id = some row →
    ∃ n < repo.issued, row.jobInstanceId = repo.idGen.next n

theorem keysFiled_new (idGen : IdGenerator) : (new idGen).KeysFiled where
  instances _ _ h := by cases h
  distinct _ _ _ _ h := by cases h
  rows _ _ h := by cases h

/-- The execution is of an instance that is filed under a key of `K`. -/
def ExecutionUnder (K : String → Prop) (repo : InMemoryJobRepository) (id : String) : Prop :=
  ∃ key inst row, K key ∧ repo.instancesByKey.get? key = some inst ∧
    repo.executions.get? id = some row ∧ row.jobInstanceId = inst.id

/-- The instances are the same, and an execution is of the instance it was of. -/
structure SameKeys (repo repo' : InMemoryJobRepository) : Prop where
  idGen : repo'.idGen = repo.idGen
  issued : repo.issued ≤ repo'.issued
  instancesByKey : repo'.instancesByKey = repo.instancesByKey
  rows : ∀ id row', repo'.executions.get? id = some row' →
    ∃ row, repo.executions.get? id = some row ∧ row'.jobInstanceId = row.jobInstanceId

variable {repo repo' : InMemoryJobRepository} {K : String → Prop} {id : String}

/-- Executions that are left alone are of the instances they were of. -/
theorem SameKeys.of_executions (hidGen : repo'.idGen = repo.idGen)
    (hissued : repo.issued ≤ repo'.issued)
    (hinstances : repo'.instancesByKey = repo.instancesByKey)
    (hexecutions : repo'.executions = repo.executions) : repo.SameKeys repo' where
  idGen := hidGen
  issued := hissued
  instancesByKey := hinstances
  rows _ row' hrow' := ⟨row', hexecutions ▸ hrow', rfl⟩

theorem SameKeys.refl (repo : InMemoryJobRepository) : repo.SameKeys repo :=
  .of_executions rfl (Nat.le_refl _) rfl rfl

theorem KeysFiled.same (h : repo.KeysFiled) (hsame : repo.SameKeys repo') : repo'.KeysFiled where
  instances key inst hget := by
    rw [hsame.instancesByKey] at hget
    obtain ⟨n, hn, hid⟩ := h.instances key inst hget
    rw [hsame.idGen]
    exact ⟨n, Nat.lt_of_lt_of_le hn hsame.issued, hid⟩
  distinct key key' inst inst' hget hget' := by
    rw [hsame.instancesByKey] at hget hget'
    exact h.distinct key key' inst inst' hget hget'
  rows id row' hrow' := by
    obtain ⟨row, hrow, hinst⟩ := hsame.rows id row' hrow'
    obtain ⟨n, hn, hid⟩ := h.rows id row hrow
    rw [hsame.idGen]
    exact ⟨n, Nat.lt_of_lt_of_le hn hsame.issued, hinst.trans hid⟩

theorem ExecutionUnder.same (h : repo'.ExecutionUnder K id) (hsame : repo.SameKeys repo') :
    repo.ExecutionUnder K id := by
  obtain ⟨key, inst, row', hkey, hget, hrow', hinst⟩ := h
  obtain ⟨row, hrow, hsameInst⟩ := hsame.rows id row' hrow'
  rw [hsame.instancesByKey] at hget
  exact ⟨key, inst, row, hkey, hget, hrow, hsameInst.symm.trans hinst⟩

/-! ### A launch -/

variable {now : Time} {name jobKey : String} {params : JobParameters}

/-- The instance of a launch is filed under its key. -/
theorem getOrCreateJobInstance_filed (repo : InMemoryJobRepository) (now : Time)
    (name jobKey : String) :
    (repo.getOrCreateJobInstance now name jobKey).2.instancesByKey.get? (instanceKey name jobKey) =
      some (repo.getOrCreateJobInstance now name jobKey).1 := by
  unfold getOrCreateJobInstance
  cases hget : repo.instancesByKey.get? (instanceKey name jobKey) with
  | some inst => exact hget
  | none => exact JsMap.get?_set_self _ _ _

/-- Getting or creating an instance files it under its key. -/
theorem KeysFiled.getOrCreate (h : repo.KeysFiled) (now : Time) (name jobKey : String) :
    (repo.getOrCreateJobInstance now name jobKey).2.KeysFiled := by
  unfold getOrCreateJobInstance
  cases hget : repo.instancesByKey.get? (instanceKey name jobKey) with
  | some inst => exact h
  | none =>
      -- the new instance is the only one with the new id
      have hfresh : ∀ key inst, repo.instancesByKey.get? key = some inst →
          inst.id ≠ repo.nextId := by
        intro key inst hinst hid
        obtain ⟨n, hn, hissued⟩ := h.instances key inst hinst
        have heq : n = repo.issued := repo.idGen.unique (hissued.symm.trans hid)
        omega
      constructor
      · intro key inst hinst
        simp only [JsMap.get?_set] at hinst
        split at hinst
        · cases hinst
          exact ⟨repo.issued, Nat.lt_succ_self _, rfl⟩
        · obtain ⟨n, hn, hid⟩ := h.instances key inst hinst
          exact ⟨n, Nat.lt_succ_of_lt hn, hid⟩
      · intro key key' inst inst' hinst hinst' hid
        simp only [JsMap.get?_set] at hinst hinst'
        split at hinst
        · next hkey =>
            split at hinst'
            · next hkey' => exact hkey.trans hkey'.symm
            · cases hinst
              exact absurd hid.symm (hfresh key' inst' hinst')
        · split at hinst'
          · cases hinst'
            exact absurd hid (hfresh key inst hinst)
          · exact h.distinct key key' inst inst' hinst hinst' hid
      · intro id row hrow
        obtain ⟨n, hn, hid⟩ := h.rows id row hrow
        exact ⟨n, Nat.lt_succ_of_lt hn, hid⟩

/-- An instance that is just created has no execution. -/
theorem ExecutionUnder.of_getOrCreate (hfiled : repo.KeysFiled)
    (h : (repo.getOrCreateJobInstance now name jobKey).2.ExecutionUnder K id) :
    repo.ExecutionUnder K id := by
  unfold getOrCreateJobInstance at h
  cases hget : repo.instancesByKey.get? (instanceKey name jobKey) with
  | some inst =>
      rw [hget] at h
      exact h
  | none =>
      rw [hget] at h
      obtain ⟨key, inst, row, hkey, hinst, hrow, hid⟩ := h
      simp only [JsMap.get?_set] at hinst
      split at hinst
      · cases hinst
        obtain ⟨n, hn, hissued⟩ := hfiled.rows id row hrow
        have heq : n = repo.issued := repo.idGen.unique (hissued.symm.trans hid)
        omega
      · exact ⟨key, inst, row, hkey, hinst, hrow, hid⟩

/-- Creating an execution keeps the keys filed. -/
theorem KeysFiled.createExecution (h : repo.KeysFiled) (now : Time) (name jobKey : String)
    (params : JobParameters) : (repo.createExecutionAtomic now name jobKey params).2.KeysFiled := by
  have hcreated := h.getOrCreate now name jobKey
  have hinstance := repo.getOrCreateJobInstance_filed now name jobKey
  unfold createExecutionAtomic
  cases hinst : repo.getOrCreateJobInstance now name jobKey with
  | mk inst repo' =>
      rw [hinst] at hcreated hinstance
      dsimp only
      cases repo'.getRunningJobExecution inst.id with
      | some exec => exact hcreated
      | none =>
          constructor
          · intro key other hget
            obtain ⟨n, hn, hid⟩ := hcreated.instances key other hget
            exact ⟨n, Nat.lt_succ_of_lt hn, hid⟩
          · exact hcreated.distinct
          · intro id row hrow
            simp only [createJobExecution, JsMap.get?_set] at hrow
            split at hrow
            · cases hrow
              obtain ⟨n, hn, hid⟩ := hcreated.instances _ inst hinstance
              exact ⟨n, Nat.lt_succ_of_lt hn, hid⟩
            · obtain ⟨n, hn, hid⟩ := hcreated.rows id row hrow
              exact ⟨n, Nat.lt_succ_of_lt hn, hid⟩

/-- **What a launch brings under a key**: the execution it creates, if the key is its own. -/
theorem ExecutionUnder.of_createExecution (hfiled : repo.KeysFiled)
    (h : (repo.createExecutionAtomic now name jobKey params).2.ExecutionUnder K id) :
    repo.ExecutionUnder K id ∨
      K (instanceKey name jobKey) ∧ ∃ execution,
        (repo.createExecutionAtomic now name jobKey params).1 = .ok execution ∧
          execution.id = id := by
  have hcreated := hfiled.getOrCreate now name jobKey
  have hinstance := repo.getOrCreateJobInstance_filed now name jobKey
  have hback : (repo.getOrCreateJobInstance now name jobKey).2.ExecutionUnder K id →
      repo.ExecutionUnder K id := ExecutionUnder.of_getOrCreate hfiled
  unfold createExecutionAtomic at h ⊢
  cases hinst : repo.getOrCreateJobInstance now name jobKey with
  | mk inst repo' =>
      rw [hinst] at h hcreated hinstance hback
      dsimp only at h ⊢
      cases hrunning : repo'.getRunningJobExecution inst.id with
      | some exec =>
          rw [hrunning] at h
          exact .inl (hback h)
      | none =>
          rw [hrunning] at h
          obtain ⟨key, other, row, hkey, hget, hrow, hid⟩ := h
          simp only [createJobExecution, JsMap.get?_set] at hrow
          split at hrow
          · next hnew =>
              cases hrow
              have hsame := hcreated.distinct _ _ _ _ hinstance hget hid
              exact .inr ⟨hsame ▸ hkey, _, rfl, hnew.symm⟩
          · exact .inl (hback ⟨key, other, row, hkey, hget, hrow, hid⟩)

/-- A launch files an instance under its own key only. -/
theorem createExecutionAtomic_other_key {key : String} (hkey : key ≠ instanceKey name jobKey) :
    (repo.createExecutionAtomic now name jobKey params).2.instancesByKey.get? key =
      repo.instancesByKey.get? key := by
  have hother : (repo.getOrCreateJobInstance now name jobKey).2.instancesByKey.get? key =
      repo.instancesByKey.get? key := by
    unfold getOrCreateJobInstance
    cases repo.instancesByKey.get? (instanceKey name jobKey) with
    | some inst => rfl
    | none => exact JsMap.get?_set_of_ne _ _ hkey
  unfold createExecutionAtomic
  cases hinst : repo.getOrCreateJobInstance now name jobKey with
  | mk inst repo' =>
      rw [hinst] at hother
      dsimp only
      cases repo'.getRunningJobExecution inst.id with
      | some exec => exact hother
      | none => exact hother

/-- A launch that is refused is refused for an execution under its key. -/
theorem createExecutionAtomic_refused (hfiled : repo.KeysFiled) {err : Thrown}
    (h : (repo.createExecutionAtomic now name jobKey params).1 = .error err) :
    err.name = .jobExecutionAlreadyRunning ∧ ∃ id row, repo.getJobExecution id = some row ∧
      row.status.blocksLaunch ∧ repo.ExecutionUnder (· = instanceKey name jobKey) id := by
  have hinstance := repo.getOrCreateJobInstance_filed now name jobKey
  have hframe := repo.getOrCreateJobInstance_frame now name jobKey
  have hback : ∀ id, (repo.getOrCreateJobInstance now name jobKey).2.ExecutionUnder
      (· = instanceKey name jobKey) id → repo.ExecutionUnder (· = instanceKey name jobKey) id :=
    fun id => ExecutionUnder.of_getOrCreate hfiled
  unfold createExecutionAtomic at h
  cases hinst : repo.getOrCreateJobInstance now name jobKey with
  | mk inst repo' =>
      rw [hinst] at h hinstance hframe hback
      dsimp only at h
      cases hrunning : repo'.getRunningJobExecution inst.id with
      | none =>
          rw [hrunning] at h
          cases h
      | some exec =>
          rw [hrunning] at h
          cases h
          have hfound := List.find?_some hrunning
          rw [Bool.and_eq_true, decide_eq_true_eq] at hfound
          obtain ⟨id, hid⟩ := (JsMap.mem_values_iff _ _).mp (List.mem_of_find?_eq_some hrunning)
          refine ⟨rfl, id, exec, ?_, hfound.2, ?_⟩
          · exact (congrArg (JsMap.get? · id) hframe.1).symm.trans hid
          · exact hback id ⟨_, inst, exec, rfl, hinstance, hid, hfound.1⟩

/-! ### The other operations -/

/-- Saves of contexts touch no instance and no execution's instance. -/
theorem sameKeys_saveAll (scope : ExecutionScope) (saves : List JsonValue)
    (repo : InMemoryJobRepository) : repo.SameKeys (World.saveAll repo scope saves) := by
  induction saves generalizing repo with
  | nil => exact .refl repo
  | cons data rest ih =>
      have hrest := ih (repo.saveExecutionContext scope { data := data, version := 0 })
      exact ⟨hrest.idGen, hrest.issued, hrest.instancesByKey, hrest.rows⟩

/-- A patch of an execution keeps its instance. -/
theorem sameKeys_updateJobExecution (repo : InMemoryJobRepository) (executionId : String)
    (patch : JobExecutionPatch) :
    repo.SameKeys (repo.updateJobExecution executionId patch).2 := by
  unfold updateJobExecution
  cases hcur : repo.executions.get? executionId with
  | none => exact .refl repo
  | some cur =>
      refine ⟨rfl, Nat.le_refl _, rfl, ?_⟩
      intro id row' hrow'
      simp only [JsMap.get?_set] at hrow'
      split at hrow'
      · next hid =>
          cases hrow'
          exact ⟨cur, hid ▸ hcur, rfl⟩
      · exact ⟨row', hrow', rfl⟩

/-- A patch of a step row touches no instance. -/
theorem sameKeys_updateStepExecution (repo : InMemoryJobRepository) (stepExecutionId : String)
    (patch : StepExecutionPatch) :
    repo.SameKeys (repo.updateStepExecution stepExecutionId patch).2 := by
  unfold updateStepExecution
  cases repo.stepExecutions.get? stepExecutionId with
  | none => exact .refl repo
  | some cur => exact .of_executions rfl (Nat.le_refl _) rfl rfl

end InMemoryJobRepository

/-- The key under which an operation may create an execution. -/
def Op.launchKey : Op α → Option String
  | .createExecutionAtomic name jobKey _ => some (InMemoryJobRepository.instanceKey name jobKey)
  | _ => none

/-- Only a launch brings an execution under a key. -/
theorem handle_sameKeys (env : Environment α υ) {o : Op α} (ho : o.launchKey = none) (w : World υ) :
    w.repo.SameKeys (handle env o w).2.repo := by
  cases o with
  | createExecutionAtomic => cases ho
  | updateJobExecution executionId patch =>
      exact InMemoryJobRepository.sameKeys_updateJobExecution w.repo executionId patch
  | createStepExecution => exact .of_executions rfl (Nat.le_succ _) rfl rfl
  | updateStepExecution stepExecutionId patch =>
      exact InMemoryJobRepository.sameKeys_updateStepExecution w.repo stepExecutionId patch
  | saveExecutionContext => exact .of_executions rfl (Nat.le_refl _) rfl rfl
  | user call =>
      change w.repo.SameKeys (handleUser env call w).2.repo
      unfold handleUser
      cases call.stepScope with
      | none => exact .refl _
      | some id => exact InMemoryJobRepository.sameKeys_saveAll _ _ _
  | enqueue payload =>
      simp only [handle]
      split
      · exact .refl _
      · exact .refl _
  | _ => exact .refl _

end NestBatch
