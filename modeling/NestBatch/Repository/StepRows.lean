import NestBatch.Repository.InMemory

/-!
# The rows of step executions

A row is filed under its own id, and every id on file has been issued; so a new
row is filed under a new key, and is from then on the latest of its step.
-/

namespace NestBatch

namespace InMemoryJobRepository

/-- Step rows are filed under their own, issued ids. -/
structure StepsFiled (repo : InMemoryJobRepository) : Prop where
  own : ∀ id step, repo.stepExecutions.get? id = some step → step.id = id
  issued : ∀ id step, repo.stepExecutions.get? id = some step →
    ∃ n < repo.issued, id = repo.idGen.next n

variable {repo : InMemoryJobRepository}

/-- The next id is not on file. -/
theorem StepsFiled.fresh (h : repo.StepsFiled) : repo.stepExecutions.get? repo.nextId = none := by
  cases hget : repo.stepExecutions.get? repo.nextId with
  | none => rfl
  | some step =>
      obtain ⟨n, hn, hid⟩ := h.issued _ _ hget
      have heq : repo.issued = n := repo.idGen.unique hid
      omega

/-- A new row is filed under its own id. -/
theorem StepsFiled.create (h : repo.StepsFiled) (e name : String) :
    (repo.createStepExecution e name).2.StepsFiled where
  own id step hget := by
    simp only [createStepExecution, JsMap.get?_set] at hget
    split at hget
    · next hid =>
        cases hget
        exact hid.symm
    · exact h.own _ _ hget
  issued id step hget := by
    simp only [createStepExecution, JsMap.get?_set] at hget
    split at hget
    · next hid => exact ⟨repo.issued, Nat.lt_succ_self _, hid⟩
    · obtain ⟨n, hn, hid⟩ := h.issued _ _ hget
      exact ⟨n, Nat.lt_succ_of_lt hn, hid⟩

/-- An update leaves rows filed under their own ids. -/
theorem StepsFiled.update (h : repo.StepsFiled) (sid : String) (patch : StepExecutionPatch) :
    (repo.updateStepExecution sid patch).2.StepsFiled := by
  unfold updateStepExecution
  split
  · exact h
  · next cur hcur =>
      constructor
      · intro id step hget
        simp only [JsMap.get?_set] at hget
        split at hget
        · next hid =>
            cases hget
            exact (h.own sid cur hcur).trans hid.symm
        · exact h.own _ _ hget
      · intro id step hget
        simp only [JsMap.get?_set] at hget
        split at hget
        · next hid =>
            subst hid
            exact h.issued _ _ hcur
        · exact h.issued _ _ hget

/-- The rows of a step of an execution, oldest first. -/
def stepRows (repo : InMemoryJobRepository) (e name : String) : List StepExecution :=
  repo.stepExecutions.values.filter fun step => step.jobExecutionId = e && step.stepName = name

/-- The latest execution of a step is its last row. -/
theorem findLatestStepExecution_eq (repo : InMemoryJobRepository) (e name : String) :
    repo.findLatestStepExecution e name = (repo.stepRows e name).getLast? := rfl

/-- A new row of a step comes last among its rows, and is no row of another. -/
theorem stepRows_create (h : repo.StepsFiled) (e name e' name' : String) :
    (repo.createStepExecution e name).2.stepRows e' name' = repo.stepRows e' name' ++
      if e = e' ∧ name = name' then [newStepExecution repo.nextId e name] else [] := by
  have hentries := repo.stepExecutions.entries_set_of_none
    (newStepExecution repo.nextId e name) h.fresh
  have hvalues : (repo.createStepExecution e name).2.stepExecutions.values =
      repo.stepExecutions.values ++ [newStepExecution repo.nextId e name] := by
    change (repo.stepExecutions.set repo.nextId (newStepExecution repo.nextId e name)).values = _
    unfold JsMap.values
    rw [hentries, List.map_append]
    rfl
  unfold stepRows
  rw [hvalues, List.filter_append]
  congr 1
  rw [List.filter_singleton]
  by_cases hsame : e = e' ∧ name = name'
  · simp [newStepExecution, hsame.1, hsame.2]
  · have hfalse : (decide (e = e') && decide (name = name')) = false := by
      simpa only [Bool.and_eq_false_iff, decide_eq_false_iff_not, not_and_or] using hsame
    rw [if_neg hsame]
    change cond (decide (e = e') && decide (name = name')) _ _ = []
    rw [hfalse]
    rfl

/-- After its creation a row is the latest of its step. -/
theorem findLatest_create (h : repo.StepsFiled) (e name : String) :
    (repo.createStepExecution e name).2.findLatestStepExecution e name =
      some (newStepExecution repo.nextId e name) := by
  rw [findLatestStepExecution_eq, stepRows_create h, if_pos ⟨rfl, rfl⟩, List.getLast?_append]
  rfl

/-- An update changes one row in its place. -/
theorem stepRows_update (h : repo.StepsFiled) (sid : String) (patch : StepExecutionPatch)
    (e name : String) :
    (repo.updateStepExecution sid patch).2.stepRows e name =
      (repo.stepRows e name).map
        fun step => if step.id = sid then patch.applyTo step else step := by
  cases hget : repo.stepExecutions.get? sid with
  | none =>
      have hunchanged : (repo.updateStepExecution sid patch).2 = repo := by
        unfold updateStepExecution
        rw [hget]
      rw [hunchanged]
      refine (List.map_id _).symm.trans (List.map_congr_left fun step hstep => ?_)
      have hne : step.id ≠ sid := by
        intro hid
        obtain ⟨k, hk⟩ := (JsMap.mem_values_iff _ _).mp (List.mem_of_mem_filter hstep)
        have hkey : k = sid := (h.own k step hk).symm.trans hid
        rw [hkey, hget] at hk
        cases hk
      rw [if_neg hne]
      rfl
  | some cur =>
      have hentries := repo.stepExecutions.entries_set_of_some (k := sid) (patch.applyTo cur)
        (by rw [hget]; rfl)
      have hvalues : (repo.updateStepExecution sid patch).2.stepExecutions.values =
          repo.stepExecutions.values.map fun step =>
            if step.id = sid then patch.applyTo step else step := by
        unfold updateStepExecution JsMap.values
        rw [hget]
        dsimp only
        rw [hentries, List.map_map, List.map_map]
        refine List.map_congr_left fun entry hentry => ?_
        have hfiled := (JsMap.get?_eq_some_iff _ _ _).mpr hentry
        have hown := h.own _ _ hfiled
        by_cases hid : entry.1 = sid
        · have hcur : entry.2 = cur := by
            rw [hid, hget] at hfiled
            exact (Option.some.inj hfiled).symm
          have hcurId : cur.id = sid := hcur ▸ hown.trans hid
          simp [hid, hcur, hcurId]
        · simp [hid, hown]
      unfold stepRows
      rw [hvalues, List.filter_map]
      congr 1
      refine List.filter_congr fun step _ => ?_
      by_cases hid : step.id = sid
      · simp [hid, StepExecutionPatch.applyTo]
      · simp [hid]

/-- An update of the latest row of a step. -/
theorem findLatest_update (h : repo.StepsFiled) {e name : String} {step : StepExecution}
    (hlatest : repo.findLatestStepExecution e name = some step) (patch : StepExecutionPatch) :
    (repo.updateStepExecution step.id patch).2.findLatestStepExecution e name =
      some (patch.applyTo step) := by
  rw [findLatestStepExecution_eq] at hlatest ⊢
  rw [stepRows_update h, List.getLast?_map, hlatest]
  simp

/-- A row of a step is on file under its id. -/
theorem get?_of_mem_stepRows (h : repo.StepsFiled) {e name : String} {step : StepExecution}
    (hmem : step ∈ repo.stepRows e name) : repo.stepExecutions.get? step.id = some step := by
  obtain ⟨k, hk⟩ := (JsMap.mem_values_iff _ _).mp (List.mem_of_mem_filter hmem)
  rw [h.own k step hk]
  exact hk

/-- The latest row of a step is on file under its id. -/
theorem get?_of_findLatest (h : repo.StepsFiled) {e name : String} {step : StepExecution}
    (hlatest : repo.findLatestStepExecution e name = some step) :
    repo.stepExecutions.get? step.id = some step :=
  get?_of_mem_stepRows h (List.mem_of_getLast? hlatest)

end InMemoryJobRepository

end NestBatch
