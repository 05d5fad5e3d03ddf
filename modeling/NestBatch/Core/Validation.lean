import NestBatch.Execution.Policies

/-!
# Definition validation and the job registry

`DefinitionValidator.validate` answers whether a definition is structurally
sound; its checks run in a fixed order and the first violation is thrown.  The
walks over the transition graph visit every step at most once, so the number of
transitions bounds them.
-/

namespace NestBatch

namespace DefinitionValidator

/-- `Error.message` of a failed partition check, repeated under the step. -/
def invalidPartitions (stepId : String) (err : Thrown) : Thrown :=
  .InvalidFlowGraphError "INVALID_PARTITIONS"
    ("Step \"" ++ stepId ++ "\" has invalid partitions: " ++ err.message)

/-- The per-step rules: a positive chunk size and valid partitions. -/
def validateStep (stepId : String) : StepDefinition → Except Thrown Unit
  | .chunk step => do
      if step.chunkSize = 0 then
        throw (.InvalidFlowGraphError "INVALID_CHUNK_SIZE"
          ("Step \"" ++ stepId ++ "\" has invalid chunkSize " ++ toString step.chunkSize))
      (validatePartitions step.partitions).mapError (invalidPartitions stepId)
  | _ => .ok ()

/-- The endpoints of a transition exist. -/
def validateTransition (job : JobDefinition) (t : TransitionDefinition) : Except Thrown Unit := do
  if job.hasStep t.fromStepId = false then
    throw (.InvalidFlowGraphError "MISSING_TARGET"
      ("Transition fromStepId \"" ++ t.fromStepId ++ "\" not found in steps"))
  match t.toStepId with
  | none => .ok ()
  | some toStepId =>
      if job.hasStep toStepId = false then
        throw (.InvalidFlowGraphError "MISSING_TARGET"
          ("Transition toStepId \"" ++ toStepId ++ "\" not found in steps"))

/-- Every decider follows a step, and no step has two. -/
def validateDeciders (job : JobDefinition) :
    List DeciderDefinition → List String → Except Thrown Unit
  | [], _ => .ok ()
  | d :: rest, seen => do
      if job.hasStep d.afterStepId = false then
        throw (.InvalidFlowGraphError "MISSING_TARGET"
          ("Decider afterStepId \"" ++ d.afterStepId ++ "\" not found in steps"))
      if seen.contains d.afterStepId then
        throw (.InvalidFlowGraphError "DUPLICATE_DECIDER"
          ("Step \"" ++ d.afterStepId ++ "\" has multiple deciders"))
      validateDeciders job rest (d.afterStepId :: seen)

/-- The targets of the transitions that leave a step, END left out. -/
def targets (job : JobDefinition) (stepId : String) : List String :=
  job.transitions.filterMap fun t => if t.fromStepId = stepId then t.toStepId else none

/-- The queue loop of `collectReachable`.  A step is expanded once and puts at
most one entry per transition in the queue, so `job.transitions.length + 1`
turns empty it. -/
def collectReachableFrom (job : JobDefinition) : Nat → List String → List String → List String
  | 0, _, reachable => reachable
  | _ + 1, [], reachable => reachable
  | fuel + 1, cur :: queue, reachable =>
      if reachable.contains cur then collectReachableFrom job fuel queue reachable
      else
        let reachable := reachable ++ [cur]
        collectReachableFrom job fuel
          (queue ++ (targets job cur).filter fun t => !reachable.contains t) reachable

/-- The steps that the start reaches along the transitions. -/
def collectReachable (job : JobDefinition) : List String :=
  collectReachableFrom job (job.transitions.length + 1) [job.startStepId] []

/-- Steps visited and steps on the current path. -/
structure Search where
  visited : List String := []
  inStack : List String := []

/-- `detectCycle`.  The steps on the path differ, and all but the first are
targets of a transition, so a path is shorter than `job.transitions.length + 2`. -/
def detectCycle (job : JobDefinition) : Nat → List String → String → Search → Except Thrown Search
  | 0, _, _, search => .ok search
  | depth + 1, path, stepId, search =>
      if search.inStack.contains stepId then
        .error (.InvalidFlowGraphError "CYCLE_DETECTED"
          ("Cycle detected in job \"" ++ job.id ++ "\": " ++
            " -> ".intercalate (path ++ [stepId])))
      else if search.visited.contains stepId then .ok search
      else do
        let search ← (targets job stepId).foldlM
          (fun search target => detectCycle job depth (path ++ [stepId]) target search)
          { visited := stepId :: search.visited, inStack := stepId :: search.inStack }
        pure { search with inStack := search.inStack.erase stepId }

/-- Throws when a cycle is reached from the start. -/
def assertAcyclic (job : JobDefinition) : Except Thrown Unit := do
  let _ ← detectCycle job (job.transitions.length + 2) [] job.startStepId {}

/-- `validate`: the rules in the source's order, each with its own error code. -/
def validate (job : JobDefinition) : Except Thrown Unit := do
  if job.stepOrder = [] then
    throw (.InvalidFlowGraphError "EMPTY_JOB" ("Job \"" ++ job.id ++ "\" has no steps"))
  if job.hasStep job.startStepId = false then
    throw (.InvalidFlowGraphError "NO_START_STEP"
      ("Job \"" ++ job.id ++ "\" startStepId \"" ++ job.startStepId ++ "\" is not in steps"))
  job.steps.entries.forM fun e => validateStep e.1 e.2
  job.transitions.forM (validateTransition job)
  validateDeciders job job.deciders []
  job.stepOrder.forM fun stepId =>
    if (collectReachable job).contains stepId then .ok ()
    else .error (.InvalidFlowGraphError "UNREACHABLE_STEP"
      ("Step \"" ++ stepId ++ "\" is unreachable from startStepId \"" ++ job.startStepId ++ "\""))
  assertAcyclic job

/-! ### What a validated job can rely on -/

/-- Both parts of a sequence of checks pass. -/
theorem ok_of_bind {β γ : Type} {x : Except Thrown β} {f : β → Except Thrown γ} {c : γ}
    (h : (x >>= f) = .ok c) : ∃ b, x = .ok b ∧ f b = .ok c := by
  cases x with
  | error err => cases h
  | ok b => exact ⟨b, rfl, h⟩

/-- A check that throws under a condition passes where the condition fails. -/
theorem ok_of_guard {β : Type} {c : Prop} [Decidable c] {err : Thrown} {f : Unit → Except Thrown β}
    {b : β} (h : (if c then throw err >>= f else f ()) = .ok b) : ¬ c ∧ f () = .ok b := by
  by_cases hc : c
  · rw [if_pos hc] at h
    cases h
  · rw [if_neg hc] at h
    exact ⟨hc, h⟩

/-- A check that goes through a list and passes has passed every member. -/
theorem ok_of_forM {β : Type} {check : β → Except Thrown Unit} {xs : List β}
    (h : xs.forM check = .ok ()) : ∀ x ∈ xs, check x = .ok () := by
  induction xs with
  | nil =>
      intro x hx
      cases hx
  | cons first rest ih =>
      obtain ⟨u, hfirst, hrest⟩ := ok_of_bind (x := check first) (f := fun _ => rest.forM check) h
      intro x hx
      rcases List.mem_cons.mp hx with heq | hmem
      · rw [heq]
        exact hfirst
      · exact ih hrest x hmem

variable {job : JobDefinition}

/-- The target of a transition that passes is found with `in`. -/
theorem hasStep_of_validateTransition {t : TransitionDefinition} {stepId : String}
    (h : validateTransition job t = .ok ()) (ht : t.toStepId = some stepId) :
    job.hasStep stepId = true := by
  unfold validateTransition at h
  obtain ⟨-, h⟩ := ok_of_guard h
  rw [ht] at h
  dsimp only at h
  cases hstep : job.hasStep stepId with
  | true => rfl
  | false =>
      rw [if_pos hstep] at h
      cases h

/-- What a validated job starts with and goes to is found with `in`. -/
theorem hasStep_of_validate (h : validate job = .ok ()) :
    job.hasStep job.startStepId = true ∧
      ∀ t ∈ job.transitions, ∀ stepId, t.toStepId = some stepId → job.hasStep stepId = true := by
  unfold validate at h
  obtain ⟨-, h⟩ := ok_of_guard h
  obtain ⟨hstart, h⟩ := ok_of_guard h
  obtain ⟨u, -, h⟩ := ok_of_bind h
  obtain ⟨u, htransitions, -⟩ := ok_of_bind h
  refine ⟨eq_true_of_ne_false hstart, ?_⟩
  intro t ht stepId hto
  exact hasStep_of_validateTransition (ok_of_forM htransitions t ht) hto

/-- Every step of a validated job passes its check. -/
theorem validateStep_of_validate (h : validate job = .ok ()) {stepId : String}
    {step : StepDefinition} (hget : job.steps.get? stepId = some step) :
    validateStep stepId step = .ok () := by
  unfold validate at h
  obtain ⟨-, h⟩ := ok_of_guard h
  obtain ⟨-, h⟩ := ok_of_guard h
  obtain ⟨u, hsteps, -⟩ := ok_of_bind h
  exact ok_of_forM hsteps _ ((JsMap.get?_eq_some_iff _ _ _).mp hget)

/-- A chunk step that passes has a chunk size, and valid partitions. -/
theorem chunk_of_validateStep {stepId : String} {step : ChunkStepDefinition}
    (h : validateStep stepId (.chunk step) = .ok ()) :
    step.chunkSize ≠ 0 ∧ validatePartitions step.partitions = .ok () := by
  unfold validateStep at h
  obtain ⟨hsize, h⟩ := ok_of_guard h
  refine ⟨hsize, ?_⟩
  cases hpartitions : validatePartitions step.partitions with
  | ok u => rfl
  | error err =>
      rw [hpartitions] at h
      cases h

end DefinitionValidator

/-- The registered jobs: every one is valid and filed under its own id. -/
structure JobRegistry where
  definitions : JsMap String JobDefinition
  validated : ∀ jobId job, definitions.get? jobId = some job →
    job.id = jobId ∧ DefinitionValidator.validate job = .ok ()

namespace JobRegistry

/-- A registry without jobs. -/
def empty : JobRegistry :=
  { definitions := .empty, validated := by simp }

/-- Validate and file a definition; its id must be new. -/
def register (registry : JobRegistry) (job : JobDefinition) : Except Thrown JobRegistry :=
  if (registry.definitions.get? job.id).isSome then
    .error (.DuplicateJobDefinitionError job.id)
  else
    match h : DefinitionValidator.validate job with
    | .error err => .error err
    | .ok () =>
        .ok { definitions := registry.definitions.set job.id job
              validated := by
                intro jobId job' hget
                rw [JsMap.get?_set] at hget
                split at hget
                · next hid =>
                    cases hget
                    exact ⟨hid.symm, h⟩
                · exact registry.validated jobId job' hget }

/-- `get`: throws when there is no such job. -/
def get (registry : JobRegistry) (jobId : String) : Except Thrown JobDefinition :=
  match registry.definitions.get? jobId with
  | some job => .ok job
  | none => .error (.JobNotFoundError jobId)

/-- A job that is found was registered under its id, and is valid. -/
theorem get_eq_ok {registry : JobRegistry} {jobId : String} {job : JobDefinition}
    (h : registry.get jobId = .ok job) :
    job.id = jobId ∧ DefinitionValidator.validate job = .ok () := by
  unfold get at h
  split at h
  · next hget =>
      cases h
      exact registry.validated _ _ hget
  · cases h

/-- A lookup fails for a job that is not there. -/
theorem get_eq_error {registry : JobRegistry} {jobId : String} {err : Thrown}
    (h : registry.get jobId = .error err) : err = .JobNotFoundError jobId := by
  unfold get at h
  split at h
  · cases h
  · cases h
    rfl

/-- A registry that holds the job alone. -/
def only (job : JobDefinition) (h : DefinitionValidator.validate job = .ok ()) :
    JobRegistry where
  definitions := JsMap.empty.set job.id job
  validated := by
    intro jobId job' hget
    rw [JsMap.get?_set] at hget
    split at hget
    · next hid =>
        cases hget
        exact ⟨hid.symm, h⟩
    · cases hget

/-- The registry of one job finds no other. -/
theorem get_only {job job' : JobDefinition} (h : DefinitionValidator.validate job = .ok ())
    {jobId : String} (hget : (only job h).get jobId = .ok job') : job' = job := by
  unfold get at hget
  split at hget
  · next found hfound =>
      cases hget
      change (JsMap.empty.set job.id job).get? jobId = some _ at hfound
      rw [JsMap.get?_set] at hfound
      split at hfound
      · exact (Option.some.inj hfound).symm
      · cases hfound
  · cases hget

end JobRegistry

end NestBatch
