import NestBatch.Execution.StepLoopWalk

/-!
# Whose steps the step loop executes

`steps` is a plain object.  The validator asks with `in` whether a name is a step, and the
step loop reads the name as a property; both find what every object inherits under the
names of `Object.prototype`.  The step loop keeps to own entries exactly when the start
step and the targets of the transitions that can be taken are own entries.
-/

namespace NestBatch

open JobExecutor.Run

variable {α υ : Type}

/-- What the step loop decides on: the result of a step and the answer of its decider. -/
abbrev StepReport := StepResult × String

namespace JobDefinition

variable (jobDef : JobDefinition)

/-- `stepId` is an own entry of `steps`. -/
def Owns (stepId : String) : Prop := ∃ step, jobDef.steps.get? stepId = some step

/-- The names that the step loop looks up, as a walk. -/
def lookupWalk : Walk String StepReport where
  entry := some jobDef.startStepId
  move stepId report :=
    match jobDef.step? stepId with
    | none => none
    | some _ =>
        match nextStep jobDef stepId (jobDef.deciderStatus stepId report.2) report.1 with
        | .ok (.goto next) => some next
        | _ => none

/-- When its steps report so, the step loop finds every step it looks up, among the own
entries. -/
def FindsOwn (reports : Nat → StepReport) : Prop :=
  ∀ n stepId, jobDef.lookupWalk.visits reports n = some stepId →
    jobDef.step? stepId ≠ none ∧
      ∀ step, jobDef.step? stepId = some step → jobDef.steps.get? stepId = some step

/-- The target of the transition that a report makes the flow take. -/
def taken (stepId : String) (report : StepReport) : Except Thrown (Option (Option String)) :=
  transitionTarget jobDef stepId
    (flowExitStatus (jobDef.deciderStatus stepId report.2) report.1)
    (flowStatus report.1.status).value

/-- The start step and the targets of the transitions that can be taken, where the flow can
come, are own entries. -/
structure OwnTargets : Prop where
  start : jobDef.Owns jobDef.startStepId
  targets : ∀ stepId path report target, jobDef.lookupWalk.Path (stepId :: path) →
    jobDef.taken stepId report = .ok (some (some target)) → jobDef.Owns target

variable {jobDef} {stepId next : String} {report : StepReport}

/-- A step that is owned is found, and what is found is the owned entry. -/
theorem Owns.found (h : jobDef.Owns stepId) : jobDef.step? stepId ≠ none ∧
    ∀ step, jobDef.step? stepId = some step → jobDef.steps.get? stepId = some step := by
  obtain ⟨own, hown⟩ := h
  have hstep := step?_of_get? hown
  refine ⟨?_, fun step hfound => ?_⟩
  · rw [hstep]
    exact Option.some_ne_none own
  · rw [hstep] at hfound
    rw [hown, hfound]

/-- A step that is found among the own entries is owned. -/
theorem owns_of_found (hfound : jobDef.step? stepId ≠ none)
    (hown : ∀ step, jobDef.step? stepId = some step → jobDef.steps.get? stepId = some step) :
    jobDef.Owns stepId := by
  obtain ⟨step, hstep⟩ := Option.ne_none_iff_exists'.mp hfound
  exact ⟨step, hown step hstep⟩

/-- Every id of the declared order is owned. -/
theorem owns_of_mem (h : stepId ∈ jobDef.stepOrder) : jobDef.Owns stepId := by
  obtain ⟨entry, hmem, heq⟩ := List.mem_map.mp h
  refine ⟨entry.2, (JsMap.get?_eq_some_iff _ _ _).mpr ?_⟩
  rw [← heq]
  exact hmem

/-- A move is a decision of the step loop. -/
theorem nextStep_of_moves (h : jobDef.lookupWalk.Moves stepId next) : ∃ report : StepReport,
    nextStep jobDef stepId (jobDef.deciderStatus stepId report.2) report.1 = .ok (.goto next) := by
  obtain ⟨report, hreport⟩ := h
  unfold lookupWalk at hreport
  dsimp only at hreport
  split at hreport
  · cases hreport
  · split at hreport
    · next target hnext =>
        cases hreport
        exact ⟨report, hnext⟩
    · cases hreport

/-- Where the flow can come there are own entries. -/
theorem OwnTargets.owns (h : jobDef.OwnTargets) {path : List String}
    (hpath : jobDef.lookupWalk.Path (stepId :: path)) : jobDef.Owns stepId := by
  cases hpath with
  | entry hentry =>
      cases hentry
      exact h.start
  | step hpath hmove =>
      obtain ⟨report, hnext⟩ := nextStep_of_moves hmove
      rcases nextStep_goto hnext with htaken | hlinear
      · exact h.targets _ _ report _ hpath htaken
      · exact owns_of_mem (mem_of_linearNext hlinear)

/-- A step that is had is found. -/
theorem step?_ne_none (h : jobDef.hasStep stepId = true) : jobDef.step? stepId ≠ none := by
  unfold hasStep at h
  unfold step?
  cases hget : jobDef.steps.get? stepId with
  | some step => exact Option.some_ne_none step
  | none =>
      rw [hget, Option.isSome_none, Bool.false_or] at h
      dsimp only
      rw [if_pos h]
      exact Option.some_ne_none _

/-- A validated job finds every step it goes to, if only under an inherited name. -/
theorem found_of_validate (hvalid : DefinitionValidator.validate jobDef = .ok ())
    {path : List String} (hpath : jobDef.lookupWalk.Path (stepId :: path)) :
    jobDef.step? stepId ≠ none := by
  obtain ⟨hstart, htargets⟩ := DefinitionValidator.hasStep_of_validate hvalid
  cases hpath with
  | entry hentry =>
      cases hentry
      exact step?_ne_none hstart
  | step hpath hmove =>
      obtain ⟨report, hnext⟩ := nextStep_of_moves hmove
      rcases nextStep_goto hnext with htaken | hlinear
      · obtain ⟨t, ht, -, hto⟩ := transitionTarget_target htaken
        exact step?_ne_none (htargets t ht _ hto)
      · exact (owns_of_mem (mem_of_linearNext hlinear)).found.1

/-- **What the names come to**: the step loop keeps to own entries whatever its steps report
exactly when the start step and the targets that can be taken do. -/
theorem findsOwn_iff : (∀ reports, jobDef.FindsOwn reports) ↔ jobDef.OwnTargets := by
  have : Nonempty StepReport := ⟨StepOutcome.completed.result, ""⟩
  constructor
  · intro h
    have howns : ∀ stepId path, jobDef.lookupWalk.Path (stepId :: path) → jobDef.Owns stepId := by
      intro stepId path hpath
      obtain ⟨reports, hvisit⟩ := Walk.exists_visits_of_path hpath
      obtain ⟨hfound, hown⟩ := h reports _ stepId hvisit
      exact owns_of_found hfound hown
    refine ⟨howns _ [] (.entry rfl), ?_⟩
    intro stepId path report target hpath htaken
    obtain ⟨step, hstep⟩ := howns stepId path hpath
    apply howns target (stepId :: path)
    refine .step hpath ⟨report, ?_⟩
    have hnext : nextStep jobDef stepId (jobDef.deciderStatus stepId report.2) report.1 =
        .ok (.goto target) := by
      unfold taken at htaken
      unfold nextStep
      rw [htaken]
      rfl
    unfold lookupWalk
    dsimp only
    rw [step?_of_get? hstep, hnext]
  · intro h reports n stepId hvisit
    obtain ⟨path, hpath, -⟩ := Walk.path_of_visits hvisit
    exact (h.owns hpath).found

end JobDefinition

/-! ### Runs of the step loop -/

namespace JobExecutor.Run

variable (R : Run) {env : Environment α υ} {loopFuel fuel : Nat} {stepId : String} {w : World υ}

/-- The names that a run of the step loop looks up within its fuel. -/
def lookups (env : Environment α υ) (loopFuel : Nat) : Nat → String → World υ → List String
  | 0, _, _ => []
  | fuel + 1, stepId, w =>
      stepId :: match R.jobDef.step? stepId with
      | none => []
      | some step =>
          match (R.visit loopFuel stepId step : Code α _).run (handle env) w with
          | (.returned (.goto next, _), w') => lookups env loopFuel fuel next w'
          | _ => []

/-- A turn that goes on makes a move of the walk. -/
theorem lookup_of_visit {step : StepDefinition} {next : String} {result : StepResult}
    {w' : World υ} (hstep : R.jobDef.step? stepId = some step)
    (hturn : (R.visit loopFuel stepId step : Code α _).run (handle env) w =
      (.returned (.goto next, result), w')) : R.jobDef.lookupWalk.Moves stepId next := by
  cases hran : (R.runStep loopFuel step : Code α _).run (handle env) w with
  | mk out w₁ =>
      cases out with
      | threw err =>
          unfold visit at hturn
          rw [Prog.run_bind, hran] at hturn
          cases hturn
      | stuck =>
          unfold visit at hturn
          rw [Prog.run_bind, hran] at hturn
          cases hturn
      | returned ran =>
          obtain ⟨-, hdecides⟩ := R.visit_decides hran hturn
          obtain ⟨answer, hnext⟩ := hdecides _ _ rfl
          refine ⟨(ran.2, answer), ?_⟩
          unfold JobDefinition.lookupWalk
          dsimp only
          rw [hstep, hnext]

/-- What is looked up from a place on the walk is on the walk. -/
theorem path_lookups {path : List String} (hpath : R.jobDef.lookupWalk.Path (stepId :: path)) :
    ∀ found ∈ R.lookups env loopFuel fuel stepId w,
      ∃ path, R.jobDef.lookupWalk.Path (found :: path) := by
  induction fuel generalizing stepId w path with
  | zero =>
      intro found hfound
      cases hfound
  | succ fuel ih =>
      intro found hfound
      unfold lookups at hfound
      rcases List.mem_cons.mp hfound with heq | hlater
      · rw [heq]
        exact ⟨path, hpath⟩
      · cases hstep : R.jobDef.step? stepId with
        | none =>
            rw [hstep] at hlater
            cases hlater
        | some step =>
            rw [hstep] at hlater
            dsimp only at hlater
            split at hlater
            · next next result w' hturn =>
                exact ih (.step hpath (R.lookup_of_visit hstep hturn)) found hlater
            · cases hlater

end JobExecutor.Run

/-- Every run of the step loop finds every step it looks up, among the own entries. -/
def JobDefinition.RunsOwn (jobDef : JobDefinition) : Prop :=
  ∀ {α υ : Type} (env : Environment α υ) (R : JobExecutor.Run) (loopFuel fuel : Nat) (w : World υ),
    R.jobDef = jobDef → ∀ stepId ∈ R.lookups env loopFuel fuel jobDef.startStepId w,
      jobDef.step? stepId ≠ none ∧
        ∀ step, jobDef.step? stepId = some step → jobDef.steps.get? stepId = some step

/-- **When a job runs its own steps only**, whatever they report, and finds every step it goes
to: exactly when its start step and the targets of the transitions it can take are own entries
of `steps`, not names that every object inherits. -/
theorem runs_own_steps_iff (jobDef : JobDefinition) :
    ((∀ reports, jobDef.FindsOwn reports) ∧ jobDef.RunsOwn) ↔ jobDef.OwnTargets := by
  constructor
  · intro h
    exact JobDefinition.findsOwn_iff.mp h.1
  · intro h
    refine ⟨JobDefinition.findsOwn_iff.mpr h, ?_⟩
    intro α υ env R loopFuel fuel w hjob stepId hlookup
    subst hjob
    obtain ⟨path, hpath⟩ := R.path_lookups (.entry rfl) stepId hlookup
    exact (h.owns hpath).found

/-- A job that names no step of its own as the first. -/
def strayJob : JobDefinition where
  id := "stray"
  steps := JsMap.empty.set "load" (.tasklet
    { id := "load", tasklet := { kind := .BuilderLambda, fn := some 0 } })
  startStepId := "toString"
  transitions := [{ fromStepId := "toString", onStatus := "*", toStepId := some "load" }]
  restartable := true

/-- The validator accepts the job, and a run of it executes what `toString` finds: it files a
step execution for it, which fails, before the one of the only step there is. -/
theorem validated_job_runs_inherited :
    DefinitionValidator.validate strayJob = .ok () ∧
    (((JobLauncher.launch
        { registry := JobRegistry.only strayJob rfl, canonicalJobKey := fun _ => "key"
          strategy := none, fuel := 5 } "stray" []).run (handle (willing ([] : List Nat)))
        (.initial (unaryIds 'r') (unaryIds 'u') 0)).2.repo.stepExecutions.values.map
          fun step => (step.stepName, step.status)) =
      [("undefined", .FAILED), ("load", .COMPLETED)] ∧
    ¬ ((∀ reports, strayJob.FindsOwn reports) ∧ strayJob.RunsOwn) := by
  refine ⟨by decide +kernel, by decide +kernel, fun h => ?_⟩
  obtain ⟨step, hstart⟩ := (JobDefinition.findsOwn_iff.mp h.1).start
  cases hstart

end NestBatch
