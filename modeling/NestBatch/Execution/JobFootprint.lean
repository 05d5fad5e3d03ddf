import NestBatch.Execution.StepFootprint

/-!
# The footprint of a run

A run of the job executor creates no execution row and enqueues nothing; all it
does beyond its steps is to look, to create and update step rows, and to write
the status of its execution.
-/

namespace NestBatch

open ListenerInvoker

variable {α β : Type}

/-- The kinds of operation a run performs for one step. -/
def stepRunKinds : List OpKind :=
  stepKinds ++ [.clock, .emit, .createStep, .updateStep, .findLatestStep]

/-- The kinds of operation that are performed for a step execution once it is created. -/
def createdKinds : List OpKind := stepKinds ++ [.clock, .emit, .updateStep]

/-- The kinds of operation a run performs. -/
def runKinds : List OpKind :=
  stepKinds ++ [.clock, .emit, .updateJob, .createStep, .updateStep, .findLatestStep, .getJob,
    .decide]

theorem uses_of_stepRunKinds {p : Code α β} (hp : p.Uses (Looping stepRunKinds)) :
    p.Uses (Looping runKinds) :=
  hp.mono (On.mono (by decide))

namespace JobExecutor.Run

variable (R : Run)

/-- Looking for an earlier execution of a step only reads. -/
theorem uses_restartStepContext {K : List OpKind} {loops : Prop} (hfind : .findLatestStep ∈ K)
    (hload : .loadContext ∈ K) (step : StepDefinition) :
    (R.restartStepContext step : Code α (Option ExecutionContext)).Uses (On K loops) := by
  refine .ite (fun _ => ?_) fun _ => trivial
  refine (uses_request hfind).bind fun prior => ?_
  cases prior with
  | none => trivial
  | some prior =>
      exact .ite (fun _ => (uses_request hload).bind fun _ => trivial) fun _ => trivial

/-- Looking for an earlier execution of a step does not throw. -/
theorem returns_restartStepContext (step : StepDefinition) :
    (R.restartStepContext step : Code α (Option ExecutionContext)).Returns fun _ => True := by
  unfold restartStepContext
  split
  · intro prior
    cases prior with
    | none => trivial
    | some prior =>
        change (if prior.status = .FAILED then _ else _ : Code α _).Returns _
        split
        · exact fun _ => trivial
        · trivial
  · trivial

/-- Copying a context only saves. -/
theorem uses_copyContext {K : List OpKind} {loops : Prop} (hsave : .saveContext ∈ K)
    (stepExecution : StepExecution) (ctx : Option ExecutionContext) :
    (copyContext stepExecution ctx : Code α Unit).Uses (On K loops) := by
  cases ctx with
  | none => trivial
  | some ctx => exact uses_request hsave

/-- Copying a context does not throw. -/
theorem returns_copyContext (stepExecution : StepExecution) (ctx : Option ExecutionContext) :
    (copyContext stepExecution ctx : Code α Unit).Returns fun _ => True := by
  cases ctx with
  | none => trivial
  | some ctx => exact fun _ => trivial

/-- Handing a step to its executor performs what steps do. -/
theorem uses_dispatch (fuel : Nat) (step : StepDefinition) (stepExecution : StepExecution)
    (resume : Option Int) :
    (R.dispatch fuel step stepExecution resume : Code α StepResult).Uses (Looping stepKinds) := by
  cases step with
  | tasklet step => exact TaskletStepExecutor.uses_execute _ _
  | chunk step => exact ChunkStepExecutor.uses_execute _ _ _
  | inherited => exact ChunkStepExecutor.uses_execute _ _ _

/-- Running a step that was created performs what steps do, and writes its row. -/
theorem uses_runCreated (fuel : Nat) (step : StepDefinition) (stepExecution : StepExecution)
    (resume : Option Int) :
    (R.runCreated fuel step stepExecution resume : Code α StepResult).Uses
      (Looping createdKinds) := by
  have hclock : (now : Code α Time).Uses (Looping createdKinds) := uses_now (by decide)
  refine hclock.bind fun _ => (uses_emit (by decide) _).bind fun _ => ?_
  refine Prog.Uses.bind ?_ fun result => ?_
  · have hdispatch := R.uses_dispatch (α := α) fuel step stepExecution resume
    refine (hdispatch.mono (On.mono fun _ h => List.mem_append_left _ h)).tryCatch fun err => ?_
    exact (Prog.uses_ofExcept _).bind fun _ => hclock.bind fun _ =>
      (uses_updateStepExecution (by decide) _ _).bind fun _ => trivial
  · refine hclock.bind fun _ => (uses_updateStepExecution (by decide) _ _).bind fun _ => ?_
    exact hclock.bind fun _ => (uses_emit (by decide) _).bind fun _ => trivial

/-- Running a step leaves the rows of executions alone. -/
theorem uses_runStep (fuel : Nat) (step : StepDefinition) :
    (R.runStep fuel step : Code α (StepExecution × StepResult)).Uses (Looping stepRunKinds) := by
  have hcreate : OpKind.createStep ∈ stepRunKinds := by decide
  refine (R.uses_restartStepContext (by decide) (by decide) step).bind fun ctx => ?_
  refine (uses_request hcreate).bind fun se => (uses_copyContext (by decide) se ctx).bind
    fun _ => ?_
  have hrun := (R.uses_runCreated (α := α) fuel step se (ctx.bind readLastCheckpoint)).mono
    (On.mono (by decide : ∀ k ∈ createdKinds, k ∈ stepRunKinds))
  exact hrun.bind fun _ => trivial

/-- Failing a job looks at the clock and writes. -/
theorem uses_failJob {K : List OpKind} {loops : Prop} (hclock : .clock ∈ K)
    (hupdate : .updateJob ∈ K) (exitCode exitMessage : String) :
    (R.failJob exitCode exitMessage : Code α JobStatus).Uses (On K loops) :=
  (uses_now hclock).bind fun _ => (uses_updateJobExecution hupdate _ _).bind fun _ => trivial

/-- Completing a job looks at the clock and writes. -/
theorem uses_completeJob {K : List OpKind} {loops : Prop} (hclock : .clock ∈ K)
    (hupdate : .updateJob ∈ K) (finalStatus : JobStatus) :
    (R.completeJob finalStatus : Code α JobStatus).Uses (On K loops) := by
  refine .ite (fun _ => ?_) fun _ => trivial
  exact (uses_now hclock).bind fun _ => (uses_updateJobExecution hupdate _ _).bind fun _ => trivial

/-- The `catch` block quotes the error. -/
theorem onError_of_text {err : Thrown} {exitMessage : String} (h : err.text = .ok exitMessage) :
    (R.onError err : Code α JobStatus) = now >>= fun endTime =>
      updateJobExecution R.execution.id
        { status := some .FAILED, endTime := some (some endTime)
          exitMessage := some exitMessage } >>= fun _ => .pure .FAILED := by
  unfold onError
  rw [h]
  rfl

/-- One that it cannot quote leaves it. -/
theorem onError_of_textless {err textErr : Thrown} (h : err.text = .error textErr) :
    (R.onError err : Code α JobStatus) = now >>= fun _ => .throw textErr := by
  unfold onError
  rw [h]
  rfl

/-- The `catch` block looks at the clock and writes. -/
theorem uses_onError {K : List OpKind} {loops : Prop} (hclock : .clock ∈ K)
    (hupdate : .updateJob ∈ K) (err : Thrown) :
    (R.onError err : Code α JobStatus).Uses (On K loops) :=
  (uses_now hclock).bind fun _ => (Prog.uses_ofExcept _).bind fun _ =>
    (uses_updateJobExecution hupdate _ _).bind fun _ => trivial

/-- Asking a decider is one call. -/
theorem uses_resolveDecider {K : List OpKind} {loops : Prop} (hdecide : .decide ∈ K)
    (stepId : String) (ctx : DeciderContext) :
    (R.resolveDeciderExitStatus stepId ctx : Code α (Option String)).Uses (On K loops) := by
  unfold resolveDeciderExitStatus
  split
  · trivial
  · exact (uses_orThrow (uses_request hdecide)).bind fun _ => trivial

/-- What the step loop performs. -/
theorem uses_stepLoop (loopFuel fuel : Nat) (stepId : String) :
    (R.stepLoop loopFuel fuel stepId : Code α JobStatus).Uses (Looping runKinds) := by
  induction fuel generalizing stepId with
  | zero => trivial
  | succ fuel ih =>
      unfold stepLoop
      cases R.jobDef.step? stepId with
      | none => exact R.uses_failJob (by decide) (by decide) _ _
      | some step =>
          refine (uses_of_stepRunKinds (R.uses_runStep loopFuel step)).bind fun ran => ?_
          refine (R.uses_resolveDecider (by decide) stepId _).bind fun decider => ?_
          refine (Prog.uses_ofExcept _).bind fun next => ?_
          cases next with
          | goto next => exact ih next
          | finish => trivial
          | fail => exact R.uses_failJob (by decide) (by decide) _ _

/-- What a run performs in its `try` block. -/
theorem uses_drive (fuel : Nat) : (R.drive fuel : Code α JobStatus).Uses (Looping runKinds) := by
  refine Prog.Uses.tryCatch ((R.uses_stepLoop fuel fuel _).bind fun finalStatus => ?_) fun err => ?_
  · exact R.uses_completeJob (by decide) (by decide) finalStatus
  · exact R.uses_onError (by decide) (by decide) err

/-- What a whole run performs. -/
theorem uses_proceed (fuel : Nat) :
    (R.proceed fuel : Code α JobExecution).Uses (Looping runKinds) := by
  have hclock : (now : Code α Time).Uses (Looping runKinds) := uses_now (by decide)
  have hlisten : OpKind.listener ∈ runKinds := by decide
  have hget : OpKind.getJob ∈ runKinds := by decide
  have hbegin : (R.begin_ : Code α Unit).Uses (Looping runKinds) :=
    hclock.bind fun _ => (uses_updateJobExecution (by decide) _ _).bind fun _ =>
      hclock.bind fun _ => uses_emit (by decide) _
  have hfinish (finalStatus : JobStatus) :
      (R.finish finalStatus : Code α Unit).Uses (Looping runKinds) :=
    (uses_invokeMatching hlisten _ _ _).bind fun _ => hclock.bind fun _ => uses_emit (by decide) _
  refine hbegin.bind fun _ => (uses_invokeMatching hlisten _ _ _).bind fun _ => ?_
  refine (R.uses_drive fuel).bind fun finalStatus => (hfinish finalStatus).bind fun _ => ?_
  exact (uses_request hget).bind fun _ => trivial

end JobExecutor.Run

/-- The job executor performs the operations of a run. -/
theorem JobExecutor.uses_execute (fuel : Nat) (execution : JobExecution) (jobDef : JobDefinition)
    (partition : PartitionArgs) :
    (execute fuel execution jobDef partition : Code α JobExecution).Uses (Looping runKinds) :=
  .ite (fun _ => trivial) fun _ => Run.uses_proceed _ fuel

end NestBatch
