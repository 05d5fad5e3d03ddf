import NestBatch.Execution.RunReports
import NestBatch.Execution.StepsSettled

/-!
# The steps that a run executes

What the executors of its steps and its deciders report leads a run through the graph of its job:
along the path of its reports.  The step executions that it creates are those of the steps on that
path, one for each time that the path comes to a step.
-/

namespace NestBatch

variable {α β υ : Type}

/-- The name of the step execution that an operation creates for the execution `e`. -/
def createdStep (e : String) : Op α → Option String
  | .createStepExecution id name => if id = e then some name else none
  | _ => none

/-- The steps that the calls have begun to execute, in order. -/
def stepsCreated (e : String) (calls : Calls α) : List String :=
  calls.filterMap fun c => createdStep e c.1

namespace JobDefinition

variable (jobDef : JobDefinition)

/-- The steps that the reports lead through from `stepId` on. -/
def path : String → List TurnReport → List String
  | _, [] => []
  | stepId, report :: rest =>
      match jobDef.step? stepId with
      | none => []
      | some step =>
          step.id ::
            match jobDef.turn stepId report with
            | .ok (.goto next) => path next rest
            | _ => []

variable {jobDef} {stepId : String} {step : StepDefinition} {report : TurnReport}

/-- The path goes on. -/
theorem path_goto (hstep : jobDef.step? stepId = some step) {next : String}
    (hnext : jobDef.turn stepId report = .ok (.goto next)) (rest : List TurnReport) :
    jobDef.path stepId (report :: rest) = step.id :: jobDef.path next rest := by
  simp only [path, hstep, hnext]

/-- The path ends. -/
theorem path_last (hstep : jobDef.step? stepId = some step)
    (hlast : ∀ next, jobDef.turn stepId report ≠ .ok (.goto next)) (rest : List TurnReport) :
    jobDef.path stepId (report :: rest) = [step.id] := by
  unfold path
  rw [hstep]
  dsimp only
  cases hturn : jobDef.turn stepId report with
  | error err => rfl
  | ok next =>
      cases next with
      | goto target => exact absurd hturn (hlast target)
      | finish => rfl
      | fail => rfl

end JobDefinition

section Logs

variable {e : String} {K : List OpKind} {calls : Calls α}

theorem createdStep_of_kind {o : Op α} (h : o.kind ≠ .createStep) : createdStep e o = none := by
  cases o with
  | createStepExecution => exact absurd rfl h
  | _ => rfl

/-- Code that creates no step execution. -/
theorem wp_createsNone {loops : Prop} {p : Code α β} (hp : p.Uses (On K loops))
    (hK : .createStep ∉ K) :
    p.wp anyCalls (fun _ calls' => stepsCreated e calls' = stepsCreated e calls) calls := by
  have hnone (o : Op α) (r : o.Resp) (ho : o.kind ∈ K) : createdStep e o = none :=
    createdStep_of_kind fun heq => hK (heq ▸ ho)
  exact Prog.wp_of_uses hp (selected_frame hnone (stepsCreated e calls)) rfl

/-- What is said of the calls alone is true of every run. -/
theorem wp_world_of_calls {env : Environment α υ} {p : Code α β} {Q : Calls α → Prop}
    {s : World υ × Calls α} (hp : p.wp anyCalls (fun _ calls' => Q calls') s.2) :
    p.wp (worldLogic env) (fun _ s' => Q s'.2) s :=
  Prog.wp_mono (wp_of_logged (anyCalls_answers env) hp trivial) fun _ _ h => h.1

end Logs

namespace JobExecutor.Run

variable (R : Run)

/-- A step is executed by creating one step execution for it. -/
theorem runStep_creates (loopFuel : Nat) (step : StepDefinition) (calls : Calls α) :
    (R.runStep loopFuel step : Code α (StepExecution × StepResult)).wp anyCalls
      (fun _ calls' => stepsCreated R.execution.id calls' =
        stepsCreated R.execution.id calls ++ [step.id]) calls := by
  have hany {K : List OpKind} : (anyCalls (α := α)).Frame (On K) fun _ => True :=
    ⟨fun _ _ _ _ => trivial, fun _ _ _ _ _ _ _ => trivial, fun h => h.elim⟩
  have hlook : (R.restartStepContext step : Code α (Option ExecutionContext)).Uses
      (On [.findLatestStep, .loadContext]) :=
    R.uses_restartStepContext (by decide) (by decide) step
  unfold runStep
  refine Prog.wp_seq (Prog.wp_and
    (Prog.wp_of_returns hlook (R.returns_restartStepContext step) hany trivial)
    (wp_createsNone (e := R.execution.id) hlook (by decide))) ?_ ?_
  · intro restartContext calls₁ h₁
    refine Prog.wp_bind.mpr (wp_call trivial fun se _ => ?_)
    have hrest : (copyContext se restartContext >>= fun _ =>
        R.runCreated loopFuel step se (restartContext.bind readLastCheckpoint) >>= fun result =>
          .pure (se, result) : Code α (StepExecution × StepResult)).Uses (Looping createdKinds) :=
      (uses_copyContext (by decide) se restartContext).bind fun _ =>
        (R.uses_runCreated loopFuel step se _).bind fun _ => trivial
    refine Prog.wp_mono (wp_createsNone (e := R.execution.id) hrest (by decide)) ?_
    intro out calls₂ h₂
    rw [h₂]
    unfold stepsCreated at h₁ ⊢
    rw [filterMap_snoc, h₁.2]
    exact congrArg (fun name => _ ++ Option.toList name) (if_pos rfl)
  · intro err calls₁ h₁
    obtain ⟨⟨_, hout, -⟩, -⟩ := h₁
    cases hout

section Spec

variable {env : Environment α υ} {s : World υ × Calls α}

/-- Failing the job creates no step execution. -/
theorem failJob_creates (exitCode exitMessage : String) :
    (R.failJob exitCode exitMessage : Code α JobStatus).wp (worldLogic env) (fun _ s' =>
      stepsCreated R.execution.id s'.2 = stepsCreated R.execution.id s.2) s := by
  have hused : (R.failJob exitCode exitMessage : Code α JobStatus).Uses (On [.clock, .updateJob]) :=
    R.uses_failJob (by decide) (by decide) _ _
  exact wp_world_of_calls (wp_createsNone hused (by decide))

/-- A step whose report does not lead on is the end of the path. -/
theorem path_of_last {loopFuel fuel : Nat} {stepId : String} {step : StepDefinition}
    {report : TurnReport} {w w' : World υ} {calls calls' : Calls α}
    (hstep : R.jobDef.step? stepId = some step)
    (hreport : R.StepReports env loopFuel stepId step w report w')
    (hends : ∀ next, R.jobDef.turn stepId report ≠ .ok (.goto next))
    (hcalls : stepsCreated R.execution.id calls' =
      stepsCreated R.execution.id calls ++ [step.id]) :
    ∃ reports, R.LoopReports env loopFuel (fuel + 1) stepId w reports ∧
      stepsCreated R.execution.id calls' =
        stepsCreated R.execution.id calls ++ R.jobDef.path stepId reports := by
  refine ⟨[report], .last hstep hreport hends, ?_⟩
  rw [JobDefinition.path_last hstep hends]
  exact hcalls

/-- **The step loop executes the steps on the path of its reports**, however it ends. -/
theorem stepLoop_path (hfile : OnFile R.execution.id s.1) (loopFuel fuel : Nat) (stepId : String) :
    (R.stepLoop loopFuel fuel stepId : Code α JobStatus).wp (worldLogic env) (fun _ s' =>
      ∃ reports, R.LoopReports env loopFuel fuel stepId s.1 reports ∧
        stepsCreated R.execution.id s'.2 =
          stepsCreated R.execution.id s.2 ++ R.jobDef.path stepId reports) s := by
  induction fuel generalizing stepId s with
  | zero => trivial
  | succ fuel ih =>
      cases hstep : R.jobDef.step? stepId with
      | none =>
          unfold stepLoop
          rw [hstep]
          refine Prog.wp_mono (R.failJob_creates _ _) fun _ s₁ h₁ => ⟨[], .missing hstep, ?_⟩
          exact h₁.trans (List.append_nil _).symm
      | some step =>
          have hframe : (rowLogic (α := α) env).Frame (Looping runKinds) (OnFile R.execution.id) :=
            onFile_frame env (by decide)
          have hrun := Prog.wp_traced (s := s) (fun _ _ => trivial) (Prog.wp_and
            (Prog.wp_of_uses (uses_of_stepRunKinds (R.uses_runStep loopFuel step)) hframe hfile)
            (R.runStep_reports loopFuel stepId step))
          have hcreated : (R.runStep loopFuel step : Code α (StepExecution × StepResult)).wp
              (worldLogic env) (fun _ s' => stepsCreated R.execution.id s'.2 =
                stepsCreated R.execution.id s.2 ++ [step.id]) s :=
            wp_world_of_calls (R.runStep_creates loopFuel step s.2)
          unfold stepLoop
          rw [hstep]
          refine Prog.wp_seq (Prog.wp_and hrun hcreated) ?_ ?_
          · intro ran s₁ h₁
            obtain ⟨⟨hfile₁, hreports⟩, hcalls₁⟩ := h₁
            have hused : (R.resolveDeciderExitStatus stepId (R.deciderContext step ran.1 ran.2) :
                Code α (Option String)).Uses (On [.decide]) :=
              R.uses_resolveDecider (by decide) stepId _
            have hkept : (rowLogic (α := α) env).Frame (On [.decide]) (OnFile R.execution.id) :=
              onFile_frame env (by decide)
            have hdecide := Prog.wp_traced (s := s₁) (fun _ _ => trivial) (Prog.wp_and
              (wp_as_run env _ s₁.1) (Prog.wp_of_uses hused hkept hfile₁))
            refine Prog.wp_seq (Prog.wp_and hdecide (wp_world_of_calls
              (wp_createsNone (e := R.execution.id) hused (by decide)))) ?_ ?_
            · intro decider s₂ h₂
              obtain ⟨⟨hanswer, hfile₂⟩, hcalls₂⟩ := h₂
              have hreport := hreports (.ok decider) s₂.1 hanswer
              have hcalls := hcalls₂.trans hcalls₁
              refine Prog.wp_bind.mpr ((Prog.wp_ofExcept _).mpr ?_)
              cases hnext : nextStep R.jobDef stepId decider ran.2 with
              | error err =>
                  exact R.path_of_last hstep hreport (fun next h => by cases hnext.symm.trans h)
                    hcalls
              | ok next =>
                  cases next with
                  | goto next =>
                      refine Prog.wp_mono (ih hfile₂ next) ?_
                      intro out s₃ h₃
                      obtain ⟨rest, hrest, hcalls₃⟩ := h₃
                      have hturn : R.jobDef.turn stepId (.returned ran.2 (.ok decider)) =
                          .ok (.goto next) := hnext
                      refine ⟨_, .on hstep hreport hturn hrest, ?_⟩
                      rw [JobDefinition.path_goto hstep hturn, hcalls₃, hcalls, List.append_assoc]
                      rfl
                  | finish =>
                      exact R.path_of_last hstep hreport (fun next h => by cases hnext.symm.trans h)
                        hcalls
                  | fail =>
                      refine Prog.wp_mono (R.failJob_creates _ _) fun _ s₃ h₃ => ?_
                      exact R.path_of_last hstep hreport (fun next h => by cases hnext.symm.trans h)
                        (h₃.trans hcalls)
            · intro err s₂ h₂
              obtain ⟨⟨hanswer, -⟩, hcalls₂⟩ := h₂
              exact R.path_of_last hstep (hreports (.error err) s₂.1 hanswer)
                (fun next h => by cases h) (hcalls₂.trans hcalls₁)
          · intro err s₁ h₁
            obtain ⟨⟨-, stepErr, w₂, rfl, hreport⟩, hcalls₁⟩ := h₁
            exact R.path_of_last hstep hreport (fun next h => by cases h) hcalls₁

/-- The calls from `s` on have executed the steps on the path of what the step loop was told. -/
def TookPath (env : Environment α υ) (fuel : Nat) (w : World υ) (before after : Calls α) : Prop :=
  ∃ reports, R.LoopReports env fuel fuel R.jobDef.startStepId w reports ∧
    stepsCreated R.execution.id after =
      stepsCreated R.execution.id before ++ R.jobDef.path R.jobDef.startStepId reports

/-- Driving a job on file takes its path. -/
theorem drive_path (hfile : OnFile R.execution.id s.1) (fuel : Nat) :
    (R.drive fuel : Code α JobStatus).wp (worldLogic env)
      (fun _ s' => R.TookPath env fuel s.1 s.2 s'.2) s := by
  have hend {p : Code α JobStatus} (hp : p.Uses (On [.clock, .updateJob]))
      {s₁ : World υ × Calls α} (h₁ : R.TookPath env fuel s.1 s.2 s₁.2) :
      p.wp (worldLogic env) (fun _ s' => R.TookPath env fuel s.1 s.2 s'.2) s₁ := by
    obtain ⟨reports, hreports, hcalls⟩ := h₁
    refine Prog.wp_mono (wp_world_of_calls (wp_createsNone (e := R.execution.id) hp
      (by decide))) fun _ s₂ h₂ => ⟨reports, hreports, h₂.trans hcalls⟩
  refine Prog.wp_tryCatch.mpr (Prog.wp_seq (R.stepLoop_path hfile fuel fuel _) ?_ ?_)
  · intro status s₁ h₁
    refine Prog.wp_mono (hend (R.uses_completeJob (by decide) (by decide) status) h₁) ?_
    intro out s₂ h₂
    cases out with
    | ok final => exact h₂
    | error err => exact hend (R.uses_onError (by decide) (by decide) err) h₂
  · intro err s₁ h₁
    exact hend (R.uses_onError (by decide) (by decide) err) h₁

/-- A run that is let in begins its step loop where its listeners leave it. -/
theorem prologue_path (hfile : OnFile R.execution.id s.1) :
    (R.prologue : Code α Unit).wp (worldLogic env) (fun out s' => out = .ok () →
      s'.1 = (R.toldBefore env s.1).2 ∧ OnFile R.execution.id s'.1 ∧
        stepsCreated R.execution.id s'.2 = stepsCreated R.execution.id s.2) s := by
  have hbegin : (R.begin_ : Code α Unit).Uses (On [.clock, .updateJob, .emit]) :=
    (uses_now (by decide)).bind fun _ => (uses_updateJobExecution (by decide) _ _).bind fun _ =>
      (uses_now (by decide)).bind fun _ => uses_emit (by decide) _
  have htell : (ListenerInvoker.invokeBefore R.jobResolvers .job (jobContext R.execution) :
      Code α Unit).Uses (On [.listener]) := ListenerInvoker.uses_invokeMatching (by decide) _ _ _
  have hused : (R.prologue : Code α Unit).Uses (On [.clock, .updateJob, .emit, .listener]) :=
    (hbegin.mono (On.mono (by decide))).bind fun _ => htell.mono (On.mono (by decide))
  have hfiled := Prog.wp_of_uses hused (onFile_frame env (by decide)) hfile
  refine Prog.wp_mono (Prog.wp_and (Prog.wp_traced (fun _ _ => trivial)
    (Prog.wp_and (prologue_told hfile) hfiled))
    (wp_world_of_calls (wp_createsNone (e := R.execution.id) hused (by decide)))) ?_
  intro out s' h hout
  obtain ⟨⟨⟨-, hworld⟩, hfile'⟩, hcalls⟩ := h
  exact ⟨hworld hout, hfile', hcalls⟩

/-- **A run executes the steps on the path of its reports.** -/
theorem proceed_path (hfile : OnFile R.execution.id s.1) (fuel : Nat) :
    (R.proceed fuel : Code α JobExecution).wp (worldLogic env) (fun out s' =>
      ∀ latest, out = .ok latest →
        R.TookPath env fuel (R.toldBefore env s.1).2 s.2 s'.2) s := by
  rw [R.proceed_eq]
  refine Prog.wp_seq (R.prologue_path hfile) ?_ fun err _ _ latest h => by cases h
  intro _ s₁ h₁
  obtain ⟨hworld, hfile₁, hcalls₁⟩ := h₁ rfl
  refine Prog.wp_seq (R.drive_path hfile₁ fuel) ?_ fun err _ _ latest h => by cases h
  intro status s₂ h₂
  obtain ⟨reports, hreports, hcalls₂⟩ := h₂
  have hused : (R.epilogue status : Code α JobExecution).Uses
      (Looping [.clock, .getJob, .emit, .listener]) := R.uses_epilogue status
  refine Prog.wp_mono (wp_world_of_calls (wp_createsNone (e := R.execution.id) hused
    (by decide))) fun _ s₃ h₃ _ _ => ⟨reports, hworld ▸ hreports, ?_⟩
  rw [h₃, hcalls₂, hcalls₁]

end Spec

end JobExecutor.Run

/-- An execution takes the path of what its run is told, where it is let in. -/
theorem JobExecutor.execute_path {env : Environment α υ} {s : World υ × Calls α}
    {row : JobExecution} (hfile : OnFile row.id s.1) (fuel : Nat) (jobDef : JobDefinition)
    (partition : PartitionArgs) :
    let R : JobExecutor.Run := { execution := row, jobDef := jobDef, partition := partition }
    (JobExecutor.execute fuel row jobDef partition : Code α JobExecution).wp (worldLogic env)
      (fun out s' => ∀ latest, out = .ok latest →
        R.TookPath env fuel (R.toldBefore env s.1).2 s.2 s'.2) s := by
  intro R
  unfold JobExecutor.execute
  split
  · exact fun latest h => by cases h
  · exact R.proceed_path hfile fuel

end NestBatch
