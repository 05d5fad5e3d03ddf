import NestBatch.Execution.RestartResidue
import NestBatch.Execution.StepsSettled

/-!
# A run works on one execution

The steps that a run creates are of its own execution, and so are the statuses that
it writes: STARTED once, before anything else, and then FAILED or COMPLETED.
Everything else that it does leaves executions and their steps alone.
-/

namespace NestBatch

variable {α β : Type}

/-- What a run does besides creating steps and writing statuses. -/
def sideKinds : List OpKind :=
  stepKinds ++ [.clock, .emit, .updateStep, .findLatestStep, .getJob, .decide]

/-- A patch that marks an execution as ended by its run. -/
def ClosingMark (patch : JobExecutionPatch) : Prop :=
  patch.status = some .FAILED ∨ patch.status = some .COMPLETED

instance (patch : JobExecutionPatch) : Decidable (ClosingMark patch) :=
  inferInstanceAs (Decidable (_ ∨ _))

/-- The operations of a run of `e` that has marked it STARTED. -/
def working (e : String) : Prog.Footprint (Op α) where
  ops o := o.kind ∈ sideKinds ∨ (∃ name, o = .createStepExecution e name) ∨
    ∃ patch, o = .updateJobExecution e patch ∧ ClosingMark patch
  loops := True

section Working

variable {e : String} {K : List OpKind}

/-- Code whose calls are all on the side is working code. -/
theorem working_of_kinds {p : Code α β} (hp : p.Uses (Looping K)) (h : ∀ k ∈ K, k ∈ sideKinds) :
    p.Uses (working e) :=
  hp.mono ⟨fun _ ho => .inl (h _ ho), fun _ => trivial⟩

/-- Looking at the clock is working code. -/
theorem working_now : (now : Code α Time).Uses (working e) :=
  working_of_kinds (K := [.clock]) (uses_now (by decide)) (by decide)

/-- A closing mark is working code. -/
theorem working_mark {patch : JobExecutionPatch} (h : ClosingMark patch) :
    (updateJobExecution e patch : Code α Unit).Uses (working e) :=
  Prog.Uses.bind ((Prog.uses_perform _).mpr (.inr (.inr ⟨patch, rfl, h⟩))) fun _ =>
    Prog.uses_ofExcept _

/-- A closing mark at the current time, and what follows it. -/
theorem working_markNow {patch : Time → JobExecutionPatch} {p : Code α β}
    (h : ∀ time, ClosingMark (patch time)) (hp : p.Uses (working e)) :
    (now >>= fun time => updateJobExecution e (patch time) >>= fun _ => p).Uses (working e) :=
  working_now.bind fun time => (working_mark (h time)).bind fun _ => hp

end Working

namespace JobExecutor.Run

variable (R : Run)

/-- The run of a created step is working code. -/
theorem working_runCreated (fuel : Nat) (step : StepDefinition) (stepExecution : StepExecution)
    (resume : Option Int) : (R.runCreated fuel step stepExecution resume :
      Code α StepResult).Uses (working R.execution.id) := by
  have hupdate (patch : StepExecutionPatch) : (updateStepExecution stepExecution.id patch :
      Code α Unit).Uses (working R.execution.id) :=
    working_of_kinds (K := [.updateStep]) (uses_updateStepExecution (by decide) _ _) (by decide)
  have hemit (event : BatchEvent) : (emit event : Code α Unit).Uses (working R.execution.id) :=
    working_of_kinds (K := [.emit]) (uses_emit (by decide) _) (by decide)
  have hdispatch := working_of_kinds (e := R.execution.id)
    (R.uses_dispatch (α := α) fuel step stepExecution resume) (by decide)
  refine working_now.bind fun _ => (hemit _).bind fun _ => ?_
  refine Prog.Uses.bind ?_ fun result => ?_
  · exact hdispatch.tryCatch fun err => (Prog.uses_ofExcept _).bind fun _ =>
      working_now.bind fun _ => (hupdate _).bind fun _ => trivial
  · refine working_now.bind fun _ => (hupdate _).bind fun _ => ?_
    exact working_now.bind fun _ => (hemit _).bind fun _ => trivial

/-- A run of a step is working code. -/
theorem working_runStep (fuel : Nat) (step : StepDefinition) :
    (R.runStep fuel step : Code α (StepExecution × StepResult)).Uses
      (working R.execution.id) := by
  have hcontext : (R.restartStepContext step : Code α (Option ExecutionContext)).Uses
      (working R.execution.id) :=
    working_of_kinds (K := [.findLatestStep, .loadContext])
      (R.uses_restartStepContext (by decide) (by decide) step) (by decide)
  have hcreate : (createStepExecution R.execution.id step.id : Code α StepExecution).Uses
      (working R.execution.id) := (Prog.uses_perform _).mpr (.inr (.inl ⟨step.id, rfl⟩))
  refine hcontext.bind fun ctx => hcreate.bind fun stepExecution => ?_
  have hcopy : (copyContext stepExecution ctx : Code α Unit).Uses (working R.execution.id) :=
    working_of_kinds (K := [.saveContext]) (uses_copyContext (by decide) stepExecution ctx)
      (by decide)
  exact hcopy.bind fun _ =>
    (R.working_runCreated fuel step stepExecution _).bind fun _ => trivial

/-- Failing the job is working code. -/
theorem working_failJob (exitCode exitMessage : String) :
    (R.failJob exitCode exitMessage : Code α JobStatus).Uses (working R.execution.id) :=
  working_markNow (fun _ => .inl rfl) trivial

/-- The step loop is working code. -/
theorem working_stepLoop (loopFuel fuel : Nat) (stepId : String) :
    (R.stepLoop loopFuel fuel stepId : Code α JobStatus).Uses (working R.execution.id) := by
  induction fuel generalizing stepId with
  | zero => trivial
  | succ fuel ih =>
      have hdecide (ctx : DeciderContext) :
          (R.resolveDeciderExitStatus stepId ctx : Code α (Option String)).Uses
            (working R.execution.id) :=
        working_of_kinds (K := [.decide]) (R.uses_resolveDecider (by decide) stepId ctx)
          (by decide)
      unfold stepLoop
      cases R.jobDef.step? stepId with
      | none => exact R.working_failJob _ _
      | some step =>
          refine (R.working_runStep loopFuel step).bind fun ran => ?_
          refine (hdecide _).bind fun decider => ?_
          refine (Prog.uses_ofExcept _).bind fun next => ?_
          cases next with
          | goto next => exact ih next
          | finish => trivial
          | fail => exact R.working_failJob _ _

/-- **What a run does once it has begun.** -/
theorem working_settle (fuel : Nat) :
    (R.settle fuel : Code α JobExecution).Uses (working R.execution.id) := by
  have hdrive : (R.drive fuel : Code α JobStatus).Uses (working R.execution.id) := by
    refine Prog.Uses.tryCatch ((R.working_stepLoop fuel fuel _).bind fun finalStatus => ?_)
      fun err => working_now.bind fun _ => (Prog.uses_ofExcept _).bind fun _ =>
        (working_mark (.inl rfl)).bind fun _ => trivial
    exact .ite (fun _ => working_markNow (fun _ => .inr rfl) trivial) fun _ => trivial
  rw [R.settle_eq]
  exact hdrive.bind fun status => working_of_kinds (R.uses_epilogue status) (by decide)

end JobExecutor.Run

/-! ### The start of a run -/

/-- The execution that a call has marked STARTED. -/
def startedBy : (o : Op α) → o.Resp → Option String
  | .updateJobExecution e patch, .ok _ => if patch.status = some .STARTED then some e else none
  | _, _ => none

theorem startedBy_of_kind {o : Op α} (h : o.kind ≠ .updateJob) (r : o.Resp) :
    startedBy o r = none := by
  cases o with
  | updateJobExecution => exact absurd rfl h
  | _ => rfl

/-- The last call of a log has not marked an execution STARTED. -/
def NotJustStarted (calls : Calls α) : Prop :=
  ∀ c, calls.getLast? = some c → startedBy c.1 c.2 = none

theorem notJustStarted_nil : NotJustStarted ([] : Calls α) := fun _ h => by cases h

theorem notJustStarted_snoc {calls : Calls α} {o : Op α} {r : o.Resp}
    (h : startedBy o r = none) : NotJustStarted (calls ++ [⟨o, r⟩]) := by
  intro c hc
  rw [List.getLast?_concat] at hc
  cases hc
  exact h

/-- A patch by which a run marks its execution, given what it has written before. -/
def RunMark (e : String) (calls : Calls α) (patch : JobExecutionPatch) : Prop :=
  (patch.status = some .STARTED ∧ jobWrites e calls = []) ∨ ClosingMark patch

/-- Rules that let a run of `e` do its work, as long as `Known` holds of the log. -/
structure LetsRun (rules : CallRules α) (e : String) (Known : Calls α → Prop) : Prop where
  grows : ∀ calls c, Known calls → Known (calls ++ [c])
  side : ∀ calls o, o.kind ∈ sideKinds → rules.demands calls o
  step : ∀ calls name, Known calls → rules.demands calls (.createStepExecution e name)
  mark : ∀ calls patch, Known calls → RunMark e calls patch →
    rules.demands calls (.updateJobExecution e patch)

namespace LetsRun

variable {rules : CallRules α} {e : String} {Known : Calls α → Prop} {K : List OpKind}

theorem side_frame (h : LetsRun rules e Known) (hK : ∀ k ∈ K, k ∈ sideKinds) :
    (logged rules True).Frame (Looping K) (fun calls => Known calls ∧ NotJustStarted calls) where
  guard o calls ho _ := h.side calls o (hK _ ho)
  keep o calls r calls' ho hcalls ht := by
    obtain ⟨hsnoc, -⟩ := ht
    subst hsnoc
    have hkind : o.kind ≠ .updateJob := by
      intro heq
      have hmem := hK _ ho
      rw [heq] at hmem
      exact absurd hmem (by decide)
    exact ⟨h.grows calls _ hcalls.1, notJustStarted_snoc (startedBy_of_kind hkind r)⟩
  loops _ := trivial

theorem working_frame (h : LetsRun rules e Known) :
    (logged rules True).Frame (working e)
      (fun calls => Known calls ∧ NotJustStarted calls) where
  guard o calls ho hcalls := by
    rcases ho with hkind | ⟨name, rfl⟩ | ⟨patch, rfl, hmark⟩
    · exact h.side calls o hkind
    · exact h.step calls name hcalls.1
    · exact h.mark calls patch hcalls.1 (.inr hmark)
  keep o calls r calls' ho hcalls ht := by
    obtain ⟨hsnoc, -⟩ := ht
    subst hsnoc
    refine ⟨h.grows calls _ hcalls.1, notJustStarted_snoc ?_⟩
    rcases ho with hkind | ⟨name, rfl⟩ | ⟨patch, rfl, hmark⟩
    · refine startedBy_of_kind ?_ r
      intro heq
      rw [heq] at hkind
      exact absurd hkind (by decide)
    · rfl
    · cases r with
      | error err => rfl
      | ok u =>
          refine if_neg ?_
          intro hstarted
          rcases hmark with hfailed | hcompleted
          · rw [hstarted] at hfailed
            cases hfailed
          · rw [hstarted] at hcompleted
            cases hcompleted
  loops _ := trivial

/-- The start of a run: nothing of it ends with the mark. -/
theorem wp_begin {R : JobExecutor.Run} (h : LetsRun rules R.execution.id Known) {calls : Calls α}
    (hknown : Known calls) (hfresh : jobWrites R.execution.id calls = []) :
    (R.begin_ : Code α Unit).wp (logged rules True)
      (fun _ calls' => Known calls' ∧ NotJustStarted calls') calls := by
  have hclock : OpKind.clock ∈ sideKinds := by decide
  have hemit : OpKind.emit ∈ sideKinds := by decide
  refine Prog.wp_bind.mpr (wp_call (h.side calls .now hclock) fun startTime _ => ?_)
  have hknown₁ := h.grows calls ⟨.now, startTime⟩ hknown
  have hwrites : jobWrites R.execution.id (calls ++ [⟨.now, startTime⟩]) = [] := by
    rw [jobWrites_snoc, hfresh]
    rfl
  have hmark := h.mark _ (startPatch startTime) hknown₁ (.inl ⟨rfl, hwrites⟩)
  refine Prog.wp_bind.mpr (Prog.wp_bind.mpr (wp_call hmark fun answer _ => ?_))
  have hknown₂ := h.grows _ ⟨.updateJobExecution R.execution.id (startPatch startTime), answer⟩
    hknown₁
  refine (Prog.wp_ofExcept _).mpr ?_
  cases answer with
  | error err => exact ⟨hknown₂, notJustStarted_snoc rfl⟩
  | ok u =>
      refine Prog.wp_bind.mpr (wp_call (h.side _ .now hclock) fun timestamp _ => ?_)
      exact wp_call (h.side _ _ hemit) fun _ _ =>
        ⟨h.grows _ _ (h.grows _ _ hknown₂), notJustStarted_snoc rfl⟩

/-- **A run keeps to the rules.** -/
theorem wp_execute (fuel : Nat) {execution : JobExecution}
    (h : LetsRun rules execution.id Known) (jobDef : JobDefinition) (partition : PartitionArgs)
    {calls : Calls α} (hknown : Known calls) (hfresh : jobWrites execution.id calls = [])
    (hquiet : NotJustStarted calls) :
    (JobExecutor.execute fuel execution jobDef partition : Code α JobExecution).wp
      (logged rules True) (fun _ calls' => Known calls' ∧ NotJustStarted calls') calls := by
  unfold JobExecutor.execute
  split
  · exact ⟨hknown, hquiet⟩
  · let R : JobExecutor.Run :=
      { execution := execution, jobDef := jobDef, partition := partition }
    have hlisten : (ListenerInvoker.invokeBefore R.jobResolvers .job
        (JobExecutor.jobContext R.execution) : Code α Unit).Uses (Looping [.listener]) :=
      ListenerInvoker.uses_invokeMatching (by decide) _ _ _
    change (R.proceed fuel : Code α JobExecution).wp _ _ _
    rw [R.proceed_eq]
    have hprologue : (R.begin_ >>= fun _ => ListenerInvoker.invokeBefore R.jobResolvers .job
        (JobExecutor.jobContext R.execution) : Code α Unit).wp (logged rules True)
        (fun _ calls' => Known calls' ∧ NotJustStarted calls') calls :=
      Prog.wp_seq (h.wp_begin hknown hfresh)
        (fun _ _ h₁ => Prog.wp_of_uses hlisten (h.side_frame (by decide)) h₁) fun _ _ hend => hend
    exact Prog.wp_seq hprologue
      (fun _ _ h₁ => Prog.wp_of_uses (R.working_settle fuel) h.working_frame h₁)
      fun _ _ hend => hend

end LetsRun

end NestBatch
