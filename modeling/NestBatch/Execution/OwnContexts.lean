import NestBatch.Execution.ContextCopy
import NestBatch.Execution.StepsSettled
import NestBatch.Execution.CallLog

/-!
# Runs that start afresh

A run that is no restart looks for no earlier step execution, and the only contexts
it loads and saves are those of the step executions that it has created itself.
-/

namespace NestBatch

variable {α β υ : Type}

/-- The step execution a call creates. -/
def createdBy : (o : Op α) → o.Resp → Option String
  | .createStepExecution _ _, row => some row.id
  | _, _ => none

/-- The scope of a step execution that the log has created. -/
def Made (calls : Calls α) (scope : ExecutionScope) : Prop :=
  ∃ c ∈ calls, ∃ id, createdBy c.1 c.2 = some id ∧ scope = .stepExecutionId id

/-- What was made stays made. -/
theorem Made.append {calls : Calls α} {scope : ExecutionScope} (h : Made calls scope)
    (more : Calls α) : Made (calls ++ more) scope := by
  obtain ⟨c, hmem, hc⟩ := h
  exact ⟨c, List.mem_append_left _ hmem, hc⟩

/-- No earlier step execution is looked for, and no context taken that is not one's own. -/
def TakesOwn (calls : Calls α) : Op α → Prop
  | .findLatestStepExecution _ _ => False
  | .findStepExecutions _ => False
  | .getExecutionContext scope => Made calls scope
  | .saveExecutionContext scope _ => Made calls scope
  | _ => True

def ownRules : CallRules α := { demands := TakesOwn }

/-- Behind a log, the code takes nothing that is not its own. -/
def KeepsToOwn (p : Code α β) (calls : Calls α) : Prop :=
  p.wp (logged ownRules True) (fun _ _ => True) calls

/-- The kinds of operation the rule is about. -/
def takingKinds : List OpKind := [.findLatestStep, .findSteps, .loadContext, .saveContext]

section Rules

variable {γ : Type} {K : List OpKind} {calls : Calls α}

theorem takesOwn_of_kind {o : Op α} (h : o.kind ∉ takingKinds) (calls : Calls α) :
    TakesOwn calls o := by
  cases o with
  | findLatestStepExecution => exact absurd (by simp [takingKinds, Op.kind]) h
  | findStepExecutions => exact absurd (by simp [takingKinds, Op.kind]) h
  | getExecutionContext => exact absurd (by simp [takingKinds, Op.kind]) h
  | saveExecutionContext => exact absurd (by simp [takingKinds, Op.kind]) h
  | _ => trivial

/-- What a log that grows keeps, code that takes nothing keeps. -/
theorem wp_taking_nothing {p : Code α β} (hp : p.Uses (Looping K)) (h : ∀ k ∈ K, k ∉ takingKinds)
    {J : Calls α → Prop} (hJ : ∀ calls c, J calls → J (calls ++ [c])) (hcalls : J calls) :
    p.wp (logged ownRules True) (fun _ calls' => J calls') calls := by
  have hframe : (logged (α := α) ownRules True).Frame (Looping K) J :=
    { guard := fun o calls ho _ => takesOwn_of_kind (h _ ho) calls
      keep := fun o calls r calls' _ hcalls ht => by
        rw [ht.1]
        exact hJ calls _ hcalls
      loops := fun _ => trivial }
  exact Prog.wp_of_uses hp hframe hcalls

/-- Keeping to one's own is kept by sequence. -/
theorem KeepsToOwn.bind {p : Code α β} {f : β → Code α γ} (hp : KeepsToOwn p calls)
    (hf : ∀ b calls', KeepsToOwn (f b) calls') : KeepsToOwn (p >>= f) calls :=
  Prog.wp_seq hp (fun b calls' _ => hf b calls') fun _ _ _ => trivial

/-- Code that takes no scope keeps to its own. -/
theorem keepsToOwn_of_uses {p : Code α β} (hp : p.Uses (Looping K))
    (h : ∀ k ∈ K, k ∉ takingKinds) : KeepsToOwn p calls :=
  wp_taking_nothing hp h (fun _ _ _ => trivial) trivial

/-- With every key reserved, nothing is asked of the streams. -/
theorem streamsHandOn_all (o : Op α) (r : o.Resp) :
    StreamsHandOn (fun _ => True) o r := by
  have hsame : ∀ a b : JsonValue, SameOutside (fun _ => True) a b :=
    fun _ _ _ hkey => absurd trivial hkey
  cases o with
  | user call =>
      cases call with
      | openStream => exact fun _ _ => hsame _ _
      | updateStream => exact fun _ _ => hsame _ _
      | _ => trivial
  | _ => trivial

/-- A step executor that keeps to the context of its step takes what is its own. -/
theorem keepsToOwn_of_copy {p : Code α β} {sid : String} {copy : Option JsonValue}
    (huses : p.Uses (Looping stepKinds))
    (hcopy : p.wp (copyRules (fun _ => True) sid) (fun _ _ => True) copy)
    (hmade : Made calls (.stepExecutionId sid)) : KeepsToOwn p calls := by
  induction p generalizing calls copy with
  | pure b => trivial
  | throw err => trivial
  | spin => trivial
  | op o k ih =>
      obtain ⟨ho, hrest⟩ := huses
      obtain ⟨hsaves, hnext⟩ := hcopy
      refine ⟨?_, ?_⟩
      · cases o with
        | findLatestStepExecution =>
            have hnot : OpKind.findLatestStep ∉ stepKinds := by decide
            exact absurd ho hnot
        | findStepExecutions =>
            have hnot : OpKind.findSteps ∉ stepKinds := by decide
            exact absurd ho hnot
        | getExecutionContext scope =>
            change scope = _ at hsaves
            rw [hsaves]
            exact hmade
        | saveExecutionContext scope ctx =>
            obtain ⟨hscope, -⟩ := hsaves
            rw [hscope]
            exact hmade
        | _ => trivial
      · intro r calls' ht
        obtain ⟨hsnoc, -⟩ := ht
        subst hsnoc
        exact ih r (hrest r) (hnext r _ ⟨streamsHandOn_all o r, rfl⟩) (hmade.append _)

end Rules

namespace JobExecutor.Run

variable (R : Run) {calls : Calls α}

/-- A dispatched step keeps to its own scope. -/
theorem dispatch_own {stepExecution : StepExecution}
    (hmade : Made calls (.stepExecutionId stepExecution.id)) (fuel : Nat) (step : StepDefinition)
    (resume : Option Int) :
    KeepsToOwn (R.dispatch fuel step stepExecution resume : Code α StepResult) calls := by
  have hchunk : ∀ chunk : ChunkStepDefinition, KeepsToOwn (ChunkStepExecutor.execute fuel chunk
      (R.chunkContext stepExecution chunk resume) : Code α StepResult) calls := fun chunk =>
    keepsToOwn_of_copy (ChunkStepExecutor.uses_execute _ _ _)
      (ChunkStepExecutor.execute_saves_copy trivial fuel chunk
        (R.chunkContext stepExecution chunk resume) none) hmade
  have htasklet : ∀ k ∈ [OpKind.invoke, .tasklet, .listener, .afterStep], k ∉ takingKinds := by
    decide
  cases step with
  | tasklet step =>
      exact keepsToOwn_of_uses (TaskletStepExecutor.uses_execute_of (by decide) (by decide)
        (by decide) (by decide) _ _) htasklet
  | chunk step => exact hchunk step
  | inherited => exact hchunk inheritedStep

/-- A step execution of one's own is run on its own context. -/
theorem runCreated_own {stepExecution : StepExecution}
    (hmade : Made calls (.stepExecutionId stepExecution.id)) (fuel : Nat) (step : StepDefinition)
    (resume : Option Int) :
    KeepsToOwn (R.runCreated fuel step stepExecution resume : Code α StepResult) calls := by
  have hkinds : ∀ k ∈ [OpKind.clock, .emit, .updateStep], k ∉ takingKinds := by decide
  have hclock : (now : Code α Time).Uses (Looping [.clock, .emit, .updateStep]) :=
    uses_now (by decide)
  have hmark : ∀ id (patch : Time → StepExecutionPatch) {γ : Type} {p : Code α γ},
      p.Uses (Looping [.clock, .emit, .updateStep]) →
      (now >>= fun time => updateStepExecution id (patch time) >>= fun _ => p).Uses
        (Looping [.clock, .emit, .updateStep]) := fun id patch _ _ hp =>
    hclock.bind fun _ => (uses_updateStepExecution (by decide) _ _).bind fun _ => hp
  have hkept : ∀ {γ : Type} {p : Code α γ} {calls' : Calls α},
      p.Uses (Looping [.clock, .emit, .updateStep]) →
      Made calls' (.stepExecutionId stepExecution.id) → p.wp (logged ownRules True)
        (fun _ calls'' => Made calls'' (.stepExecutionId stepExecution.id)) calls' :=
    fun hp hmade' => wp_taking_nothing hp hkinds (fun _ _ h => h.append _) hmade'
  unfold runCreated
  refine Prog.wp_seq (hkept hclock hmade) ?_ fun _ _ _ => trivial
  intro startedAt calls₁ h₁
  refine Prog.wp_seq (hkept (uses_emit (by decide) _) h₁) ?_ fun _ _ _ => trivial
  intro _ calls₂ h₂
  have hran : KeepsToOwn (orFailStep stepExecution (R.dispatch fuel step stepExecution resume) :
      Code α StepResult) calls₂ := by
    refine Prog.wp_tryCatch.mpr (Prog.wp_mono (R.dispatch_own h₂ fuel step resume) ?_)
    intro out calls₃ _
    cases out with
    | ok result => trivial
    | error err =>
        have hfailed := (Prog.uses_ofExcept err.text).bind fun exitMessage =>
          hmark stepExecution.id (fun endTime =>
            { status := some .FAILED, exitCode := some "FAILED", exitMessage := some exitMessage
              endTime := some (some endTime) }) (p := (.throw err : Code α StepResult)) trivial
        exact keepsToOwn_of_uses hfailed hkinds
  refine hran.bind fun result calls₃ => keepsToOwn_of_uses (hmark _ _ ?_) hkinds
  exact hclock.bind fun _ => (uses_emit (by decide) _).bind fun _ => trivial

/-- A step of a run that is no restart begins on a context of its own. -/
theorem runStep_own (hnew : R.isRestart = false) (fuel : Nat) (step : StepDefinition) :
    KeepsToOwn (R.runStep fuel step : Code α (StepExecution × StepResult)) calls := by
  have hnone : (R.restartStepContext step : Code α (Option ExecutionContext)) = .pure none := by
    unfold restartStepContext
    rw [hnew]
    exact if_neg fun h => by cases h.1
  unfold runStep
  rw [hnone, Prog.pure_bind]
  refine Prog.wp_bind.mpr (Prog.wp_perform.mpr ⟨trivial, ?_⟩)
  intro row calls₁ ht
  obtain ⟨hsnoc, -⟩ := ht
  have hmade : Made calls₁ (.stepExecutionId row.id) := by
    rw [hsnoc]
    exact ⟨_, List.mem_append_right _ (List.mem_singleton.mpr rfl), _, rfl, rfl⟩
  exact (R.runCreated_own hmade fuel step _).bind fun _ _ => trivial

/-- The step loop of a new run keeps to its own scopes. -/
theorem stepLoop_own (hnew : R.isRestart = false) (loopFuel fuel : Nat) (stepId : String) :
    KeepsToOwn (R.stepLoop loopFuel fuel stepId : Code α JobStatus) calls := by
  have hfail : ∀ {calls' : Calls α} (exitCode exitMessage : String),
      KeepsToOwn (R.failJob exitCode exitMessage : Code α JobStatus) calls' := fun _ _ =>
    keepsToOwn_of_uses (K := [.clock, .updateJob])
      (R.uses_failJob (by decide) (by decide) _ _) (by decide)
  induction fuel generalizing stepId calls with
  | zero => trivial
  | succ fuel ih =>
      unfold stepLoop
      cases R.jobDef.step? stepId with
      | none => exact hfail _ _
      | some step =>
          refine (R.runStep_own hnew loopFuel step).bind fun ran calls₁ => ?_
          refine KeepsToOwn.bind (keepsToOwn_of_uses (K := [.decide])
            (R.uses_resolveDecider (by decide) stepId _) (by decide)) fun decider calls₂ => ?_
          refine Prog.wp_bind.mpr ((Prog.wp_ofExcept _).mpr ?_)
          cases nextStep R.jobDef stepId decider ran.2 with
          | error err => trivial
          | ok next =>
              cases next with
              | goto next => exact ih next
              | finish => trivial
              | fail => exact hfail _ _

/-- **A run that is no restart takes no context but its own.** -/
theorem proceed_own (hnew : R.isRestart = false) (fuel : Nat) :
    KeepsToOwn (R.proceed fuel : Code α JobExecution) calls := by
  have hmark : ∀ k ∈ [OpKind.clock, .updateJob], k ∉ takingKinds := by decide
  rw [R.proceed_eq, R.settle_eq]
  refine KeepsToOwn.bind (keepsToOwn_of_uses R.uses_prologue (by decide)) fun _ calls₁ => ?_
  refine KeepsToOwn.bind ?_ fun status _ => keepsToOwn_of_uses (R.uses_epilogue status) (by decide)
  refine Prog.wp_tryCatch.mpr (Prog.wp_mono (Prog.wp_seq
    (R.stepLoop_own hnew fuel fuel R.jobDef.startStepId) (fun status calls₂ _ =>
      keepsToOwn_of_uses (R.uses_completeJob (by decide) (by decide) status) hmark)
    fun _ _ _ => trivial) ?_)
  intro out calls₃ _
  cases out with
  | ok status => trivial
  | error err => exact keepsToOwn_of_uses (R.uses_onError (by decide) (by decide) err) hmark

end JobExecutor.Run

end NestBatch
