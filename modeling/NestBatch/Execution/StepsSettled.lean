import NestBatch.Execution.EventBrackets

/-!
# What a finished run leaves of its steps

Between the creation of a step execution and the record of its result a run can leave
a step by a throw only, and then the row is marked FAILED on the way out, if what is
thrown has a string form.  So when the final status of a run is written, every step
execution it has filed carries what its executor came to.
-/

namespace NestBatch

variable {α β υ : Type}

/-! ### Rows of steps -/

namespace InMemoryJobRepository

/-- The step rows and the ids issued are the same. -/
structure SameSteps (repo repo' : InMemoryJobRepository) : Prop where
  idGen : repo'.idGen = repo.idGen
  issued : repo'.issued = repo.issued
  stepExecutions : repo'.stepExecutions = repo.stepExecutions

variable {repo repo' repo'' : InMemoryJobRepository}

theorem SameSteps.refl (repo : InMemoryJobRepository) : SameSteps repo repo := ⟨rfl, rfl, rfl⟩

theorem SameSteps.trans (h : SameSteps repo repo') (h' : SameSteps repo' repo'') :
    SameSteps repo repo'' :=
  ⟨h'.idGen.trans h.idGen, h'.issued.trans h.issued, h'.stepExecutions.trans h.stepExecutions⟩

/-- Keeping every row keeps the step rows. -/
theorem SameRows.sameSteps (h : SameRows repo repo') : SameSteps repo repo' :=
  ⟨h.idGen, h.issued, h.stepExecutions⟩

/-- Where the step rows stay, they stay filed. -/
theorem SameSteps.stepsFiled (h : SameSteps repo repo') (hfiled : repo.StepsFiled) :
    repo'.StepsFiled where
  own id step hget := hfiled.own id step (h.stepExecutions ▸ hget)
  issued id step hget := by
    rw [h.stepExecutions] at hget
    rw [h.idGen, h.issued]
    exact hfiled.issued id step hget

/-- The step rows are the same but for the row `id`. -/
structure OnlyStep (id : String) (repo repo' : InMemoryJobRepository) : Prop where
  filed : repo'.StepsFiled
  same : ∀ id' ≠ id, repo'.stepExecutions.get? id' = repo.stepExecutions.get? id'

theorem OnlyStep.trans {id : String} (h : OnlyStep id repo repo') (h' : OnlyStep id repo' repo'') :
    OnlyStep id repo repo'' :=
  ⟨h'.filed, fun id' hne => (h'.same id' hne).trans (h.same id' hne)⟩

/-- Keeping the step rows touches no row but the given one. -/
theorem SameSteps.onlyStep (h : SameSteps repo repo') (hfiled : repo.StepsFiled) (id : String) :
    OnlyStep id repo repo' :=
  ⟨h.stepsFiled hfiled, fun _ _ => by rw [h.stepExecutions]⟩

/-- An update touches its own step row alone. -/
theorem onlyStep_update (hfiled : repo.StepsFiled) (id : String) (patch : StepExecutionPatch) :
    OnlyStep id repo (repo.updateStepExecution id patch).2 := by
  refine ⟨hfiled.update id patch, ?_⟩
  intro id' hne
  unfold updateStepExecution
  split
  · rfl
  · exact JsMap.get?_set_of_ne _ _ hne

end InMemoryJobRepository

/-- The kinds of operation that touch a row of a step, or issue an id. -/
def stepRowKinds : List OpKind := [.createExecution, .createStep, .updateStep]

/-- Operations of other kinds leave the rows of the steps alone. -/
theorem sameSteps_frame (env : Environment α υ) {K : List OpKind} {loops : Prop}
    (h : ∀ k ∈ K, k ∉ stepRowKinds) (repo : InMemoryJobRepository) :
    (rowLogic env).Frame (On K loops) (fun w => repo.SameSteps w.repo) where
  guard _ _ _ _ := trivial
  keep o w r w' ho hs ht := by
    have hw' : (handle env o w).2 = w' := congrArg Prod.snd ht
    subst hw'
    refine hs.trans ?_
    by_cases hupdate : o.kind = .updateJob
    · cases o with
      | updateJobExecution executionId patch =>
          change w.repo.SameSteps (w.repo.updateJobExecution executionId patch).2
          unfold InMemoryJobRepository.updateJobExecution
          split <;> exact ⟨rfl, rfl, rfl⟩
      | user call => cases call <;> cases hupdate
      | _ => cases hupdate
    · refine (handle_sameRows env ?_ w).sameSteps
      intro hkind
      have hother := h _ ho
      simp only [rowKinds, stepRowKinds, List.mem_cons, List.not_mem_nil] at hkind hother
      tauto
  loops _ := trivial

section Specs

variable {env : Environment α υ} {w : World υ} {γ : Type} {K : List OpKind}
  {Q : Except Thrown γ → World υ → Prop}

/-- Code that leaves the rows of the steps alone, and what follows it. -/
theorem wp_sameSteps {p : Code α β} {f : β → Code α γ} (hp : p.Uses (Looping K))
    (hK : ∀ k ∈ K, k ∉ stepRowKinds)
    (hok : ∀ b w', w.repo.SameSteps w'.repo → (f b).wp (rowLogic env) Q w')
    (herr : ∀ err w', w.repo.SameSteps w'.repo → Q (.error err) w') :
    (p >>= f).wp (rowLogic env) Q w :=
  Prog.wp_seq (Prog.wp_of_uses hp (sameSteps_frame env hK w.repo) (.refl w.repo)) hok herr

/-- Code that does so and does not throw, and what follows it. -/
theorem wp_sameSteps_returning {p : Code α β} {f : β → Code α γ} (hp : p.Uses (Looping K))
    (hret : p.Returns fun _ => True) (hK : ∀ k ∈ K, k ∉ stepRowKinds)
    (hok : ∀ b w', w.repo.SameSteps w'.repo → (f b).wp (rowLogic env) Q w') :
    (p >>= f).wp (rowLogic env) Q w := by
  have hframe : (rowLogic env).Frame (Looping K) (fun w' => w.repo.SameSteps w'.repo) :=
    sameSteps_frame env hK w.repo
  refine Prog.wp_seq (Prog.wp_and (Prog.wp_of_uses hp hframe (.refl w.repo))
    (Prog.wp_of_returns hp hret hframe (.refl w.repo))) ?_ ?_
  · intro b w' h
    exact hok b w' h.1
  · intro err w' h
    obtain ⟨-, b, hb, -⟩ := h
    cases hb

/-- A row on file is marked at the current time, and what follows. -/
theorem wp_markRow {patch : Time → StepExecutionPatch} {p : Code α γ} {id : String}
    {row : StepExecution} (hfiled : w.repo.StepsFiled)
    (hrow : w.repo.stepExecutions.get? id = some row)
    (hp : ∀ time w', w.repo.OnlyStep id w'.repo →
      w'.repo.stepExecutions.get? id = some ((patch time).applyTo row) →
      p.wp (rowLogic env) Q w') :
    (now >>= fun time => updateStepExecution id (patch time) >>= fun _ => p).wp
      (rowLogic env) Q w := by
  refine Prog.wp_bind.mpr (Prog.wp_perform.mpr ⟨trivial, ?_⟩)
  intro time w₁ ht₁
  cases ht₁
  refine Prog.wp_bind.mpr (Prog.wp_bind.mpr (Prog.wp_perform.mpr ⟨trivial, ?_⟩))
  intro r w₂ ht₂
  have hr : (w.repo.updateStepExecution id (patch w.clock)).1 = r := congrArg Prod.fst ht₂
  have hw₂ : ({ w with clock := w.clock + 1
                       repo := (w.repo.updateStepExecution id (patch w.clock)).2 } : World υ) =
      w₂ := congrArg Prod.snd ht₂
  subst hw₂
  have honly := InMemoryJobRepository.onlyStep_update hfiled id (patch w.clock)
  have hok : (w.repo.updateStepExecution id (patch w.clock)).1 = .ok () ∧
      (w.repo.updateStepExecution id (patch w.clock)).2.stepExecutions =
        w.repo.stepExecutions.set id ((patch w.clock).applyTo row) := by
    unfold InMemoryJobRepository.updateStepExecution
    rw [hrow]
    exact ⟨rfl, rfl⟩
  rw [hok.1] at hr
  subst hr
  refine (Prog.wp_ofExcept _).mpr (hp w.clock _ honly ?_)
  rw [hok.2]
  exact JsMap.get?_set_self _ _ _

end Specs

/-! ### What a step leaves -/

/-- The row carries what the executor of its step came to: the result it returned, or FAILED
with the error it threw.  A value without a string form leaves the row as it was created. -/
def StepExecution.Carries (row : StepExecution) : Prog.Outcome Thrown StepResult → Prop
  | .returned result =>
      row.status = result.status ∧ row.exitCode = result.exitCode ∧
        row.exitMessage = result.exitMessage ∧ row.readCount = result.readCount ∧
        row.writeCount = result.writeCount ∧ row.skipCount = result.skipCount ∧
        row.commitCount = result.commitCount.getD 0
  | .threw err =>
      (∀ message, err.text = .ok message →
        row.status = .FAILED ∧ row.exitCode = "FAILED" ∧ row.exitMessage = message) ∧
      (¬ err.HasText → row.status = .STARTING)
  | .stuck => False

/-- Only a result that says so leaves a row in STARTING, or an error without a string form. -/
theorem StepExecution.Carries.starting {row : StepExecution} {out : Prog.Outcome Thrown StepResult}
    (h : row.Carries out) (hstarting : row.status = .STARTING) :
    (∃ result, out = .returned result ∧ result.status = .STARTING) ∨
      ∃ err, out = .threw err ∧ ¬ err.HasText := by
  cases out with
  | returned result => exact .inl ⟨result, rfl, h.1.symm.trans hstarting⟩
  | threw err =>
      refine .inr ⟨err, rfl, ?_⟩
      intro htext
      obtain ⟨message, hmessage⟩ := htext
      have hfailed := (h.1 message hmessage).1
      rw [hstarting] at hfailed
      cases hfailed
  | stuck => exact h.elim

namespace JobExecutor.Run

variable (R : Run) {env : Environment α υ} {w : World υ}

/-- The executor, and what is recorded of it. -/
def closing (fuel : Nat) (step : StepDefinition) (created : StepExecution × Option Int) :
    Code α (StepExecution × StepResult) := do
  let result ← orFailStep created.1 (R.dispatch fuel step created.1 created.2)
  let endTime ← now
  updateStepExecution created.1.id (resultPatch result endTime)
  let emittedAt ← now
  emit { type := stepEventType result.status, timestamp := emittedAt
         jobExecutionId := R.execution.id, stepExecutionId := some created.1.id
         data := .obj [("stepId", .str step.id), ("status", .str result.status.value),
                       ("exitCode", .str result.exitCode)] }
  .pure (created.1, result)

/-- A run of a step is its opening and then its closing. -/
theorem runStep_closing (fuel : Nat) (step : StepDefinition) :
    (R.runStep fuel step : Code α _) = R.opening step >>= R.closing fuel step := by
  unfold runStep opening closing runCreated
  simp only [Prog.bind_assoc, Prog.pure_bind]

/-- The row `id` is new, and of a step that has not run. -/
def Opened (id : String) (w w' : World υ) : Prop :=
  w.repo.stepExecutions.get? id = none ∧ w.repo.OnlyStep id w'.repo ∧
    ∃ e name, w'.repo.stepExecutions.get? id =
      some (InMemoryJobRepository.newStepExecution id e name)

/-- The opening files one new step row and touches no other. -/
theorem wp_opening (hfiled : w.repo.StepsFiled) (step : StepDefinition) :
    (R.opening step : Code α _).wp (rowLogic env)
      (fun out w' => ∃ created, out = .ok created ∧ Opened created.1.id w w') w := by
  have hlook : ∀ k ∈ [OpKind.findLatestStep, .loadContext], k ∉ stepRowKinds := by decide
  have hsave : ∀ k ∈ [OpKind.saveContext], k ∉ stepRowKinds := by decide
  have htell : ∀ k ∈ [OpKind.clock, .emit], k ∉ stepRowKinds := by decide
  unfold opening
  refine wp_sameSteps_returning (R.uses_restartStepContext (by decide) (by decide) step)
    (R.returns_restartStepContext step) hlook ?_
  intro restartContext w₁ h₁
  have hfiled₁ := h₁.stepsFiled hfiled
  have hfresh : w.repo.stepExecutions.get? w₁.repo.nextId = none := by
    rw [← h₁.stepExecutions]
    exact hfiled₁.fresh
  refine Prog.wp_bind.mpr (Prog.wp_perform.mpr ⟨trivial, ?_⟩)
  intro stepExecution w₂ ht₂
  cases ht₂
  refine wp_sameSteps_returning (uses_copyContext (by decide) _ restartContext)
    (returns_copyContext _ restartContext) hsave ?_
  intro _ w₃ h₃
  refine wp_sameSteps_returning (K := [.clock, .emit]) (uses_now (by decide)) (fun _ => trivial)
    htell ?_
  intro startedAt w₄ h₄
  refine wp_sameSteps_returning (K := [.clock, .emit]) (uses_emit (by decide) _) (fun _ => trivial)
    htell ?_
  intro _ w₅ h₅
  have hsame := (h₃.trans h₄).trans h₅
  refine ⟨_, rfl, hfresh, ⟨hsame.stepsFiled (hfiled₁.create R.execution.id step.id), ?_⟩,
    R.execution.id, step.id, ?_⟩
  · intro id' hne
    rw [hsame.stepExecutions]
    refine (JsMap.get?_set_of_ne _ _ hne).trans ?_
    rw [h₁.stepExecutions]
  · rw [hsame.stepExecutions]
    exact JsMap.get?_set_self _ _ _

/-- What the executor of a step comes to when it is called in `w`. -/
def outcomeOf (env : Environment α υ) (fuel : Nat) (step : StepDefinition)
    (created : StepExecution × Option Int) (w : World υ) : Prog.Outcome Thrown StepResult :=
  ((R.dispatch fuel step created.1 created.2 : Code α StepResult).run (handle env) w).1

/-- What a dispatch leaves: every row as it was when the executor returned, the row of the step
marked with the failure when it threw. -/
def Dispatched (env : Environment α υ) (fuel : Nat) (step : StepDefinition)
    (created : StepExecution × Option Int) (w : World υ) :
    Except Thrown StepResult → World υ → Prop
  | .ok result, w' => w.repo.SameSteps w'.repo ∧
      R.outcomeOf env fuel step created w = .returned result
  | .error _, w' => w.repo.OnlyStep created.1.id w'.repo ∧
      ∃ row, w'.repo.stepExecutions.get? created.1.id = some row ∧
        row.Carries (R.outcomeOf env fuel step created w)

/-- The closing writes the row that was opened and no other. -/
theorem wp_closing {created : StepExecution × Option Int} {e name : String}
    (hfiled : w.repo.StepsFiled) (hrow : w.repo.stepExecutions.get? created.1.id =
      some (InMemoryJobRepository.newStepExecution created.1.id e name))
    (fuel : Nat) (step : StepDefinition) :
    (R.closing fuel step created : Code α _).wp (rowLogic env)
      (fun _ w' => w.repo.OnlyStep created.1.id w'.repo ∧
        ∃ row, w'.repo.stepExecutions.get? created.1.id = some row ∧
          row.Carries (R.outcomeOf env fuel step created w)) w := by
  have hquiet : ∀ k ∈ stepKinds, k ∉ stepRowKinds := by decide
  have htell : ∀ k ∈ [OpKind.clock, .emit], k ∉ stepRowKinds := by decide
  have hframe : (rowLogic env).Frame (Looping stepKinds) (fun w' => w.repo.SameSteps w'.repo) :=
    sameSteps_frame env hquiet w.repo
  have hdispatch := Prog.wp_and
    (Prog.wp_of_uses (R.uses_dispatch fuel step created.1 created.2) hframe (.refl w.repo))
    (wp_as_run env (R.dispatch fuel step created.1 created.2) w)
  unfold closing
  refine Prog.wp_seq (R := R.Dispatched env fuel step created w) ?_ ?_ ?_
  · refine Prog.wp_tryCatch.mpr (Prog.wp_mono hdispatch ?_)
    intro out w₁ h₁
    obtain ⟨hsame, hrun⟩ := h₁
    have hout : R.outcomeOf env fuel step created w = .ended out := congrArg Prod.fst hrun
    cases out with
    | ok result => exact ⟨hsame, hout⟩
    | error err =>
        have hrow₁ := hrow
        rw [← hsame.stepExecutions] at hrow₁
        refine Prog.wp_bind.mpr ((Prog.wp_ofExcept _).mpr ?_)
        cases htext : err.text with
        | error thrown =>
            refine ⟨hsame.onlyStep hfiled created.1.id, _, hrow₁, ?_⟩
            rw [hout]
            refine ⟨?_, fun _ => rfl⟩
            intro message hmessage
            rw [htext] at hmessage
            cases hmessage
        | ok exitMessage =>
            refine wp_markRow (hsame.stepsFiled hfiled) hrow₁ ?_
            intro time w₂ honly hmarked
            refine ⟨(hsame.onlyStep hfiled created.1.id).trans honly, _, hmarked, ?_⟩
            rw [hout]
            refine ⟨?_, fun hnone => absurd ⟨exitMessage, htext⟩ hnone⟩
            intro message hmessage
            cases htext.symm.trans hmessage
            exact ⟨rfl, rfl, rfl⟩
  · intro result w₁ h₁
    obtain ⟨hsame, hout⟩ := h₁
    have hrow₁ := hrow
    rw [← hsame.stepExecutions] at hrow₁
    refine wp_markRow (hsame.stepsFiled hfiled) hrow₁ ?_
    intro time w₂ honly hmarked
    have honly₂ := (hsame.onlyStep hfiled created.1.id).trans honly
    refine wp_sameSteps_returning (K := [.clock, .emit]) (uses_now (by decide)) (fun _ => trivial)
      htell ?_
    intro emittedAt w₃ h₃
    refine wp_sameSteps_returning (K := [.clock, .emit]) (uses_emit (by decide) _)
      (fun _ => trivial)
      htell ?_
    intro _ w₄ h₄
    have hlast := h₃.trans h₄
    rw [← hlast.stepExecutions] at hmarked
    refine ⟨honly₂.trans (hlast.onlyStep honly₂.filed created.1.id), _, hmarked, ?_⟩
    rw [hout]
    exact ⟨rfl, rfl, rfl, rfl, rfl, rfl, rfl⟩
  · intro err w₁ h₁
    exact h₁

/-- The step execution a turn files, with what its executor comes to. -/
def dispatched (env : Environment α υ) (fuel : Nat) (step : StepDefinition) (w : World υ) :
    Option (StepExecution × Prog.Outcome Thrown StepResult) :=
  match (R.opening step : Code α _).run (handle env) w with
  | (.returned created, w₁) => some (created.1, R.outcomeOf env fuel step created w₁)
  | _ => none

/-- The rows of the steps before `id`, and that of `id` carries what its executor came to. -/
def Filed (id : String) (out : Prog.Outcome Thrown StepResult) (w w' : World υ) : Prop :=
  w.repo.stepExecutions.get? id = none ∧ w.repo.OnlyStep id w'.repo ∧
    ∃ row, w'.repo.stepExecutions.get? id = some row ∧ row.Carries out

/-- A run of a step files its row with the result of its dispatch. -/
theorem wp_runStep_filed (hfiled : w.repo.StepsFiled) (fuel : Nat) (step : StepDefinition) :
    (R.runStep fuel step : Code α _).wp (rowLogic env) (fun _ w' =>
      ∃ created out, R.dispatched env fuel step w = some (created, out) ∧
        Filed created.id out w w') w := by
  rw [runStep_closing]
  refine Prog.wp_seq (Prog.wp_and (R.wp_opening hfiled step) (wp_as_run env _ w)) ?_ ?_
  · intro created w₁ h₁
    obtain ⟨⟨created', heq, hfresh, honly, e, name, hrow⟩, hrun⟩ := h₁
    cases heq
    have hdispatched : R.dispatched env fuel step w =
        some (created.1, R.outcomeOf env fuel step created w₁) := by
      unfold dispatched
      rw [hrun]
      rfl
    refine Prog.wp_mono (R.wp_closing honly.filed hrow fuel step) ?_
    intro _ w₂ h₂
    obtain ⟨honly₂, row, hrow₂, hcarries⟩ := h₂
    exact ⟨_, _, hdispatched, hfresh, honly.trans honly₂, row, hrow₂, hcarries⟩
  · intro err w₁ h₁
    obtain ⟨⟨created, heq, -⟩, -⟩ := h₁
    cases heq

/-- A visit of a step files its row with the result of its dispatch. -/
theorem wp_visit_filed (hfiled : w.repo.StepsFiled) (fuel : Nat) (stepId : String)
    (step : StepDefinition) :
    (R.visit fuel stepId step : Code α (Next × StepResult)).wp (rowLogic env) (fun _ w' =>
      ∃ created out, R.dispatched env fuel step w = some (created, out) ∧
        Filed created.id out w w') w := by
  have hdecide : ∀ k ∈ [OpKind.decide], k ∉ stepRowKinds := by decide
  have hkeep : ∀ {w₁ w₂ : World υ} {id : String} {out : Prog.Outcome Thrown StepResult},
      Filed id out w w₁ → w₁.repo.SameSteps w₂.repo → Filed id out w w₂ := by
    intro w₁ w₂ id out h₁ hsame
    obtain ⟨hfresh, honly, row, hrow, hcarries⟩ := h₁
    rw [← hsame.stepExecutions] at hrow
    exact ⟨hfresh, honly.trans (hsame.onlyStep honly.filed id), row, hrow, hcarries⟩
  refine Prog.wp_seq (R.wp_runStep_filed hfiled fuel step) ?_ ?_
  · intro ran w₁ h₁
    obtain ⟨created, out, hdispatched, h₁⟩ := h₁
    refine wp_sameSteps (R.uses_resolveDecider (by decide) stepId _) hdecide ?_ ?_
    · intro decider w₂ hsame
      refine Prog.wp_bind.mpr ((Prog.wp_ofExcept _).mpr ?_)
      cases nextStep R.jobDef stepId decider ran.2 with
      | ok next => exact ⟨created, out, hdispatched, hkeep h₁ hsame⟩
      | error err => exact ⟨created, out, hdispatched, hkeep h₁ hsame⟩
    · intro err w₂ hsame
      exact ⟨created, out, hdispatched, hkeep h₁ hsame⟩
  · intro err w₁ h₁
    exact h₁

/-! ### What a run leaves -/

/-- The step executions that the step loop files, with what their executors come to. -/
def executions (env : Environment α υ) (loopFuel : Nat) :
    Nat → String → World υ → List (StepExecution × Prog.Outcome Thrown StepResult)
  | 0, _, _ => []
  | fuel + 1, stepId, w =>
      match R.jobDef.step? stepId with
      | none => []
      | some step =>
          (R.dispatched env loopFuel step w).toList ++
            match (R.visit loopFuel stepId step : Code α _).run (handle env) w with
            | (.returned (.goto next, _), w') => executions env loopFuel fuel next w'
            | _ => []

/-- A visited step heads the executions of the loop. -/
theorem executions_some {loopFuel fuel : Nat} {stepId : String} {step : StepDefinition}
    {created : StepExecution} {out : Prog.Outcome Thrown StepResult}
    (hstep : R.jobDef.step? stepId = some step)
    (hdispatched : R.dispatched env loopFuel step w = some (created, out)) :
    R.executions env loopFuel (fuel + 1) stepId w = (created, out) ::
      match (R.visit loopFuel stepId step : Code α _).run (handle env) w with
      | (.returned (.goto next, _), w') => R.executions env loopFuel fuel next w'
      | _ => [] := by
  rw [executions, hstep]
  dsimp only
  rw [hdispatched]
  rfl

/-- Every row is as it was, or carries what one of the executors came to. -/
def Settles (ran : List (StepExecution × Prog.Outcome Thrown StepResult)) (w w' : World υ) : Prop :=
  w'.repo.StepsFiled ∧ ∀ id row, w'.repo.stepExecutions.get? id = some row →
    w.repo.stepExecutions.get? id = some row ∨
      ∃ created out, (created, out) ∈ ran ∧ created.id = id ∧ row.Carries out

/-- What is settled stays settled while the step rows stay. -/
theorem Settles.sameSteps {ran : List (StepExecution × Prog.Outcome Thrown StepResult)}
    {w w₁ w₂ : World υ} (h : Settles ran w w₁) (hsame : w₁.repo.SameSteps w₂.repo) :
    Settles ran w w₂ := by
  refine ⟨hsame.stepsFiled h.1, ?_⟩
  intro id row hrow
  rw [hsame.stepExecutions] at hrow
  exact h.2 id row hrow

theorem settles_refl (hfiled : w.repo.StepsFiled)
    (ran : List (StepExecution × Prog.Outcome Thrown StepResult)) : Settles ran w w :=
  ⟨hfiled, fun _ _ hrow => .inl hrow⟩

/-- A turn settles its step, and what comes after it settles the others. -/
theorem Filed.settles {created : StepExecution}
    {out : Prog.Outcome Thrown StepResult}
    {ran rest : List (StepExecution × Prog.Outcome Thrown StepResult)} {w w₁ w₂ : World υ}
    (hfiled : Filed created.id out w w₁) (hrest : Settles rest w₁ w₂)
    (hran : ran = (created, out) :: rest) : Settles ran w w₂ := by
  subst hran
  obtain ⟨-, honly, own, hown, hcarries⟩ := hfiled
  refine ⟨hrest.1, ?_⟩
  intro id row hrow
  rcases hrest.2 id row hrow with hold | ⟨created', out', hmem, hid, hcarries'⟩
  · by_cases hid : id = created.id
    · subst hid
      rw [hown] at hold
      cases hold
      exact .inr ⟨created, out, List.mem_cons_self, rfl, hcarries⟩
    · rw [honly.same id hid] at hold
      exact .inl hold
  · exact .inr ⟨created', out', List.mem_cons_of_mem _ hmem, hid, hcarries'⟩

/-- What marks the job leaves the rows of the steps alone. -/
theorem wp_settles {p : Code α β} {ran : List (StepExecution × Prog.Outcome Thrown StepResult)}
    {w w₁ : World υ} (hp : p.Uses (Looping [.clock, .updateJob])) (h : Settles ran w w₁) :
    p.wp (rowLogic env) (fun _ w₂ => Settles ran w w₂) w₁ := by
  have hmark : ∀ k ∈ [OpKind.clock, .updateJob], k ∉ stepRowKinds := by decide
  refine Prog.wp_mono (Prog.wp_of_uses hp (sameSteps_frame env hmark w₁.repo) (.refl _)) ?_
  intro _ w₂ hsame
  exact h.sameSteps hsame

/-- The step loop settles every execution that it makes. -/
theorem wp_stepLoop_settles (hfiled : w.repo.StepsFiled) (loopFuel fuel : Nat) (stepId : String) :
    (R.stepLoop loopFuel fuel stepId : Code α JobStatus).wp (rowLogic env)
      (fun _ w' => Settles (R.executions env loopFuel fuel stepId w) w w') w := by
  induction fuel generalizing stepId w with
  | zero => trivial
  | succ fuel ih =>
      cases hstep : R.jobDef.step? stepId with
      | none =>
          unfold stepLoop
          rw [hstep]
          exact wp_settles (R.uses_failJob (by decide) (by decide) _ _) (settles_refl hfiled _)
      | some step =>
          rw [R.stepLoop_some hstep]
          refine Prog.wp_seq (Prog.wp_and (R.wp_visit_filed hfiled loopFuel stepId step)
            (wp_as_run env _ w)) ?_ ?_
          · intro turn w₁ h₁
            obtain ⟨⟨created, out, hdispatched, h₁⟩, hturn⟩ := h₁
            obtain ⟨next, result⟩ := turn
            rw [R.executions_some hstep hdispatched, hturn]
            cases next with
            | goto next =>
                refine Prog.wp_mono (ih h₁.2.1.filed next) ?_
                intro _ w₂ h₂
                exact h₁.settles h₂ rfl
            | finish => exact h₁.settles (settles_refl h₁.2.1.filed []) rfl
            | fail =>
                refine wp_settles (R.uses_failJob (by decide) (by decide) _ _) ?_
                exact h₁.settles (settles_refl h₁.2.1.filed []) rfl
          · intro err w₁ h₁
            obtain ⟨⟨created, out, hdispatched, h₁⟩, hturn⟩ := h₁
            rw [R.executions_some hstep hdispatched, hturn]
            exact h₁.settles (settles_refl h₁.2.1.filed []) rfl

/-- Driving a job settles every execution that it makes. -/
theorem wp_drive_settles (hfiled : w.repo.StepsFiled) (fuel : Nat) :
    (R.drive fuel : Code α JobStatus).wp (rowLogic env)
      (fun _ w' => Settles (R.executions env fuel fuel R.jobDef.startStepId w) w w') w := by
  refine Prog.wp_tryCatch.mpr (Prog.wp_seq (R.wp_stepLoop_settles hfiled fuel fuel _) ?_ ?_)
  · intro status w₁ h₁
    refine Prog.wp_mono (wp_settles (R.uses_completeJob (by decide) (by decide) status) h₁) ?_
    intro out w₂ h₂
    cases out with
    | ok status => exact h₂
    | error err => exact wp_settles (R.uses_onError (by decide) (by decide) err) h₂
  · intro err w₁ h₁
    exact wp_settles (R.uses_onError (by decide) (by decide) err) h₁

/-- What is left to do when the final status is written. -/
def epilogue (finalStatus : JobStatus) : Code α JobExecution := do
  R.finish finalStatus
  let latest ← getJobExecution R.execution.id
  .pure (latest.getD R.execution)

/-- Settling a job is driving it and then its epilogue. -/
theorem settle_eq (fuel : Nat) :
    (R.settle fuel : Code α JobExecution) = R.drive fuel >>= R.epilogue := rfl

/-- A run that began in `w` has written its final status `status`, and has come to `w'`. -/
def HasWritten (env : Environment α υ) (fuel : Nat) (w : World υ) (status : JobStatus)
    (w' : World υ) : Prop :=
  ∃ w₁ w₂ left, (R.prologue : Code α Unit).run (handle env) w = (.returned (), w₁) ∧
    (R.drive fuel : Code α JobStatus).run (handle env) w₁ = (.returned status, w₂) ∧
    Prog.Reaches (handle env).trans ((R.epilogue status : Code α JobExecution), w₂) (left, w')

/-- The step executions of a run that begins in `w`, with what their executors come to. -/
def executionsFrom (env : Environment α υ) (fuel : Nat) (w : World υ) :
    List (StepExecution × Prog.Outcome Thrown StepResult) :=
  R.executions env fuel fuel R.jobDef.startStepId ((R.prologue : Code α Unit).run (handle env) w).2

/-- The prologue makes only its own kinds of calls. -/
theorem uses_prologue : (R.prologue : Code α Unit).Uses
    (Looping [.clock, .updateJob, .emit, .listener]) := by
  have hclock : (now : Code α Time).Uses (Looping [.clock, .updateJob, .emit, .listener]) :=
    uses_now (by decide)
  have hbegin : (R.begin_ : Code α Unit).Uses (Looping [.clock, .updateJob, .emit, .listener]) :=
    hclock.bind fun _ => (uses_updateJobExecution (by decide) _ _).bind fun _ =>
      hclock.bind fun _ => uses_emit (by decide) _
  exact hbegin.bind fun _ => ListenerInvoker.uses_invokeMatching (by decide) _ _ _

/-- The epilogue makes only its own kinds of calls. -/
theorem uses_epilogue (status : JobStatus) : (R.epilogue status : Code α JobExecution).Uses
    (Looping [.clock, .getJob, .emit, .listener]) := by
  have hget : OpKind.getJob ∈ [OpKind.clock, .getJob, .emit, .listener] := by decide
  have hfinish : (R.finish status : Code α Unit).Uses
      (Looping [.clock, .getJob, .emit, .listener]) :=
    (ListenerInvoker.uses_invokeMatching (by decide) _ _ _).bind fun _ =>
      (uses_now (by decide)).bind fun _ => uses_emit (by decide) _
  exact hfinish.bind fun _ => (uses_request hget).bind fun _ => trivial

/-- The prologue leaves the steps alone. -/
theorem prologue_sameSteps : w.repo.SameSteps
    ((R.prologue : Code α Unit).run (handle env) w).2.repo := by
  have hbefore : ∀ k ∈ [OpKind.clock, .updateJob, .emit, .listener], k ∉ stepRowKinds := by decide
  obtain ⟨left, hreaches⟩ := Prog.reaches_run (h := handle env) (p := (R.prologue : Code α Unit))
    (s := w)
  exact (Prog.reaches_of_uses (L := rowLogic env) hreaches (sameSteps_frame env hbefore w.repo)
    R.uses_prologue (.refl w.repo)).2

/-- What is settled after the prologue is settled. -/
theorem settles_prologue {ran : List (StepExecution × Prog.Outcome Thrown StepResult)}
    {w' : World υ} (h : Settles ran ((R.prologue : Code α Unit).run (handle env) w).2 w') :
    Settles ran w w' := by
  refine ⟨h.1, ?_⟩
  intro id row hrow
  have hsame : w.repo.SameSteps ((R.prologue : Code α Unit).run (handle env) w).2.repo :=
    R.prologue_sameSteps
  rw [← hsame.stepExecutions]
  exact h.2 id row hrow

/-- A job that is driven to a settled outcome settles its executions. -/
theorem drive_settles {fuel : Nat} {out : Prog.Outcome Thrown JobStatus} {w₂ : World υ}
    (hfiled : w.repo.StepsFiled) (hdrive : (R.drive fuel : Code α JobStatus).run (handle env)
      ((R.prologue : Code α Unit).run (handle env) w).2 = (out, w₂)) (hsettled : out.settled) :
    Settles (R.executionsFrom env fuel w) w w₂ := by
  have hsame : w.repo.SameSteps ((R.prologue : Code α Unit).run (handle env) w).2.repo :=
    R.prologue_sameSteps
  have hwp : (R.drive fuel : Code α JobStatus).wp (rowLogic env) (fun _ w' =>
      Settles (R.executionsFrom env fuel w) ((R.prologue : Code α Unit).run (handle env) w).2 w')
      ((R.prologue : Code α Unit).run (handle env) w).2 :=
    R.wp_drive_settles (hsame.stepsFiled hfiled) fuel
  have hrun := Prog.wp_run hwp
  rw [hdrive] at hrun
  apply R.settles_prologue
  cases out with
  | returned status => exact hrun
  | threw err => exact hrun
  | stuck => cases hsettled

/-- **What a finished run leaves of its steps**: whenever its final status has been written, and
whenever it has ended, every step execution it has filed carries the result that its executor
returned, or FAILED with the error that its executor threw; it is in STARTING only if that
result says so, or the error has no string form. -/
theorem finished_run_settles_steps (env : Environment α υ) (fuel : Nat) {w : World υ}
    (hfiled : w.repo.StepsFiled) :
    (∀ status w', R.HasWritten env fuel w status w' →
      Settles (R.executionsFrom env fuel w) w w') ∧
    (∀ out w', (R.proceed fuel : Code α JobExecution).run (handle env) w = (out, w') →
      out.settled → Settles (R.executionsFrom env fuel w) w w') ∧
    (∀ (row : StepExecution) out, row.Carries out → row.status = .STARTING →
      (∃ result, out = .returned result ∧ result.status = .STARTING) ∨
        ∃ err, out = .threw err ∧ ¬ err.HasText) := by
  have hafter : ∀ k ∈ [OpKind.clock, .getJob, .emit, .listener], k ∉ stepRowKinds := by decide
  have hepilogue : ∀ {status : JobStatus} {left : Code α JobExecution} {w₂ w' : World υ},
      Prog.Reaches (handle env).trans ((R.epilogue status : Code α JobExecution), w₂) (left, w') →
      w₂.repo.SameSteps w'.repo := by
    intro status left w₂ w' hreaches
    exact (Prog.reaches_of_uses (L := rowLogic env) hreaches
      (sameSteps_frame env hafter w₂.repo) (R.uses_epilogue status) (.refl w₂.repo)).2
  refine ⟨?_, ?_, fun row out h hstarting => h.starting hstarting⟩
  · intro status w' h
    obtain ⟨w₁, w₂, left, hprologue, hdrive, hreaches⟩ := h
    have hworld : ((R.prologue : Code α Unit).run (handle env) w).2 = w₁ :=
      congrArg Prod.snd hprologue
    rw [← hworld] at hdrive
    have hsettles : Settles (R.executionsFrom env fuel w) w w₂ :=
      R.drive_settles hfiled hdrive rfl
    exact hsettles.sameSteps (hepilogue hreaches)
  · intro out w' hrun hsettled
    rw [R.proceed_eq, Prog.run_bind] at hrun
    have hsame : w.repo.SameSteps ((R.prologue : Code α Unit).run (handle env) w).2.repo :=
      R.prologue_sameSteps
    cases hprologue : (R.prologue : Code α Unit).run (handle env) w with
    | mk began w₁ =>
        rw [hprologue] at hrun hsame
        cases began with
        | threw err =>
            cases hrun
            exact (settles_refl hfiled _).sameSteps hsame
        | stuck =>
            cases hrun
            cases hsettled
        | returned u =>
            dsimp only at hrun
            rw [R.settle_eq, Prog.run_bind] at hrun
            have hworld : ((R.prologue : Code α Unit).run (handle env) w).2 = w₁ :=
              congrArg Prod.snd hprologue
            cases hdrive : (R.drive fuel : Code α JobStatus).run (handle env) w₁ with
            | mk drove w₂ =>
                rw [hdrive] at hrun
                rw [← hworld] at hdrive
                cases drove with
                | threw err =>
                    cases hrun
                    exact R.drive_settles hfiled hdrive rfl
                | stuck =>
                    cases hrun
                    cases hsettled
                | returned status =>
                    have hsettles : Settles (R.executionsFrom env fuel w) w w₂ :=
                      R.drive_settles hfiled hdrive rfl
                    obtain ⟨left, hreaches⟩ := Prog.reaches_run (h := handle env)
                      (p := (R.epilogue status : Code α JobExecution)) (s := w₂)
                    have hend : ((R.epilogue status : Code α JobExecution).run (handle env) w₂).2 =
                        w' := congrArg Prod.snd hrun
                    rw [hend] at hreaches
                    exact hsettles.sameSteps (hepilogue hreaches)

end JobExecutor.Run

/-! ### A listener that restarts a step -/

namespace JobExecutor

/-- An `after:step` listener that writes STARTING into the result it is handed. -/
def restarter (items : List Nat) : Environment Nat Nat :=
  { willing items with
    user := fun call pos ctx =>
      match call with
      | .afterStep _ _ result => ((.ok (), { result with status := .STARTING }), pos, [])
      | call => (willing items).user call pos ctx }

/-- Every listener throws an object without a prototype. -/
def speechlessListener (items : List Nat) : Environment Nat Nat :=
  { willing items with
    user := fun call pos ctx =>
      match call with
      | .listener _ _ _ => (.error .bareObject, pos, [])
      | call => (willing items).user call pos ctx }

/-- The run of the new execution of a job. -/
def newPairsRun (job : JobDefinition) : Run :=
  { execution := InMemoryJobRepository.newExecution "r" "" [], jobDef := job, partition := {} }

/-- A run of the pairs job leaves its step with the result of the chunk executor. -/
theorem finished_run_settles_steps_pairs :
    let R := newPairsRun pairsJob
    let ended := (R.proceed 5).run (handle (willing [10, 20, 30])) JobLauncher.pairsCreated
    Run.Settles (R.executionsFrom (willing [10, 20, 30]) 5 JobLauncher.pairsCreated)
      JobLauncher.pairsCreated ended.2 := by
  have hfiled : JobLauncher.pairsCreated.repo.StepsFiled := by
    constructor
    · intro id step hget
      cases hget
    · intro id step hget
      cases hget
  exact ((newPairsRun pairsJob).finished_run_settles_steps (willing [10, 20, 30]) 5 hfiled).2.1 _ _
    (Prod.eta _).symm (by decide +kernel)

/-- A listener writes STARTING into the result: the job has ended COMPLETED, and the row of its
step is still in STARTING.  So it is under a FAILED job when a listener before the step throws a
value without a string form. -/
theorem finished_run_may_leave_starting :
    let ended (env : Environment Nat Nat) (phase : ListenerPhase) :=
      ((newPairsRun (jobOf pairsStep [] [listenerOf .step phase])).proceed 5).run (handle env)
        JobLauncher.pairsCreated
    let leaves (env : Environment Nat Nat) (phase : ListenerPhase) (status : JobStatus) :=
      (ended env phase).1.settled = true ∧
      ((ended env phase).2.repo.getJobExecution "r").map (·.status) = some status ∧
      (ended env phase).2.repo.stepExecutions.values.map (·.status) = [.STARTING]
    leaves (restarter [10, 20, 30]) .after .COMPLETED ∧
      leaves (speechlessListener [10, 20, 30]) .before .FAILED := by
  decide +kernel

end JobExecutor

end NestBatch
