import Mathlib.Data.List.Perm.Subperm
import NestBatch.Execution.EventBrackets
import NestBatch.Lib.Walk

/-!
# How often the step loop executes a step

The validator rejects cycles of declared transitions, but the step loop also
falls back to the next step in declaration order.  The loop is a walk over the
steps whose choices are the outcomes of the step runs; it executes every step at
most once exactly when the moves of both kinds together lead back nowhere.
-/

namespace NestBatch

open JobExecutor.Run

variable {α υ : Type}

/-- How the run of a step comes out, and what its decider answers if it has one. -/
structure StepOutcome where
  result : StepResult
  ends : StepEnds result.status
  answer : String

/-- Every step completes, and every decider has nothing to say. -/
def StepOutcome.completed : StepOutcome where
  result := { status := .COMPLETED, exitCode := "COMPLETED", exitMessage := "", readCount := 0
              writeCount := 0, skipCount := 0, commitCount := none }
  ends := Or.inl rfl
  answer := ""

instance : Nonempty StepOutcome := ⟨.completed⟩

namespace JobDefinition

variable (jobDef : JobDefinition)

/-- What the step loop makes of the answer of a decider. -/
def deciderStatus (stepId answer : String) : Option String :=
  match jobDef.deciders.find? fun d => d.afterStepId = stepId with
  | none => none
  | some _ => if jsTrim answer = "" then none else some (jsTrim answer)

/-- The decision of the step loop after a step that came out so. -/
def decision (stepId : String) (outcome : StepOutcome) : Except Thrown Next :=
  nextStep jobDef stepId (jobDef.deciderStatus stepId outcome.answer) outcome.result

/-- The steps that the step loop executes from `stepId` on when its runs come out as
`outcomes`; `none` while it is still going on. -/
def stepsUnder (outcomes : Nat → StepOutcome) : Nat → Nat → String → Option (List String)
  | 0, _, _ => none
  | fuel + 1, i, stepId =>
      match jobDef.step? stepId with
      | none => some []
      | some _ =>
          match jobDef.decision stepId (outcomes i) with
          | .ok (.goto next) => (stepsUnder outcomes fuel (i + 1) next).map (stepId :: ·)
          | _ => some [stepId]

/-- The step of a name, if there is one. -/
def stepAt? (stepId : String) : Option String :=
  if (jobDef.step? stepId).isSome then some stepId else none

/-- The step loop as a walk over the steps. -/
def stepWalk : Walk String StepOutcome where
  entry := jobDef.stepAt? jobDef.startStepId
  move stepId outcome :=
    match jobDef.decision stepId outcome with
    | .ok (.goto next) => jobDef.stepAt? next
    | _ => none

/-- The step loop ends, having executed every step at most once. -/
def ExecutesOnce (outcomes : Nat → StepOutcome) : Prop :=
  ∃ fuel steps, jobDef.stepsUnder outcomes fuel 0 jobDef.startStepId = some steps ∧
    steps.Nodup ∧ steps.length ≤ jobDef.stepOrder.length

variable {jobDef} {outcomes : Nat → StepOutcome}

/-- The steps executed are the positions of the walk. -/
theorem visits_of_stepsUnder {fuel i : Nat} {stepId : String} {steps : List String}
    (hat : jobDef.stepWalk.visits outcomes i = jobDef.stepAt? stepId)
    (h : jobDef.stepsUnder outcomes fuel i stepId = some steps) (k : Nat) :
    jobDef.stepWalk.visits outcomes (i + k) = steps[k]? := by
  induction fuel generalizing i stepId steps k with
  | zero => cases h
  | succ fuel ih =>
      unfold stepsUnder at h
      cases hstep : jobDef.step? stepId with
      | none =>
          rw [hstep] at h
          cases h
          have hnone : jobDef.stepWalk.visits outcomes i = none := by
            rw [hat, stepAt?, hstep]
            rfl
          rw [Walk.visits_add_of_none hnone]
          rfl
      | some step =>
          rw [hstep] at h
          have hsome : jobDef.stepWalk.visits outcomes i = some stepId := by
            rw [hat, stepAt?, hstep]
            rfl
          have hmove : jobDef.stepWalk.visits outcomes (i + 1) =
              jobDef.stepWalk.move stepId (outcomes i) := by
            rw [Walk.visits, hsome]
            rfl
          have hlast (hend : jobDef.stepWalk.visits outcomes (i + 1) = none) :
              jobDef.stepWalk.visits outcomes (i + k) = [stepId][k]? := by
            cases k with
            | zero => exact hsome
            | succ k =>
                have hk : i + (k + 1) = i + 1 + k := by omega
                rw [hk, Walk.visits_add_of_none hend]
                rfl
          dsimp only at h
          unfold stepWalk at hmove
          dsimp only at hmove
          cases hdecision : jobDef.decision stepId (outcomes i) with
          | error err =>
              rw [hdecision] at h hmove
              cases h
              exact hlast hmove
          | ok next =>
              rw [hdecision] at h hmove
              cases next with
              | finish =>
                  cases h
                  exact hlast hmove
              | fail =>
                  cases h
                  exact hlast hmove
              | goto next =>
                  obtain ⟨rest, hrest, heq⟩ := Option.map_eq_some_iff.mp h
                  subst heq
                  cases k with
                  | zero => exact hsome
                  | succ k =>
                      have hk : i + (k + 1) = i + 1 + k := by omega
                      rw [hk]
                      exact ih hmove hrest k

/-- Where the walk has ended the step loop has, too. -/
theorem stepsUnder_of_visits {n i : Nat} {stepId : String}
    (hat : jobDef.stepWalk.visits outcomes i = jobDef.stepAt? stepId)
    (h : jobDef.stepWalk.visits outcomes (i + n) = none) :
    ∃ steps, jobDef.stepsUnder outcomes (n + 1) i stepId = some steps := by
  induction n generalizing i stepId with
  | zero =>
      unfold stepsUnder
      cases hstep : jobDef.step? stepId with
      | none => exact ⟨[], rfl⟩
      | some step =>
          rw [Nat.add_zero, hat, stepAt?, hstep] at h
          cases h
  | succ n ih =>
      unfold stepsUnder
      cases hstep : jobDef.step? stepId with
      | none => exact ⟨[], rfl⟩
      | some step =>
          have hmove : jobDef.stepWalk.visits outcomes (i + 1) =
              jobDef.stepWalk.move stepId (outcomes i) := by
            rw [Walk.visits, hat, stepAt?, hstep]
            rfl
          unfold stepWalk at hmove
          dsimp only at hmove ⊢
          cases hdecision : jobDef.decision stepId (outcomes i) with
          | error err => exact ⟨[stepId], rfl⟩
          | ok next =>
              rw [hdecision] at hmove
              cases next with
              | finish => exact ⟨[stepId], rfl⟩
              | fail => exact ⟨[stepId], rfl⟩
              | goto next =>
                  have hn : i + (n + 1) = i + 1 + n := by omega
                  rw [hn] at h
                  obtain ⟨steps, hsteps⟩ := ih hmove h
                  exact ⟨stepId :: steps, congrArg (Option.map (stepId :: ·)) hsteps⟩

/-- The loop executes every step once when its walk visits every step once. -/
theorem executesOnce_iff : jobDef.ExecutesOnce outcomes ↔
    jobDef.stepWalk.VisitsOnce jobDef.stepOrder.length outcomes := by
  constructor
  · intro h
    obtain ⟨fuel, steps, hsteps, hnodup, hlength⟩ := h
    have hvisits : ∀ k, jobDef.stepWalk.visits outcomes k = steps[k]? := by
      intro k
      have hk := visits_of_stepsUnder rfl hsteps k
      rwa [Nat.zero_add] at hk
    constructor
    · intro i j stepId hi hj
      rw [hvisits] at hi hj
      obtain ⟨hlt, hget⟩ := List.getElem?_eq_some_iff.mp hi
      obtain ⟨hlt', hget'⟩ := List.getElem?_eq_some_iff.mp hj
      exact (hnodup.getElem_inj_iff).mp (hget.trans hget'.symm)
    · rw [hvisits]
      exact List.getElem?_eq_none hlength
  · intro h
    obtain ⟨hinj, hend⟩ := h
    obtain ⟨steps, hsteps⟩ := stepsUnder_of_visits (i := 0) rfl (by rwa [Nat.zero_add])
    have hvisits : ∀ k, jobDef.stepWalk.visits outcomes k = steps[k]? := by
      intro k
      have hk := visits_of_stepsUnder rfl hsteps k
      rwa [Nat.zero_add] at hk
    refine ⟨_, steps, hsteps, ?_, ?_⟩
    · rw [List.nodup_iff_injective_getElem]
      intro i j heq
      apply Fin.ext
      apply hinj i j steps[i]
      · rw [hvisits, List.getElem?_eq_getElem i.2]
        rfl
      · rw [hvisits, List.getElem?_eq_getElem j.2]
        exact congrArg some heq.symm
    · rw [hvisits] at hend
      exact List.getElem?_eq_none_iff.mp hend

/-- **When the step loop terminates whatever its steps do**: exactly when its moves, along
transitions and in declaration order, lead back to no step, nor past the steps of the job. -/
theorem executes_once_iff (jobDef : JobDefinition) :
    (∀ outcomes, jobDef.ExecutesOnce outcomes) ↔
      jobDef.stepWalk.NoReturn ∧ jobDef.stepWalk.Fits jobDef.stepOrder.length := by
  rw [← Walk.visitsOnce_iff]
  exact forall_congr' fun outcomes => executesOnce_iff

/-! ### What the moves are -/

/-- An evaluation that goes to a step takes one of the transitions. -/
theorem evaluate_target {transitions : List TransitionDefinition} {stepId status next : String}
    (h : FlowEvaluator.evaluate transitions stepId status = .ok (some next)) :
    ∃ t ∈ transitions, t.fromStepId = stepId ∧ t.toStepId = some next := by
  unfold FlowEvaluator.evaluate at h
  dsimp only at h
  split at h
  · cases h
  · next t hbest =>
      have hmem : t ∈ [t] := List.mem_singleton_self t
      rw [← hbest] at hmem
      have hcandidate := List.mem_filter.mp (List.mem_of_mem_filter hmem)
      have hmatch := hcandidate.2
      unfold FlowEvaluator.isMatch at hmatch
      rw [Bool.and_eq_true, decide_eq_true_eq] at hmatch
      exact ⟨t, hcandidate.1, hmatch.1, Except.ok.inj h⟩
  · cases h

/-- A target that the flow chooses is the target of a declared transition from that step. -/
theorem transitionTarget_target {stepId exitStatus flowStatus next : String}
    (h : transitionTarget jobDef stepId exitStatus flowStatus = .ok (some (some next))) :
    ∃ t ∈ jobDef.transitions, t.fromStepId = stepId ∧ t.toStepId = some next := by
  unfold transitionTarget at h
  cases hexit : FlowEvaluator.evaluate jobDef.transitions stepId exitStatus with
  | error err =>
      rw [hexit] at h
      cases h
  | ok target =>
      rw [hexit] at h
      simp only [bind, Except.bind, pure, Except.pure] at h
      split at h
      · cases h
        exact evaluate_target hexit
      · split at h
        · cases hflow : FlowEvaluator.evaluate jobDef.transitions stepId flowStatus with
          | error err =>
              rw [hflow] at h
              cases h
          | ok target' =>
              rw [hflow] at h
              dsimp only at h
              split at h
              · cases h
                exact evaluate_target hflow
              · cases h
        · cases h

/-- The step loop goes where a transition points, or on in declaration order. -/
theorem nextStep_goto {stepId next : String} {decider : Option String} {result : StepResult}
    (h : nextStep jobDef stepId decider result = .ok (.goto next)) :
    transitionTarget jobDef stepId (flowExitStatus decider result)
        (flowStatus result.status).value = .ok (some (some next)) ∨
      linearNext jobDef stepId = some next := by
  have hofTarget : ∀ {target : Option String}, Next.ofTarget target = .goto next →
      target = some next := by
    intro target htarget
    cases target with
    | none => cases htarget
    | some target => exact congrArg some (Next.goto.inj htarget)
  unfold nextStep at h
  cases htarget : transitionTarget jobDef stepId (flowExitStatus decider result)
      (flowStatus result.status).value with
  | error err =>
      rw [htarget] at h
      cases h
  | ok target =>
      rw [htarget] at h
      cases target with
      | none =>
          by_cases hfailed : result.status = .FAILED
          · simp [hfailed, bind, Except.bind, pure, Except.pure] at h
          · simp only [bind, Except.bind, pure, Except.pure, hfailed, if_false] at h
            exact Or.inr (hofTarget (Except.ok.inj h))
      | some target =>
          simp only [bind, Except.bind, pure, Except.pure] at h
          rw [hofTarget (Except.ok.inj h)]
          exact Or.inl rfl

/-- A move follows a transition or the declaration order. -/
theorem target_of_decision {stepId next : String} {outcome : StepOutcome}
    (h : jobDef.decision stepId outcome = .ok (.goto next)) :
    (∃ t ∈ jobDef.transitions, t.fromStepId = stepId ∧ t.toStepId = some next) ∨
      linearNext jobDef stepId = some next := by
  rcases nextStep_goto h with htarget | hlinear
  · exact Or.inl (transitionTarget_target htarget)
  · exact Or.inr hlinear

/-- The declaration order leads to declared steps. -/
theorem mem_of_linearNext {stepId next : String} (h : linearNext jobDef stepId = some next) :
    next ∈ jobDef.stepOrder := by
  unfold linearNext at h
  split at h
  · exact List.mem_of_getElem? h
  · exact List.mem_of_getElem? h

/-- A job that starts at a declared step and names declared steps in its transitions has no
path without repetition that is longer than it has steps. -/
theorem fits_of_declared (hstart : jobDef.startStepId ∈ jobDef.stepOrder)
    (htargets : ∀ t ∈ jobDef.transitions, ∀ stepId, t.toStepId = some stepId →
      stepId ∈ jobDef.stepOrder) :
    jobDef.stepWalk.Fits jobDef.stepOrder.length := by
  have hat : ∀ {stepId found : String}, jobDef.stepAt? stepId = some found → found = stepId := by
    intro stepId found hfound
    unfold stepAt? at hfound
    split at hfound
    · exact (Option.some.inj hfound).symm
    · cases hfound
  have hdeclared : ∀ path, jobDef.stepWalk.Path path → ∀ stepId ∈ path,
      stepId ∈ jobDef.stepOrder := by
    intro path hpath
    induction hpath with
    | entry hentry =>
        intro stepId hmem
        rw [List.mem_singleton.mp hmem, hat hentry]
        exact hstart
    | @step a b rest _ hmove ih =>
        intro stepId hmem
        rcases List.mem_cons.mp hmem with heq | hmem
        · subst heq
          obtain ⟨outcome, hgoto⟩ := hmove
          unfold stepWalk at hgoto
          dsimp only at hgoto
          split at hgoto
          · next next hdecision =>
              rw [hat hgoto]
              rcases target_of_decision hdecision with ⟨t, ht, -, hto⟩ | hlinear
              · exact htargets t ht next hto
              · exact mem_of_linearNext hlinear
          · cases hgoto
        · exact ih stepId hmem
  intro path hpath hnodup
  exact (hnodup.subperm (hdeclared path hpath)).length_le

end JobDefinition

/-! ### Runs of the step loop -/

namespace JobExecutor.Run

variable (R : Run) {env : Environment α υ} {loopFuel fuel : Nat} {stepId : String} {w : World υ}

/-- Wherever the step loop comes to, the step's executor returns, COMPLETED or FAILED. -/
def StepsReturn (env : Environment α υ) (loopFuel : Nat) : Nat → String → World υ → Prop
  | 0, _, _ => True
  | fuel + 1, stepId, w => ∀ step, R.jobDef.step? stepId = some step →
      (∃ ran w', (R.runStep loopFuel step : Code α _).run (handle env) w = (.returned ran, w') ∧
        StepEnds ran.2.status) ∧
      ∀ next result w', (R.visit loopFuel stepId step : Code α _).run (handle env) w =
        (.returned (.goto next, result), w') → StepsReturn env loopFuel fuel next w'

/-- The steps that a run of the step loop executes within its fuel. -/
def executedSteps (env : Environment α υ) (loopFuel : Nat) :
    Nat → String → World υ → List String
  | 0, _, _ => []
  | fuel + 1, stepId, w =>
      match R.jobDef.step? stepId with
      | none => []
      | some step =>
          stepId :: match (R.visit loopFuel stepId step : Code α _).run (handle env) w with
          | (.returned (.goto next, _), w') => executedSteps env loopFuel fuel next w'
          | _ => []

/-- What a decider comes to is what it answers, trimmed. -/
theorem wp_resolveDecider_answer (stepId : String) (ctx : DeciderContext) :
    (R.resolveDeciderExitStatus stepId ctx : Code α (Option String)).wp (rowLogic env)
      (fun out _ => ∀ decider, out = .ok decider →
        ∃ answer, decider = R.jobDef.deciderStatus stepId answer) w := by
  unfold resolveDeciderExitStatus JobDefinition.deciderStatus
  cases R.jobDef.deciders.find? fun d => d.afterStepId = stepId with
  | none =>
      intro decider hout
      cases hout
      exact ⟨"", rfl⟩
  | some d =>
      refine Prog.wp_bind.mpr (Prog.wp_bind.mpr (Prog.wp_perform.mpr ⟨trivial, ?_⟩))
      intro answered w₁ _
      refine (Prog.wp_ofExcept _).mpr ?_
      cases answered with
      | error err =>
          intro decider hout
          cases hout
      | ok answer =>
          intro decider hout
          cases hout
          exact ⟨answer, rfl⟩

/-- A turn whose step returns settles, and decides on the result of the step. -/
theorem visit_decides {step : StepDefinition} {ran : StepExecution × StepResult} {w₁ w₂ : World υ}
    {out : Prog.Outcome Thrown (Next × StepResult)}
    (hran : (R.runStep loopFuel step : Code α _).run (handle env) w = (.returned ran, w₁))
    (hturn : (R.visit loopFuel stepId step : Code α _).run (handle env) w = (out, w₂)) :
    out.settled ∧ ∀ next result, out = .returned (next, result) →
      ∃ answer,
        nextStep R.jobDef stepId (R.jobDef.deciderStatus stepId answer) ran.2 = .ok next := by
  unfold visit at hturn
  rw [Prog.run_bind, hran] at hturn
  dsimp only at hturn
  have hdecide : (R.resolveDeciderExitStatus stepId
      { jobExecution := R.execution, stepId := step.id, stepExecutionId := ran.1.id
        stepStatus := ran.2.status, exitCode := ran.2.exitCode
        exitMessage := ran.2.exitMessage } >>= fun decider =>
      Prog.ofExcept (nextStep R.jobDef stepId decider ran.2) >>= fun next =>
        .pure (next, ran.2) : Code α (Next × StepResult)).Uses (On [.decide]) :=
    (R.uses_resolveDecider (by decide) _ _).bind fun _ =>
      (Prog.uses_ofExcept _).bind fun _ => trivial
  have hsettled := Prog.settled_of_uses (handle env) hdecide id w₁
  have hwp : (R.resolveDeciderExitStatus stepId
      { jobExecution := R.execution, stepId := step.id, stepExecutionId := ran.1.id
        stepStatus := ran.2.status, exitCode := ran.2.exitCode
        exitMessage := ran.2.exitMessage } >>= fun decider =>
      Prog.ofExcept (nextStep R.jobDef stepId decider ran.2) >>= fun next =>
        .pure (next, ran.2) : Code α (Next × StepResult)).wp (rowLogic env)
      (fun out _ => ∀ next result, out = .ok (next, result) → ∃ answer,
        nextStep R.jobDef stepId (R.jobDef.deciderStatus stepId answer) ran.2 = .ok next) w₁ := by
    refine Prog.wp_seq (R.wp_resolveDecider_answer stepId _) ?_ ?_
    · intro decider w' hanswer
      obtain ⟨answer, heq⟩ := hanswer decider rfl
      subst heq
      refine Prog.wp_bind.mpr ((Prog.wp_ofExcept _).mpr ?_)
      cases hnext : nextStep R.jobDef stepId (R.jobDef.deciderStatus stepId answer) ran.2 with
      | error err =>
          intro next result hout
          cases hout
      | ok next' =>
          intro next result hout
          cases hout
          exact ⟨answer, hnext⟩
    · intro err w' _ next result hout
      cases hout
  have hdecides := Prog.wp_run hwp
  rw [hturn] at hsettled hdecides
  refine ⟨hsettled, ?_⟩
  intro next result hout
  subst hout
  exact hdecides next result rfl

/-- A turn whose step returns and that goes on makes a move of the walk. -/
theorem moves_of_visit {step : StepDefinition} {ran : StepExecution × StepResult} {w₁ w₂ : World υ}
    {next : String} {result : StepResult} {found : StepDefinition}
    (hran : (R.runStep loopFuel step : Code α _).run (handle env) w = (.returned ran, w₁))
    (hends : StepEnds ran.2.status)
    (hturn : (R.visit loopFuel stepId step : Code α _).run (handle env) w =
      (.returned (.goto next, result), w₂))
    (hfound : R.jobDef.step? next = some found) : R.jobDef.stepWalk.Moves stepId next := by
  obtain ⟨-, hdecides⟩ := R.visit_decides hran hturn
  obtain ⟨answer, hgoto⟩ := hdecides _ _ rfl
  have hdecision : R.jobDef.decision stepId ⟨ran.2, hends, answer⟩ = .ok (.goto next) := hgoto
  refine ⟨⟨ran.2, hends, answer⟩, ?_⟩
  unfold JobDefinition.stepWalk
  dsimp only
  rw [hdecision]
  dsimp only
  rw [JobDefinition.stepAt?, hfound]
  rfl

/-- The steps executed continue a path of the walk. -/
theorem path_executedSteps (h : R.StepsReturn env loopFuel fuel stepId w) {path : List String}
    (hat : ∀ step, R.jobDef.step? stepId = some step → R.jobDef.stepWalk.Path (stepId :: path)) :
    R.executedSteps env loopFuel fuel stepId w = [] ∨
      R.jobDef.stepWalk.Path ((R.executedSteps env loopFuel fuel stepId w).reverse ++ path) := by
  induction fuel generalizing stepId w path with
  | zero => exact Or.inl rfl
  | succ fuel ih =>
      unfold executedSteps
      cases hstep : R.jobDef.step? stepId with
      | none => exact Or.inl rfl
      | some step =>
          apply Or.inr
          have hpath := hat step hstep
          obtain ⟨⟨ran, w₁, hran, hends⟩, hnext⟩ := h step hstep
          dsimp only
          split
          · next next result w₂ hturn =>
              have hlater := ih (hnext next result w₂ hturn)
                fun found hfound => .step hpath (R.moves_of_visit hran hends hturn hfound)
              rcases hlater with hnil | hlater
              · rw [hnil]
                exact hpath
              · rw [List.reverse_cons, List.append_assoc]
                exact hlater
          · exact hpath

/-- A run whose steps return settles when its fuel outlasts the steps it executes. -/
theorem settled_of_executedSteps (h : R.StepsReturn env loopFuel fuel stepId w)
    (hlt : (R.executedSteps env loopFuel fuel stepId w).length < fuel) :
    ((R.stepLoop loopFuel fuel stepId : Code α JobStatus).run (handle env) w).1.settled := by
  have hfails : ∀ (exitCode exitMessage : String) (w' : World υ),
      ((R.failJob exitCode exitMessage : Code α JobStatus).run (handle env) w').1.settled := by
    intro exitCode exitMessage w'
    have huses : (R.failJob exitCode exitMessage : Code α JobStatus).Uses
        (On [.clock, .updateJob]) := R.uses_failJob (by decide) (by decide) _ _
    exact Prog.settled_of_uses (handle env) huses id w'
  induction fuel generalizing stepId w with
  | zero => exact absurd hlt (Nat.not_lt_zero _)
  | succ fuel ih =>
      cases hstep : R.jobDef.step? stepId with
      | none =>
          unfold stepLoop
          rw [hstep]
          exact hfails _ _ w
      | some step =>
          obtain ⟨⟨ran, w₁, hran, -⟩, hnext⟩ := h step hstep
          unfold executedSteps at hlt
          rw [hstep] at hlt
          rw [R.stepLoop_some hstep, Prog.run_bind]
          cases hturn : (R.visit loopFuel stepId step : Code α _).run (handle env) w with
          | mk out w₂ =>
              have hsettled := (R.visit_decides hran hturn).1
              cases out with
              | stuck => cases hsettled
              | threw err => rfl
              | returned turn =>
                  obtain ⟨next, result⟩ := turn
                  cases next with
                  | finish => rfl
                  | fail => exact hfails _ _ w₂
                  | goto next =>
                      dsimp only at hlt
                      rw [hturn, List.length_cons] at hlt
                      exact ih (hnext next result w₂ hturn) (Nat.lt_of_succ_lt_succ hlt)

end JobExecutor.Run

/-- Every run of the step loop whose step runs terminate executes every step at most once, and
ends within the number of steps. -/
def JobDefinition.RunsOnce (jobDef : JobDefinition) : Prop :=
  ∀ {α υ : Type} (env : Environment α υ) (R : JobExecutor.Run) (loopFuel : Nat) (w : World υ),
    R.jobDef = jobDef →
    R.StepsReturn env loopFuel (jobDef.stepOrder.length + 1) jobDef.startStepId w →
    let steps := R.executedSteps env loopFuel (jobDef.stepOrder.length + 1) jobDef.startStepId w
    let loop : Code α JobStatus :=
      R.stepLoop loopFuel (jobDef.stepOrder.length + 1) jobDef.startStepId
    steps.Nodup ∧ steps.length ≤ jobDef.stepOrder.length ∧ (loop.run (handle env) w).1.settled

/-- Where no way leads back and the step count fits, no step of the job can run twice. -/
theorem JobDefinition.runsOnce {jobDef : JobDefinition} (hreturn : jobDef.stepWalk.NoReturn)
    (hfits : jobDef.stepWalk.Fits jobDef.stepOrder.length) : jobDef.RunsOnce := by
  intro α υ env R loopFuel w hjob hsteps
  subst hjob
  have hat : ∀ step, R.jobDef.step? R.jobDef.startStepId = some step →
      R.jobDef.stepWalk.Path [R.jobDef.startStepId] := by
    intro step hstep
    apply Walk.Path.entry
    change R.jobDef.stepAt? _ = _
    rw [stepAt?, hstep]
    rfl
  have honce : (R.executedSteps env loopFuel (R.jobDef.stepOrder.length + 1)
      R.jobDef.startStepId w).Nodup ∧
      (R.executedSteps env loopFuel (R.jobDef.stepOrder.length + 1)
        R.jobDef.startStepId w).length ≤ R.jobDef.stepOrder.length := by
    rcases R.path_executedSteps hsteps hat with hnil | hpath
    · rw [hnil]
      exact ⟨List.nodup_nil, Nat.zero_le _⟩
    · rw [List.append_nil] at hpath
      have hnodup := hpath.nodup hreturn
      have hlength := hfits _ hpath hnodup
      rw [List.length_reverse] at hlength
      exact ⟨List.nodup_reverse.mp hnodup, hlength⟩
  exact ⟨honce.1, honce.2, R.settled_of_executedSteps hsteps (Nat.lt_succ_of_le honce.2)⟩

/-- **When a job terminates whatever its steps do**: exactly when the moves of its step loop,
along transitions and in declaration order, lead back to no step that it can reach. -/
theorem step_loop_terminates_iff (jobDef : JobDefinition) :
    ((∀ outcomes, jobDef.ExecutesOnce outcomes) ∧ jobDef.RunsOnce) ↔
      jobDef.stepWalk.NoReturn ∧ jobDef.stepWalk.Fits jobDef.stepOrder.length := by
  rw [← jobDef.executes_once_iff]
  refine ⟨And.left, fun honce => ⟨honce, ?_⟩⟩
  obtain ⟨hreturn, hfits⟩ := jobDef.executes_once_iff.mp honce
  exact JobDefinition.runsOnce hreturn hfits

/-- Two steps declared in one order and joined by a transition in the other. -/
def backToFront : JobDefinition where
  id := "backToFront"
  steps :=
    let step (stepId : String) : StepDefinition :=
      .tasklet { id := stepId, tasklet := { kind := .BuilderLambda, fn := some 0 } }
    (JsMap.empty.set "second" (step "second")).set "first" (step "first")
  startStepId := "first"
  transitions := [{ fromStepId := "first", onStatus := "COMPLETED", toStepId := some "second" }]
  restartable := true

/-- An accepted job whose steps complete executes the first of them again. -/
theorem accepted_job_may_return :
    DefinitionValidator.validate backToFront = .ok () ∧
    ¬ ((∀ outcomes, backToFront.ExecutesOnce outcomes) ∧ backToFront.RunsOnce) := by
  refine ⟨by decide +kernel, fun h => ?_⟩
  have honce := JobDefinition.executesOnce_iff.mp (h.1 fun _ => .completed)
  have htwice := honce.1 0 2 "first" (by decide +kernel) (by decide +kernel)
  omega

end NestBatch
