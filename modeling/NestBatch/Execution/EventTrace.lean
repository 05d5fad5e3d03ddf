import NestBatch.Execution.JobOutcome

/-!
# The events of a run

The observer is told of a run by the events it emits.  A step leaves two of
them around the run of its executor, and its row agrees with the second; if the
executor throws, there is only the first.
-/

namespace NestBatch

open ListenerInvoker

variable {α β υ : Type}

/-- The event an operation emits. -/
def Op.event? : Op α → Option BatchEvent
  | .emit event => some event
  | _ => none

/-- The events some calls have emitted, in order. -/
def emitted (calls : Calls α) : List BatchEvent := calls.filterMap fun call => call.1.event?

theorem emitted_concat (calls : Calls α) (call : Prog.Call (Op α) Op.Resp) :
    emitted (calls ++ [call]) = emitted calls ++ call.1.event?.toList := by
  unfold emitted
  rw [List.filterMap_append]
  cases h : call.1.event? with
  | none => simp [h]
  | some event => simp [h]

theorem event?_of_kind {o : Op α} (h : o.kind ≠ .emit) : o.event? = none := by
  cases o with
  | emit event => exact absurd rfl h
  | _ => rfl

/-- Neither a row nor an event tells the two states apart. -/
structure Unseen (s s' : World υ × Calls α) : Prop where
  rows : s.1.repo.SameRows s'.1.repo
  events : emitted s'.2 = emitted s.2

namespace Unseen

theorem refl (s : World υ × Calls α) : Unseen s s := ⟨.refl _, rfl⟩

theorem trans {s s' s'' : World υ × Calls α} (h : Unseen s s') (h' : Unseen s' s'') :
    Unseen s s'' := ⟨h.rows.trans h'.rows, h'.events.trans h.events⟩

end Unseen

/-- The kinds of operation that can be seen. -/
def seenKinds : List OpKind := .emit :: rowKinds

theorem unseen_frame (env : Environment α υ) {K : List OpKind} {loops : Prop}
    (h : ∀ k ∈ K, k ∉ seenKinds) (s : World υ × Calls α) :
    (worldLogic env).Frame (On K loops) (Unseen s) where
  guard _ _ _ _ := trivial
  keep o s₁ r s₂ ho hs ht := by
    have hseen := h _ ho
    have hrow : o.kind ∉ rowKinds := fun hmem => hseen (List.mem_cons_of_mem _ hmem)
    have hemit : o.kind ≠ .emit := fun heq => hseen (heq ▸ List.mem_cons_self)
    cases ht
    refine hs.trans ⟨handle_sameRows env hrow s₁.1, ?_⟩
    rw [emitted_concat, event?_of_kind hemit]
    exact List.append_nil _
  loops _ := trivial

/-- Neither a step row nor an event tells the two states apart. -/
structure StepsUnseen (s s' : World υ × Calls α) : Prop where
  idGen : s'.1.repo.idGen = s.1.repo.idGen
  issued : s'.1.repo.issued = s.1.repo.issued
  stepExecutions : s'.1.repo.stepExecutions = s.1.repo.stepExecutions
  events : emitted s'.2 = emitted s.2

namespace StepsUnseen

theorem refl (s : World υ × Calls α) : StepsUnseen s s := ⟨rfl, rfl, rfl, rfl⟩

theorem trans {s s' s'' : World υ × Calls α} (h : StepsUnseen s s') (h' : StepsUnseen s' s'') :
    StepsUnseen s s'' :=
  ⟨h'.idGen.trans h.idGen, h'.issued.trans h.issued, h'.stepExecutions.trans h.stepExecutions,
    h'.events.trans h.events⟩

/-- Steps are filed as before where they are not touched. -/
theorem stepsFiled {s s' : World υ × Calls α} (h : StepsUnseen s s')
    (hfiled : s.1.repo.StepsFiled) : s'.1.repo.StepsFiled where
  own id step hget := hfiled.own id step (h.stepExecutions ▸ hget)
  issued id step hget := by
    rw [h.stepExecutions] at hget
    rw [h.idGen, h.issued]
    exact hfiled.issued id step hget

end StepsUnseen

/-- What is not seen at all leaves the steps alone. -/
theorem Unseen.stepsUnseen {s s' : World υ × Calls α} (h : Unseen s s') : StepsUnseen s s' :=
  ⟨h.rows.idGen, h.rows.issued, h.rows.stepExecutions, h.events⟩

/-- Writing the status of an execution tells nothing of its steps. -/
theorem stepsUnseen_frame (env : Environment α υ) {K : List OpKind} {loops : Prop}
    (h : ∀ k ∈ K, k ≠ .updateJob → k ∉ seenKinds) (s : World υ × Calls α) :
    (worldLogic env).Frame (On K loops) (StepsUnseen s) where
  guard _ _ _ _ := trivial
  keep o s₁ r s₂ ho hs ht := by
    by_cases hupdate : o.kind = .updateJob
    · cases o with
      | updateJobExecution executionId patch =>
          cases ht
          refine hs.trans ?_
          have hsteps : ∀ repo : InMemoryJobRepository,
              (repo.updateJobExecution executionId patch).2.idGen = repo.idGen ∧
              (repo.updateJobExecution executionId patch).2.issued = repo.issued ∧
              (repo.updateJobExecution executionId patch).2.stepExecutions =
                repo.stepExecutions := by
            intro repo
            unfold InMemoryJobRepository.updateJobExecution
            split <;> exact ⟨rfl, rfl, rfl⟩
          obtain ⟨hidGen, hissued, hrows⟩ := hsteps s₁.1.repo
          refine ⟨hidGen, hissued, hrows, ?_⟩
          rw [emitted_concat]
          exact List.append_nil _
      | user call => cases call <;> cases hupdate
      | _ => cases hupdate
    · have hframe : (worldLogic env).Frame (On [o.kind] loops) (Unseen s₁) :=
        unseen_frame env (by simpa using h _ ho hupdate) s₁
      have hunseen := hframe.keep o s₁ r s₂ List.mem_cons_self (.refl s₁) ht
      exact hs.trans hunseen.stepsUnseen
  loops _ := trivial

section Specs

variable {env : Environment α υ} {s : World υ × Calls α}

/-- Code that does nothing to be seen, and what follows it. -/
theorem wp_unseen {K : List OpKind} {p : Code α β} {γ : Type} {f : β → Code α γ}
    {Q : Except Thrown γ → World υ × Calls α → Prop} (hp : p.Uses (Looping K))
    (hK : ∀ k ∈ K, k ∉ seenKinds) (hok : ∀ b s', Unseen s s' → (f b).wp (worldLogic env) Q s')
    (herr : ∀ err s', Unseen s s' → Q (.error err) s') :
    (p >>= f).wp (worldLogic env) Q s :=
  Prog.wp_seq (Prog.wp_of_uses hp (unseen_frame env hK s) (.refl s)) hok herr

/-- Code that does nothing to be seen and does not throw, and what follows it. -/
theorem wp_unseen_returning {K : List OpKind} {p : Code α β} {γ : Type} {f : β → Code α γ}
    {Q : Except Thrown γ → World υ × Calls α → Prop} (hp : p.Uses (Looping K))
    (hret : p.Returns fun _ => True) (hK : ∀ k ∈ K, k ∉ seenKinds)
    (hok : ∀ b s', Unseen s s' → (f b).wp (worldLogic env) Q s') :
    (p >>= f).wp (worldLogic env) Q s := by
  have hframe : (worldLogic env).Frame (Looping K) (Unseen s) := unseen_frame env hK s
  refine Prog.wp_seq (Prog.wp_and (Prog.wp_of_uses hp hframe (.refl s))
    (Prog.wp_of_returns hp hret hframe (.refl s))) ?_ ?_
  · intro b s' h
    exact hok b s' h.1
  · intro err s' h
    obtain ⟨-, b, hb, -⟩ := h
    cases hb

/-- An event at the current time, and what follows it. -/
theorem wp_tell {event : Time → BatchEvent} {p : Code α β}
    {Q : Except Thrown β → World υ × Calls α → Prop}
    (hp : ∀ time s', s.1.repo.SameRows s'.1.repo → emitted s'.2 = emitted s.2 ++ [event time] →
      p.wp (worldLogic env) Q s') :
    (now >>= fun time => emit (event time) >>= fun _ => p).wp (worldLogic env) Q s := by
  refine Prog.wp_bind.mpr (Prog.wp_perform.mpr ⟨trivial, ?_⟩)
  intro time s₁ ht₁
  cases ht₁
  refine Prog.wp_bind.mpr (Prog.wp_perform.mpr ⟨trivial, ?_⟩)
  intro _ s₂ ht₂
  cases ht₂
  apply hp s.1.clock
  · exact .refl _
  · rw [emitted_concat, emitted_concat]
    exact congrArg (· ++ [event s.1.clock]) (List.append_nil _)

/-- An event at the current time, and nothing after it. -/
theorem wp_tell_last {event : Time → BatchEvent}
    {Q : Except Thrown Unit → World υ × Calls α → Prop}
    (hp : ∀ time s', s.1.repo.SameRows s'.1.repo → emitted s'.2 = emitted s.2 ++ [event time] →
      Q (.ok ()) s') :
    (now >>= fun time => emit (event time) : Code α Unit).wp (worldLogic env) Q s := by
  have hlast : (now >>= fun time => emit (event time) : Code α Unit) =
      now >>= fun time => emit (event time) >>= fun _ => .pure () := rfl
  rw [hlast]
  exact wp_tell hp

/-- The step rows of two repositories, but for the row `id`. -/
structure StepRowsKept (id : String) (repo repo' : InMemoryJobRepository) : Prop where
  filed : repo'.StepsFiled
  kept : ∀ id' row, id' ≠ id → repo.stepExecutions.get? id' = some row →
    repo'.stepExecutions.get? id' = some row

theorem StepRowsKept.trans {id : String} {repo repo' repo'' : InMemoryJobRepository}
    (h : StepRowsKept id repo repo') (h' : StepRowsKept id repo' repo'') :
    StepRowsKept id repo repo'' :=
  ⟨h'.filed, fun id' row hne hrow => h'.kept id' row hne (h.kept id' row hne hrow)⟩

/-- Rows that are the same are kept. -/
theorem InMemoryJobRepository.SameRows.stepRowsKept {repo repo' : InMemoryJobRepository}
    (h : repo.SameRows repo') (hfiled : repo.StepsFiled) (id : String) :
    StepRowsKept id repo repo' :=
  ⟨h.stepsFiled hfiled, fun id' row _ hrow => by rw [h.stepExecutions]; exact hrow⟩

/-- The row of the step execution `id`, as a reader sees its status. -/
def StepIn (id : String) (status : StepStatus) (repo : InMemoryJobRepository) : Prop :=
  ∃ row, repo.stepExecutions.get? id = some row ∧ row.status = status

theorem StepIn.congr {id : String} {status : StepStatus} {repo repo' : InMemoryJobRepository}
    (h : StepIn id status repo) (hsame : repo.SameRows repo') : StepIn id status repo' := by
  obtain ⟨row, hrow, hstatus⟩ := h
  exact ⟨row, by rw [hsame.stepExecutions]; exact hrow, hstatus⟩

/-- A new status of a step on file at the current time, and what follows it. -/
theorem wp_markStep {patch : Time → StepExecutionPatch} {p : Code α β} {id : String}
    {before status : StepStatus} {Q : Except Thrown β → World υ × Calls α → Prop}
    (hfiled : s.1.repo.StepsFiled) (hrow : StepIn id before s.1.repo)
    (hpatch : ∀ time, (patch time).status = some status)
    (hp : ∀ s', StepRowsKept id s.1.repo s'.1.repo → StepIn id status s'.1.repo →
      emitted s'.2 = emitted s.2 → p.wp (worldLogic env) Q s') :
    (now >>= fun time => updateStepExecution id (patch time) >>= fun _ => p).wp
      (worldLogic env) Q s := by
  refine Prog.wp_bind.mpr (Prog.wp_perform.mpr ⟨trivial, ?_⟩)
  intro time s₁ ht₁
  cases ht₁
  obtain ⟨row, hget, -⟩ := hrow
  refine Prog.wp_bind.mpr (Prog.wp_bind.mpr (Prog.wp_perform.mpr ⟨trivial, ?_⟩))
  intro r s₂ ht₂
  have hr : (s.1.repo.updateStepExecution id (patch s.1.clock)).1 = r := congrArg Prod.fst ht₂
  have hs₂ : ({ s.1 with clock := s.1.clock + 1
                         repo := (s.1.repo.updateStepExecution id (patch s.1.clock)).2 },
      s.2 ++ [⟨.now, s.1.clock⟩] ++ [⟨.updateStepExecution id (patch s.1.clock),
        (s.1.repo.updateStepExecution id (patch s.1.clock)).1⟩]) = s₂ := congrArg Prod.snd ht₂
  subst hs₂
  have hupdate := hfiled.update id (patch s.1.clock)
  have hok : (s.1.repo.updateStepExecution id (patch s.1.clock)).1 = .ok () ∧
      (s.1.repo.updateStepExecution id (patch s.1.clock)).2.stepExecutions =
        s.1.repo.stepExecutions.set id ((patch s.1.clock).applyTo row) := by
    unfold InMemoryJobRepository.updateStepExecution
    rw [hget]
    exact ⟨rfl, rfl⟩
  rw [hok.1] at hr
  subst hr
  refine (Prog.wp_ofExcept _).mpr (hp _ ⟨hupdate, ?_⟩ ?_ ?_)
  · intro id' row' hne hrow'
    rw [hok.2, JsMap.get?_set_of_ne _ _ hne]
    exact hrow'
  · refine ⟨(patch s.1.clock).applyTo row, ?_, ?_⟩
    · rw [hok.2]
      exact JsMap.get?_set_self _ _ _
    · simp [StepExecutionPatch.applyTo, hpatch]
  · rw [emitted_concat, emitted_concat]
    exact (List.append_nil _).trans (List.append_nil _)

end Specs

/-! ### The events of a step -/

/-- The event announces the start of the step execution `id`. -/
def BatchEvent.StartsStep (event : BatchEvent) (id : String) : Prop :=
  event.type = .STEP_STARTED ∧ event.stepExecutionId = some id

/-- The event announces the end of the step execution `id`, in `status`. -/
def BatchEvent.EndsStep (event : BatchEvent) (id : String) (status : StepStatus) : Prop :=
  event.type = JobExecutor.Run.stepEventType status ∧ event.stepExecutionId = some id

/-- What the run of a step tells: it has started and, if its executor returned,
that it has ended. -/
def StepTold (id : String) (s : World υ × Calls α) (result : Except Thrown StepResult)
    (s' : World υ × Calls α) : Prop :=
  StepRowsKept id s.1.repo s'.1.repo ∧ ∃ started : BatchEvent, started.StartsStep id ∧
    match result with
    | .ok result => ∃ ended : BatchEvent, ended.EndsStep id result.status ∧
        StepIn id result.status s'.1.repo ∧ emitted s'.2 = emitted s.2 ++ [started, ended]
    | .error _ => emitted s'.2 = emitted s.2 ++ [started]

namespace JobExecutor.Run

variable {env : Environment α υ} (R : Run) {s : World υ × Calls α}

/-- **A created step** tells its story. -/
theorem told_runCreated (fuel : Nat) (step : StepDefinition) (stepExecution : StepExecution)
    (resume : Option Int) (hfiled : s.1.repo.StepsFiled) {before : StepStatus}
    (hrow : StepIn stepExecution.id before s.1.repo) :
    (R.runCreated fuel step stepExecution resume : Code α StepResult).wp (worldLogic env)
      (StepTold stepExecution.id s) s := by
  have hquiet : ∀ k ∈ stepKinds, k ∉ seenKinds := by decide
  unfold runCreated
  refine wp_tell ?_
  intro startedAt s₁ hrows₁ hevents₁
  have hkept₁ := hrows₁.stepRowsKept hfiled stepExecution.id
  have hrow₁ := hrow.congr hrows₁
  refine Prog.wp_seq (R := fun result s₂ => ∃ before, StepIn stepExecution.id before s₂.1.repo ∧
    StepRowsKept stepExecution.id s.1.repo s₂.1.repo ∧ emitted s₂.2 = emitted s₁.2) ?_ ?_ ?_
  · refine Prog.wp_tryCatch.mpr (Prog.wp_mono (Prog.wp_of_uses
      (R.uses_dispatch fuel step stepExecution resume) (unseen_frame env hquiet s₁) (.refl s₁)) ?_)
    intro out s₂ h₂
    have hrow₂ := hrow₁.congr h₂.rows
    have hkept₂ := hkept₁.trans (h₂.rows.stepRowsKept hkept₁.filed stepExecution.id)
    cases out with
    | ok result => exact ⟨before, hrow₂, hkept₂, h₂.events⟩
    | error err =>
        refine Prog.wp_bind.mpr ((Prog.wp_ofExcept _).mpr ?_)
        cases err.text with
        | error thrown => exact ⟨before, hrow₂, hkept₂, h₂.events⟩
        | ok exitMessage =>
            refine wp_markStep hkept₂.filed hrow₂ (fun _ => rfl) ?_
            intro s₃ hkept₃ hrow₃ hevents₃
            exact ⟨.FAILED, hrow₃, hkept₂.trans hkept₃, hevents₃.trans h₂.events⟩
  · intro result s₂ h₂
    obtain ⟨before, hrow₂, hkept₂, hevents₂⟩ := h₂
    refine wp_markStep hkept₂.filed hrow₂ (fun _ => rfl) ?_
    intro s₃ hkept₃ hrow₃ hevents₃
    refine wp_tell ?_
    intro emittedAt s₄ hrows₄ hevents₄
    have hkept₄ := hrows₄.stepRowsKept hkept₃.filed stepExecution.id
    rw [hevents₃, hevents₂, hevents₁, List.append_assoc] at hevents₄
    refine ⟨(hkept₂.trans hkept₃).trans hkept₄, _, ?_, _, ?_, hrow₃.congr hrows₄, hevents₄⟩
    · exact ⟨rfl, rfl⟩
    · exact ⟨rfl, rfl⟩
  · intro err s₂ h₂
    obtain ⟨before, -, hkept₂, hevents₂⟩ := h₂
    refine ⟨hkept₂, _, ?_, hevents₂.trans hevents₁⟩
    exact ⟨rfl, rfl⟩

/-- A step tells of a step execution that was not on file before. -/
theorem told_runStep (fuel : Nat) (step : StepDefinition) (hfiled : s.1.repo.StepsFiled) :
    (R.runStep fuel step : Code α (StepExecution × StepResult)).wp (worldLogic env)
      (fun out s' => ∃ id, s.1.repo.stepExecutions.get? id = none ∧
        StepTold id s (out.map (·.2)) s') s := by
  have hlook : ∀ k ∈ [OpKind.findLatestStep, .loadContext], k ∉ seenKinds := by decide
  have hsave : ∀ k ∈ [OpKind.saveContext], k ∉ seenKinds := by decide
  unfold runStep
  refine wp_unseen_returning (R.uses_restartStepContext (by decide) (by decide) step)
    (R.returns_restartStepContext step) hlook ?_
  intro ctx s₁ h₁
  have hfiled₁ := h₁.rows.stepsFiled hfiled
  have hfresh : s.1.repo.stepExecutions.get? s₁.1.repo.nextId = none := by
    rw [← h₁.rows.stepExecutions]
    exact hfiled₁.fresh
  refine Prog.wp_bind.mpr (Prog.wp_perform.mpr ⟨trivial, ?_⟩)
  intro stepExecution s₂ ht₂
  cases ht₂
  refine wp_unseen_returning (uses_copyContext (by decide) _ ctx) (returns_copyContext _ ctx)
    hsave ?_
  intro _ s₃ h₃
  have hfiled₃ := h₃.rows.stepsFiled (hfiled₁.create R.execution.id step.id)
  have hrow₃ : StepIn s₁.1.repo.nextId .STARTING s₃.1.repo := by
    refine StepIn.congr ⟨_, JsMap.get?_set_self _ _ _, ?_⟩ h₃.rows
    rfl
  have hkept₃ : StepRowsKept s₁.1.repo.nextId s.1.repo s₃.1.repo := by
    refine ⟨hfiled₃, ?_⟩
    intro id' row hne hrow
    rw [h₃.rows.stepExecutions]
    refine (JsMap.get?_set_of_ne _ _ hne).trans ?_
    rw [h₁.rows.stepExecutions]
    exact hrow
  have hevents₃ : emitted s₃.2 = emitted s.2 := by
    rw [h₃.events, emitted_concat]
    exact (List.append_nil _).trans h₁.events
  refine Prog.wp_seq (R.told_runCreated fuel step _ _ hfiled₃ hrow₃) ?_ ?_
  · intro result s₄ h₄
    obtain ⟨hkept₄, started, hstarted, ended, hended, hrow₄, hevents₄⟩ := h₄
    rw [hevents₃] at hevents₄
    exact ⟨_, hfresh, hkept₃.trans hkept₄, started, hstarted, ended, hended, hrow₄, hevents₄⟩
  · intro err s₄ h₄
    obtain ⟨hkept₄, started, hstarted, hevents₄⟩ := h₄
    rw [hevents₃] at hevents₄
    exact ⟨_, hfresh, hkept₃.trans hkept₄, started, hstarted, hevents₄⟩

end JobExecutor.Run

end NestBatch
