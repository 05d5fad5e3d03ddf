import NestBatch.Execution.JobFootprint
import NestBatch.Execution.ThrownTexts
import NestBatch.Execution.WorldRules

/-!
# How a run ends

What a run of the job executor leaves in the row of its execution: once the
`before:job` listeners have let the run in, the row ends COMPLETED or FAILED, in
agreement with the status that the run announces, unless the `catch` block throws
itself because the error it caught has no string form.  Then the row is left as it
was.
-/

namespace NestBatch

variable {α β υ : Type}

/-- The logic of the operations as they are. -/
def rowLogic (env : Environment α υ) : Prog.Logic (Op α) Op.Resp (World υ) :=
  (handle env).logic fun _ _ => True

/-- A program ends as its run does. -/
theorem wp_as_run (env : Environment α υ) (p : Code α β) (w : World υ) :
    p.wp (rowLogic env) (fun out w' => p.run (handle env) w = (.ended out, w')) w :=
  Prog.wp_self (fun _ _ => trivial) p w

/-- Rows of executions are filed under their own id. -/
def InMemoryJobRepository.ExecutionsFiled (repo : InMemoryJobRepository) : Prop :=
  ∀ id row, repo.executions.get? id = some row → row.id = id

/-- The execution is on file. -/
def OnFile (e : String) (w : World υ) : Prop :=
  ∃ row, w.repo.getJobExecution e = some row ∧ row.id = e

/-- The execution is on file, in `status`. -/
def Recorded (e : String) (status : JobStatus) (w : World υ) : Prop :=
  ∃ row, w.repo.getJobExecution e = some row ∧ row.id = e ∧ row.status = status

/-- A status is on record when the row shows it under its own id. -/
theorem recorded_iff {e : String} {status : JobStatus} {w : World υ} : Recorded e status w ↔
    (w.repo.getJobExecution e).map (fun row => (row.id, row.status)) = some (e, status) := by
  rw [Option.map_eq_some_iff]
  constructor
  · intro h
    obtain ⟨row, hrow, hid, hstatus⟩ := h
    exact ⟨row, hrow, by rw [hid, hstatus]⟩
  · intro h
    obtain ⟨row, hrow, hpair⟩ := h
    cases hpair
    exact ⟨row, hrow, rfl, rfl⟩

instance (e : String) (status : JobStatus) (w : World υ) : Decidable (Recorded e status w) :=
  decidable_of_iff _ recorded_iff.symm

/-- What is on record is on file. -/
theorem Recorded.onFile {e : String} {status : JobStatus} {w : World υ}
    (h : Recorded e status w) : OnFile e w := by
  obtain ⟨row, hrow, hid, -⟩ := h
  exact ⟨row, hrow, hid⟩

/-- What is on file has a status on record. -/
theorem OnFile.recorded {e : String} {w : World υ} (h : OnFile e w) :
    ∃ status, Recorded e status w := by
  obtain ⟨row, hrow, hid⟩ := h
  exact ⟨row.status, row, hrow, hid, rfl⟩

/-- Two statuses of one row are one. -/
theorem Recorded.unique {e : String} {status status' : JobStatus} {w : World υ}
    (h : Recorded e status w) (h' : Recorded e status' w) : status = status' := by
  obtain ⟨row, hrow, -, hstatus⟩ := h
  obtain ⟨row', hrow', -, hstatus'⟩ := h'
  rw [hrow] at hrow'
  cases hrow'
  exact hstatus.symm.trans hstatus'

section Frames

variable {e : String} {status : JobStatus}

/-- Only a launch and a status write touch the rows of executions. -/
theorem handle_executions (env : Environment α υ) {o : Op α}
    (hcreate : o.kind ≠ .createExecution) (hupdate : o.kind ≠ .updateJob) (w : World υ) :
    (handle env o w).2.repo.executions = w.repo.executions := by
  cases o with
  | createExecutionAtomic => exact absurd rfl hcreate
  | updateJobExecution => exact absurd rfl hupdate
  | updateStepExecution stepExecutionId patch =>
      change (w.repo.updateStepExecution stepExecutionId patch).2.executions = _
      unfold InMemoryJobRepository.updateStepExecution
      split <;> rfl
  | user call =>
      change (handleUser env call w).2.repo.executions = _
      unfold handleUser
      cases call.stepScope with
      | none => rfl
      | some id => exact (sameRows_saveAll _ _ _).executions
  | enqueue payload =>
      simp only [handle]
      split <;> rfl
  | _ => rfl

/-- A launch files the execution it creates under its id. -/
theorem InMemoryJobRepository.ExecutionsFiled.create {repo : InMemoryJobRepository}
    (h : repo.ExecutionsFiled) (now : Time) (name jobKey : String) (params : JobParameters) :
    (repo.createExecutionAtomic now name jobKey params).2.ExecutionsFiled := by
  have hframe := repo.getOrCreateJobInstance_frame now name jobKey
  intro id row hget
  unfold createExecutionAtomic at hget
  dsimp only at hget
  split at hget
  · rw [hframe.1] at hget
    exact h id row hget
  · simp only [createJobExecution, JsMap.get?_set] at hget
    split at hget
    · next hid =>
        cases hget
        exact hid.symm
    · rw [hframe.1] at hget
      exact h id row hget

/-- An update leaves executions filed. -/
theorem InMemoryJobRepository.ExecutionsFiled.update {repo : InMemoryJobRepository}
    (h : repo.ExecutionsFiled) (executionId : String) (patch : JobExecutionPatch) :
    (repo.updateJobExecution executionId patch).2.ExecutionsFiled := by
  unfold updateJobExecution
  cases hcur : repo.executions.get? executionId with
  | none => exact h
  | some cur =>
      intro id row hget
      rw [JsMap.get?_set] at hget
      split at hget
      · next hid =>
          cases hget
          exact (h executionId cur hcur).trans hid.symm
      · exact h id row hget

/-- Executions stay filed under their own id, whatever is run. -/
theorem executionsFiled_run (env : Environment α υ) (p : Code α β) {w : World υ}
    (h : w.repo.ExecutionsFiled) : (p.run (handle env) w).2.repo.ExecutionsFiled := by
  induction p generalizing w with
  | pure a => exact h
  | throw err => exact h
  | spin => exact h
  | op o k ih =>
      refine ih (handle env o w).1 ?_
      by_cases hcreate : o.kind = .createExecution
      · cases o with
        | createExecutionAtomic name jobKey params => exact h.create w.clock name jobKey params
        | user call => cases call <;> cases hcreate
        | _ => cases hcreate
      · by_cases hupdate : o.kind = .updateJob
        · cases o with
          | updateJobExecution executionId patch => exact h.update executionId patch
          | user call => cases call <;> cases hupdate
          | _ => cases hupdate
        · intro id row hget
          rw [handle_executions env hcreate hupdate w] at hget
          exact h id row hget

theorem executionsFiled_new (idGen : IdGenerator) :
    (InMemoryJobRepository.new idGen).ExecutionsFiled := by
  intro id row hget
  cases hget

/-- What an operation other than those leaves of a row. -/
theorem Recorded.congr {w w' : World υ} (h : Recorded e status w)
    (hsame : w'.repo.executions = w.repo.executions) : Recorded e status w' := by
  obtain ⟨row, hrow, hid, hstatus⟩ := h
  refine ⟨row, ?_, hid, hstatus⟩
  unfold InMemoryJobRepository.getJobExecution at hrow ⊢
  rw [hsame, hrow]

theorem OnFile.congr {w w' : World υ} (h : OnFile e w)
    (hsame : w'.repo.executions = w.repo.executions) : OnFile e w' := by
  obtain ⟨status, hrec⟩ := h.recorded
  exact (hrec.congr hsame).onFile

theorem recorded_frame (env : Environment α υ) {K : List OpKind} {loops : Prop}
    (hcreate : .createExecution ∉ K) (hupdate : .updateJob ∉ K) :
    (rowLogic env).Frame (On K loops) (Recorded e status) where
  guard _ _ _ _ := trivial
  keep o w r w' ho hw ht := by
    have hw' : (handle env o w).2 = w' := congrArg Prod.snd ht
    subst hw'
    exact hw.congr (handle_executions env (fun h => hcreate (h ▸ ho)) (fun h => hupdate (h ▸ ho)) w)
  loops _ := trivial

/-- A run never takes an execution off the file. -/
theorem onFile_frame (env : Environment α υ) {K : List OpKind} {loops : Prop}
    (hcreate : .createExecution ∉ K) : (rowLogic env).Frame (On K loops) (OnFile e) where
  guard _ _ _ _ := trivial
  keep o w r w' ho hw ht := by
    have hw' : (handle env o w).2 = w' := congrArg Prod.snd ht
    subst hw'
    by_cases hupdate : o.kind = .updateJob
    · cases o with
      | updateJobExecution id patch =>
          obtain ⟨row, hrow, hid⟩ := hw
          change OnFile e { w with repo := (w.repo.updateJobExecution id patch).2 }
          unfold InMemoryJobRepository.updateJobExecution
          cases hcur : w.repo.executions.get? id with
          | none => exact ⟨row, hrow, hid⟩
          | some cur =>
              by_cases he : e = id
              · subst he
                refine ⟨patch.applyTo cur, JsMap.get?_set_self _ _ _, ?_⟩
                unfold InMemoryJobRepository.getJobExecution at hrow
                rw [hrow] at hcur
                cases hcur
                exact hid
              · exact ⟨row, (JsMap.get?_set_of_ne _ _ he).trans hrow, hid⟩
      | user call => cases call <;> cases hupdate
      | _ => cases hupdate
    · exact hw.congr (handle_executions env (fun h => hcreate (h ▸ ho)) hupdate w)
  loops _ := trivial

end Frames

namespace JobExecutor.Run

variable {env : Environment α υ} (R : Run) {w : World υ}

/-- The start of a run: the row is STARTED, and the `before:job` listeners let it in. -/
def prologue : Code α Unit := do
  R.begin_
  ListenerInvoker.invokeBefore R.jobResolvers .job (jobContext R.execution)

/-- The rest of a run that was let in by its listeners. -/
def settle (fuel : Nat) : Code α JobExecution := do
  let finalStatus ← R.drive fuel
  R.finish finalStatus
  let latest ← getJobExecution R.execution.id
  .pure (latest.getD R.execution)

/-- A run is its prologue and what settles it. -/
theorem proceed_eq (fuel : Nat) :
    (R.proceed fuel : Code α JobExecution) = R.prologue >>= fun _ => R.settle fuel := by
  unfold proceed prologue
  rw [Prog.bind_assoc]
  rfl

/-- A status write on file succeeds. -/
theorem update_recorded (h : OnFile R.execution.id w) (patch : JobExecutionPatch)
    {status : JobStatus}
    (hpatch : patch.status = some status) :
    (updateJobExecution R.execution.id patch : Code α Unit).wp (rowLogic env)
      (fun out w' => out = .ok () ∧ Recorded R.execution.id status w') w := by
  refine Prog.wp_bind.mpr (Prog.wp_perform.mpr ⟨trivial, ?_⟩)
  intro r w' ht
  obtain ⟨row, hrow, hid⟩ := h
  unfold InMemoryJobRepository.getJobExecution at hrow
  have hr : (w.repo.updateJobExecution R.execution.id patch).1 = r := congrArg Prod.fst ht
  have hw' : { w with repo := (w.repo.updateJobExecution R.execution.id patch).2 } = w' :=
    congrArg Prod.snd ht
  unfold InMemoryJobRepository.updateJobExecution at hr hw'
  rw [hrow] at hr hw'
  subst hr
  subst hw'
  refine (Prog.wp_ofExcept _).mpr ⟨rfl, patch.applyTo row, JsMap.get?_set_self _ _ _, hid, ?_⟩
  simp [JobExecutionPatch.applyTo, hpatch]

/-- A status write at the current time, and what follows it. -/
theorem wp_record {patch : Time → JobExecutionPatch} {p : Code α β} {status : JobStatus}
    (hstatus : ∀ time, (patch time).status = some status)
    {Q : Except Thrown β → World υ → Prop} (h : OnFile R.execution.id w)
    (hp : ∀ w', Recorded R.execution.id status w' → p.wp (rowLogic env) Q w') :
    (now >>= fun time => updateJobExecution R.execution.id (patch time) >>= fun _ => p).wp
      (rowLogic env) Q w := by
  refine Prog.wp_bind.mpr (Prog.wp_perform.mpr ⟨trivial, ?_⟩)
  intro time w₁ ht
  have hw₁ : OnFile R.execution.id w₁ := by
    cases ht
    exact h.congr rfl
  refine Prog.wp_seq (R.update_recorded hw₁ (patch time) (hstatus time)) ?_ ?_
  · intro _ w' h'
    exact hp w' h'.2
  · intro err w' h'
    cases h'.1

/-- The row is marked STARTED. -/
theorem begin_recorded (h : OnFile R.execution.id w) :
    (R.begin_ : Code α Unit).wp (rowLogic env)
      (fun out w' => out = .ok () ∧ Recorded R.execution.id .STARTED w') w := by
  refine R.wp_record (fun _ => rfl) h ?_
  intro w₂ h₂
  refine Prog.wp_bind.mpr (Prog.wp_perform.mpr ⟨trivial, ?_⟩)
  intro timestamp w₃ ht₃
  have h₃ : Recorded R.execution.id .STARTED w₃ := by
    cases ht₃
    exact h₂.congr rfl
  refine Prog.wp_perform.mpr ⟨trivial, ?_⟩
  intro _ w₄ ht₄
  cases ht₄
  exact ⟨rfl, h₃.congr rfl⟩

/-- The prologue leaves the row STARTED, however it ends. -/
theorem prologue_recorded (h : OnFile R.execution.id w) :
    (R.prologue : Code α Unit).wp (rowLogic env)
      (fun _ w' => Recorded R.execution.id .STARTED w') w := by
  have hframe : (rowLogic env).Frame (On [.listener])
      (Recorded R.execution.id .STARTED) := recorded_frame env (by decide) (by decide)
  refine Prog.wp_seq (R.begin_recorded h) ?_ fun _ _ hend => hend.2
  intro _ w₁ h₁
  exact Prog.wp_of_uses (ListenerInvoker.uses_invokeMatching (by decide) _ _ _) hframe h₁.2

/-- The `FAILED` exits of the step loop. -/
theorem failJob_recorded (h : OnFile R.execution.id w) (exitCode exitMessage : String) :
    (R.failJob exitCode exitMessage : Code α JobStatus).wp (rowLogic env)
      (fun out w' => out = .ok .FAILED ∧ Recorded R.execution.id .FAILED w') w := by
  refine R.wp_record (fun _ => rfl) h ?_
  intro w₂ h₂
  exact ⟨rfl, h₂⟩

/-- What the step loop leaves: the row on file, FAILED if the loop says so, and as it was in
`status` if the loop throws. -/
structure LoopEnd (e : String) (status : JobStatus) (out : Except Thrown JobStatus) (w : World υ) :
    Prop where
  onFile : OnFile e w
  returned : ∀ final, out = .ok final →
    final = .COMPLETED ∨ (final = .FAILED ∧ Recorded e .FAILED w)
  threw : ∀ err, out = .error err → Recorded e status w

theorem loopEnd_error {e : String} {status : JobStatus} (err : Thrown)
    (h : Recorded e status w) : LoopEnd e status (.error err) w :=
  ⟨h.onFile, (fun _ h => by cases h), fun _ _ => h⟩

/-- **The step loop** leaves the status on record, or writes FAILED. -/
theorem stepLoop_recorded {status : JobStatus} (h : Recorded R.execution.id status w)
    (loopFuel fuel : Nat) (stepId : String) :
    (R.stepLoop loopFuel fuel stepId : Code α JobStatus).wp (rowLogic env)
      (LoopEnd R.execution.id status) w := by
  induction fuel generalizing stepId w with
  | zero => trivial
  | succ fuel ih =>
      have hfail {w' : World υ} (h' : OnFile R.execution.id w') (exitCode exitMessage : String) :
          (R.failJob exitCode exitMessage : Code α JobStatus).wp (rowLogic env)
            (LoopEnd R.execution.id status) w' := by
        refine Prog.wp_mono (R.failJob_recorded h' exitCode exitMessage) ?_
        intro out w'' hend
        obtain ⟨rfl, hrec⟩ := hend
        refine ⟨hrec.onFile, ?_, fun _ h => by cases h⟩
        intro final hfinal
        cases hfinal
        exact Or.inr ⟨rfl, hrec⟩
      have hframe : (rowLogic env).Frame (Looping stepRunKinds)
          (Recorded R.execution.id status) := recorded_frame env (by decide) (by decide)
      have hdecide : (rowLogic env).Frame (On [.decide]) (Recorded R.execution.id status) :=
        recorded_frame env (by decide) (by decide)
      unfold stepLoop
      cases hstep : R.jobDef.step? stepId with
      | none => exact hfail h.onFile _ _
      | some step =>
          refine Prog.wp_seq (Prog.wp_of_uses (R.uses_runStep loopFuel step) hframe h) ?_
            fun err _ h' => loopEnd_error err h'
          intro ran w₁ h₁
          refine Prog.wp_seq
            (Prog.wp_of_uses (R.uses_resolveDecider (by decide) stepId _) hdecide h₁) ?_
            fun err _ h' => loopEnd_error err h'
          intro decider w₂ h₂
          refine Prog.wp_bind.mpr ((Prog.wp_ofExcept _).mpr ?_)
          cases nextStep R.jobDef stepId decider ran.2 with
          | error err => exact loopEnd_error err h₂
          | ok next =>
              cases next with
              | goto next => exact ih h₂ next
              | finish =>
                  refine ⟨h₂.onFile, ?_, fun _ h => by cases h⟩
                  intro final hfinal
                  cases hfinal
                  exact Or.inl rfl
              | fail => exact hfail h₂.onFile _ _

/-- A final status of a run. -/
def IsFinal (status : JobStatus) : Prop := status = .COMPLETED ∨ status = .FAILED

/-- What the driven run leaves: a final status, which the row agrees with, or, if the `catch`
block throws, the row as it was in `status`. -/
structure DriveEnd (e : String) (status : JobStatus) (out : Except Thrown JobStatus)
    (w : World υ) : Prop where
  returned : ∀ final, out = .ok final → IsFinal final ∧ Recorded e final w
  threw : ∀ err, out = .error err → Recorded e status w

theorem driveEnd_ok {e : String} {status final : JobStatus} (hfinal : IsFinal final)
    (h : Recorded e final w) : DriveEnd e status (.ok final) w := by
  refine ⟨?_, fun _ h => by cases h⟩
  intro final' heq
  cases heq
  exact ⟨hfinal, h⟩

/-- The `catch` block writes FAILED, unless the error has no string form. -/
theorem onError_recorded {status : JobStatus} (err : Thrown)
    (h : Recorded R.execution.id status w) : (R.onError err : Code α JobStatus).wp (rowLogic env)
      (fun out w' => DriveEnd R.execution.id status out w' ∧
        ((∃ final, out = .ok final) ↔ err.HasText) ∧ ∀ final, out = .ok final → final = .FAILED)
      w := by
  refine Prog.wp_bind.mpr (Prog.wp_perform.mpr ⟨trivial, ?_⟩)
  intro time w₁ ht
  have hw₁ : Recorded R.execution.id status w₁ := by
    cases ht
    exact h.congr rfl
  refine Prog.wp_bind.mpr ((Prog.wp_ofExcept _).mpr ?_)
  cases htext : err.text with
  | error thrown =>
      refine ⟨⟨(fun _ h => by cases h), fun _ _ => hw₁⟩, ?_, fun _ h => by cases h⟩
      constructor
      · intro hreturned
        obtain ⟨final, hfinal⟩ := hreturned
        cases hfinal
      · intro hhas
        obtain ⟨text, hok⟩ := hhas
        rw [htext] at hok
        cases hok
  | ok exitMessage =>
      refine Prog.wp_seq (R.update_recorded hw₁.onFile _ rfl) ?_ ?_
      · intro _ w₂ h₂
        refine ⟨driveEnd_ok (Or.inr rfl) h₂.2, ?_, fun _ h => (Except.ok.inj h).symm⟩
        exact iff_of_true ⟨_, rfl⟩ ⟨exitMessage, htext⟩
      · intro _ _ h₂
        cases h₂.1

/-- The final write of a loop that did not throw. -/
theorem completeJob_recorded (status : JobStatus) {final : JobStatus} (h : OnFile R.execution.id w)
    (hend : final = .COMPLETED ∨ (final = .FAILED ∧ Recorded R.execution.id .FAILED w)) :
    (R.completeJob final : Code α JobStatus).wp (rowLogic env) (fun out w' =>
      out = .ok final ∧ DriveEnd R.execution.id status out w') w := by
  unfold completeJob
  rcases hend with hcompleted | ⟨hfailed, hrec⟩
  · rw [if_pos hcompleted, hcompleted]
    refine R.wp_record (fun _ => rfl) h ?_
    intro w₁ h₁
    exact ⟨rfl, driveEnd_ok (Or.inl rfl) h₁⟩
  · rw [if_neg (by rw [hfailed]; decide)]
    exact ⟨rfl, driveEnd_ok (Or.inr hfailed) (hfailed ▸ hrec)⟩

/-- The driven run ends in a final status, which the row agrees with, or leaves the row alone. -/
theorem drive_recorded {status : JobStatus} (h : Recorded R.execution.id status w) (fuel : Nat) :
    (R.drive fuel : Code α JobStatus).wp (rowLogic env) (DriveEnd R.execution.id status) w := by
  refine Prog.wp_tryCatch.mpr (Prog.wp_seq (R.stepLoop_recorded h fuel fuel _) ?_ ?_)
  · intro final w₁ h₁
    refine Prog.wp_mono (R.completeJob_recorded status h₁.onFile
      (h₁.returned final rfl)) ?_
    intro out w₂ h₂
    obtain ⟨rfl, hended⟩ := h₂
    exact hended
  · intro err w₁ h₁
    exact Prog.wp_mono (R.onError_recorded err (h₁.threw err rfl)) fun _ _ h => h.1

/-- Announcing the final status leaves the row alone. -/
theorem finish_recorded (finalStatus : JobStatus) {status : JobStatus}
    (h : Recorded R.execution.id status w) :
    (R.finish finalStatus : Code α Unit).wp (rowLogic env)
      (fun _ w' => Recorded R.execution.id status w') w := by
  have hquiet : (R.finish finalStatus : Code α Unit).Uses (On [.clock, .emit, .listener]) :=
    (ListenerInvoker.uses_invokeMatching (by decide) _ _ _).bind fun _ =>
      (uses_now (by decide)).bind fun _ => uses_emit (by decide) _
  exact Prog.wp_of_uses hquiet (recorded_frame env (by decide) (by decide)) h

/-- What a run that was let in in `w` leaves: a final status, or, if its `catch` block threw, the
row as it was in `status`. -/
def LeavesRow (env : Environment α υ) (fuel : Nat) (status : JobStatus) (w w' : World υ) : Prop :=
  (∃ final w₁, IsFinal final ∧ Recorded R.execution.id final w' ∧
    (R.drive fuel : Code α JobStatus).run (handle env) w = (.returned final, w₁)) ∨
  ∃ err w₁, Recorded R.execution.id status w' ∧
    (R.drive fuel : Code α JobStatus).run (handle env) w = (.threw err, w₁)

/-- A run that was let in leaves its row so, whether it returns or throws. -/
theorem settle_recorded (env : Environment α υ) {status : JobStatus}
    (h : Recorded R.execution.id status w) (fuel : Nat) :
    (R.settle fuel : Code α JobExecution).wp (rowLogic env)
      (fun _ w' => R.LeavesRow env fuel status w w') w := by
  refine Prog.wp_seq (Prog.wp_and (R.drive_recorded h fuel) (wp_as_run env _ w)) ?_ ?_
  · intro final w₁ h₁
    obtain ⟨hended, hrun⟩ := h₁
    obtain ⟨hfinal, hrec⟩ := hended.returned final rfl
    refine Prog.wp_seq (R.finish_recorded final hrec) ?_
      fun _ _ hend => Or.inl ⟨final, w₁, hfinal, hend, hrun⟩
    intro _ w₂ h₂
    refine Prog.wp_bind.mpr (Prog.wp_perform.mpr ⟨trivial, ?_⟩)
    intro latest w₃ ht
    cases ht
    exact Or.inl ⟨final, w₁, hfinal, h₂, hrun⟩
  · intro err w₁ h₁
    exact Or.inr ⟨err, w₁, h₁.1.threw err rfl, h₁.2⟩

end JobExecutor.Run

end NestBatch
