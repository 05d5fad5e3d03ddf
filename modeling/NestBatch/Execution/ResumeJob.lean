import NestBatch.Execution.ResumeStep
import NestBatch.Repository.ExecutionRows

/-!
# A job of one chunk step, over its restarts

A job that is one chunk step, launched once and then restarted each time it
fails.  Between two runs the latest step execution is the one that failed, and
its checkpoint stands behind the chunks passed so far; a run takes them up there
and leaves the same to the next one.
-/

namespace NestBatch

open ListenerInvoker

variable {α υ : Type}

/-! ### What a run keeps while it is not at its step -/

/-- The kinds of operation between the steps that only look. -/
def lookingKinds : List OpKind :=
  [.clock, .uuid, .emit, .listener, .decide, .findLatestStep, .loadContext, .getJob, .getInstance,
    .findSteps]

/-- All but the rows of executions is as it was. -/
structure Kept (pos : υ → Nat) (s s' : World υ × Calls α) : Prop where
  idGen : s'.1.repo.idGen = s.1.repo.idGen
  issued : s'.1.repo.issued = s.1.repo.issued
  instances : s'.1.repo.instances = s.1.repo.instances
  stepExecutions : s'.1.repo.stepExecutions = s.1.repo.stepExecutions
  checkpoint : ∀ sid, s'.1.checkpoint sid = s.1.checkpoint sid
  position : pos s'.1.user = pos s.1.user
  passed : passedChunks s'.2 = passedChunks s.2
  written : writtenChunks s'.2 = writtenChunks s.2
  met : ∀ step, (passRules step).Met s.2 → (passRules step).Met s'.2

namespace Kept

variable {pos : υ → Nat} {s s' s'' : World υ × Calls α}

theorem refl (s : World υ × Calls α) : Kept pos s s :=
  ⟨rfl, rfl, rfl, rfl, fun _ => rfl, rfl, rfl, rfl, fun _ => id⟩

theorem trans (h : Kept pos s s') (h' : Kept pos s' s'') : Kept pos s s'' :=
  ⟨h'.idGen.trans h.idGen, h'.issued.trans h.issued, h'.instances.trans h.instances,
    h'.stepExecutions.trans h.stepExecutions,
    fun sid => (h'.checkpoint sid).trans (h.checkpoint sid),
    h'.position.trans h.position, h'.passed.trans h.passed, h'.written.trans h.written,
    fun step => h'.met step ∘ h.met step⟩

/-- Rows that are kept are filed as before. -/
theorem stepsFiled (h : Kept pos s s') (hfiled : s.1.repo.StepsFiled) : s'.1.repo.StepsFiled where
  own id step hget := hfiled.own id step (h.stepExecutions ▸ hget)
  issued id step hget := by
    rw [h.stepExecutions] at hget
    rw [h.idGen, h.issued]
    exact hfiled.issued id step hget

/-- The latest execution of a step is kept. -/
theorem findLatest (h : Kept pos s s') (e name : String) :
    s'.1.repo.findLatestStepExecution e name = s.1.repo.findLatestStepExecution e name := by
  unfold InMemoryJobRepository.findLatestStepExecution
  rw [h.stepExecutions]

theorem nextId (h : Kept pos s s') : s'.1.repo.nextId = s.1.repo.nextId := by
  unfold InMemoryJobRepository.nextId
  rw [h.idGen, h.issued]

/-- Calls that are kept have passed what they had. -/
theorem passes (h : Kept pos s s') {items : List α} {step : ChunkStepDefinition} {m : Nat}
    (hpasses : PassesUpTo items step s.2 m) : PassesUpTo items step s'.2 m where
  covers :=
    { passed := by rw [h.passed, hpasses.covers.passed]
      written := by rw [h.written, h.passed, hpasses.covers.written] }
  met := h.met step hpasses.met

end Kept

section Looking

variable {env : Environment α υ} {items : List α} {step : ChunkStepDefinition} {pos : υ → Nat}

/-- An operation that is no row operation, no save and none of the reader's. -/
theorem handle_kept (hkeeps : env.KeepsCheckpoint) (hreplays : env.Replays items step pos)
    {o : Op α} (ho : o.kind ∉ rowKinds) (hsave : o.kind ≠ .saveContext)
    (hreplay : o.kind ∉ replayKinds) (w : World υ) (calls : Calls α) :
    Kept pos (w, calls) ((handle env o w).2, calls ++ [⟨o, (handle env o w).1⟩]) := by
  have hrows := handle_sameRows env ho w
  simp only [replayKinds, List.mem_cons, List.not_mem_nil, or_false, not_or] at hreplay
  obtain ⟨hread, hinvoke, hfactory, hwrite, hpassed, -⟩ := hreplay
  have hmoved := (hreplays.trans o w false).1
  refine ⟨hrows.idGen, hrows.issued, hrows.instances, hrows.stepExecutions, ?_, ?_, ?_, ?_, ?_⟩
  · exact fun sid => checkpoint_handle hkeeps hsave w sid
  · exact reads_of_kind (by simp [hread, hinvoke, hfactory]) hmoved
  · exact passedChunks_append hpassed _
  · change writtenChunks (calls ++ _) = writtenChunks calls
    rw [writtenChunks_append, writtenChunk_of_kind hwrite]
    exact List.append_nil _
  · exact fun step hmet => hmet.snoc (Trail.allows_of_kind hpassed _)

/-- Looking changes nothing. -/
theorem looking_frame (hkeeps : env.KeepsCheckpoint) (hreplays : env.Replays items step pos)
    (s : World υ × Calls α) : (worldLogic env).total.Frame (On lookingKinds) fun s' =>
      Kept pos s s' ∧ s'.1.repo.executions = s.1.repo.executions where
  guard _ _ _ _ := trivial
  keep o s₁ r s₂ ho hs ht := by
    have hnot (k : OpKind) (hk : k ∉ lookingKinds) : o.kind ≠ k := fun h => hk (h ▸ ho)
    have hrow : o.kind ∉ rowKinds := by
      simp only [rowKinds, List.mem_cons, List.not_mem_nil, or_false, not_or]
      exact ⟨hnot _ (by decide), hnot _ (by decide), hnot _ (by decide), hnot _ (by decide)⟩
    have hreplay : o.kind ∉ replayKinds := by
      simp only [replayKinds, List.mem_cons, List.not_mem_nil, or_false, not_or]
      exact ⟨hnot _ (by decide), hnot _ (by decide), hnot _ (by decide), hnot _ (by decide),
        hnot _ (by decide), hnot _ (by decide)⟩
    cases ht
    refine ⟨hs.1.trans (handle_kept hkeeps hreplays hrow (hnot _ (by decide)) hreplay s₁.1 s₁.2),
      ?_⟩
    exact (handle_sameRows env hrow s₁.1).executions.trans hs.2
  loops h := h.elim

end Looking

namespace JobExecutor.Run

variable {env : Environment α υ} {items : List α} {step : ChunkStepDefinition} {pos : υ → Nat}
  {R : Run} {jobId : String} {status : JobStatus} {s : World υ × Calls α}

/-- A status write of the execution. -/
theorem wp_updateRow (pos : υ → Nat) (hkeeps : env.KeepsCheckpoint)
    (hrow : HasRow R.execution.id jobId status s.1.repo) (patch : JobExecutionPatch) :
    (updateJobExecution R.execution.id patch : Code α Unit).wp (worldLogic env).total (fun out s' =>
      out = .ok () ∧ Kept pos s s' ∧
        HasRow R.execution.id jobId (patch.status.getD status) s'.1.repo) s := by
  obtain ⟨w, calls⟩ := s
  have hupdate := hrow.update patch
  refine ChunkStepExecutor.wp_orThrow.mpr (Prog.wp_perform.mpr ⟨trivial, ?_⟩)
  intro r s' ht
  cases ht
  have hother : (w.repo.updateJobExecution R.execution.id patch).2.idGen = w.repo.idGen ∧
      (w.repo.updateJobExecution R.execution.id patch).2.issued = w.repo.issued ∧
      (w.repo.updateJobExecution R.execution.id patch).2.instances = w.repo.instances ∧
      (w.repo.updateJobExecution R.execution.id patch).2.stepExecutions =
        w.repo.stepExecutions := by
    unfold InMemoryJobRepository.updateJobExecution
    split <;> exact ⟨rfl, rfl, rfl, rfl⟩
  have hkept : Kept pos (w, calls) ((handle env
      (.updateJobExecution R.execution.id patch) w).2, calls ++
        [⟨.updateJobExecution R.execution.id patch,
          (handle env (.updateJobExecution R.execution.id patch) w).1⟩]) := by
    refine ⟨hother.1, hother.2.1, hother.2.2.1, hother.2.2.2, ?_, rfl, ?_, ?_, ?_⟩
    · exact fun sid => checkpoint_handle hkeeps (by simp [Op.kind]) w sid
    · exact passedChunks_append (by simp [Op.kind]) _
    · change writtenChunks (calls ++ _) = writtenChunks calls
      rw [writtenChunks_append, writtenChunk_of_kind (by simp [Op.kind])]
      exact List.append_nil _
    · exact fun step hmet => hmet.snoc trivial
  exact ⟨hupdate.1, hkept, hupdate.2⟩

section Rows

variable (hkeeps : env.KeepsCheckpoint) (hreplays : env.Replays items step pos)
include hkeeps hreplays

/-- Code that only looks. -/
theorem wp_look {β : Type} {p : Code α β} (hp : p.Uses (On lookingKinds))
    (hrow : HasRow R.execution.id jobId status s.1.repo) :
    p.wp (worldLogic env).total (fun _ s' =>
      Kept pos s s' ∧ HasRow R.execution.id jobId status s'.1.repo) s := by
  refine Prog.wp_mono (Prog.wp_of_uses hp (looking_frame hkeeps hreplays s) ⟨.refl s, rfl⟩) ?_
  intro out s' h
  exact ⟨h.1, hrow.congr h.2 h.1.instances⟩

/-- Sequencing after an operation that only looks. -/
theorem wp_seq_look {β : Type} {o : Op α} (ho : o.kind ∈ lookingKinds)
    {f : o.Resp → Code α β} {Q : Except Thrown β → World υ × Calls α → Prop}
    (hrow : HasRow R.execution.id jobId status s.1.repo)
    (h : ∀ r s', Kept pos s s' → HasRow R.execution.id jobId status s'.1.repo →
      (f r).wp (worldLogic env).total Q s') :
    (request o >>= f : Code α β).wp (worldLogic env).total Q s := by
  refine Prog.wp_bind.mpr (Prog.wp_perform.mpr ⟨trivial, ?_⟩)
  intro r s' ht
  have hkept := (looking_frame hkeeps hreplays s).keep o s r s' ho ⟨.refl s, rfl⟩ ht
  exact h r s' hkept.1 (hrow.congr hkept.2 hkept.1.instances)

/-- A status write at the current time, and what follows it. -/
theorem wp_seq_writeStatus {β : Type} {patch : Time → JobExecutionPatch} {p : Code α β}
    {status' : JobStatus} (hstatus : ∀ time, (patch time).status = some status')
    {Q : Except Thrown β → World υ × Calls α → Prop}
    (hrow : HasRow R.execution.id jobId status s.1.repo)
    (h : ∀ s', Kept pos s s' → HasRow R.execution.id jobId status' s'.1.repo →
      p.wp (worldLogic env).total Q s') :
    (now >>= fun time => updateJobExecution R.execution.id (patch time) >>= fun _ => p).wp
      (worldLogic env).total Q s := by
  have hclock : OpKind.clock ∈ lookingKinds := by decide
  refine wp_seq_look (o := .now) hkeeps hreplays hclock hrow fun time s₁ hkept₁ hrow₁ => ?_
  refine Prog.wp_seq (wp_updateRow pos hkeeps hrow₁ (patch time)) ?_ fun _ _ h => by cases h.1
  intro _ s₂ h₂
  obtain ⟨-, hkept₂, hrow₂⟩ := h₂
  rw [hstatus time] at hrow₂
  exact h s₂ (hkept₁.trans hkept₂) hrow₂

/-- A run marks its row STARTED. -/
theorem wp_begin (hrow : HasRow R.execution.id jobId status s.1.repo) :
    (R.begin_ : Code α Unit).wp (worldLogic env).total (fun _ s' =>
      Kept pos s s' ∧ HasRow R.execution.id jobId .STARTED s'.1.repo) s := by
  refine wp_seq_writeStatus hkeeps hreplays (fun _ => rfl) hrow fun s₁ hkept₁ hrow₁ => ?_
  refine Prog.wp_mono (wp_look hkeeps hreplays ((uses_now (by decide)).bind fun _ =>
    uses_emit (by decide) _) hrow₁) ?_
  intro _ s₂ h₂
  exact ⟨hkept₁.trans h₂.1, h₂.2⟩

/-- Failing a job writes FAILED into its row. -/
theorem wp_failJob (exitCode exitMessage : String)
    (hrow : HasRow R.execution.id jobId status s.1.repo) :
    (R.failJob exitCode exitMessage : Code α JobStatus).wp (worldLogic env).total (fun out s' =>
      out = .ok .FAILED ∧ Kept pos s s' ∧ HasRow R.execution.id jobId .FAILED s'.1.repo) s :=
  wp_seq_writeStatus hkeeps hreplays (fun _ => rfl) hrow
    fun _ hkept hrow' => ⟨rfl, hkept, hrow'⟩

/-- The `catch` block writes FAILED into the row. -/
theorem wp_onError {err : Thrown} (htext : err.HasText)
    (hrow : HasRow R.execution.id jobId status s.1.repo) :
    (R.onError err : Code α JobStatus).wp (worldLogic env).total (fun _ s' =>
      Kept pos s s' ∧ HasRow R.execution.id jobId .FAILED s'.1.repo) s := by
  obtain ⟨exitMessage, hmessage⟩ := htext
  have hclock : OpKind.clock ∈ lookingKinds := by decide
  refine wp_seq_look (o := .now) hkeeps hreplays hclock hrow fun endTime s₁ hkept₁ hrow₁ => ?_
  refine Prog.wp_bind.mpr ((Prog.wp_ofExcept _).mpr ?_)
  rw [hmessage]
  refine Prog.wp_seq (wp_updateRow pos hkeeps hrow₁ _) ?_ fun _ _ h => by cases h.1
  intro _ s₂ h₂
  obtain ⟨-, hkept₂, hrow₂⟩ := h₂
  exact ⟨hkept₁.trans hkept₂, hrow₂⟩

/-- Completing a job writes COMPLETED into its row. -/
theorem wp_completeJob (hrow : HasRow R.execution.id jobId status s.1.repo) :
    (R.completeJob .COMPLETED : Code α JobStatus).wp (worldLogic env).total (fun out s' =>
      out = .ok .COMPLETED ∧ Kept pos s s' ∧
        HasRow R.execution.id jobId .COMPLETED s'.1.repo) s :=
  wp_seq_writeStatus hkeeps hreplays (fun _ => rfl) hrow
    fun _ hkept hrow' => ⟨rfl, hkept, hrow'⟩

/-- The listeners and the observer are told; the row stays as it is. -/
theorem wp_finish (finalStatus : JobStatus)
    (hrow : HasRow R.execution.id jobId status s.1.repo) :
    (R.finish finalStatus : Code α Unit).wp (worldLogic env).total (fun _ s' =>
      Kept pos s s' ∧ HasRow R.execution.id jobId status s'.1.repo) s := by
  refine wp_look hkeeps hreplays ?_ hrow
  exact (uses_invokeMatching (by decide) _ _ _).bind fun _ =>
    (uses_now (by decide)).bind fun _ => uses_emit (by decide) _

end Rows

/-! ### The step of a run -/

/-- A run that has come to its step, with `m` chunks passed before: a restart finds
them behind the checkpoint of the failed step execution. -/
structure Ready (items : List α) (step : ChunkStepDefinition) (pos : υ → Nat) (R : Run)
    (jobId : String) (status : JobStatus) (m : Nat) (s : World υ × Calls α) : Prop where
  filed : s.1.repo.StepsFiled
  row : HasRow R.execution.id jobId status s.1.repo
  position : pos s.1.user = 0
  passes : PassesUpTo items step s.2 m
  restart : R.isRestart = true → ∃ prior,
    s.1.repo.findLatestStepExecution R.execution.id step.id = some prior ∧
      prior.status = .FAILED ∧ nextChunk (s.1.checkpoint prior.id) = m
  launch : R.isRestart = false → m = 0 ∧ s.1.checkpoint s.1.repo.nextId = none

/-- A run stays ready while nothing is done to its steps. -/
theorem Ready.keep {m : Nat} {status' : JobStatus} {s' : World υ × Calls α}
    (h : Ready items step pos R jobId status m s) (hkept : Kept pos s s')
    (hrow : HasRow R.execution.id jobId status' s'.1.repo) :
    Ready items step pos R jobId status' m s' where
  filed := hkept.stepsFiled h.filed
  row := hrow
  position := hkept.position.trans h.position
  passes := hkept.passes h.passes
  restart hrestart := by
    obtain ⟨prior, hlatest, hfailed, hnext⟩ := h.restart hrestart
    exact ⟨prior, (hkept.findLatest _ _).trans hlatest, hfailed,
      (congrArg nextChunk (hkept.checkpoint _)).trans hnext⟩
  launch hlaunch := by
    obtain ⟨hm, hnone⟩ := h.launch hlaunch
    refine ⟨hm, ?_⟩
    rw [hkept.nextId, hkept.checkpoint, hnone]

/-- A run at work on a step execution, which is the latest one, with `m` chunks passed. -/
structure AtStep (items : List α) (step : ChunkStepDefinition) (e jobId : String)
    (status : JobStatus) (sid : String) (stepStatus : StepStatus) (m : Nat)
    (s : World υ × Calls α) : Prop where
  filed : s.1.repo.StepsFiled
  row : HasRow e jobId status s.1.repo
  latest : ∃ se, s.1.repo.findLatestStepExecution e step.id = some se ∧ se.id = sid ∧
    se.status = stepStatus
  checkpoint : nextChunk (s.1.checkpoint sid) = m
  passes : PassesUpTo items step s.2 m

/-- A step stays where it is while nothing is done to its row. -/
theorem AtStep.keep {m : Nat} {e sid : String} {stepStatus : StepStatus} {status' : JobStatus}
    {s' : World υ × Calls α} (h : AtStep items step e jobId status sid stepStatus m s)
    (hkept : Kept pos s s') (hrow : HasRow e jobId status' s'.1.repo) :
    AtStep items step e jobId status' sid stepStatus m s' where
  filed := hkept.stepsFiled h.filed
  row := hrow
  latest := by
    obtain ⟨se, hlatest, hid⟩ := h.latest
    exact ⟨se, (hkept.findLatest _ _).trans hlatest, hid⟩
  checkpoint := (congrArg nextChunk (hkept.checkpoint sid)).trans h.checkpoint
  passes := hkept.passes h.passes

section Step

variable (hkeeps : env.KeepsCheckpoint) (hreplays : env.Replays items step pos)
include hkeeps

/-- Updating the latest step execution changes its status and nothing else. -/
theorem wp_updateLatest {m : Nat} {e sid : String} {stepStatus : StepStatus}
    (h : AtStep items step e jobId status sid stepStatus m s) (patch : StepExecutionPatch) :
    (updateStepExecution sid patch : Code α Unit).wp (worldLogic env).total (fun out s' =>
      out = .ok () ∧
        AtStep items step e jobId status sid (patch.status.getD stepStatus) m s') s := by
  obtain ⟨w, calls⟩ := s
  obtain ⟨se, hlatest, hid, hstatus⟩ := h.latest
  subst hid
  have hget := InMemoryJobRepository.get?_of_findLatest h.filed hlatest
  refine ChunkStepExecutor.wp_orThrow.mpr (Prog.wp_perform.mpr ⟨trivial, ?_⟩)
  intro r s' ht
  cases ht
  have hok : (w.repo.updateStepExecution se.id patch).1 = .ok () := by
    unfold InMemoryJobRepository.updateStepExecution
    rw [hget]
  have hother : (w.repo.updateStepExecution se.id patch).2.executions = w.repo.executions ∧
      (w.repo.updateStepExecution se.id patch).2.instances = w.repo.instances := by
    unfold InMemoryJobRepository.updateStepExecution
    split <;> exact ⟨rfl, rfl⟩
  refine ⟨hok, h.filed.update se.id patch, h.row.congr hother.1 hother.2, ?_, ?_, ?_⟩
  · exact ⟨patch.applyTo se, InMemoryJobRepository.findLatest_update h.filed hlatest patch, rfl,
      congrArg patch.status.getD hstatus⟩
  · refine Eq.trans ?_ h.checkpoint
    exact congrArg nextChunk (checkpoint_handle hkeeps (o := .updateStepExecution se.id patch)
      (by simp [Op.kind]) w se.id)
  · exact h.passes.keep (by simp [Op.kind]) (by simp [Op.kind]) _

/-- Creating a step execution and copying the context it resumes from. -/
theorem wp_enterStep {m : Nat} {restartContext : Option ExecutionContext} {β : Type}
    {f : StepExecution → Code α β} {Q : Except Thrown β → World υ × Calls α → Prop}
    (h : Ready items step pos R jobId .STARTED m s)
    (hnext : nextChunk (restartContext.bind readLastCheckpoint) = m)
    (hfresh : restartContext = none → s.1.checkpoint s.1.repo.nextId = none)
    (hf : ∀ se s', AtStep items step R.execution.id jobId .STARTED se.id .STARTING m s' →
      pos s'.1.user = 0 → s'.1.checkpoint se.id = restartContext.bind readLastCheckpoint →
      (f se).wp (worldLogic env).total Q s') :
    (createStepExecution R.execution.id step.id >>= fun se =>
      copyContext se restartContext >>= fun _ => f se).wp (worldLogic env).total Q s := by
  obtain ⟨w, calls⟩ := s
  refine Prog.wp_bind.mpr (Prog.wp_perform.mpr ⟨trivial, ?_⟩)
  intro se s₁ ht
  have hse : se = (w.repo.createStepExecution R.execution.id step.id).1 :=
    (congrArg Prod.fst ht).symm
  have hs₁ : s₁ = (handle env (.createStepExecution R.execution.id step.id : Op α) w |>.2,
      calls ++ [⟨.createStepExecution R.execution.id step.id,
        (w.repo.createStepExecution R.execution.id step.id).1⟩]) := (congrArg Prod.snd ht).symm
  subst hse hs₁
  have hsid : (w.repo.createStepExecution R.execution.id step.id).1.id = w.repo.nextId := rfl
  have hcheckpoint := checkpoint_handle hkeeps
    (o := (.createStepExecution R.execution.id step.id : Op α)) (by simp [Op.kind]) w w.repo.nextId
  have hlatest := InMemoryJobRepository.findLatest_create h.filed R.execution.id step.id
  have hpasses := h.passes.keep (o := .createStepExecution R.execution.id step.id)
    (by simp [Op.kind]) (by simp [Op.kind])
    (w.repo.createStepExecution R.execution.id step.id).1
  cases restartContext with
  | none =>
      have hnone := hcheckpoint.trans (hfresh rfl)
      refine hf _ _ ⟨h.filed.create _ _, h.row.congr rfl rfl, ?_, ?_, hpasses⟩ h.position hnone
      · exact ⟨_, hlatest, rfl, rfl⟩
      · exact (congrArg nextChunk hnone).trans hnext
  | some ctx =>
      refine Prog.wp_bind.mpr (Prog.wp_perform.mpr ⟨trivial, ?_⟩)
      intro _ s₂ ht₂
      cases ht₂
      have hsaved := checkpoint_save_self (w.repo.createStepExecution R.execution.id step.id).2
        (.stepExecutionId w.repo.nextId) ctx
      refine hf _ _ ⟨?_, h.row.congr rfl rfl, ?_, ?_, ?_⟩ h.position hsaved
      · have hrows : (w.repo.createStepExecution R.execution.id step.id).2.SameRows
            ((w.repo.createStepExecution R.execution.id step.id).2.saveExecutionContext
              (.stepExecutionId w.repo.nextId) ctx) := ⟨rfl, rfl, rfl, rfl, rfl⟩
        exact hrows.stepsFiled (h.filed.create _ _)
      · exact ⟨_, hlatest, rfl, rfl⟩
      · exact (congrArg nextChunk hsaved).trans hnext
      · exact hpasses.keep (by simp [Op.kind]) (by simp [Op.kind]) _

include hreplays

/-- A restart reads the context of the failed step execution, a launch reads none. -/
theorem wp_restartStepContext {m : Nat} (h : Ready items step pos R jobId .STARTED m s) :
    (R.restartStepContext (.chunk step) : Code α (Option ExecutionContext)).wp
      (worldLogic env).total
      (fun out s' => Ready items step pos R jobId .STARTED m s' ∧ ∃ restartContext,
        out = .ok restartContext ∧ nextChunk (restartContext.bind readLastCheckpoint) = m ∧
          (restartContext = none → s'.1.checkpoint s'.1.repo.nextId = none)) s := by
  unfold restartStepContext
  cases hrestart : R.isRestart with
  | false =>
      rw [if_neg (by simp)]
      obtain ⟨rfl, hnone⟩ := h.launch hrestart
      exact ⟨h, none, rfl, rfl, fun _ => hnone⟩
  | true =>
      rw [if_pos ⟨rfl, rfl⟩]
      obtain ⟨prior, hlatest, hfailed, hnext⟩ := h.restart hrestart
      have hfind : OpKind.findLatestStep ∈ lookingKinds := by decide
      have hload : OpKind.loadContext ∈ lookingKinds := by decide
      refine Prog.wp_bind.mpr (Prog.wp_perform.mpr ⟨trivial, ?_⟩)
      intro found s₁ ht₁
      have hkept₁ := (looking_frame hkeeps hreplays s).keep _ s found s₁ hfind ⟨.refl s, rfl⟩ ht₁
      have h₁ := h.keep hkept₁.1 (h.row.congr hkept₁.2 hkept₁.1.instances)
      have hfound : found = some prior := (congrArg Prod.fst ht₁).symm.trans hlatest
      subst hfound
      change Prog.wp _ (if prior.status = .FAILED then _ else _) _ _
      rw [if_pos hfailed]
      refine Prog.wp_bind.mpr (Prog.wp_perform.mpr ⟨trivial, ?_⟩)
      intro ctx s₂ ht₂
      have hkept₂ := (looking_frame hkeeps hreplays s₁).keep _ s₁ ctx s₂ hload ⟨.refl s₁, rfl⟩ ht₂
      refine ⟨h₁.keep hkept₂.1 (h₁.row.congr hkept₂.2 hkept₂.1.instances), some ctx, rfl, ?_,
        fun h => by cases h⟩
      have hctx : ctx = s₁.1.repo.getExecutionContext (.stepExecutionId prior.id) :=
        (congrArg Prod.fst ht₂).symm
      change nextChunk (readLastCheckpoint ctx) = m
      rw [hctx]
      exact (congrArg nextChunk (hkept₁.1.checkpoint prior.id)).trans hnext

variable (htexts : env.ThrowsTexts) {reports : StepStatus → String → Prop}
  (hreports : env.Reports reports) (hcompleted : reports .COMPLETED "COMPLETED")
  (hfailed : reports .FAILED "FAILED") (hpartition : R.partition = {}) (hsize : 0 < step.chunkSize)
  {fuel : Nat} (hfuel : items.length < fuel)
include htexts hreports hcompleted hfailed hpartition hsize hfuel

/-- The step execution is FAILED when its executor throws; otherwise it has its
result, and stands behind the last item unless that is FAILED. -/
theorem wp_orFailStep {m : Nat} {se : StepExecution} {resume : Option Int}
    (h : AtStep items step R.execution.id jobId .STARTED se.id .STARTING m s)
    (hpos : pos s.1.user = 0) (hresume : s.1.checkpoint se.id = resume) :
    (orFailStep se (R.dispatch fuel (.chunk step) se resume) : Code α StepResult).wp
      (worldLogic env).total (fun out s' => ∃ m',
        match out with
        | .ok result => AtStep items step R.execution.id jobId .STARTED se.id .STARTING m' s' ∧
            (items.length ≤ m' * step.chunkSize ∨ result.status = .FAILED) ∧
            result.ReportedUnder reports
        | .error err =>
            AtStep items step R.execution.id jobId .STARTED se.id .FAILED m' s' ∧ err.HasText)
      s := by
  obtain ⟨w, calls⟩ := s
  have hargs : R.partitionArgs.partitionIndex = none := by
    unfold partitionArgs
    rw [hpartition]
    split <;> rfl
  have hproviders : (R.chunkContext se step resume).providerResolvers = none := rfl
  have hrange :
      ThrowsTexts (ChunkStepExecutor.resolveRange step (R.chunkContext se step resume)) := by
    have hindex : (R.chunkContext se step resume).partitionIndex = none := hargs
    unfold ChunkStepExecutor.resolveRange
    rw [hindex]
    exact throwsTexts_ok none
  have hexecute := ChunkStepExecutor.execute_resumes hkeeps hreplays hproviders hargs hsize hfuel
    hresume (hresume ▸ h.checkpoint) hpos h.passes
  have hthrows := ChunkStepExecutor.execute_throwsTexts htexts hrange fuel (w, calls)
  have hreported := ChunkStepExecutor.execute_reports hreports hcompleted hfailed fuel step
    (R.chunkContext se step resume) (w, calls)
  refine Prog.wp_tryCatch.mpr (Prog.wp_mono
    (Prog.wp_total_and (Prog.wp_total_and hexecute hthrows) hreported) ?_)
  intro out s₁ h₁
  obtain ⟨⟨⟨hrows, m', hnext, hpasses, hresult⟩, hthrown⟩, hunder⟩ := h₁
  have hat : AtStep items step R.execution.id jobId .STARTED se.id .STARTING m' s₁ := by
    refine ⟨hrows.stepsFiled h.filed, h.row.congr hrows.executions hrows.instances, ?_, hnext,
      hpasses⟩
    obtain ⟨se', hlatest, hid⟩ := h.latest
    exact ⟨se', (hrows.findLatest _ _).trans hlatest, hid⟩
  cases out with
  | ok result => exact ⟨m', hat, hresult result rfl, hunder result rfl⟩
  | error err =>
      have hclock : OpKind.clock ∈ lookingKinds := by decide
      have htext : err.HasText := hthrown err rfl
      obtain ⟨exitMessage, hmessage⟩ := hthrown err rfl
      refine Prog.wp_bind.mpr ((Prog.wp_ofExcept _).mpr ?_)
      rw [hmessage]
      refine wp_seq_look (o := .now) hkeeps hreplays hclock hat.row fun time s₂ hkept hrow => ?_
      refine Prog.wp_seq (wp_updateLatest hkeeps (hat.keep hkept hrow) _) ?_
        fun _ _ h => by cases h.1
      intro _ s₃ h₃
      exact ⟨m', h₃.2, htext⟩

/-- From its start event to its persisted result. -/
theorem wp_runCreated {m : Nat} {se : StepExecution} {resume : Option Int}
    (h : AtStep items step R.execution.id jobId .STARTED se.id .STARTING m s)
    (hpos : pos s.1.user = 0) (hresume : s.1.checkpoint se.id = resume) :
    (R.runCreated fuel (.chunk step) se resume : Code α StepResult).wp (worldLogic env).total
      (fun out s' => ∃ m', match out with
        | .ok result => AtStep items step R.execution.id jobId .STARTED se.id result.status m' s' ∧
            (items.length ≤ m' * step.chunkSize ∨ result.status = .FAILED) ∧
            result.ReportedUnder reports
        | .error err =>
            AtStep items step R.execution.id jobId .STARTED se.id .FAILED m' s' ∧ err.HasText)
      s := by
  have hclock : OpKind.clock ∈ lookingKinds := by decide
  refine wp_seq_look (o := .now) hkeeps hreplays hclock h.row fun startedAt s₁ hkept₁ hrow₁ => ?_
  have hemit (event : BatchEvent) : (Op.emit event : Op α).kind ∈ lookingKinds :=
    (by decide : OpKind.emit ∈ lookingKinds)
  refine wp_seq_look hkeeps hreplays (hemit _) hrow₁ fun _ s₂ hkept₂ hrow₂ => ?_
  have hkept := hkept₁.trans hkept₂
  refine Prog.wp_seq (wp_orFailStep hkeeps hreplays htexts hreports hcompleted hfailed hpartition
    hsize hfuel (h.keep hkept hrow₂) (hkept.position.trans hpos)
    ((hkept.checkpoint _).trans hresume)) ?_ fun _ _ h => h
  intro result s₃ h₃
  obtain ⟨m', hat, hresult⟩ := h₃
  refine wp_seq_look (o := .now) hkeeps hreplays hclock hat.row fun endTime s₄ hkept₄ hrow₄ => ?_
  refine Prog.wp_seq (wp_updateLatest hkeeps (hat.keep hkept₄ hrow₄) _) ?_ fun _ _ h => by cases h.1
  intro _ s₅ h₅
  refine wp_seq_look (o := .now) hkeeps hreplays hclock h₅.2.row fun emittedAt s₆ hkept₆ hrow₆ => ?_
  refine wp_seq_look hkeeps hreplays (hemit _) hrow₆ fun _ s₇ hkept₇ hrow₇ => ?_
  exact ⟨m', h₅.2.keep (hkept₆.trans hkept₇) hrow₇, hresult⟩

/-- The step of a run: its latest step execution ends with the status reported,
or FAILED if none is. -/
theorem wp_runStep {m : Nat} (h : Ready items step pos R jobId .STARTED m s) :
    (R.runStep fuel (.chunk step) : Code α (StepExecution × StepResult)).wp (worldLogic env).total
      (fun out s' => ∃ m' sid, match out with
        | .ok (_, result) =>
            AtStep items step R.execution.id jobId .STARTED sid result.status m' s' ∧
              (items.length ≤ m' * step.chunkSize ∨ result.status = .FAILED) ∧
              result.ReportedUnder reports
        | .error err =>
            AtStep items step R.execution.id jobId .STARTED sid .FAILED m' s' ∧ err.HasText) s := by
  refine Prog.wp_seq (wp_restartStepContext hkeeps hreplays h) ?_ ?_
  · intro found s₁ h₁
    obtain ⟨hready, restartContext, hout, hnext, hfresh⟩ := h₁
    obtain rfl := Except.ok.inj hout
    refine wp_enterStep hkeeps hready hnext hfresh fun se s₂ hat hpos hresume => ?_
    refine Prog.wp_seq (wp_runCreated hkeeps hreplays htexts hreports hcompleted hfailed hpartition
      hsize hfuel hat hpos hresume) ?_ ?_
    · intro result s₃ h₃
      obtain ⟨m', h₃⟩ := h₃
      exact ⟨m', se.id, h₃⟩
    · intro err s₃ h₃
      obtain ⟨m', h₃⟩ := h₃
      exact ⟨m', se.id, h₃⟩
  · intro err s₁ h₁
    obtain ⟨-, restartContext, hout, -⟩ := h₁
    cases hout

end Step

/-! ### The run -/

/-- Where a run leaves the row and the step: `m` chunks are passed, behind a FAILED
row there is a FAILED step with its checkpoint, behind a COMPLETED one the whole list. -/
structure Left (items : List α) (step : ChunkStepDefinition) (e jobId : String)
    (status : JobStatus) (m : Nat) (s : World υ × Calls α) : Prop where
  filed : s.1.repo.StepsFiled
  row : HasRow e jobId status s.1.repo
  passes : PassesUpTo items step s.2 m
  failed : status = .FAILED → ∃ prior, s.1.repo.findLatestStepExecution e step.id = some prior ∧
    prior.status = .FAILED ∧ nextChunk (s.1.checkpoint prior.id) = m
  completed : status = .COMPLETED → items.length ≤ m * step.chunkSize
  running : status ≠ .STOPPED

/-- A run that ends after its step has failed leaves it to a restart. -/
theorem AtStep.left_failed {m : Nat} {e sid : String} {status' : JobStatus}
    {s' : World υ × Calls α} (h : AtStep items step e jobId status sid .FAILED m s)
    (hkept : Kept pos s s') (hrow : HasRow e jobId status' s'.1.repo)
    (hstatus : status' = .FAILED) : Left items step e jobId status' m s' := by
  have h' := h.keep hkept hrow
  subst hstatus
  refine ⟨h'.filed, hrow, h'.passes, fun _ => ?_, (fun h => by cases h), (fun h => by cases h)⟩
  obtain ⟨se, hlatest, hid, hfailed⟩ := h'.latest
  exact ⟨se, hlatest, hfailed, hid ▸ h'.checkpoint⟩

/-- A run that ends after its step was completed has passed the list. -/
theorem AtStep.left_completed {m : Nat} {e sid : String} {stepStatus : StepStatus}
    {s' : World υ × Calls α} (h : AtStep items step e jobId status sid stepStatus m s)
    (hkept : Kept pos s s') (hrow : HasRow e jobId .COMPLETED s'.1.repo)
    (hdone : items.length ≤ m * step.chunkSize) : Left items step e jobId .COMPLETED m s' := by
  have h' := h.keep hkept hrow
  exact ⟨h'.filed, hrow, h'.passes, (fun h => by cases h), (fun _ => hdone), (fun h => by cases h)⟩

/-- What a run has left stays while nothing is done. -/
theorem Left.keep {m : Nat} {e : String} {s' : World υ × Calls α}
    (h : Left items step e jobId status m s) (hkept : Kept pos s s')
    (hrow : HasRow e jobId status s'.1.repo) : Left items step e jobId status m s' where
  filed := hkept.stepsFiled h.filed
  row := hrow
  passes := hkept.passes h.passes
  failed hstatus := by
    obtain ⟨prior, hlatest, hfailed, hnext⟩ := h.failed hstatus
    exact ⟨prior, (hkept.findLatest _ _).trans hlatest, hfailed,
      (congrArg nextChunk (hkept.checkpoint _)).trans hnext⟩
  completed := h.completed
  running := h.running

/-- A run that fails before its step leaves the row as it found it. -/
theorem Ready.left {m : Nat} (h : Ready items step pos R jobId status m s)
    (hrunning : status.blocksLaunch = true) : Left items step R.execution.id jobId status m s := by
  refine ⟨h.filed, h.row, h.passes, ?_, ?_, ?_⟩
  · intro hstatus
    subst hstatus
    cases hrunning
  · intro hstatus
    subst hstatus
    cases hrunning
  · intro hstatus
    subst hstatus
    cases hrunning

section Job

variable (hkeeps : env.KeepsCheckpoint) (hreplays : env.Replays items step pos)
  (htexts : env.ThrowsTexts) {reports : StepStatus → String → Prop} (hreports : env.Reports reports)
  (hjob : R.jobDef.IsSingleStep step reports) (hpartition : R.partition = {})
  (hsize : 0 < step.chunkSize) {fuel : Nat} (hfuel : items.length < fuel)
include hkeeps hreplays

/-- The deciders answer, and change nothing. -/
theorem wp_resolveDecider (stepId : String) (ctx : DeciderContext)
    (hrow : HasRow R.execution.id jobId status s.1.repo) :
    (R.resolveDeciderExitStatus stepId ctx : Code α (Option String)).wp (worldLogic env).total
      (fun out s' => (∃ decider, out = .ok decider) ∧ Kept pos s s' ∧
        HasRow R.execution.id jobId status s'.1.repo) s := by
  unfold resolveDeciderExitStatus
  split
  · exact ⟨⟨none, rfl⟩, .refl s, hrow⟩
  · next decider _ =>
      have hdecide : OpKind.decide ∈ lookingKinds := by decide
      refine Prog.wp_bind.mpr (ChunkStepExecutor.wp_orThrow.mpr
        (Prog.wp_perform.mpr ⟨trivial, ?_⟩))
      intro r s' ht
      have hkept := (looking_frame hkeeps hreplays s).keep _ s r s' hdecide ⟨.refl s, rfl⟩ ht
      obtain ⟨answer, hanswer⟩ :=
        (hreplays.trans (.user (.decide decider.decide ctx)) s.1 false).2.2.2
      have hr : r = .ok answer := (congrArg Prod.fst ht).symm.trans hanswer
      subst hr
      exact ⟨⟨_, rfl⟩, hkept.1, hrow.congr hkept.2 hkept.1.instances⟩

include htexts hreports hjob hpartition hsize hfuel

/-- The step loop makes one turn. -/
theorem wp_stepLoop {m : Nat} (h : Ready items step pos R jobId .STARTED m s) (turns : Nat) :
    (R.stepLoop fuel (turns + 1) R.jobDef.startStepId : Code α JobStatus).wp (worldLogic env).total
      (fun out s' =>
      ∃ m' sid, match out with
        | .ok finalStatus =>
            (finalStatus = .FAILED ∧ Left items step R.execution.id jobId .FAILED m' s') ∨
            (finalStatus = .COMPLETED ∧ items.length ≤ m' * step.chunkSize ∧ ∃ stepStatus,
              AtStep items step R.execution.id jobId .STARTED sid stepStatus m' s')
        | .error err =>
            AtStep items step R.execution.id jobId .STARTED sid .FAILED m' s' ∧ err.HasText) s := by
  unfold stepLoop
  rw [hjob.start]
  refine Prog.wp_seq (wp_runStep hkeeps hreplays htexts hreports hjob.completed hjob.failed
    hpartition hsize hfuel h) ?_ fun _ _ h => h
  intro ran s₁ h₁
  obtain ⟨se, result⟩ := ran
  obtain ⟨m', sid, hat, hresult, hunder⟩ := h₁
  refine Prog.wp_seq (Prog.wp_total_and (wp_resolveDecider hkeeps hreplays _ _ hat.row)
    (wp_decider_reports hreports R _ _ s₁)) ?_ ?_
  · intro decider s₂ h₂
    obtain ⟨⟨-, hkept, hrow⟩, hanswer⟩ := h₂
    have hat₂ := hat.keep hkept hrow
    have hreported : reports result.status (flowExitStatus decider result) :=
      reported_of_decider hunder fun answer heq => hanswer answer (congrArg Except.ok heq)
    rw [hjob.ends decider result hreported]
    by_cases hfailed : result.status = .FAILED
    · rw [if_pos hfailed]
      refine Prog.wp_mono (wp_failJob hkeeps hreplays result.exitCode result.exitMessage hrow) ?_
      intro out s₃ h₃
      obtain ⟨rfl, hkept₃, hrow₃⟩ := h₃
      rw [hfailed] at hat₂
      exact ⟨m', sid, .inl ⟨rfl, hat₂.left_failed hkept₃ hrow₃ rfl⟩⟩
    · rw [if_neg hfailed]
      exact ⟨m', sid, .inr ⟨rfl, hresult.resolve_right hfailed, result.status, hat₂⟩⟩
  · intro err s₂ h₂
    obtain ⟨⟨⟨decider, hout⟩, -⟩, -⟩ := h₂
    cases hout

/-- The loop, the final write and the catch block. -/
theorem wp_drive {m : Nat} (h : Ready items step pos R jobId .STARTED m s) :
    (R.drive fuel : Code α JobStatus).wp (worldLogic env).total (fun _ s' => ∃ m' status',
      Left items step R.execution.id jobId status' m' s') s := by
  obtain ⟨turns, rfl⟩ : ∃ turns, fuel = turns + 1 := ⟨fuel - 1, by omega⟩
  refine Prog.wp_tryCatch.mpr (Prog.wp_seq
    (wp_stepLoop hkeeps hreplays htexts hreports hjob hpartition hsize hfuel h turns) ?_ ?_)
  · intro finalStatus s₁ h₁
    obtain ⟨m', sid, h₁⟩ := h₁
    rcases h₁ with ⟨rfl, hleft⟩ | ⟨rfl, hdone, stepStatus, hat⟩
    · exact ⟨m', .FAILED, hleft⟩
    · refine Prog.wp_mono (wp_completeJob hkeeps hreplays hat.row) ?_
      intro out s₂ h₂
      obtain ⟨rfl, hkept, hrow⟩ := h₂
      exact ⟨m', .COMPLETED, hat.left_completed hkept hrow hdone⟩
  · intro err s₁ h₁
    obtain ⟨m', sid, hat, htext⟩ := h₁
    refine Prog.wp_mono (wp_onError hkeeps hreplays htext hat.row) ?_
    intro out s₂ h₂
    exact ⟨m', .FAILED, hat.left_failed h₂.1 h₂.2 rfl⟩

/-- **A run of the job**, from `m` chunks passed to `m'`. -/
theorem wp_proceed {m : Nat} (h : Ready items step pos R jobId status m s) :
    (R.proceed fuel : Code α JobExecution).wp (worldLogic env).total (fun _ s' => ∃ m' status',
      Left items step R.execution.id jobId status' m' s') s := by
  have hleft {s' : World υ × Calls α} (h' : Ready items step pos R jobId .STARTED m s') :
      ∃ m' status', Left items step R.execution.id jobId status' m' s' :=
    ⟨m, .STARTED, h'.left rfl⟩
  refine Prog.wp_seq (wp_begin hkeeps hreplays h.row) ?_ fun _ s' h' => hleft (h.keep h'.1 h'.2)
  intro _ s₁ h₁
  have hready := h.keep h₁.1 h₁.2
  refine Prog.wp_seq (wp_look hkeeps hreplays (uses_invokeMatching (by decide) _ _ _) hready.row) ?_
    fun _ s' h' => hleft (hready.keep h'.1 h'.2)
  intro _ s₂ h₂
  refine Prog.wp_seq (wp_drive hkeeps hreplays htexts hreports hjob hpartition hsize hfuel
    (hready.keep h₂.1 h₂.2)) ?_ fun _ s' h' => h'
  intro finalStatus s₃ h₃
  obtain ⟨m', status', h₃⟩ := h₃
  refine Prog.wp_seq (wp_finish hkeeps hreplays finalStatus h₃.row) ?_
    fun _ s' h' => ⟨m', status', h₃.keep h'.1 h'.2⟩
  intro _ s₄ h₄
  have hgetJob : OpKind.getJob ∈ lookingKinds := by decide
  refine wp_seq_look (o := .getJobExecution R.execution.id) hkeeps hreplays hgetJob h₄.2
    fun latest s₅ hkept hrow => ?_
  exact ⟨m', status', (h₃.keep h₄.1 h₄.2).keep hkept hrow⟩

end Job

end JobExecutor.Run

end NestBatch
