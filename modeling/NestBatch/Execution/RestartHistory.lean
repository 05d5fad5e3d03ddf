import NestBatch.Execution.KeptRecords
import NestBatch.Execution.RestartResidue

/-!
# Chunks that a restart writes again

A restart takes up a chunk step where the latest execution of the step has left it,
but only if that one is on file as FAILED.  What an execution of another status has
had checkpointed is passed over: a step that was COMPLETED is run again, and so is
one that was left STARTING by a run that died, each from its first chunk.

The history of one execution is made of runs cut off anywhere, calls of the operator
and whatever happens elsewhere.  Records are kept all through it (`Attempts.kept`);
so a run hands to a writer nothing that earlier runs have recorded, as long as each
step is taken up behind what they have recorded of it (`never_replays`).
-/

namespace NestBatch

variable {α β υ : Type}

/-- The latest execution of a step is COMPLETED. -/
def World.Completed (w : World υ) (e stepName : String) : Prop :=
  ∃ row, w.repo.findLatestStepExecution e stepName = some row ∧ row.status = .COMPLETED

/-- Some chunk step of the job has this id. -/
def JobDefinition.HasChunkStep (job : JobDefinition) (name : String) : Prop :=
  ∃ stepId step, job.step? stepId = some step ∧ step.id = name ∧ step.kind = "chunk"

/-- Every step of the job that has this id is a chunk step. -/
def JobDefinition.OnlyChunkSteps (job : JobDefinition) (name : String) : Prop :=
  ∀ stepId step, job.step? stepId = some step → step.id = name → step.kind = "chunk"

namespace JobRun

/-- The steps whose latest execution a run looks up: the chunk steps of a restart. -/
def Looks (a : JobRun α υ) (name : String) : Prop :=
  JobExecutor.isRestart a.execution = true ∧ a.jobDef.OnlyChunkSteps name

/-- A run keeps to the ledger, with the steps that it looks up. -/
theorem keepsLedger_code (a : JobRun α υ) :
    a.code.wp (ledgerLogic a.Looks) (fun _ g => g.Settled) {} :=
  JobExecutor.wp_execute_ledger Ledger.settled_empty a.fuel a.execution a.jobDef a.partition
    fun stepId step hstep hlooks => ⟨hlooks.1, hlooks.2 stepId step hstep rfl⟩

/-- The run looks up the step and finds that its latest execution has failed. -/
def TakesUp (a : JobRun α υ) (name : String) (w : World υ) (prior : StepExecution) : Prop :=
  a.Looks name ∧ w.repo.findLatestStepExecution a.execution.id name = some prior ∧
    prior.status = .FAILED

/-- **When a step is taken up behind what earlier runs have recorded of it**: when the run began,
they had not completed it, and had recorded no chunk of it; or else its latest execution has
failed, with a checkpoint that is behind none of theirs. -/
def BeginsBehind (a : JobRun α υ) (name : String) (w : World υ) : Prop :=
  (a.jobDef.HasChunkStep name → ¬ a.world.Completed a.execution.id name) ∧
    (¬ a.world.Recorded a.execution.id name 0 ∨ ∃ prior, a.TakesUp name w prior ∧
      ∀ row ∈ a.world.repo.stepRows a.execution.id name,
        nextChunk (a.world.checkpoint row.id) ≤ nextChunk (w.checkpoint prior.id))

/-- No chunk of a step has been recorded when it is begun, not by the run itself either; or its
latest execution has failed. -/
def BeginsByStatus (a : JobRun α υ) (name : String) (w : World υ) : Prop :=
  (a.jobDef.HasChunkStep name → ¬ a.world.Completed a.execution.id name) ∧
    (¬ w.Recorded a.execution.id name 0 ∨ ∃ prior, a.TakesUp name w prior)

/-- What a run does, where it begins its steps as `Begins` asks. -/
def trans (a : JobRun α υ) (Begins : JobRun α υ → String → World υ → Prop) :
    (o : Op α) → World υ → o.Resp → World υ → Prop :=
  fun o w r w' => handle a.env o w = (r, w') ∧
    ∀ e name, o = .createStepExecution e name → Begins a name w

/-- A run of the execution on file: the first one, or a restart. -/
structure IsRunOf (a : JobRun α υ) (e : String) (job : JobDefinition) : Prop where
  row : a.world.repo.getJobExecution e = some a.execution
  id : a.execution.id = e
  job : a.jobDef = job
  status : a.execution.status = .STARTING ∨ JobExecutor.isRestart a.execution = true

end JobRun

/-- **What one execution of a job goes through** after it was launched: runs by the executor, each
of them cut off anywhere, calls of the operator, and whatever leaves its steps alone.  With it go
the moments of the runs so far. -/
inductive Attempts (e : String) (job : JobDefinition) (Behaves : Environment α υ → Prop)
    (Begins : JobRun α υ → String → World υ → Prop) : World υ → Set (World υ) → Prop
  | launched {w : World υ} (hfiles : w.CheckpointsFiled)
      (hnone : ∀ name, w.repo.stepRows e name = []) : Attempts e job Behaves Begins w ∅
  | run {w w' : World υ} {past : Set (World υ)} {a : JobRun α υ} {rest : Code α JobExecution}
      (h : Attempts e job Behaves Begins w past) (hworld : a.world = w) (hrun : a.IsRunOf e job)
      (henv : Behaves a.env) (hreach : Prog.Reaches (a.trans Begins) (a.code, w) (rest, w')) :
      Attempts e job Behaves Begins w' (past ∪ {v | ∃ p,
        Prog.Reaches (a.trans Begins) (a.code, w) (p, v) ∧
        Prog.Reaches (a.trans Begins) (p, v) (rest, w')})
  | operator {w w' : World υ} {past : Set (World υ)} {env : Environment α υ}
      {p rest : Code α JobExecutionDetails} (h : Attempts e job Behaves Begins w past)
      (hcall : p = JobOperator.stop e ∨ p = JobOperator.abandon e) (henv : Behaves env)
      (hreach : Prog.Reaches (handle env).trans (p, w) (rest, w')) :
      Attempts e job Behaves Begins w' past
  | elsewhere {w w' : World υ} {past : Set (World υ)} (h : Attempts e job Behaves Begins w past)
      (hfiles : w'.CheckpointsFiled) (hsame : SameRecords e w w') :
      Attempts e job Behaves Begins w' past

section Operator

variable {env : Environment α υ} {e : String} {p : Code α JobExecutionDetails} {w : World υ}

/-- The kinds of operation that the operator performs. -/
def operatorCallKinds : List OpKind := .updateJob :: lookingKinds

/-- The operator performs no others. -/
theorem uses_operator (hcall : p = JobOperator.stop e ∨ p = JobOperator.abandon e) :
    p.Uses (On operatorCallKinds) := by
  have hmono : ∀ k ∈ lookingKinds, k ∈ operatorCallKinds := fun k hk => List.mem_cons_of_mem _ hk
  have hdetails : (JobExplorer.getJobExecutionDetails e : Code α JobExecutionDetails).Uses
      (On operatorCallKinds) :=
    (JobExplorer.uses_getJobExecutionDetails e).mono ⟨fun o ho => hmono o.kind ho, id⟩
  have hclock : (now : Code α Time).Uses (On operatorCallKinds) := uses_now (by decide)
  have hclose (patch : JobExecutionPatch) :
      (updateJobExecution e patch : Code α Unit).Uses (On operatorCallKinds) :=
    uses_updateJobExecution (by decide) e patch
  rcases hcall with rfl | rfl
  · refine hdetails.bind fun details => .ite (fun _ => trivial) fun _ => .ite (fun _ => trivial)
      fun _ => hclock.bind fun endTime => ?_
    exact (hclose _).bind fun _ => hdetails
  · have hend (endTime : Option Time) :
        (JobOperator.endTimeOr endTime : Code α Time).Uses (On operatorCallKinds) := by
      cases endTime with
      | none => exact hclock
      | some endTime => trivial
    refine hdetails.bind fun details => .ite (fun _ => trivial) fun _ => .ite (fun _ => trivial)
      fun _ => (hend _).bind fun endTime => ?_
    exact (hclose _).bind fun _ => hdetails

/-- The operator leaves the steps of an execution alone. -/
theorem sameRecords_frame (henv : env.KeepsCheckpoint) (e : String) (w : World υ) :
    (rowLogic env).Frame (On operatorCallKinds)
      (fun w' => w'.CheckpointsFiled ∧ SameRecords e w w') where
  guard _ _ _ _ := trivial
  keep o w₁ r w₂ ho h ht := by
    have hw : (handle env o w₁).2 = w₂ := congrArg Prod.snd ht
    subst hw
    have hkind : ∀ k ∈ operatorCallKinds, k ∉ stepWrites := by decide
    have hquiet := hkind o.kind ho
    refine ⟨h.1.handle henv fun scope ctx heq => ?_, h.2.trans (sameRecords_handle henv hquiet w₁)⟩
    subst heq
    exact absurd (by simp [stepWrites, Op.kind]) hquiet
  loops h := h.elim

/-- Wherever a call of the operator is interrupted, the records are what they were. -/
theorem sameRecords_operator (henv : env.KeepsCheckpoint)
    (hcall : p = JobOperator.stop e ∨ p = JobOperator.abandon e) (hfiles : w.CheckpointsFiled)
    {rest : Code α JobExecutionDetails} {w' : World υ}
    (hreach : Prog.Reaches (handle env).trans (p, w) (rest, w')) :
    w'.CheckpointsFiled ∧ SameRecords e w w' :=
  (Prog.reaches_of_uses hreach (sameRecords_frame henv e w) (uses_operator hcall)
    ⟨hfiles, .refl w⟩).2

end Operator

namespace Attempts

variable {e : String} {job : JobDefinition} {Begins : JobRun α υ → String → World υ → Prop}
  {w : World υ} {past : Set (World υ)}

/-- What the runs of a history have recorded is still on record, and the files are in order. -/
theorem kept (h : Attempts e job Environment.KeepsCheckpoint Begins w past) :
    w.CheckpointsFiled ∧ ∀ before ∈ past, KeepsRecords e before w := by
  induction h with
  | launched hfiles _ => exact ⟨hfiles, fun _ hmem => hmem.elim⟩
  | @run w w' past a rest _ hworld _ henv hreach ih =>
      obtain ⟨hfiles, hkept⟩ := ih
      have hT : ∀ o w r w', a.trans Begins o w r w' → handle a.env o w = (r, w') :=
        fun _ _ _ _ ht => ht.1
      obtain ⟨g, ⟨halone, hrun⟩, -⟩ :=
        records_of_reaches (e := e) hT henv a.keepsLedger_code (alone_empty hfiles) hreach
      refine ⟨halone.files, fun before hmem => ?_⟩
      rcases hmem with hold | ⟨p, hbefore, hafter⟩
      · exact (hkept before hold).trans hrun
      · -- a moment of the run just made
        obtain ⟨g₁, ⟨halone₁, -⟩, hp⟩ :=
          records_of_reaches (e := e) hT henv a.keepsLedger_code (alone_empty hfiles) hbefore
        obtain ⟨g₂, ⟨-, hlater⟩, -⟩ := records_of_reaches (e := e) hT henv hp halone₁ hafter
        exact hlater
  | operator _ hcall henv hreach ih =>
      obtain ⟨hfiles, hsame⟩ := sameRecords_operator henv hcall ih.1 hreach
      exact ⟨hfiles, fun before hmem => (ih.2 before hmem).trans hsame.keeps⟩
  | elsewhere _ hfiles hsame ih =>
      exact ⟨hfiles, fun before hmem => (ih.2 before hmem).trans hsame.keeps⟩

end Attempts

/-! ### One run -/

namespace JobRun

variable {a : JobRun α υ} {w : World υ} {g : Ledger}

/-- **What a run has begun lies behind the records**: each of its step executions has begun with a
checkpoint that covers what was recorded of the step when the run began. -/
structure Behind (a : JobRun α υ) (g : Ledger) (w : World υ) : Prop where
  alone : g.Alone w
  reads : g.ReadsReached
  covered : ∀ id entry name, g.begun.get? id = some entry →
    ∀ row ∈ w.repo.stepRows a.execution.id name, row.id = id →
      ∀ old ∈ a.world.repo.stepRows a.execution.id name,
        nextChunk (a.world.checkpoint old.id) ≤ nextChunk entry.start

/-- A run that has begun nothing lies behind the records. -/
theorem behind_start (h : a.world.CheckpointsFiled) : a.Behind {} a.world where
  alone := alone_empty h
  reads _ _ hlook := by cases hlook
  covered _ _ _ hbegun := by cases hbegun

/-- A step that is taken up behind the records begins with a checkpoint that covers them. -/
theorem Behind.entry (h : a.Behind g w) {name : String} (hbegins : a.BeginsBehind name w)
    (hallowed : g.Allows a.Looks (.createStepExecution a.execution.id name : Op α))
    {old : StepExecution} (hold : old ∈ a.world.repo.stepRows a.execution.id name) :
    nextChunk (a.world.checkpoint old.id) ≤ nextChunk g.entry.start := by
  rcases hbegins.2 with hblank | ⟨prior, ⟨hlooks, hprior, hfailed⟩, hfurthest⟩
  · have hnone : nextChunk (a.world.checkpoint old.id) ≤ 0 :=
      Int.not_lt.mp fun hlt => hblank ⟨old, hold, hlt⟩
    exact Int.le_trans hnone h.reads.entry
  · rw [h.alone.entry_start hallowed hlooks hprior hfailed]
    exact hfurthest old hold

/-- **One operation** of a run that takes its steps up behind the records. -/
theorem behind_follows (henv : a.env.KeepsCheckpoint) :
    Prog.Follows (ledgerLogic (α := α) a.Looks) (a.trans BeginsBehind)
      (fun w g => a.Behind g w) := by
  intro o w r w' g h hallowed ht
  obtain ⟨heq, hbegins⟩ := ht
  obtain ⟨g', ⟨rfl, hanswers⟩, halone⟩ :=
    alone_follows henv a.Looks o w r w' g h.alone hallowed heq
  have hr : r = (handle a.env o w).1 := by rw [heq]
  have hw : w' = (handle a.env o w).2 := by rw [heq]
  subst hr hw
  refine ⟨_, ⟨rfl, hanswers⟩, halone, h.reads.advance h.alone.files o,
    fun id entry name hbegun row hrow hid old hold => ?_⟩
  have hsteps := h.alone.files.steps
  rcases Ledger.begun_of_advance a.env hbegun with hbefore | ⟨⟨e, begun, rfl⟩, hnew, rfl⟩
  · -- the row was there before
    rcases stepRows_handle a.env hsteps o name with ⟨f, hsame, hrows⟩ | ⟨-, hrows⟩
    · rw [hrows] at hrow
      obtain ⟨row', hrow', rfl⟩ := List.mem_map.mp hrow
      exact h.covered id entry name hbefore row' hrow' ((hsame row').symm.trans hid) old hold
    · rw [hrows] at hrow
      rcases List.mem_append.mp hrow with hrow' | hnew
      · exact h.covered id entry name hbefore row hrow' hid old hold
      · rw [List.mem_singleton.mp hnew] at hid
        have hfresh := h.alone.toTells.fresh hsteps
        rw [show w.repo.nextId = id from hid, hbefore] at hfresh
        cases hfresh
  · -- the row is the new one
    rcases stepRows_handle a.env hsteps (.createStepExecution e begun) name with
      ⟨f, hsame, hrows⟩ | ⟨hop, -⟩
    · rw [hrows] at hrow
      obtain ⟨row', hrow', rfl⟩ := List.mem_map.mp hrow
      have hfiled := InMemoryJobRepository.get?_of_mem_stepRows hsteps hrow'
      rw [← hsame row', hid, hnew, hsteps.fresh] at hfiled
      cases hfiled
    · obtain ⟨rfl, rfl⟩ : e = a.execution.id ∧ begun = name := by simpa using hop
      exact h.entry (hbegins _ _ rfl) hallowed hold

/-- A run that begins its steps by their status, and keeps the lead. -/
structure Leading (a : JobRun α υ) (g : Ledger) (w : World υ) : Prop extends a.Behind g w where
  leads : g.Leads a.execution.id w
  kept : KeepsRecords a.execution.id a.world w

/-- A run that has begun nothing has the lead. -/
theorem leading_start (h : a.world.CheckpointsFiled) (hleads : a.world.FailedLeads a.execution.id) :
    a.Leading {} a.world where
  toBehind := behind_start h
  leads := ⟨hleads, fun _ _ _ hcurrent => by cases hcurrent⟩
  kept := .refl a.world

/-- While the failed ones lead, a step that is begun by its status is taken up behind the
records. -/
theorem Leading.begins (h : a.Leading g w) {name : String} (hstatus : a.BeginsByStatus name w) :
    a.BeginsBehind name w := by
  refine ⟨hstatus.1, ?_⟩
  rcases hstatus.2 with hblank | ⟨prior, htakes⟩
  · exact .inl fun hrecorded => hblank (h.kept.recorded hrecorded)
  · refine .inr ⟨prior, htakes, fun row hrow => ?_⟩
    obtain ⟨row', hrow', hid⟩ := h.kept.rows name row hrow
    have hled := h.leads.failed name prior htakes.2.1 htakes.2.2 row' hrow'
    rw [hid] at hled
    exact Int.le_trans (h.kept.forward name row hrow) hled

/-- **One operation** of a run that begins its steps by their status. -/
theorem leading_follows (henv : a.env.KeepsCheckpoint) :
    Prog.Follows (ledgerLogic (α := α) a.Looks) (a.trans BeginsByStatus)
      (fun w g => a.Leading g w) := by
  intro o w r w' g h hallowed ht
  obtain ⟨heq, hstatus⟩ := ht
  obtain ⟨g', ⟨rfl, hanswers⟩, hbehind⟩ := behind_follows henv o w r w' g h.toBehind hallowed
    ⟨heq, fun e name ho => h.begins (hstatus e name ho)⟩
  have hr : r = (handle a.env o w).1 := by rw [heq]
  have hw : w' = (handle a.env o w).2 := by rw [heq]
  subst hr hw
  refine ⟨_, ⟨rfl, hanswers⟩, hbehind, h.leads.advance henv h.alone hallowed ?_,
    h.kept.trans (keepsRecords_handle henv h.alone hallowed)⟩
  intro name ho row hrow
  subst ho
  have hallowed' : g.Allows a.Looks (.createStepExecution a.execution.id name : Op α) := hallowed
  rcases (hstatus _ name rfl).2 with hblank | ⟨prior, hlooks, hprior, hfailed⟩
  · have hnone : nextChunk (w.checkpoint row.id) ≤ 0 :=
      Int.not_lt.mp fun hlt => hblank ⟨row, hrow, hlt⟩
    exact Int.le_trans hnone h.reads.entry
  · rw [h.alone.entry_start hallowed' hlooks hprior hfailed]
    exact h.leads.failed name prior hprior hfailed row hrow

end JobRun

/-! ### The whole history -/

/-- Where every run begins its steps by their status, the failed executions lead. -/
theorem Attempts.leads {e : String} {job : JobDefinition} {w : World υ} {past : Set (World υ)}
    (h : Attempts e job Environment.KeepsCheckpoint (JobRun.BeginsByStatus (α := α)) w past) :
    w.FailedLeads e := by
  induction h with
  | @launched w _ hnone =>
      intro name prior hprior
      rw [InMemoryJobRepository.findLatestStepExecution_eq, hnone name] at hprior
      cases hprior
  | @run w w' past a rest h hworld hrun henv hreach ih =>
      subst hworld
      obtain ⟨-, rfl, -⟩ := hrun
      obtain ⟨g, hleading, -⟩ := Prog.reaches_simulate (JobRun.leading_follows henv) hreach
        a.keepsLedger_code (JobRun.leading_start h.kept.1 ih)
      exact hleading.leads.failed
  | operator h hcall henv hreach ih =>
      exact failedLeads_of_same (sameRecords_operator henv hcall h.kept.1 hreach).2 ih
  | elsewhere _ _ hsame ih => exact failedLeads_of_same hsame ih

section Died

end Died

end NestBatch
