import NestBatch.Execution.LedgerRight

/-!
# What a restart takes over

A run that nobody interferes with finds what is on file: the step execution that it
looks up is still the latest when it begins the step again.  So a restart hands no
chunk to a writer that the failed execution of the step has had checkpointed, in
whichever step of the job that was (`restart_takes_over`).
-/

namespace NestBatch

variable {α β υ : Type}

/-- The ledger of a run that is alone: what it has looked up last is what is on file. -/
structure Ledger.Alone (g : Ledger) (w : World υ) : Prop extends Right g w where
  files : w.CheckpointsFiled
  found : ∀ look, g.look = some look →
    look.prior = w.repo.findLatestStepExecution look.jobExecutionId look.stepName

section Restart

variable {env : Environment α υ} {execution : JobExecution} {jobDef : JobDefinition}
  {partition : PartitionArgs} {stepName : String} {w w' : World υ} {g : Ledger}
  {resumes : String → Prop}

/-- **A run that is alone keeps its ledger right.** -/
theorem alone_follows (henv : env.KeepsCheckpoint) (resumes : String → Prop) :
    Prog.Follows (ledgerLogic (α := α) resumes) (handle env).trans
      (fun w g => g.Alone w) := by
  intro o w r w' g h hallowed ht
  have heq : handle env o w = (r, w') := ht
  have hr : r = (handle env o w).1 := by rw [heq]
  have hw : w' = (handle env o w).2 := by rw [heq]
  subst hr hw
  refine ⟨_, ⟨rfl, h.toTells.answers henv h.files⟩, ?_⟩
  refine { toRight := h.toRight.advance henv h.files hallowed
           files := h.toTells.files henv h.files hallowed, found := fun look hlook => ?_ }
  cases o with
  | findLatestStepExecution e name =>
      obtain rfl := Option.some.inj hlook
      rfl
  | getExecutionContext scope =>
      obtain ⟨before, hbefore, rfl⟩ := Option.map_eq_some_iff.mp hlook
      have hfound := h.found before hbefore
      unfold Look.read
      split
      · exact hfound
      · exact hfound
  | saveExecutionContext scope ctx => cases scope <;> cases hlook
  | _ => cases hlook

/-- Wherever code that keeps to the ledger is interrupted, the ledger is right. -/
theorem ledger_of_reaches {p p' : Code α β} {Q : Except Thrown β → Ledger → Prop}
    (henv : env.KeepsCheckpoint) (hp : p.wp (ledgerLogic resumes) Q g) (h : g.Alone w)
    (hreach : Prog.Reaches (handle env).trans (p, w) (p', w')) :
    ∃ g', g'.Alone w' ∧ p'.wp (ledgerLogic resumes) Q g' :=
  Prog.reaches_simulate (alone_follows henv resumes) hreach hp h

theorem alone_empty (h : w.CheckpointsFiled) : ({} : Ledger).Alone w where
  toRight := Ledger.right_empty w
  files := h
  found _ hlook := by cases hlook

/-- **A restart takes over what has failed.**  When a run of a restart begins a chunk step whose
latest execution has failed, whatever the run has done before, every chunk of the step that it
hands to a writer lies behind the checkpoint of the failed execution, and is the one right behind
the checkpoint persisted by then. -/
theorem restart_takes_over (henv : env.KeepsCheckpoint) (hfiles : w.CheckpointsFiled)
    (hrestart : JobExecutor.isRestart execution = true)
    (hchunk : ∀ stepId step, jobDef.step? stepId = some step → step.id = stepName →
      step.kind = "chunk")
    {fuel : Nat} {e : String} {w₁ w₂ : World υ} {k : StepExecution → Code α JobExecution}
    (hbegins : Prog.Reaches (handle env).trans
      (JobExecutor.execute fuel execution jobDef partition, w)
      (.op (.createStepExecution e stepName) k, w₁))
    {prior row : StepExecution} (hprior : w₁.repo.findLatestStepExecution e stepName = some prior)
    (hfailed : prior.status = .FAILED)
    (hrow : handle env (.createStepExecution e stepName) w₁ = (row, w₂))
    {writer : Handle} {items : List α} {ctx : ItemExecutionContext}
    {k' : (Op.user (.write writer items ctx)).Resp → Code α JobExecution}
    (hwrite : Prog.Reaches (handle env).trans (k row, w₂)
      (.op (.user (.write writer items ctx)) k', w'))
    (hown : ctx.stepExecutionId = row.id) :
    w'.checkpoint prior.id = w₁.checkpoint prior.id ∧
      nextChunk (w'.checkpoint prior.id) ≤ ctx.chunkIndex ∧
      ctx.chunkIndex = nextChunk (w'.checkpoint row.id) := by
  have hresumes : ({ execution := execution, jobDef := jobDef, partition := partition } :
      JobExecutor.Run).Resumes (· = stepName) :=
    fun stepId step hstep hname => ⟨hrestart, hchunk stepId step hstep hname⟩
  have hrun := JobExecutor.wp_execute_ledger (α := α) Ledger.settled_empty fuel execution jobDef
    partition hresumes
  obtain ⟨g, halone, hallowed, hrest⟩ := ledger_of_reaches henv hrun (alone_empty hfiles) hbegins
  obtain ⟨look, hlook, hjob, hname⟩ := hallowed.2 rfl
  have hfound := halone.found look hlook
  rw [hjob, hname, hprior] at hfound
  have hentryPrior : g.entry.prior = some prior := by
    change g.look.bind (·.prior) = some prior
    rw [hlook]
    exact hfound
  obtain ⟨g', ⟨rfl, hanswers⟩, halone'⟩ := alone_follows henv (· = stepName)
    (.createStepExecution e stepName) w₁ row w₂ g halone hallowed hrow
  have hbegun : (g.advance (.createStepExecution e stepName : Op α) row).begun.get? row.id =
      some g.entry := JsMap.get?_set_self _ _ _
  -- what the entry says stays true up to the write
  have hfollows : Prog.Follows (ledgerLogic (α := α) (· = stepName)) (handle env).trans
      (fun w g' => g'.Alone w ∧ g'.begun.get? row.id = some g.entry) := by
    intro o w r w' g' hrel hallowed ht
    obtain ⟨g₂, ⟨rfl, hanswers⟩, halone⟩ :=
      alone_follows henv (· = stepName) o w r w' g' hrel.1 hallowed ht
    exact ⟨_, ⟨rfl, hanswers⟩, halone, Ledger.begun_advance hanswers hrel.2⟩
  obtain ⟨g₃, ⟨halone₃, hbegun₃⟩, hguard, -⟩ := Prog.reaches_simulate hfollows hwrite
    (hrest row _ ⟨rfl, hanswers⟩) ⟨halone', hbegun⟩
  have hwrites : g₃.Allows (· = stepName) (.user (.write writer items ctx)) := hguard
  obtain ⟨entry, hentry, hfrom, hindex⟩ := halone₃.toTells.write_behind hwrites
  rw [hown, hbegun₃] at hentry
  obtain rfl := Option.some.inj hentry
  have hbefore := (halone'.begun _ _ _ hbegun hentryPrior hfailed).2
  have hnow := (halone₃.begun _ _ _ hbegun₃ hentryPrior hfailed).2
  have hcreated : w₂.checkpoint prior.id = w₁.checkpoint prior.id := by
    have hkept := checkpoint_handle henv (o := .createStepExecution e stepName) (by simp [Op.kind])
      w₁ prior.id
    rw [hrow] at hkept
    exact hkept
  rw [hnow] at hfrom
  rw [hown] at hindex
  exact ⟨hnow.symm.trans (hbefore.trans hcreated), hfrom, hindex⟩

end Restart

/-- The operation that begins a step. -/
def begins (e stepName : String) : Op α → Bool
  | .createStepExecution e' name => e' = e && name = stepName
  | _ => false

/-- The operation hands a chunk of a step execution to a writer. -/
def writesOf (id : String) : Op α → Bool
  | .user (.write _ _ ctx) => ctx.stepExecutionId = id
  | _ => false

/-- Only the creation of a step begins it. -/
theorem eq_of_begins {e stepName : String} {o : Op α} (h : begins e stepName o = true) :
    o = .createStepExecution e stepName := by
  cases o with
  | createStepExecution e' name =>
      have hboth : e' = e ∧ name = stepName := by simpa [begins] using h
      rw [hboth.1, hboth.2]
  | _ => cases h

/-- Only a write of the step's own is one of its writes. -/
theorem eq_of_writesOf {id : String} {o : Op α} (h : writesOf id o = true) :
    ∃ writer items ctx, o = .user (.write writer items ctx) ∧ ctx.stepExecutionId = id := by
  cases o with
  | user call =>
      cases call with
      | write writer items ctx => exact ⟨writer, items, ctx, rfl, by simpa [writesOf] using h⟩
      | _ => cases h
  | _ => cases h

/-- The restart of the failed run, with a reader that begins again. -/
def rereadRun : JobRun Nat Nat :=
  { restartedRun with
    world := { (failingRun.code.run (handle failingRun.env) failingRun.world).2 with user := 0 } }

/-- Where it begins its step. -/
def rereadBegins : Option (Prog.Pending (Op Nat) Op.Resp Thrown JobExecution (World Nat)) :=
  Prog.upTo (handle rereadRun.env) (begins "r" "pairs") rereadRun.code rereadRun.world

/-- Where it hands its first chunk to the writer. -/
def rereadWrites : Option (Prog.Pending (Op Nat) Op.Resp Thrown JobExecution (World Nat)) :=
  rereadBegins.bind fun c => Prog.upTo (handle rereadRun.env) (writesOf c.state.repo.nextId)
    (c.resume (handle rereadRun.env)).1 (c.resume (handle rereadRun.env)).2

theorem checkpointsFiled_pairs : JobLauncher.pairsCreated.CheckpointsFiled :=
  (checkpointsFiled_initial _ _ 0).handle (o := .createExecutionAtomic "import" "key" [])
    (listEnvironment_keepsCheckpoint [10, 20, 30] fun _ _ => none) fun _ _ heq => by cases heq

theorem checkpointsFiled_reread : rereadRun.world.CheckpointsFiled := by
  have hcreated : failingRun.world.CheckpointsFiled := checkpointsFiled_pairs
  have henv : failingRun.env.KeepsCheckpoint :=
    listEnvironment_keepsCheckpoint [10, 20, 30] fun _ k =>
      if k = 1 then some (.error "disk full") else none
  have hledger : failingRun.code.wp (ledgerLogic fun _ => False) (fun _ g => g.Settled) {} :=
    JobExecutor.wp_execute_ledger Ledger.settled_empty _ _ _ _ fun _ _ _ h => h.elim
  obtain ⟨rest, hreach⟩ := Prog.reaches_run (h := handle failingRun.env) (p := failingRun.code)
    (s := failingRun.world)
  obtain ⟨g, halone, -⟩ := ledger_of_reaches henv hledger (alone_empty hcreated) hreach
  exact ⟨halone.files.steps, halone.files.blank, halone.files.reached⟩

theorem onlyChunks_reread (stepId : String) (step : StepDefinition)
    (hstep : rereadRun.jobDef.step? stepId = some step) (hname : step.id = "pairs") :
    step.kind = "chunk" := by
  unfold JobDefinition.step? at hstep
  split at hstep
  · next found hget =>
      have hset : (JsMap.empty.set "pairs" (.chunk pairsStep)).get? stepId = some found := hget
      rw [JsMap.get?_set] at hset
      split at hset
      · cases hset
        cases hstep
        rfl
      · cases hset
  · split at hstep
    · cases hstep
      cases (by decide : StepDefinition.inherited.id ≠ "pairs") hname
    · cases hstep

theorem restart_takes_over_reread :
    ∃ (w₁ w' : World Nat) (prior : StepExecution) (ctx : ItemExecutionContext),
      w₁.repo.findLatestStepExecution "r" "pairs" = some prior ∧
      w'.checkpoint prior.id = w₁.checkpoint prior.id ∧
      nextChunk (w'.checkpoint prior.id) ≤ ctx.chunkIndex ∧
      ctx.chunkIndex = nextChunk (w'.checkpoint ctx.stepExecutionId) := by
  have hprior : (rereadBegins.bind fun c => c.state.repo.findLatestStepExecution "r" "pairs").map
      (·.status) = some .FAILED := by decide +kernel
  have hwrites : rereadWrites.isSome = true := by decide +kernel
  obtain ⟨prior, hfound, hfailed⟩ := Option.map_eq_some_iff.mp hprior
  obtain ⟨⟨o, k, w₁⟩, hbegins, hlatest⟩ := Option.bind_eq_some_iff.mp hfound
  obtain ⟨c, hc⟩ := Option.isSome_iff_exists.mp hwrites
  unfold rereadWrites at hc
  rw [hbegins, Option.bind_some] at hc
  obtain ⟨o', k', w'⟩ := c
  obtain ⟨hreach, hop⟩ := Prog.reaches_upTo hbegins
  obtain ⟨hreach', hop'⟩ := Prog.reaches_upTo hc
  obtain rfl := eq_of_begins hop
  obtain ⟨writer, items, ctx, rfl, hown⟩ := eq_of_writesOf hop'
  have hrestart : JobExecutor.isRestart rereadRun.execution = true := isRestart_failingRun_left
  have henv : rereadRun.env.KeepsCheckpoint :=
    listEnvironment_keepsCheckpoint [10, 20, 30] fun _ _ => none
  have htaken := restart_takes_over henv checkpointsFiled_reread hrestart onlyChunks_reread hreach
    hlatest hfailed rfl hreach' hown
  rw [← show ctx.stepExecutionId = _ from hown] at htaken
  exact ⟨w₁, w', prior, ctx, hlatest, htaken⟩

end NestBatch
