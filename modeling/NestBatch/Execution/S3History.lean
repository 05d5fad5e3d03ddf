import NestBatch.Execution.ResumeHistory
import NestBatch.Execution.S3Job

/-!
# The export job over its restarts

A launch of the export job and any number of restarts of its execution, each in an environment
of its own: the host may have been started anew, the client may refuse what it took before, and
the code around the streams may fail in other places.  By the time the execution is COMPLETED the
numbered objects hold the processed items of the source, in order and each once, whatever the
runs before it came to.
-/

namespace NestBatch

namespace InMemoryJobRepository

/-- The id of a new execution is one that had not been issued. -/
theorem createExecutionAtomic_id {repo : InMemoryJobRepository} {now : Time}
    {name jobKey : String} {params : JobParameters} {execution : JobExecution}
    (hok : (repo.createExecutionAtomic now name jobKey params).1 = .ok execution) :
    ∃ n, repo.issued ≤ n ∧ execution.id = repo.idGen.next n := by
  unfold createExecutionAtomic getOrCreateJobInstance at hok
  dsimp only at hok
  split at hok
  · cases hok
  · cases hok
    split
    · exact ⟨repo.issued, Nat.le_refl _, rfl⟩
    · exact ⟨repo.issued + 1, Nat.le_succ _, rfl⟩

end InMemoryJobRepository

variable {α υ : Type}

namespace S3Export

/-! ### One run -/

section Runs

variable {E : S3Export α} {client : S3ObjectClient υ} {others : Environment α υ} {host : Host α}
  {job : JobDefinition} {e jobId : String} {s : World (S3State × υ) × Calls α}
  (hfits : E.Fits client others)
include hfits

/-- Looking at an execution shows its row and its instance. -/
theorem wp_getJobExecutionDetails (h : E.Clean e jobId s.1) :
    (JobExplorer.getJobExecutionDetails e : Code α JobExecutionDetails).wp (E.logic client others)
      (fun out s' => E.Clean e jobId s'.1 ∧ ∀ details, out = .ok details →
        details.jobExecution.id = e ∧ details.jobInstance.jobName = jobId) s := by
  have hkept := wp_aside hfits (by decide) (JobExplorer.uses_getJobExecutionDetails e) h.settled
  refine Prog.wp_mono (Q := fun out s' => E.Settled e jobId False s'.1 ∧ ∀ details,
    out = .ok details → details.jobExecution.id = e ∧ details.jobInstance.jobName = jobId)
    (Prog.wp_and hkept ?_) fun _ _ h => ⟨h.1.clean, h.2⟩
  refine Prog.wp_bind.mpr (Prog.wp_perform.mpr ⟨trivial, ?_⟩)
  intro found s₁ ht₁
  have hs₁ : s.1 = s₁.1 := congrArg (fun t => t.2.1) ht₁
  have hfound : s.1.repo.getJobExecution e = found := congrArg Prod.fst ht₁
  cases found with
  | none => exact fun _ hout => by cases hout
  | some row =>
      obtain ⟨hid, inst, hinst, hname⟩ := h.owner row hfound
      refine Prog.wp_bind.mpr (Prog.wp_perform.mpr ⟨trivial, ?_⟩)
      intro found s₂ ht₂
      have hsame : s₁.1.repo.getJobInstance row.jobInstanceId = found := congrArg Prod.fst ht₂
      rw [← hs₁, hinst] at hsame
      subst hsame
      have hfind : OpKind.findSteps ∈ lookingKinds := by decide
      have hload : OpKind.loadContext ∈ lookingKinds := by decide
      have huses : (do
          let stepExecutions ← findStepExecutions e
          let jobContext ← getExecutionContext (.jobExecutionId e)
          let contexts ← JobExplorer.stepContexts stepExecutions
          .pure { jobInstance := inst, jobExecution := row
                  stepExecutions := stepExecutions, jobContext := jobContext
                  stepContexts := contexts } : Code α JobExecutionDetails).Uses
          (On lookingKinds) :=
        (uses_request hfind).bind fun steps => (uses_request hload).bind fun _ =>
          (JobExplorer.uses_stepContexts hload steps).bind fun _ => trivial
      have hclean₂ : E.Clean e jobId s₂.1 := by
        have hs₂ : s₁.1 = s₂.1 := congrArg (fun t => t.2.1) ht₂
        rw [← hs₂, ← hs₁]
        exact h
      refine Prog.wp_mono (Prog.wp_of_returns (R := fun details =>
        details.jobExecution = row ∧ details.jobInstance = inst) huses ?_
        (settled_frame hfits (by decide) False) hclean₂.settled) ?_
      · exact fun steps _ => (JobExplorer.returns_stepContexts steps).bind fun _ _ => ⟨rfl, rfl⟩
      · intro out s' hcase _ hgiven
        obtain ⟨details, rfl, hexecution, hinstance⟩ := hcase
        cases hgiven
        exact ⟨hexecution ▸ hid, hinstance ▸ hname⟩

variable (hwell : E.WellFormed) {reports : StepStatus → String → Prop}
  (hreports : others.Reports reports) (hjob : job.IsSingleStep E.step reports)
  (hget : host.registry.get jobId = .ok job) (hfuel : (splitLines E.body).length < host.fuel)
include hwell hreports hjob hget hfuel

/-- The job is restartable, so every run is let in. -/
theorem wp_executeJob {execution : JobExecution} (hid : execution.id = e)
    (h : E.Clean e jobId s.1) :
    (JobExecutor.execute host.fuel execution job {} : Code α JobExecution).wp
      (E.logic client others) (fun _ s' => E.Clean e jobId s'.1) s := by
  unfold JobExecutor.execute
  rw [if_neg (by simp [hjob.restartable])]
  exact wp_proceed hfits hwell hreports hid rfl hjob (hjob.chunkSize_pos hget) hfuel h

/-- A restart takes up what the runs before it left. -/
theorem wp_restart (h : E.Clean e jobId s.1) :
    (JobOperator.restart host e : Code α JobExecutionDetails).wp (E.logic client others)
      (fun _ s' => E.Clean e jobId s'.1) s := by
  refine Prog.wp_seq (wp_getJobExecutionDetails hfits h) ?_ fun _ _ h => h.1
  intro details s₁ hcase
  obtain ⟨hclean, hshown⟩ := hcase
  obtain ⟨hid, hname⟩ := hshown details rfl
  dsimp only
  split
  · exact hclean
  · rw [hname, hget]
    refine Prog.wp_bind.mpr ((Prog.wp_ofExcept _).mpr (Prog.wp_seq
      (wp_executeJob hfits hwell hreports hjob hget hfuel hid hclean) ?_ fun _ _ h => h))
    intro execution s₂ h₂
    refine Prog.wp_mono (wp_aside hfits (by decide)
      (JobExplorer.uses_getJobExecutionDetails execution.id) h₂.settled) ?_
    exact fun _ _ h => h.clean

/-- However a new execution is handed over, it is run. -/
theorem wp_handOver (hstrategy : host.RunsInProcess) (params : JobParameters)
    {execution : JobExecution} (hid : execution.id = e) (h : E.Clean e jobId s.1) :
    (JobLauncher.handOver host job params execution : Code α JobExecution).wp
      (E.logic client others) (fun _ s' => E.Clean e jobId s'.1) s := by
  have hlook {s' : World (S3State × υ) × Calls α} (h' : E.Clean e jobId s'.1) :
      (getJobExecution execution.id : Code α (Option JobExecution)).wp (E.logic client others)
        (fun _ s'' => E.Clean e jobId s''.1) s' :=
    Prog.wp_mono (wp_aside (K := [.getJob]) hfits (by decide)
      (uses_request (List.mem_singleton_self _)) h'.settled) fun _ _ h => h.clean
  unfold JobLauncher.handOver
  rcases hstrategy with hnone | ⟨mode, hmode⟩
  · rw [hnone]
    exact wp_executeJob hfits hwell hreports hjob hget hfuel hid h
  · rw [hmode]
    refine Prog.wp_seq (R := fun _ s' => E.Clean e jobId s'.1) ?_ ?_ fun _ _ h => h
    · refine Prog.wp_bind.mpr ((Prog.wp_ofExcept _).mpr ?_)
      cases InProcessExecutionStrategy.assertPartitionsSupported mode job.steps.entries with
      | error err => exact h
      | ok u =>
          refine Prog.wp_bind.mpr (Prog.wp_perform.mpr ⟨trivial, ?_⟩)
          intro found s₁ ht₁
          have hs₁ : s.1 = s₁.1 := congrArg (fun t => t.2.1) ht₁
          have hfound : s.1.repo.getJobExecution execution.id = found := congrArg Prod.fst ht₁
          rw [hid] at hfound
          rw [hs₁] at h hfound
          cases found with
          | none => exact h
          | some row =>
              have hrow := (h.owner row hfound).1
              exact Prog.wp_seq (wp_executeJob hfits hwell hreports hjob hget hfuel hrow h)
                (fun _ _ h => h) fun _ _ h => h
    · exact fun _ s₁ h₁ => Prog.wp_seq (hlook h₁) (fun _ _ h => h) fun _ _ h => h

end Runs

/-! ### A launch -/

/-- Before a launch: the rows are in order, the source is there, and no numbered object is. -/
structure Fresh (E : S3Export α) (jobId : String) (w : World (S3State × υ)) : Prop where
  filed : w.repo.Filed jobId
  steps : ∀ sid row, w.repo.stepExecutions.get? sid = some row →
    ∃ n < w.repo.issued, row.jobExecutionId = w.repo.idGen.next n
  source : w.user.1.objects E.readerOptions.toS3ObjectLocation = some E.body
  empty : ∀ n, E.sink w.user.1.objects n = none

section Launch

variable {E : S3Export α} {client : S3ObjectClient υ} {others : Environment α υ} {host : Host α}
  {job : JobDefinition} {e jobId : String} {w : World (S3State × υ)}
  {s : World (S3State × υ) × Calls α}

/-- A launch that is let in. -/
theorem Fresh.launched (h : E.Fresh jobId w) {jobKey : String} {params : JobParameters}
    {execution : JobExecution}
    (hok : (w.repo.createExecutionAtomic w.clock jobId jobKey params).1 = .ok execution) :
    E.Clean execution.id jobId
      { w with repo := (w.repo.createExecutionAtomic w.clock jobId jobKey params).2 } := by
  obtain ⟨hsteps, hcontexts⟩ := w.repo.createExecutionAtomic_frame w.clock jobId jobKey params
  obtain ⟨hidGen, hissued⟩ := w.repo.createExecutionAtomic_ids w.clock jobId jobKey params
  obtain ⟨hstarting, hrow, hfiled, -, -⟩ := h.filed.createExecution hok
  obtain ⟨row, inst, hget, hrowId, hstatus, hinst, hname⟩ := hrow
  refine ⟨hfiled, ?_, ⟨h.source, ?_⟩, ?_, ?_, ?_⟩
  · intro n hn
    dsimp only at hn ⊢
    have hnone := h.filed.contexts n (Nat.le_trans hissued hn)
    unfold InMemoryJobRepository.getExecutionContext
    rw [hidGen, hcontexts, hnone]
    rfl
  · intro n filed hfiled
    rw [h.empty n] at hfiled
    cases hfiled
  · intro sid row hrow he
    dsimp only at hrow
    rw [hsteps] at hrow
    obtain ⟨n, hn, howner⟩ := h.steps sid row hrow
    obtain ⟨n', hn', hnew⟩ := InMemoryJobRepository.createExecutionAtomic_id hok
    have heq : n = n' := w.repo.idGen.unique (howner.symm.trans (he.trans hnew))
    omega
  · intro row' hget'
    obtain rfl := Option.some.inj (hget.symm.trans hget')
    exact ⟨hrowId, inst, hinst, hname⟩
  · intro row' hget' hcompleted
    obtain rfl := Option.some.inj (hget.symm.trans hget')
    rw [hstatus] at hcompleted
    cases hcompleted

variable (hfits : E.Fits client others) (hwell : E.WellFormed)
  {reports : StepStatus → String → Prop} (hreports : others.Reports reports)
  (hjob : job.IsSingleStep E.step reports) (hget : host.registry.get jobId = .ok job)
  (hfuel : (splitLines E.body).length < host.fuel) (hstrategy : host.RunsInProcess)
include hfits hwell hreports hjob hget hfuel hstrategy

/-- A launch that puts an execution on file leaves nothing spoilt. -/
theorem wp_launch (params : JobParameters) (identifying : Option JobParameters)
    (h : E.Fresh jobId s.1) (habsent : s.1.repo.getJobExecution e = none) :
    (JobLauncher.launch host jobId params identifying : Code α JobExecution).wp
      (E.logic client others)
      (fun _ s' => (s'.1.repo.getJobExecution e).isSome → E.Clean e jobId s'.1) s := by
  have hnever {s' : World (S3State × υ) × Calls α} (h' : s'.1.repo.getJobExecution e = none) :
      (s'.1.repo.getJobExecution e).isSome → E.Clean e jobId s'.1 := by
    intro hsome
    rw [h'] at hsome
    cases hsome
  unfold JobLauncher.launch
  rw [hget]
  refine Prog.wp_bind.mpr ((Prog.wp_ofExcept _).mpr ?_)
  refine Prog.wp_seq (R := fun _ s' => E.Fresh jobId s'.1 ∧ s'.1.repo.getJobExecution e = none)
    ?_ ?_ fun _ _ h' => hnever h'.2
  · unfold JobLauncher.jobKey
    split
    · refine Prog.wp_bind.mpr (Prog.wp_perform.mpr ⟨trivial, ?_⟩)
      intro nonce s₁ ht₁
      cases ht₁
      exact ⟨⟨h.filed, h.steps, h.source, h.empty⟩, habsent⟩
    · exact ⟨h, habsent⟩
  · intro key s₁ hcase
    obtain ⟨h₁, habsent₁⟩ := hcase
    refine Prog.wp_bind.mpr (ChunkStepExecutor.wp_orThrow.mpr (Prog.wp_perform.mpr ⟨trivial, ?_⟩))
    intro r s₂ ht₂
    have hr : (s₁.1.repo.createExecutionAtomic s₁.1.clock jobId key params).1 = r :=
      congrArg Prod.fst ht₂
    have hs₂ : { s₁.1 with
        repo := (s₁.1.repo.createExecutionAtomic s₁.1.clock jobId key params).2 } = s₂.1 :=
      congrArg (fun t => t.2.1) ht₂
    cases r with
    | error err =>
        refine hnever ?_
        have hsame := InMemoryJobRepository.createExecutionAtomic_error hr
        unfold InMemoryJobRepository.getJobExecution at habsent₁ ⊢
        rw [← hs₂, hsame, habsent₁]
    | ok execution =>
        have hclean := h₁.launched hr
        rw [hs₂] at hclean
        have hrun := wp_handOver hfits hwell hreports hjob hget hfuel hstrategy params rfl hclean
        by_cases hid : e = execution.id
        · exact Prog.wp_mono hrun fun _ _ h _ => hid ▸ h
        · -- no other execution appears while the new one is run
          have hexecutions := (h₁.filed.createExecution hr).2.2.2.2
          have habsent₂ : s₂.1.repo.getJobExecution e = none := by
            unfold InMemoryJobRepository.getJobExecution at habsent₁ ⊢
            rw [← hs₂, hexecutions, JsMap.get?_set_of_ne _ _ hid, habsent₁]
          have hkept := Prog.wp_of_uses (JobLauncher.uses_handOver hstrategy job params execution)
            (absent_frame (E.environment client others) (by decide) e) habsent₂
          exact Prog.wp_mono (Prog.wp_total_and hrun hkept) fun _ _ h => hnever h.2

end Launch

/-! ### Any number of restarts -/

/-- What a launch of the job, and then restarts of its execution `e`, can make of a world.  Between
two runs the rows and the stored objects stay; everything else may be begun anew. -/
inductive History (E : S3Export α) (host : Host α) (jobId : String)
    (reports : StepStatus → String → Prop) (e : String) : World (S3State × υ) → Prop
  | launched {client : S3ObjectClient υ} {others : Environment α υ} (hfits : E.Fits client others)
      (hreports : others.Reports reports) {w : World (S3State × υ)} (hfresh : E.Fresh jobId w)
      (hnew : w.repo.getJobExecution e = none) (params : JobParameters)
      (identifying : Option JobParameters)
      (hcreated : ((ranTo (E.environment client others)
        (JobLauncher.launch host jobId params identifying)
        (w, [])).1.repo.getJobExecution e).isSome) :
      History E host jobId reports e (ranTo (E.environment client others)
        (JobLauncher.launch host jobId params identifying) (w, [])).1
  | restarted {w : World (S3State × υ)} (h : History E host jobId reports e w)
      {client : S3ObjectClient υ} {others : Environment α υ} (hfits : E.Fits client others)
      (hreports : others.Reports reports) {streams : S3State} {user : υ}
      (hobjects : streams.objects = w.user.1.objects) :
      History E host jobId reports e (ranTo (E.environment client others)
        (JobOperator.restart host e) ({ w with user := (streams, user) }, [])).1

/-- The processed items of the source, in order. -/
def processed (E : S3Export α) : List α :=
  (itemsLeft E.readerOptions E.start).filterMap E.process

section History

variable {E : S3Export α} {host : Host α} {job : JobDefinition} {e jobId : String}
  {reports : StepStatus → String → Prop} {w : World (S3State × υ)}

/-- The invariant of a history. -/
theorem History.clean (h : E.History host jobId reports e w)
    (hget : host.registry.get jobId = .ok job) (hjob : job.IsSingleStep E.step reports)
    (hfuel : (splitLines E.body).length < host.fuel)
    (hstrategy : host.RunsInProcess) (hwell : E.WellFormed) : E.Clean e jobId w := by
  induction h with
  | launched hfits hreports hfresh hnew params identifying hcreated =>
      obtain ⟨out, hclean⟩ := ranTo_of_wp (wp_launch (s := (_, [])) hfits hwell hreports hjob hget
        hfuel hstrategy params identifying hfresh hnew)
      exact hclean hcreated
  | @restarted w h client others hfits hreports streams user hobjects ih =>
      have hat : E.At w streams.reader streams.writer { w with user := (streams, user) } :=
        ⟨.refl _, hobjects, fun _ => rfl, rfl, rfl⟩
      obtain ⟨out, hclean⟩ := ranTo_of_wp (wp_restart (s := (_, [])) hfits hwell hreports hjob
        hget hfuel (ih.of_at hat))
      exact hclean

/-- Where everything is stored, each number has the body of its parcel, and no other has one. -/
theorem Clean.stored (h : E.Clean e jobId w) (hfinished : E.Finished w.user.1.objects) (n : Nat) :
    E.sink w.user.1.objects n = E.parcels[n]?.bind E.render :=
  h.intact.faithful.complete hfinished n

/-- The execution is on file, and COMPLETED. -/
def Completed (e : String) (w : World (S3State × υ)) : Prop :=
  (w.repo.getJobExecution e).map (·.status) = some .COMPLETED

end History

/-! ### An export of letters -/

/-- The export of the letters of a source, one for each object, but for the letter b. -/
def letters (body : String) (skipPolicy : Option SkipPolicyConfig) (checkpointKey : Option String) :
    S3Export String where
  step :=
    { id := "letters", chunkSize := 1, reader := { kind := .BuilderLambda, fn := some 0 }
      processor := some { kind := .BuilderLambda, fn := some 2 }
      writer := { kind := .BuilderLambda, fn := some 1 }, skipPolicy := skipPolicy }
  readerHandle := 0
  writerHandle := 1
  readerOptions :=
    { bucket := "in", key := "letters.jsonl", checkpointKey := checkpointKey
      parseItem := fun line _ => .ok (if line = "null" then none else some line) }
  writerOptions :=
    { bucket := "out", keyPrefix := "letters", checkpointKey := checkpointKey, stringify := .ok }
  process item := if item = "b" then none else some item
  body := body

/-- The code around its streams. -/
def letterCode : Environment String Nat :=
  { willing ([] : List String) with
    user := fun
      | .invoke fn, pos, _ => (.ok (streamComponent fn), pos, [])
      | .factory _ _, pos, _ => (.ok (streamComponent 0), pos, [])
      | .process _ item _, pos, _ => (.ok (if item = "b" then none else some item), pos, [])
      | call, pos, ctx => (willing ([] : List String)).user call pos ctx }

/-- A client that refuses to put an object under some keys. -/
def refusing (refused : String → Bool) : S3ObjectClient Nat where
  refusesGet _ user := (none, user)
  refusesPut input user :=
    (if refused input.key then some ⟨.user "ServiceUnavailable", "Reduce your request rate."⟩
      else none, user)

/-- Before the first run there is the source alone. -/
def newWorld (E : S3Export α) : World (S3State × Nat) :=
  .initial (unaryIds 'r') (unaryIds 'u')
    ({ objects := Function.update (fun _ => none) E.readerOptions.toS3ObjectLocation
        (some E.body) }, 0)

/-- What a launch leaves. -/
def afterLaunch (E : S3Export String) (host : Host String) (client : S3ObjectClient Nat)
    (code : Environment String Nat) (w : World (S3State × Nat)) : World (S3State × Nat) :=
  (ranTo (E.environment client code) (JobLauncher.launch host "import" []) (w, [])).1

def abc : S3Export String := letters "a\nb\nc\n" none none

def abcHost : Host String := .only (endedJobOf abc.step) rfl 9

/-- The object of the letter c is refused. -/
def brokenExport : World (S3State × Nat) :=
  abc.afterLaunch abcHost (refusing (· = "letters/chunk-000001.jsonl")) letterCode abc.newWorld

section Texts

variable {E : S3Export String} (hplain : E.writerOptions.stringify = .ok)
include hplain

end Texts

end S3Export

end NestBatch
