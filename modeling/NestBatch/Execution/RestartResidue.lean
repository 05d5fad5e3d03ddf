import Mathlib.Data.List.Induction
import NestBatch.Execution.CallLog
import NestBatch.Execution.LaunchSettles

/-!
# What a run leaves of the runs before it

A run of the job executor writes the row of its execution twice: when it starts,
and when it ends.  The two patches do not cover the row: the first one does not
touch `endTime`, the one of a completed run does not touch `exitMessage`, and the
one of a run that throws does not touch `exitCode`.  What they leave out is still
there from the run before.
-/

namespace NestBatch

variable {α β υ : Type}

/-- The patch of the execution, if a call writes one. -/
def jobWrite? (e : String) : Prog.Call (Op α) Op.Resp → Option JobExecutionPatch
  | ⟨.updateJobExecution id patch, _⟩ => if id = e then some patch else none
  | _ => none

/-- What calls write into the row of the execution, in order. -/
def jobWrites (e : String) (calls : Calls α) : List JobExecutionPatch :=
  calls.filterMap (jobWrite? e)

/-- A row after patches. -/
def patched (row : JobExecution) (writes : List JobExecutionPatch) : JobExecution :=
  writes.foldl (fun row patch => patch.applyTo row) row

/-- What the patches last set a field to. -/
def lastSet (field : JobExecutionPatch → Option String) (writes : List JobExecutionPatch) :
    Option String := (writes.filterMap field).getLast?

/-- The patch that marks an execution STARTED. -/
def startPatch (startTime : Time) : JobExecutionPatch :=
  { status := some .STARTED, startTime := some (some startTime) }

/-- A patch that ends a run. -/
inductive EndPatch : JobExecutionPatch → Prop
  | completed (endTime : Time) :
      EndPatch { status := some .COMPLETED, endTime := some (some endTime),
                 exitCode := some "COMPLETED" }
  | failed (endTime : Time) (exitCode exitMessage : String) :
      EndPatch { status := some .FAILED, endTime := some (some endTime), exitCode := some exitCode,
                 exitMessage := some exitMessage }
  | caught (endTime : Time) (exitMessage : String) :
      EndPatch { status := some .FAILED, endTime := some (some endTime),
                 exitMessage := some exitMessage }

/-- What a run has written so far. -/
inductive RunWrites : List JobExecutionPatch → Prop
  | fresh : RunWrites []
  | started (startTime : Time) : RunWrites [startPatch startTime]
  | ended (startTime : Time) {patch : JobExecutionPatch} (h : EndPatch patch) :
      RunWrites [startPatch startTime, patch]

/-- The repository answers a write of the execution without an error. -/
def WriteSucceeds (e : String) : (o : Op α) → o.Resp → Prop
  | .updateJobExecution id _, r => id = e → r = .ok ()
  | _, _ => True

/-- A run writes its start patch first, then one that ends it. -/
def runRules (e : String) : CallRules α where
  demands calls o := ∀ patch, o = .updateJobExecution e patch →
    RunWrites (jobWrites e calls ++ [patch])
  allowed _ := WriteSucceeds e

section Writes

variable {e : String} {K : List OpKind} {loops : Prop}

theorem jobWrites_snoc (calls : Calls α) (c : Prog.Call (Op α) Op.Resp) :
    jobWrites e (calls ++ [c]) = jobWrites e calls ++ (jobWrite? e c).toList :=
  filterMap_snoc (jobWrite? e) calls c

theorem jobWrite?_of_kind {o : Op α} (h : o.kind ≠ .updateJob) (r : o.Resp) :
    jobWrite? e ⟨o, r⟩ = none := by
  cases o with
  | updateJobExecution id patch => exact absurd rfl h
  | _ => rfl

/-- What leaves the rows of executions alone writes nothing. -/
theorem writes_frame (hK : OpKind.updateJob ∉ K) (ws : List JobExecutionPatch) :
    (logged (runRules e) True : Prog.Logic (Op α) Op.Resp (Calls α)).Frame (On K loops)
      (fun calls => jobWrites e calls = ws) where
  guard o calls ho _ patch heq := by
    rw [heq] at ho
    exact absurd ho hK
  keep o calls r calls' ho h ht := by
    obtain ⟨hsnoc, -⟩ := ht
    subst hsnoc
    have hkind : o.kind ≠ .updateJob := by
      intro heq
      exact hK (heq ▸ ho)
    rw [jobWrites_snoc, jobWrite?_of_kind hkind, h]
    exact List.append_nil ws
  loops _ := trivial

/-- A write of the execution. -/
theorem wp_write {patch : JobExecutionPatch} {calls : Calls α}
    (h : RunWrites (jobWrites e calls ++ [patch])) :
    (updateJobExecution e patch : Code α Unit).wp (logged (runRules e) True)
      (fun out calls' => out = .ok () ∧ jobWrites e calls' = jobWrites e calls ++ [patch])
      calls := by
  refine Prog.wp_bind.mpr (wp_call ?_ ?_)
  · intro patch' heq
    cases heq
    exact h
  · intro r hr
    have hok : r = .ok () := hr rfl
    subst hok
    refine (Prog.wp_ofExcept _).mpr ⟨rfl, ?_⟩
    rw [jobWrites_snoc]
    exact congrArg _ (by simp [jobWrite?])

/-- A write at the current time, and what follows it. -/
theorem wp_writeNow {patch : Time → JobExecutionPatch} {p : Code α β} {calls : Calls α}
    (hpatch : ∀ time, RunWrites (jobWrites e calls ++ [patch time]))
    {Q : Except Thrown β → Calls α → Prop}
    (hp : ∀ time calls', jobWrites e calls' = jobWrites e calls ++ [patch time] →
      p.wp (logged (runRules e) True) Q calls') :
    (now >>= fun time => updateJobExecution e (patch time) >>= fun _ => p).wp
      (logged (runRules e) True) Q calls := by
  refine Prog.wp_bind.mpr (wp_call (fun _ heq => by cases heq) ?_)
  intro time _
  have hsame : jobWrites e (calls ++ [⟨.now, time⟩]) = jobWrites e calls := by
    rw [jobWrites_snoc]
    exact List.append_nil _
  have hwrite := hpatch time
  rw [← hsame] at hwrite
  refine Prog.wp_seq (wp_write hwrite) ?_ ?_
  · intro _ calls' h
    exact hp time calls' (by rw [h.2, hsame])
  · intro err calls' h
    cases h.1

end Writes

namespace JobExecutor.Run

variable (R : Run) {calls : Calls α} {startTime : Time}

/-- The run has written its start patch and no more. -/
def JustStarted (e : String) (startTime : Time) (calls : Calls α) : Prop :=
  jobWrites e calls = [startPatch startTime]

/-- The run has also written the patch that ends it. -/
def HasEnded (e : String) (startTime : Time) (calls : Calls α) : Prop :=
  ∃ patch, EndPatch patch ∧ jobWrites e calls = [startPatch startTime, patch]

/-- A write that ends the run, and what follows it. -/
theorem wp_endWrite {patch : Time → JobExecutionPatch} {status : JobStatus}
    (hpatch : ∀ time, EndPatch (patch time))
    (h : JustStarted R.execution.id startTime calls) :
    (now >>= fun time => updateJobExecution R.execution.id (patch time) >>= fun _ =>
        .pure status : Code α JobStatus).wp (logged (runRules R.execution.id) True)
      (fun out calls' => out = .ok status ∧ HasEnded R.execution.id startTime calls') calls := by
  refine wp_writeNow ?_ ?_
  · intro time
    rw [h]
    exact .ended startTime (hpatch time)
  · intro time calls' h'
    refine ⟨rfl, patch time, hpatch time, ?_⟩
    rw [h', h]
    rfl

/-- What the step loop has written when it ends. -/
def LoopWrites (e : String) (startTime : Time) (out : Except Thrown JobStatus)
    (calls : Calls α) : Prop :=
  (out = .ok .FAILED ∧ HasEnded e startTime calls) ∨
    ((∀ status, out = .ok status → status = .COMPLETED) ∧ JustStarted e startTime calls)

/-- The step loop writes only the row that was just started. -/
theorem stepLoop_writes (h : JustStarted R.execution.id startTime calls) (loopFuel fuel : Nat)
    (stepId : String) :
    (R.stepLoop loopFuel fuel stepId : Code α JobStatus).wp (logged (runRules R.execution.id) True)
      (LoopWrites R.execution.id startTime) calls := by
  induction fuel generalizing stepId calls with
  | zero => trivial
  | succ fuel ih =>
      have hfail {calls' : Calls α} (h' : JustStarted R.execution.id startTime calls')
          (exitCode exitMessage : String) :
          (R.failJob exitCode exitMessage : Code α JobStatus).wp
            (logged (runRules R.execution.id) True) (LoopWrites R.execution.id startTime) calls' :=
        Prog.wp_mono (R.wp_endWrite (fun time => .failed time exitCode exitMessage) h')
          fun _ _ hend => Or.inl hend
      have herr : ∀ (err : Thrown) (calls' : Calls α),
          JustStarted R.execution.id startTime calls' →
          LoopWrites R.execution.id startTime (.error err) calls' := by
        intro err calls' h'
        exact Or.inr ⟨nofun, h'⟩
      unfold stepLoop
      cases hstep : R.jobDef.step? stepId with
      | none => exact hfail h _ _
      | some step =>
          refine Prog.wp_seq (Prog.wp_of_uses (R.uses_runStep loopFuel step)
            (writes_frame (by decide) _) h) ?_ herr
          intro ran calls₁ h₁
          have hdecide (ctx : DeciderContext) :
              (R.resolveDeciderExitStatus stepId ctx : Code α (Option String)).Uses
                (On [.decide]) := R.uses_resolveDecider (by decide) stepId ctx
          refine Prog.wp_seq (Prog.wp_of_uses (hdecide _) (writes_frame (by decide) _) h₁) ?_ herr
          intro decider calls₂ h₂
          refine Prog.wp_bind.mpr ((Prog.wp_ofExcept _).mpr ?_)
          cases nextStep R.jobDef stepId decider ran.2 with
          | error err => exact herr err calls₂ h₂
          | ok next =>
              cases next with
              | goto next => exact ih h₂ next
              | finish => exact Or.inr ⟨fun status hstatus => by cases hstatus; rfl, h₂⟩
              | fail => exact hfail h₂ _ _

/-- The catch block writes the end of the row. -/
theorem onError_writes (h : JustStarted R.execution.id startTime calls) (err : Thrown) :
    (R.onError err : Code α JobStatus).wp (logged (runRules R.execution.id) True)
      (fun out calls' => ∀ status, out = .ok status → HasEnded R.execution.id startTime calls')
      calls := by
  cases htext : err.text with
  | error textErr =>
      rw [R.onError_of_textless htext]
      refine Prog.wp_bind.mpr (wp_call (fun _ heq => by cases heq) ?_)
      intro time _ status hstatus
      cases hstatus
  | ok exitMessage =>
      rw [R.onError_of_text htext]
      refine Prog.wp_mono (R.wp_endWrite (fun time => .caught time exitMessage) h) ?_
      intro out calls' hend _ _
      exact hend.2

/-- Driving a job that was started writes its end. -/
theorem drive_writes (h : JustStarted R.execution.id startTime calls) (fuel : Nat) :
    (R.drive fuel : Code α JobStatus).wp (logged (runRules R.execution.id) True)
      (fun out calls' => ∀ status, out = .ok status → HasEnded R.execution.id startTime calls')
      calls := by
  refine Prog.wp_tryCatch.mpr (Prog.wp_seq (R.stepLoop_writes h fuel fuel _) ?_ ?_)
  · intro status calls₁ h₁
    unfold completeJob
    rcases h₁ with ⟨hout, hended⟩ | ⟨hcompleted, hstarted⟩
    · cases hout
      exact fun _ _ => hended
    · rw [if_pos (hcompleted status rfl)]
      refine Prog.wp_mono (R.wp_endWrite (fun time => .completed time) hstarted) ?_
      intro out calls' hend
      rw [hend.1]
      exact fun _ _ => hend.2
  · intro err calls₁ h₁
    rcases h₁ with ⟨hout, -⟩ | ⟨-, hstarted⟩
    · cases hout
    · exact R.onError_writes hstarted err

/-- **The writes of a run**, from a log without any. -/
theorem proceed_writes (h : jobWrites R.execution.id calls = []) (fuel : Nat) :
    (R.proceed fuel : Code α JobExecution).wp (logged (runRules R.execution.id) True)
      (fun _ _ => True) calls := by
  have hlisten : OpKind.listener ∈ [OpKind.clock, .emit, .listener, .getJob] := by decide
  have hbegin : (R.begin_ : Code α Unit).wp (logged (runRules R.execution.id) True)
      (fun _ calls' => ∃ startTime, JustStarted R.execution.id startTime calls') calls := by
    have hstart : ∀ time, RunWrites (jobWrites R.execution.id calls ++ [startPatch time]) := by
      intro time
      rw [h]
      exact .started time
    refine wp_writeNow hstart ?_
    · intro time calls' h'
      rw [h] at h'
      have htell : (now >>= fun timestamp => emit
          { type := .JOB_STARTED, timestamp := timestamp, jobExecutionId := R.execution.id
            data := .obj [("jobName", .str R.jobDef.id)] } : Code α Unit).Uses
          (On [.clock, .emit]) := (uses_now (by decide)).bind fun _ => uses_emit (by decide) _
      exact Prog.wp_mono (Prog.wp_of_uses htell (writes_frame (by decide) _) h')
        fun _ _ hstarted => ⟨time, hstarted⟩
  refine Prog.wp_seq hbegin ?_ fun _ _ _ => trivial
  intro _ calls₁ h₁
  obtain ⟨startTime, hstarted⟩ := h₁
  have hbefore : (ListenerInvoker.invokeBefore R.jobResolvers .job (jobContext R.execution) :
      Code α Unit).Uses (On [.clock, .emit, .listener, .getJob]) :=
    ListenerInvoker.uses_invokeMatching hlisten _ _ _
  refine Prog.wp_seq (Prog.wp_of_uses hbefore (writes_frame (by decide) _) hstarted) ?_
    fun _ _ _ => trivial
  intro _ calls₂ h₂
  refine Prog.wp_seq (R.drive_writes h₂ fuel) ?_ fun _ _ _ => trivial
  intro finalStatus calls₃ h₃
  obtain ⟨patch, -, hended⟩ := h₃ finalStatus rfl
  have hfinish : (R.finish finalStatus >>= fun _ => getJobExecution R.execution.id >>=
      fun latest => .pure (latest.getD R.execution) : Code α JobExecution).Uses
      (On [.clock, .emit, .listener, .getJob]) := by
    have hgetJob : OpKind.getJob ∈ [OpKind.clock, .emit, .listener, .getJob] := by decide
    refine Prog.Uses.bind ?_ fun _ => (uses_request hgetJob).bind fun _ => trivial
    exact (ListenerInvoker.uses_invokeMatching hlisten _ _ _).bind fun _ =>
      (uses_now (by decide)).bind fun _ => uses_emit (by decide) _
  exact Prog.wp_mono (Prog.wp_of_uses hfinish (writes_frame (by decide) _) hended)
    fun _ _ _ => trivial

end JobExecutor.Run

/-! ### The row as the writes make it -/

section Row

variable {env : Environment α υ} {e : String} {row : JobExecution}

/-- The row is what the writes so far have made of the row at the start, and all went well. -/
structure RowTracked (e : String) (row : JobExecution) (s : World υ × Calls α) : Prop where
  row : s.1.repo.getJobExecution e = some (patched row (jobWrites e s.2))
  fair : (runRules e).Fair s.2

theorem patched_concat (row : JobExecution) (writes : List JobExecutionPatch)
    (patch : JobExecutionPatch) :
    patched row (writes ++ [patch]) = patch.applyTo (patched row writes) :=
  List.foldl_concat ..

/-- A write of the execution on file. -/
theorem updateJobExecution_self {repo : InMemoryJobRepository} {cur : JobExecution}
    (h : repo.getJobExecution e = some cur) (patch : JobExecutionPatch) :
    (repo.updateJobExecution e patch).1 = .ok () ∧
      (repo.updateJobExecution e patch).2.getJobExecution e = some (patch.applyTo cur) := by
  unfold InMemoryJobRepository.getJobExecution at h
  unfold InMemoryJobRepository.updateJobExecution
  rw [h]
  exact ⟨rfl, JsMap.get?_set_self _ _ _⟩

theorem updateJobExecution_other {repo : InMemoryJobRepository} {id : String} (hid : id ≠ e)
    (patch : JobExecutionPatch) :
    (repo.updateJobExecution id patch).2.getJobExecution e = repo.getJobExecution e := by
  unfold InMemoryJobRepository.updateJobExecution
  cases repo.executions.get? id with
  | none => rfl
  | some cur => exact JsMap.get?_set_of_ne _ _ (Ne.symm hid)

/-- The operations of a run keep track of the row. -/
theorem rowTracked_frame (env : Environment α υ) (e : String) (row : JobExecution) :
    (worldLogic env).Frame (Looping runKinds) (RowTracked e row) where
  guard _ _ _ _ := trivial
  keep o s r s' ho hs ht := by
    cases ht
    obtain ⟨hrow, hfair⟩ := hs
    by_cases hupdate : o.kind = .updateJob
    · cases o with
      | updateJobExecution id patch =>
          by_cases hid : id = e
          · subst hid
            obtain ⟨hok, hnew⟩ := updateJobExecution_self hrow patch
            refine ⟨?_, hfair.snoc fun _ => hok⟩
            rw [jobWrites_snoc]
            have hwrite : jobWrite? id ⟨.updateJobExecution id patch,
                (handle env (.updateJobExecution id patch) s.1).1⟩ = some patch := if_pos rfl
            rw [hwrite, Option.toList_some, patched_concat]
            exact hnew
          · refine ⟨?_, hfair.snoc fun heq => absurd heq hid⟩
            rw [jobWrites_snoc]
            have hwrite : jobWrite? e ⟨.updateJobExecution id patch,
                (handle env (.updateJobExecution id patch) s.1).1⟩ = none := if_neg hid
            rw [hwrite, Option.toList_none, List.append_nil]
            exact (updateJobExecution_other hid patch).trans hrow
      | user call => cases call <;> cases hupdate
      | _ => cases hupdate
    · have hcreate : o.kind ≠ .createExecution := by
        intro heq
        have hmem : o.kind ∈ runKinds := ho
        rw [heq] at hmem
        exact absurd hmem (by decide)
      refine ⟨?_, hfair.snoc ?_⟩
      · rw [jobWrites_snoc, jobWrite?_of_kind hupdate, Option.toList_none, List.append_nil]
        have hexecutions := handle_executions env hcreate hupdate s.1
        exact (congrArg (·.get? e) hexecutions).trans hrow
      · cases o with
        | updateJobExecution id patch => exact absurd rfl hupdate
        | _ => trivial
  loops _ := trivial

/-- Calls that the rules ask for write as a run does. -/
theorem runWrites_of_met {calls : Calls α} (h : (runRules e).Met calls) :
    RunWrites (jobWrites e calls) := by
  induction calls using List.reverseRecOn with
  | nil => exact .fresh
  | append_singleton calls c ih =>
      rw [jobWrites_snoc]
      cases hwrite : jobWrite? e c with
      | none =>
          rw [Option.toList_none, List.append_nil]
          exact ih h.init
      | some patch =>
          refine h.last patch ?_
          obtain ⟨o, r⟩ := c
          cases o with
          | updateJobExecution id patch' =>
              by_cases hid : id = e
              · have hsame : jobWrite? e ⟨.updateJobExecution id patch', r⟩ = some patch' :=
                  if_pos hid
                rw [hsame] at hwrite
                cases hwrite
                rw [hid]
              · have hnone : jobWrite? e ⟨.updateJobExecution id patch', r⟩ = none := if_neg hid
                rw [hnone] at hwrite
                cases hwrite
          | _ => cases hwrite

/-- **The row of a run, wherever it is interrupted**: a row that was patched at most twice. -/
theorem row_of_reaches {R : JobExecutor.Run} {fuel : Nat} {w w' : World υ} {calls : Calls α}
    {rest : Code α JobExecution} (hrow : w.repo.getJobExecution R.execution.id = some row)
    (hreach : Prog.Reaches (handle env).traced.trans (R.proceed fuel, (w, []))
      (rest, (w', calls))) :
    RunWrites (jobWrites R.execution.id calls) ∧
      w'.repo.getJobExecution R.execution.id =
        some (patched row (jobWrites R.execution.id calls)) := by
  have hstart : RowTracked R.execution.id row (w, ([] : Calls α)) := ⟨hrow, throughout_nil⟩
  have htracks := (Prog.reaches_of_uses hreach (rowTracked_frame env R.execution.id row)
    (R.uses_proceed fuel) hstart).2
  refine ⟨?_, htracks.row⟩
  exact runWrites_of_met (met_of_reaches (R.proceed_writes rfl fuel) hreach htracks.fair)

end Row

/-! ### Runs of one execution -/

/-- The row carries nothing but what the run has written into it. -/
structure NoResidue (writes : List JobExecutionPatch) (row : JobExecution) : Prop where
  started : row.status = .STARTED → row.endTime = none
  completed : row.status = .COMPLETED → row.exitCode = "COMPLETED" ∧ row.exitMessage = ""
  failed : row.status = .FAILED →
    row.exitCode = (lastSet (·.exitCode) writes).getD "" ∧
      row.exitMessage = (lastSet (·.exitMessage) writes).getD ""

/-- What of the row before the run is left in it. -/
structure CarriesOver (before : JobExecution) (writes : List JobExecutionPatch)
    (row : JobExecution) : Prop where
  started : row.status = .STARTED → row.endTime = before.endTime
  completed : row.status = .COMPLETED →
    row.exitCode = "COMPLETED" ∧ row.exitMessage = before.exitMessage
  failed : row.status = .FAILED →
    row.exitCode = (lastSet (·.exitCode) writes).getD before.exitCode ∧
      row.exitMessage = (lastSet (·.exitMessage) writes).getD ""

/-- One run of an execution: its row when the run starts, and what the run is given. -/
structure JobRun (α υ : Type) where
  env : Environment α υ
  world : World υ
  execution : JobExecution
  jobDef : JobDefinition
  partition : PartitionArgs
  fuel : Nat

namespace JobRun

def code (a : JobRun α υ) : Code α JobExecution :=
  JobExecutor.execute a.fuel a.execution a.jobDef a.partition

/-- The run comes to `rest` with the world `w'`, having made `calls`. -/
def ComesTo (a : JobRun α υ) (rest : Code α JobExecution) (w' : World υ)
    (calls : Calls α) : Prop :=
  Prog.Reaches (handle a.env).traced.trans (a.code, (a.world, [])) (rest, (w', calls))

/-- From its first write on, whatever the run comes to, its row has no residue. -/
def LeavesNoResidue (a : JobRun α υ) : Prop :=
  ∀ rest w' calls row, a.ComesTo rest w' calls → jobWrites a.execution.id calls ≠ [] →
    w'.repo.getJobExecution a.execution.id = some row →
    NoResidue (jobWrites a.execution.id calls) row

end JobRun

/-- What the writes of the repository keep of a row: one that has not ended is blank, one that is
STARTING has not ended, and one that can be restarted has. -/
structure Sound (row : JobExecution) : Prop where
  blank : row.endTime = none → row.exitCode = "" ∧ row.exitMessage = ""
  starting : row.status = .STARTING → row.endTime = none
  restartable : JobExecutor.isRestart row = true → row.endTime ≠ none

section Rows

variable {row : JobExecution} {writes : List JobExecutionPatch}

/-- A row that has ended and does not start is sound. -/
theorem sound_of_ended {endTime : Time} (hend : row.endTime = some endTime)
    (hstatus : row.status ≠ .STARTING) : Sound row where
  blank h := by
    rw [hend] at h
    cases h
  starting h := absurd h hstatus
  restartable _ h := by
    rw [hend] at h
    cases h

/-- The writes of a run keep a row sound. -/
theorem RunWrites.sound (h : RunWrites writes) (hrow : Sound row) : Sound (patched row writes) := by
  cases h with
  | fresh => exact hrow
  | started startTime =>
      refine ⟨hrow.blank, ?_, ?_⟩
      · intro h
        cases h
      · intro h
        cases h
  | ended startTime hpatch =>
      cases hpatch with
      | completed endTime | failed endTime exitCode exitMessage | caught endTime exitMessage =>
          exact sound_of_ended rfl nofun

/-- The writes keep the row's id. -/
theorem patched_id (row : JobExecution) (writes : List JobExecutionPatch) :
    (patched row writes).id = row.id := by
  induction writes generalizing row with
  | nil => rfl
  | cons patch writes ih => exact ih (patch.applyTo row)

/-- **What a run carries over**: the patches leave out `endTime` when the run starts, `exitMessage`
when it completes, and `exitCode` when it throws. -/
theorem RunWrites.carriesOver (h : RunWrites writes) (hwrites : writes ≠ []) :
    CarriesOver row writes (patched row writes) := by
  cases h with
  | fresh => exact absurd rfl hwrites
  | started startTime =>
      refine ⟨fun _ => rfl, ?_, ?_⟩
      · intro h
        cases h
      · intro h
        cases h
  | ended startTime hpatch =>
      cases hpatch with
      | completed endTime =>
          refine ⟨?_, fun _ => ⟨rfl, rfl⟩, ?_⟩
          · intro h
            cases h
          · intro h
            cases h
      | failed endTime exitCode exitMessage | caught endTime exitMessage =>
          refine ⟨?_, ?_, fun _ => ⟨rfl, rfl⟩⟩
          · intro h
            cases h
          · intro h
            cases h

/-- Nothing is carried over from a row that has not ended. -/
theorem CarriesOver.noResidue {before : JobExecution} (h : CarriesOver before writes row)
    (hbefore : Sound before) (hend : before.endTime = none) : NoResidue writes row := by
  obtain ⟨hcode, hmessage⟩ := hbefore.blank hend
  refine ⟨fun hstatus => (h.started hstatus).trans hend, fun hstatus => ?_, fun hstatus => ?_⟩
  · rw [← hmessage]
    exact h.completed hstatus
  · have hfailed := h.failed hstatus
    rw [hcode] at hfailed
    exact hfailed

end Rows

namespace JobRun

variable {a : JobRun α υ}

/-- The arguments of the run. -/
def toRun (a : JobRun α υ) : JobExecutor.Run :=
  { execution := a.execution, jobDef := a.jobDef, partition := a.partition }

/-- An attempt that may run proceeds from its own run. -/
theorem code_eq (hlet : JobExecutor.isRestart a.execution = true → a.jobDef.restartable = true) :
    a.code = a.toRun.proceed a.fuel := by
  refine if_neg ?_
  intro h
  obtain ⟨hrestart, hnot⟩ := h
  rw [hlet hrestart] at hnot
  cases hnot

/-- The run comes to its start patch. -/
theorem comesTo_started
    (hlet : JobExecutor.isRestart a.execution = true → a.jobDef.restartable = true)
    (hrow : a.world.repo.getJobExecution a.execution.id = some a.execution) :
    ∃ rest w' calls startTime, a.ComesTo rest w' calls ∧
      jobWrites a.execution.id calls = [startPatch startTime] ∧
      w'.repo.getJobExecution a.execution.id =
        some ((startPatch startTime).applyTo a.execution) := by
  let w₁ := (handle a.env .now a.world).2
  let write : Op α := .updateJobExecution a.execution.id (startPatch a.world.clock)
  obtain ⟨hok, hnew⟩ := updateJobExecution_self (show w₁.repo.getJobExecution _ = _ from hrow)
    (startPatch a.world.clock)
  have hreach : ∃ rest, a.ComesTo rest (handle a.env write w₁).2
      [⟨.now, a.world.clock⟩, ⟨write, (handle a.env write w₁).1⟩] := by
    have hproceed : ∃ k : Time → Except Thrown Unit → Code α JobExecution,
        a.toRun.proceed a.fuel = .op .now fun time =>
        .op (.updateJobExecution a.execution.id (startPatch time)) (k time) := ⟨_, rfl⟩
    obtain ⟨k, hk⟩ := hproceed
    unfold ComesTo
    rw [code_eq hlet, hk]
    have hnow : Prog.Step (handle a.env).traced.trans
        (.op .now fun time => .op (.updateJobExecution a.execution.id (startPatch time)) (k time),
          (a.world, []))
        (.op write (k a.world.clock), (w₁, [⟨.now, a.world.clock⟩])) := .act rfl
    have hwrite : Prog.Step (handle a.env).traced.trans
        (.op write (k a.world.clock), (w₁, [⟨.now, a.world.clock⟩]))
        (k a.world.clock (handle a.env write w₁).1, (handle a.env write w₁).2,
          [⟨.now, a.world.clock⟩, ⟨write, (handle a.env write w₁).1⟩]) := .act rfl
    exact ⟨_, (Relation.ReflTransGen.single hnow).tail hwrite⟩
  obtain ⟨rest, hreach⟩ := hreach
  refine ⟨rest, _, _, a.world.clock, hreach, ?_, hnew⟩
  have hwrite : jobWrite? a.execution.id ⟨write, (handle a.env write w₁).1⟩ =
      some (startPatch a.world.clock) := if_pos rfl
  refine (jobWrites_snoc [⟨.now, a.world.clock⟩] _).trans ?_
  rw [hwrite]
  rfl

/-- From its first write on, the row of a run carries over what the patches leave out. -/
theorem carriesOver
    (hlet : JobExecutor.isRestart a.execution = true → a.jobDef.restartable = true)
    (hrow : a.world.repo.getJobExecution a.execution.id = some a.execution)
    {rest : Code α JobExecution} {w' : World υ} {calls : Calls α} {row : JobExecution}
    (hreach : a.ComesTo rest w' calls) (hwrites : jobWrites a.execution.id calls ≠ [])
    (hrow' : w'.repo.getJobExecution a.execution.id = some row) :
    CarriesOver a.execution (jobWrites a.execution.id calls) row := by
  unfold ComesTo at hreach
  rw [code_eq hlet] at hreach
  obtain ⟨hruns, hpatched⟩ := row_of_reaches (R := a.toRun) hrow hreach
  cases hpatched.symm.trans hrow'
  exact hruns.carriesOver hwrites

/-- **When a run leaves no residue**: its execution has not ended before. -/
theorem leavesNoResidue_iff
    (hlet : JobExecutor.isRestart a.execution = true → a.jobDef.restartable = true)
    (hrow : a.world.repo.getJobExecution a.execution.id = some a.execution)
    (hsound : Sound a.execution) : a.LeavesNoResidue ↔ a.execution.endTime = none := by
  constructor
  · intro h
    obtain ⟨rest, w', calls, startTime, hreach, hwrites, hstarted⟩ := comesTo_started hlet hrow
    have hne : jobWrites a.execution.id calls ≠ [] := by
      rw [hwrites]
      exact List.cons_ne_nil _ _
    exact (h rest w' calls _ hreach hne hstarted).started rfl
  · intro hend rest w' calls row hreach hwrites hrow'
    exact (carriesOver hlet hrow hreach hwrites hrow').noResidue hsound hend

end JobRun

/-- **What one execution goes through** after it was created: runs by the executor, each of them cut
off anywhere, calls of the operator, and whatever leaves its row alone. -/
inductive Lived (e : String) : World υ → List (JobRun α υ) → Prop
  | created {w : World υ} {row : JobExecution} (hrow : w.repo.getJobExecution e = some row)
      (hid : row.id = e) (hstatus : row.status = .STARTING) (hend : row.endTime = none)
      (hcode : row.exitCode = "") (hmessage : row.exitMessage = "") : Lived e w []
  | run {w w' : World υ} {past : List (JobRun α υ)} {a : JobRun α υ}
      {rest : Code α JobExecution} {calls : Calls α} (h : Lived e w past) (hworld : a.world = w)
      (hrow : w.repo.getJobExecution e = some a.execution)
      (hstatus : a.execution.status = .STARTING ∨ JobExecutor.isRestart a.execution = true)
      (hrestartable : a.jobDef.restartable = true) (hreach : a.ComesTo rest w' calls) :
      Lived e w' (past ++ [a])
  | operator {w w' : World υ} {past : List (JobRun α υ)} {env : Environment α υ}
      {p rest : Code α JobExecutionDetails} (h : Lived e w past)
      (hcall : p = JobOperator.stop e ∨ p = JobOperator.abandon e)
      (hreach : Prog.Reaches (handle env).trans (p, w) (rest, w')) : Lived e w' past
  | elsewhere {w w' : World υ} {past : List (JobRun α υ)} (h : Lived e w past)
      (hrow : w'.repo.getJobExecution e = w.repo.getJobExecution e) : Lived e w' past

section Operator

variable {env : Environment α υ} {e : String}

/-- What the operator writes. -/
def ClosingPatch (patch : JobExecutionPatch) : Prop :=
  ∃ endTime status, patch.endTime = some (some endTime) ∧ patch.status = some status ∧
    status ≠ .STARTING

/-- The operations of `stop` and `abandon`. -/
def operatorCalls : Prog.Footprint (Op α) where
  ops o := o.kind ≠ .createExecution ∧
    ∀ id patch, o = .updateJobExecution id patch → ClosingPatch patch
  loops := False

/-- Looking calls are an operator's calls. -/
theorem uses_looking {p : Code α β} (h : p.Uses (On lookingKinds)) : p.Uses operatorCalls := by
  refine h.mono ⟨fun o ho => ⟨?_, ?_⟩, id⟩
  · intro heq
    have hmem : o.kind ∈ lookingKinds := ho
    rw [heq] at hmem
    exact absurd hmem (by decide)
  · intro id patch heq
    have hmem : OpKind.updateJob ∈ lookingKinds := by
      rw [heq] at ho
      exact ho
    exact absurd hmem (by decide)

/-- A closing patch is an operator's call. -/
theorem uses_close {patch : JobExecutionPatch} (h : ClosingPatch patch) :
    (updateJobExecution e patch : Code α Unit).Uses operatorCalls := by
  refine Prog.Uses.bind ((Prog.uses_perform _).mpr ⟨nofun, ?_⟩) fun _ => Prog.uses_ofExcept _
  intro id patch' heq
  cases heq
  exact h

/-- The clock is an operator's call. -/
theorem uses_clock : (now : Code α Time).Uses operatorCalls :=
  (Prog.uses_perform _).mpr ⟨nofun, nofun⟩

/-- Stopping makes only an operator's calls. -/
theorem uses_stop : (JobOperator.stop e : Code α JobExecutionDetails).Uses operatorCalls := by
  have hdetails : (JobExplorer.getJobExecutionDetails e : Code α JobExecutionDetails).Uses
      operatorCalls := uses_looking (JobExplorer.uses_getJobExecutionDetails e)
  refine hdetails.bind fun details => .ite (fun _ => trivial) fun _ => .ite (fun _ => trivial)
    fun _ => uses_clock.bind fun endTime => ?_
  exact (uses_close ⟨endTime, .STOPPED, rfl, rfl, nofun⟩).bind fun _ => hdetails

/-- Abandoning makes only an operator's calls. -/
theorem uses_abandon :
    (JobOperator.abandon e : Code α JobExecutionDetails).Uses operatorCalls := by
  have hdetails : (JobExplorer.getJobExecutionDetails e : Code α JobExecutionDetails).Uses
      operatorCalls := uses_looking (JobExplorer.uses_getJobExecutionDetails e)
  have hend (endTime : Option Time) :
      (JobOperator.endTimeOr endTime : Code α Time).Uses operatorCalls := by
    cases endTime with
    | none => exact uses_clock
    | some endTime => trivial
  refine hdetails.bind fun details => .ite (fun _ => trivial) fun _ => .ite (fun _ => trivial)
    fun _ => (hend _).bind fun endTime => ?_
  exact (uses_close ⟨endTime, .ABANDONED, rfl, rfl, nofun⟩).bind fun _ => hdetails

/-- The execution is on file, with a sound row. -/
def SoundOnFile (e : String) (w : World υ) : Prop :=
  ∃ row, w.repo.getJobExecution e = some row ∧ row.id = e ∧ Sound row

/-- A closing patch leaves a sound row. -/
theorem sound_applyTo {patch : JobExecutionPatch} (h : ClosingPatch patch) (row : JobExecution) :
    Sound (patch.applyTo row) := by
  obtain ⟨endTime, status, hend, hstatus, hne⟩ := h
  have hended : (patch.applyTo row).endTime = some endTime := by
    simp [JobExecutionPatch.applyTo, hend]
  refine sound_of_ended hended ?_
  simp [JobExecutionPatch.applyTo, hstatus, hne]

theorem soundOnFile_frame (env : Environment α υ) (e : String) :
    (rowLogic env).Frame operatorCalls (SoundOnFile e) where
  guard _ _ _ _ := trivial
  keep o w r w' ho hw ht := by
    have hw' : (handle env o w).2 = w' := congrArg Prod.snd ht
    subst hw'
    obtain ⟨row, hrow, hid, hsound⟩ := hw
    by_cases hupdate : o.kind = .updateJob
    · cases o with
      | updateJobExecution id patch =>
          by_cases heq : id = e
          · subst heq
            exact ⟨_, (updateJobExecution_self hrow patch).2, hid,
              sound_applyTo (ho.2 id patch rfl) row⟩
          · exact ⟨row, (updateJobExecution_other heq patch).trans hrow, hid, hsound⟩
      | user call => cases call <;> cases hupdate
      | _ => cases hupdate
    · have hexecutions := handle_executions env ho.1 hupdate w
      exact ⟨row, (congrArg (·.get? e) hexecutions).trans hrow, hid, hsound⟩
  loops h := h.elim

end Operator

namespace Lived

variable {e : String} {w : World υ} {past : List (JobRun α υ)}

/-- The row stays sound. -/
theorem soundOnFile (h : Lived e w past) : SoundOnFile e w := by
  induction h with
  | @created w row hrow hid hstatus hend hcode hmessage =>
      refine ⟨row, hrow, hid, fun _ => ⟨hcode, hmessage⟩, fun _ => hend, ?_⟩
      intro hrestart
      rw [JobExecutor.isRestart, hstatus] at hrestart
      cases hrestart
  | @run w w' past a rest calls _ hworld hrow hstatus hrestartable hreach ih =>
      obtain ⟨row, hrow', hid, hsound⟩ := ih
      cases hrow'.symm.trans hrow
      subst hworld
      unfold JobRun.ComesTo at hreach
      rw [JobRun.code_eq fun _ => hrestartable] at hreach
      rw [← hid] at hrow
      obtain ⟨hruns, hpatched⟩ := row_of_reaches (R := a.toRun) hrow hreach
      have hid' : a.toRun.execution.id = e := hid
      rw [hid'] at hpatched hruns
      exact ⟨_, hpatched, (patched_id _ _).trans hid, hruns.sound hsound⟩
  | operator _ hcall hreach ih =>
      refine (Prog.reaches_of_uses hreach (soundOnFile_frame _ e) ?_ ih).2
      rcases hcall with rfl | rfl
      · exact uses_stop
      · exact uses_abandon
  | elsewhere _ hrow ih =>
      obtain ⟨row, hrow', hid, hsound⟩ := ih
      exact ⟨row, hrow.trans hrow', hid, hsound⟩

/-- **When one of the runs leaves no residue**: it is no restart. -/
theorem leavesNoResidue_iff (h : Lived e w past) {a : JobRun α υ} (ha : a ∈ past) :
    a.LeavesNoResidue ↔ JobExecutor.isRestart a.execution = false := by
  induction h with
  | created => cases ha
  | @run w w' past b rest calls hpast hworld hrow hstatus hrestartable hreach ih =>
      rcases List.mem_append.mp ha with hold | hlast
      · exact ih hold
      · rw [List.mem_singleton.mp hlast]
        obtain ⟨row, hrow', hid, hsound⟩ := hpast.soundOnFile
        cases hrow'.symm.trans hrow
        subst hworld
        rw [← hid] at hrow
        rw [JobRun.leavesNoResidue_iff (fun _ => hrestartable) hrow hsound]
        constructor
        · intro hend
          rw [Bool.eq_false_iff]
          exact fun hrestart => hsound.restartable hrestart hend
        · intro hrestart
          rcases hstatus with hstarting | hrestarts
          · exact hsound.starting hstarting
          · rw [hrestart] at hrestarts
            cases hrestarts
  | operator _ _ _ ih => exact ih ha
  | elsewhere _ _ ih => exact ih ha

end Lived

/-- **When the runs of an execution leave no residue**: none of them is a restart. -/
theorem runs_leave_no_residue_iff {e : String} {w : World υ} {past : List (JobRun α υ)}
    (h : Lived e w past) : (∀ a ∈ past, a.LeavesNoResidue) ↔
      ∀ a ∈ past, JobExecutor.isRestart a.execution = false :=
  forall₂_congr fun _ ha => h.leavesNoResidue_iff ha

section FailedFirst

/-- A run of the pairs job whose writer fails at the second chunk. -/
def failingRun : JobRun Nat Nat :=
  { env := listEnvironment [10, 20, 30] fun _ k => if k = 1 then some (.error "disk full") else none
    world := JobLauncher.pairsCreated, execution := InMemoryJobRepository.newExecution "r" "" []
    jobDef := pairsJob, partition := {}, fuel := 5 }

/-- What is left of a run that is not cut off. -/
def JobRun.left (a : JobRun α υ) : World υ × Calls α :=
  (a.code.run (handle a.env).traced (a.world, [])).2

/-- A run comes to what it leaves. -/
theorem JobRun.comesTo_left (a : JobRun α υ) : ∃ rest, a.ComesTo rest a.left.1 a.left.2 :=
  Prog.reaches_run

/-- The row of the execution after a run of it. -/
def JobRun.rowLeft (a : JobRun α υ) : JobExecution :=
  (a.left.1.repo.getJobExecution a.execution.id).getD a.execution

/-- The restart of the failed run, with a writer that works. -/
def restartedRun : JobRun Nat Nat :=
  { failingRun with
    env := willing [10, 20, 30], world := failingRun.left.1, execution := failingRun.rowLeft }

/-- The row that a run leaves is the one on file. -/
theorem JobRun.row_left {a : JobRun α υ}
    (h : (a.left.1.repo.getJobExecution a.execution.id).isSome = true) :
    a.left.1.repo.getJobExecution a.execution.id = some a.rowLeft := by
  obtain ⟨row, hrow⟩ := Option.isSome_iff_exists.mp h
  rw [JobRun.rowLeft, hrow, Option.getD_some]

/-- The row of the failed run is one to restart. -/
theorem isRestart_failingRun_left : JobExecutor.isRestart failingRun.rowLeft = true := by
  decide +kernel

/-- The failed run and its restart are a lived history. -/
theorem lived_failedFirst : Lived "r" restartedRun.left.1 [failingRun, restartedRun] := by
  have hcreated : Lived "r" failingRun.world ([] : List (JobRun Nat Nat)) := by
    have hrow : failingRun.world.repo.getJobExecution "r" = some failingRun.execution := rfl
    exact .created hrow rfl rfl rfl rfl rfl
  obtain ⟨_, hfailed⟩ := failingRun.comesTo_left
  obtain ⟨_, hrestarted⟩ := restartedRun.comesTo_left
  have hfirst := hcreated.run rfl rfl (Or.inl rfl) rfl hfailed
  have hrow : failingRun.left.1.repo.getJobExecution "r" = some failingRun.rowLeft :=
    JobRun.row_left (by decide +kernel)
  have hworld : restartedRun.world = failingRun.left.1 := by
    unfold restartedRun
    with_reducible rfl
  have hexecution : restartedRun.execution = failingRun.rowLeft := by
    unfold restartedRun
    with_reducible rfl
  have hrestart : JobExecutor.isRestart restartedRun.execution = true := by
    rw [hexecution]
    exact isRestart_failingRun_left
  rw [← hexecution] at hrow
  exact hfirst.run hworld hrow (Or.inr hrestart) rfl hrestarted

/-- The failed run and its restart leave no residue exactly when neither finds a row to restart.
-/
theorem runs_leave_no_residue_iff_failedFirst :
    (∀ a ∈ [failingRun, restartedRun], a.LeavesNoResidue) ↔
      ∀ a ∈ [failingRun, restartedRun], JobExecutor.isRestart a.execution = false :=
  runs_leave_no_residue_iff lived_failedFirst

/-- A message on the row of a completed run is a residue. -/
theorem JobRun.not_leavesNoResidue {a : JobRun α υ}
    (hrow : (a.left.1.repo.getJobExecution a.execution.id).isSome = true)
    (hwrites : (jobWrites a.execution.id a.left.2).isEmpty = false)
    (hstatus : a.rowLeft.status = .COMPLETED) (hmessage : a.rowLeft.exitMessage ≠ "") :
    ¬ a.LeavesNoResidue := by
  intro h
  obtain ⟨rest, hreach⟩ := a.comesTo_left
  have hclean := h rest _ _ _ hreach (List.isEmpty_eq_false_iff.mp hwrites) (row_left hrow)
  exact hmessage (hclean.completed hstatus).2

/-- **The message of a failure outlives it**: the restart completes, and its row still carries the
message of the failed run. -/
theorem restarted_row_keeps_message :
    ¬ restartedRun.LeavesNoResidue ∧ restartedRun.rowLeft.status = .COMPLETED ∧
      restartedRun.rowLeft.exitMessage = "disk full" := by
  have hstatus : restartedRun.rowLeft.status = .COMPLETED := by decide +kernel
  have hmessage : restartedRun.rowLeft.exitMessage = "disk full" := by decide +kernel
  refine ⟨JobRun.not_leavesNoResidue ?_ ?_ hstatus ?_, hstatus, hmessage⟩
  · decide +kernel
  · decide +kernel
  · rw [hmessage]
    decide

end FailedFirst

end NestBatch
