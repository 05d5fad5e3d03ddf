import NestBatch.Execution.RunFootprint
import NestBatch.Execution.ThrownTexts
import NestBatch.Transport.PartitionOutcomes

/-!
# A run closes what it opens

A run marks its execution STARTED, and before it ends it marks it COMPLETED or
FAILED, whatever its user code answers.  There are two ways around.  A `before:job`
listener that throws is called outside the `try` block, and nothing is written after
it.  And the `catch` block turns what it has caught into a string before it writes
the mark, which throws for a value without a string form.
-/

namespace NestBatch

variable {α β γ : Type}

/-- STARTED is the last status that the calls have written of the execution. -/
def Owes (e : String) (calls : Calls α) : Prop :=
  (statusesWritten e calls).getLast? = some .STARTED

/-- Nothing is left STARTED. -/
def AllClosed (calls : Calls α) : Prop := ∀ e, ¬ Owes e calls

/-- Nothing but `e` is left STARTED. -/
def OpenOnly (e : String) (calls : Calls α) : Prop := ∀ e', e' ≠ e → ¬ Owes e' calls

/-- The last call is one of a `before:job` listener of the execution, which has thrown. -/
def ThrownOut (e : String) (calls : Calls α) : Prop :=
  ∃ before fn ctx err, ctx.jobExecutionId = e ∧ calls = before ++
    [⟨.user (.listener fn (.lifecycle .before .job) (.ctx ctx)),
      (.error err : Except Thrown Unit)⟩]

/-- The `catch` block of a run has thrown: after it had asked for the time, `String(err)` threw
`textErr` of what it had caught. -/
def TextThrew (textErr : Thrown) (calls : Calls α) : Prop :=
  ∃ (before : Calls α) (time : Time) (err : Thrown),
    err.text = .error textErr ∧ calls = before ++ [⟨.now, time⟩]

/-- How code that drives executions ends. -/
def EndsClosed (out : Except Thrown β) (calls : Calls α) : Prop :=
  ∀ e, Owes e calls → ∃ err, out = .error err ∧ (ThrownOut e calls ∨ TextThrew err calls)

section Owing

variable {e : String} {calls : Calls α}

theorem not_owes_nil (e : String) : ¬ Owes e ([] : Calls α) := by
  intro h
  cases h

theorem closed_nil : AllClosed ([] : Calls α) := not_owes_nil

/-- A call that writes no status of the execution changes nothing for it. -/
theorem owes_snoc_none {c : Prog.Call (Op α) Op.Resp} (h : statusWritten e c = none) :
    Owes e (calls ++ [c]) ↔ Owes e calls := by
  unfold Owes
  rw [statusesWritten_snoc, h, Option.toList_none, List.append_nil]

/-- A call that writes a status decides. -/
theorem owes_snoc_some {c : Prog.Call (Op α) Op.Resp} {status : JobStatus}
    (h : statusWritten e c = some status) : Owes e (calls ++ [c]) ↔ status = .STARTED := by
  unfold Owes
  rw [statusesWritten_snoc, h, Option.toList_some, List.getLast?_concat, Option.some_inj]

theorem statusWritten_of_kind {o : Op α} (h : o.kind ≠ .updateJob) (r : o.Resp) :
    statusWritten e ⟨o, r⟩ = none := by
  cases o with
  | updateJobExecution => exact absurd rfl h
  | _ => rfl

theorem statusWritten_other {e' : String} (h : e' ≠ e) (patch : JobExecutionPatch)
    (r : Except Thrown Unit) :
    statusWritten e (⟨.updateJobExecution e' patch, r⟩ : Prog.Call (Op α) Op.Resp) = none :=
  if_neg h

theorem statusWritten_self (patch : JobExecutionPatch) (r : Except Thrown Unit) :
    statusWritten e (⟨.updateJobExecution e patch, r⟩ : Prog.Call (Op α) Op.Resp) = patch.status :=
  if_pos rfl

/-- Only a mark that says so leaves an execution STARTED. -/
theorem owes_snoc {o : Op α} {r : o.Resp} (h : Owes e (calls ++ [⟨o, r⟩])) :
    Owes e calls ∨ ∃ patch, o = .updateJobExecution e patch ∧ patch.status = some .STARTED := by
  by_cases hkind : o.kind = .updateJob
  · cases o with
    | updateJobExecution e' patch =>
        by_cases he : e' = e
        · subst he
          cases hstatus : patch.status with
          | none =>
              exact .inl ((owes_snoc_none ((statusWritten_self patch r).trans hstatus)).mp h)
          | some status =>
              have hstarted := (owes_snoc_some ((statusWritten_self patch r).trans hstatus)).mp h
              exact .inr ⟨patch, rfl, hstatus.trans (congrArg some hstarted)⟩
        · exact .inl ((owes_snoc_none (statusWritten_other he patch r)).mp h)
    | user call => cases call <;> cases hkind
    | _ => cases hkind
  · exact .inl ((owes_snoc_none (statusWritten_of_kind hkind r)).mp h)

/-- Where all is closed nothing but the execution is open. -/
theorem AllClosed.open (h : AllClosed calls) (e : String) : OpenOnly e calls := fun e' _ => h e'

/-- Where all is closed any outcome ends closed. -/
theorem AllClosed.ends (h : AllClosed calls) (out : Except Thrown β) : EndsClosed out calls :=
  fun e howes => absurd howes (h e)

/-- What returns and ends closed has closed all. -/
theorem EndsClosed.closed {b : β} (h : EndsClosed (.ok b) calls) : AllClosed calls := by
  intro e howes
  obtain ⟨err, hout, -⟩ := h e howes
  cases hout

/-- What throws ends closed for any type of result. -/
theorem EndsClosed.error {err : Thrown} (h : EndsClosed (.error err : Except Thrown β) calls) :
    EndsClosed (.error err : Except Thrown γ) calls := by
  intro e howes
  obtain ⟨err', hout, hexit⟩ := h e howes
  cases hout
  exact ⟨err, rfl, hexit⟩

end Owing

/-! ### Operations that mark nothing STARTED -/

/-- A status write succeeds: the execution is on file. -/
def AnswersOnFile : (o : Op α) → o.Resp → Prop
  | .updateJobExecution _ _, .error _ => False
  | _, _ => True

def filedRules : CallRules α where
  allowed _ := AnswersOnFile

abbrev filedLogic : Prog.Logic (Op α) Op.Resp (Calls α) := logged filedRules True

/-- Operations that mark no execution STARTED. -/
def unmarking : Prog.Footprint (Op α) where
  ops o := ∀ e patch, o = .updateJobExecution e patch → patch.status ≠ some .STARTED
  loops := True

section Unmarking

variable {K : List OpKind} {calls : Calls α}

/-- Code that updates no job is unmarking. -/
theorem unmarking_of_kinds {loops : Prop} {p : Code α β} (hp : p.Uses (On K loops))
    (h : .updateJob ∉ K) : p.Uses unmarking := by
  refine hp.mono ⟨fun o ho e patch heq => ?_, fun _ => trivial⟩
  subst heq
  exact absurd ho h

theorem unmarking_request {o : Op α} (h : o.kind ≠ .updateJob) :
    (request o : Code α o.Resp).Uses unmarking := by
  refine (Prog.uses_perform _).mpr fun e patch heq => ?_
  subst heq
  exact absurd rfl h

/-- A patch that does not start the job is unmarking. -/
theorem unmarking_update {e : String} {patch : JobExecutionPatch}
    (h : patch.status ≠ some .STARTED) :
    (updateJobExecution e patch : Code α Unit).Uses unmarking := by
  refine Prog.Uses.bind ((Prog.uses_perform _).mpr ?_) fun _ => Prog.uses_ofExcept _
  intro e' patch' heq
  cases heq
  exact h

theorem closed_frame :
    (filedLogic : Prog.Logic (Op α) Op.Resp (Calls α)).Frame unmarking AllClosed where
  guard _ _ _ _ := trivial
  keep o calls r calls' ho h ht := by
    obtain ⟨hsnoc, -⟩ := ht
    subst hsnoc
    intro e howes
    rcases owes_snoc howes with hold | ⟨patch, heq, hstarted⟩
    · exact h e hold
    · exact ho e patch heq hstarted
  loops _ := trivial

/-- Unmarking code ends closed where all is closed. -/
theorem wp_unmarking {p : Code α β} (hp : p.Uses unmarking) (h : AllClosed calls) :
    p.wp filedLogic EndsClosed calls :=
  Prog.wp_mono (Prog.wp_of_uses hp closed_frame h) fun out _ hclosed => hclosed.ends out

/-- Code that ends well goes on with code that does. -/
theorem wp_ends_bind {p : Code α β} {f : β → Code α γ} (hp : p.wp filedLogic EndsClosed calls)
    (hf : ∀ b calls', AllClosed calls' → (f b).wp filedLogic EndsClosed calls') :
    (p >>= f).wp filedLogic EndsClosed calls :=
  Prog.wp_seq hp (fun b calls' hend => hf b calls' hend.closed) fun _ _ hend => hend.error

end Unmarking

/-! ### A run -/

namespace JobExecutor.Run

variable (R : Run) {calls : Calls α}

/-- Once it has begun, a run marks no execution but its own. -/
theorem open_frame {e : String} :
    (filedLogic : Prog.Logic (Op α) Op.Resp (Calls α)).Frame (working e) (OpenOnly e) where
  guard _ _ _ _ := trivial
  keep o calls r calls' ho h ht := by
    obtain ⟨hsnoc, -⟩ := ht
    subst hsnoc
    intro e' hne howes
    rcases owes_snoc howes with hold | ⟨patch, rfl, hstarted⟩
    · exact h e' hne hold
    · rcases ho with hside | ⟨name, hstep⟩ | ⟨patch', hmark, -⟩
      · exact absurd hside (show OpKind.updateJob ∉ sideKinds by decide)
      · cases hstep
      · cases hmark
        exact hne rfl
  loops _ := trivial

/-- A closing mark at the current time, and what follows it. -/
theorem wp_closeNow {patch : Time → JobExecutionPatch} {p : Code α β}
    {Q : Except Thrown β → Calls α → Prop} (hpatch : ∀ time, ClosingMark (patch time))
    (h : OpenOnly R.execution.id calls)
    (hp : ∀ calls', AllClosed calls' → p.wp filedLogic Q calls') :
    (now >>= fun time => updateJobExecution R.execution.id (patch time) >>= fun _ => p).wp
      filedLogic Q calls := by
  refine Prog.wp_bind.mpr (wp_call trivial fun time _ => ?_)
  refine Prog.wp_bind.mpr (Prog.wp_bind.mpr (wp_call trivial fun answer hanswer => ?_))
  refine (Prog.wp_ofExcept _).mpr ?_
  cases answer with
  | error err => exact hanswer.elim
  | ok u =>
      refine hp _ fun e howes => ?_
      rcases owes_snoc howes with hold | ⟨patch', heq, hstarted⟩
      · have hbefore : Owes e calls := (owes_snoc_none rfl).mp hold
        by_cases he : e = R.execution.id
        · subst he
          rcases hpatch time with hfailed | hcompleted
          · cases (owes_snoc_some ((statusWritten_self _ _).trans hfailed)).mp howes
          · cases (owes_snoc_some ((statusWritten_self _ _).trans hcompleted)).mp howes
        · exact h e he hbefore
      · cases heq
        rcases hpatch time with hfailed | hcompleted
        · rw [hstarted] at hfailed
          cases hfailed
        · rw [hstarted] at hcompleted
          cases hcompleted

/-- The start of a run. -/
theorem begin_opens (h : AllClosed calls) : (R.begin_ : Code α Unit).wp filedLogic
    (fun out calls' => (∃ u, out = .ok u) ∧ OpenOnly R.execution.id calls') calls := by
  refine Prog.wp_bind.mpr (wp_call trivial fun startTime _ => ?_)
  refine Prog.wp_bind.mpr (Prog.wp_bind.mpr (wp_call trivial fun answer hanswer => ?_))
  refine (Prog.wp_ofExcept _).mpr ?_
  cases answer with
  | error err => exact hanswer.elim
  | ok u =>
      refine Prog.wp_bind.mpr (wp_call trivial fun timestamp _ => ?_)
      refine wp_call trivial fun _ _ => ⟨⟨_, rfl⟩, fun e hne howes => ?_⟩
      have hmarked := (owes_snoc_none rfl).mp ((owes_snoc_none rfl).mp howes)
      have hother := (owes_snoc_none (statusWritten_other (Ne.symm hne) _ _)).mp hmarked
      exact h e ((owes_snoc_none rfl).mp hother)

/-- The listeners let the run in, or one of them has just thrown. -/
theorem invokeBefore_opens (resolvers : ResolverMap) {ctx : ListenerContext}
    (h : OpenOnly ctx.jobExecutionId calls) :
    (ListenerInvoker.invokeBefore resolvers .job ctx : Code α Unit).wp filedLogic
      (fun out calls' => OpenOnly ctx.jobExecutionId calls' ∧
        ∀ err, out = .error err → ThrownOut ctx.jobExecutionId calls') calls := by
  unfold ListenerInvoker.invokeBefore
  induction resolvers generalizing calls with
  | nil => exact ⟨h, fun _ hout => by cases hout⟩
  | cons head rest ih =>
      obtain ⟨key, entry⟩ := head
      unfold ListenerInvoker.invokeMatching
      split
      · refine Prog.wp_bind.mpr (wp_call trivial fun answer _ => ?_)
        have hopen : OpenOnly ctx.jobExecutionId (calls ++
            [⟨.user (.listener entry.fn (.lifecycle .before .job) (.ctx ctx)), answer⟩]) :=
          fun e' hne howes => h e' hne ((owes_snoc_none rfl).mp howes)
        cases answer with
        | ok u => exact Prog.wp_bind.mpr (ih hopen)
        | error err =>
            refine Prog.afterwards_ok.mpr (Prog.wp_bind.mpr ?_)
            by_cases hborne : ListenerInvoker.BearsWith entry (.error err)
            · rw [ListenerInvoker.settle_of_bearsWith hborne]
              exact ih hopen
            · obtain ⟨thrown, hthrown⟩ := ListenerInvoker.settle_of_not_bearsWith (α := α) hborne
              rw [hthrown]
              exact ⟨hopen, fun _ _ => ⟨calls, entry.fn, ctx, err, rfl, rfl⟩⟩
      · exact ih h

/-- What the step loop leaves: the mark is made, unless it ended well. -/
def LoopCloses (e : String) (out : Except Thrown JobStatus) (calls : Calls α) : Prop :=
  OpenOnly e calls ∧ ∀ status, out = .ok status → status = .COMPLETED ∨ AllClosed calls

/-- Failing the job closes it. -/
theorem failJob_closes (h : OpenOnly R.execution.id calls) (exitCode exitMessage : String) :
    (R.failJob exitCode exitMessage : Code α JobStatus).wp filedLogic (LoopCloses R.execution.id)
      calls :=
  R.wp_closeNow (fun _ => .inl rfl) h fun _ hclosed => ⟨hclosed.open _, fun _ _ => .inr hclosed⟩

/-- The step loop closes what it fails and leaves the rest open. -/
theorem stepLoop_closes (h : OpenOnly R.execution.id calls) (loopFuel fuel : Nat)
    (stepId : String) :
    (R.stepLoop loopFuel fuel stepId : Code α JobStatus).wp filedLogic (LoopCloses R.execution.id)
      calls := by
  induction fuel generalizing stepId calls with
  | zero => trivial
  | succ fuel ih =>
      have herr : ∀ (err : Thrown) (calls' : Calls α), OpenOnly R.execution.id calls' →
          LoopCloses R.execution.id (.error err) calls' :=
        fun _ _ h' => ⟨h', fun _ hout => by cases hout⟩
      have hdecide (ctx : DeciderContext) :
          (R.resolveDeciderExitStatus stepId ctx : Code α (Option String)).Uses
            (working R.execution.id) :=
        working_of_kinds (K := [.decide]) (R.uses_resolveDecider (by decide) stepId ctx)
          (by decide)
      unfold stepLoop
      cases R.jobDef.step? stepId with
      | none => exact R.failJob_closes h _ _
      | some step =>
          refine Prog.wp_seq (Prog.wp_of_uses (R.working_runStep loopFuel step) open_frame h)
            (fun ran calls₁ h₁ => ?_) herr
          refine Prog.wp_seq (Prog.wp_of_uses (hdecide _) open_frame h₁)
            (fun decider calls₂ h₂ => ?_) herr
          refine Prog.wp_bind.mpr ((Prog.wp_ofExcept _).mpr ?_)
          cases nextStep R.jobDef stepId decider ran.2 with
          | error err => exact herr err calls₂ h₂
          | ok next =>
              cases next with
              | goto next => exact ih h₂ next
              | finish => exact ⟨h₂, fun status hout => by cases hout; exact .inl rfl⟩
              | fail => exact R.failJob_closes h₂ _ _

/-- How the driven part of a run ends: its closing mark is made, or the `catch` block has thrown. -/
def DriveCloses (e : String) (out : Except Thrown JobStatus) (calls : Calls α) : Prop :=
  (AllClosed calls ∧ ∃ status, out = .ok status) ∨
    ∃ textErr, out = .error textErr ∧ OpenOnly e calls ∧ TextThrew textErr calls

/-- Driving a job closes it or leaves it to its end. -/
theorem drive_closes (h : OpenOnly R.execution.id calls) (fuel : Nat) :
    (R.drive fuel : Code α JobStatus).wp filedLogic (DriveCloses R.execution.id) calls := by
  refine Prog.wp_tryCatch.mpr (Prog.wp_seq (R.stepLoop_closes h fuel fuel _) ?_ ?_)
  · intro status calls₁ h₁
    unfold completeJob
    split
    · exact R.wp_closeNow (fun _ => .inr rfl) h₁.1 fun _ hclosed => .inl ⟨hclosed, _, rfl⟩
    · next hne =>
        rcases h₁.2 status rfl with hcompleted | hclosed
        · exact absurd hcompleted hne
        · exact .inl ⟨hclosed, _, rfl⟩
  · intro err calls₁ h₁
    change (R.onError err : Code α JobStatus).wp _ _ _
    cases htext : err.text with
    | error textErr =>
        rw [R.onError_of_textless htext]
        refine Prog.wp_bind.mpr (wp_call trivial fun time _ => .inr ⟨textErr, rfl, ?_, ?_⟩)
        · exact fun e hne howes => h₁.1 e hne ((owes_snoc_none rfl).mp howes)
        · exact ⟨calls₁, time, err, htext, rfl⟩
    | ok exitMessage =>
        rw [R.onError_of_text htext]
        exact R.wp_closeNow (fun _ => .inl rfl) h₁.1 fun _ hclosed => .inl ⟨hclosed, _, rfl⟩

/-- Settling a job closes it. -/
theorem settle_closes (h : OpenOnly R.execution.id calls) (fuel : Nat) :
    (R.settle fuel : Code α JobExecution).wp filedLogic EndsClosed calls := by
  rw [R.settle_eq]
  refine Prog.wp_seq (R.drive_closes h fuel) (fun status calls₁ h₁ => ?_) fun err calls₁ h₁ => ?_
  · rcases h₁ with ⟨hclosed, -⟩ | ⟨textErr, hout, -⟩
    · exact wp_unmarking (unmarking_of_kinds (R.uses_epilogue status) (by decide)) hclosed
    · cases hout
  · rcases h₁ with ⟨-, status, hout⟩ | ⟨textErr, hout, hopen, hthrew⟩
    · cases hout
    · cases hout
      intro e howes
      by_cases he : e = R.execution.id
      · exact ⟨err, rfl, .inr hthrew⟩
      · exact absurd howes (hopen e he)

end JobExecutor.Run

/-- **A run closes what it opens**, or a `before:job` listener has thrown it out, or its `catch`
block has thrown. -/
theorem JobExecutor.execute_closes {calls : Calls α} (h : AllClosed calls) (fuel : Nat)
    (execution : JobExecution) (jobDef : JobDefinition) (partition : PartitionArgs) :
    (JobExecutor.execute fuel execution jobDef partition : Code α JobExecution).wp filedLogic
      EndsClosed calls := by
  unfold JobExecutor.execute
  split
  · exact h.ends _
  · let R : Run := { execution := execution, jobDef := jobDef, partition := partition }
    change (R.proceed fuel : Code α JobExecution).wp _ _ _
    rw [R.proceed_eq]
    have hprologue : (R.prologue : Code α Unit).wp filedLogic
        (fun out calls' => OpenOnly R.execution.id calls' ∧
          ∀ err, out = .error err → ThrownOut R.execution.id calls') calls := by
      refine Prog.wp_seq (R.begin_opens h) (fun _ calls₁ h₁ => ?_) fun err calls₁ h₁ => ?_
      · exact Run.invokeBefore_opens R.jobResolvers h₁.2
      · obtain ⟨u, hout⟩ := h₁.1
        cases hout
    refine Prog.wp_seq hprologue (fun _ calls₁ h₁ => R.settle_closes h₁.1 fuel) ?_
    intro err calls₁ h₁ e howes
    by_cases he : e = R.execution.id
    · exact he ▸ ⟨err, rfl, .inl (h₁.2 err rfl)⟩
    · exact absurd howes (h₁.1 e he)

end NestBatch
