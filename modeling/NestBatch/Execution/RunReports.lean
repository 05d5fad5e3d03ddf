import NestBatch.Execution.LoopReports

/-!
# What a whole run is told from outside

Around the step loop the listeners of the job are told that it begins and how it ended.  A run
report holds what they answer and what the loop is told, and with it how the run goes: whether it
is let in, whether it fails, and whether it returns.
-/

namespace NestBatch

variable {α β υ : Type}

/-- What the listeners of some entries have answered. -/
abbrev ListenerReports := List (ListenerEntry × Except Thrown Unit)

namespace ListenerInvoker

/-- What the listeners under a key answer when they are called in turn, and the world they leave. -/
def told (env : Environment α υ) (key : ListenerKey) (args : ListenerArgs α) :
    ResolverMap → World υ → ListenerReports × World υ
  | [], w => ([], w)
  | (k, entry) :: rest, w =>
      if k = key then
        let answer := handle env (.user (.listener entry.fn key args)) w
        let later := told env key args rest answer.2
        ((entry, answer.1) :: later.1, later.2)
      else told env key args rest w

/-- Every entry bears with the answer of its listener. -/
def Borne (reports : ListenerReports) : Prop := ∀ p ∈ reports, BearsWith p.1 p.2

/-- **The listeners of a key let the executor go on** exactly when every entry bears with the answer
of its listener. -/
theorem invokeMatching_told (env : Environment α υ) (key : ListenerKey) (args : ListenerArgs α)
    (resolvers : ResolverMap) (w : World υ) :
    (invokeMatching key args resolvers : Code α Unit).wp (rowLogic env) (fun out w' =>
      (out = .ok () ↔ Borne (told env key args resolvers w).1) ∧
        (out = .ok () → w' = (told env key args resolvers w).2)) w := by
  induction resolvers generalizing w with
  | nil => exact ⟨iff_of_true rfl (fun _ h => by cases h), fun _ => rfl⟩
  | cons e rest ih =>
      obtain ⟨k, entry⟩ := e
      unfold invokeMatching told
      by_cases hk : k = key
      · rw [if_pos hk, if_pos hk]
        refine Prog.wp_bind.mpr (Prog.wp_perform.mpr ⟨trivial, ?_⟩)
        intro out w₁ ht
        have hcall : handle env (.user (.listener entry.fn key args)) w = (out, w₁) := ht
        unfold Borne
        rw [hcall, List.forall_mem_cons]
        change (settle entry out >>= fun _ => invokeMatching key args rest).wp _ _ w₁
        by_cases hout : BearsWith entry out
        · rw [settle_of_bearsWith hout]
          refine Prog.wp_mono (ih w₁) ?_
          intro final w' hrest
          exact ⟨hrest.1.trans (and_iff_right hout).symm, hrest.2⟩
        · obtain ⟨err, hsettle⟩ := settle_of_not_bearsWith (α := α) hout
          rw [hsettle]
          exact ⟨iff_of_false (fun h => by cases h) fun h => hout h.1, fun h => by cases h⟩
      · rw [if_neg hk, if_neg hk]
        exact ih w

end ListenerInvoker

open ListenerInvoker

/-- The loop around the steps ends FAILED, or throws what its `catch` block can quote. -/
def EndsFailed : Except Thrown JobStatus → Prop
  | .ok status => status = .FAILED
  | .error err => err.HasText

/-- What a run is told: the answers of the `before:job` listeners, the reports of the steps it comes
to, and the answers of the `after:job` listeners to a failure. -/
structure RunReport where
  before : ListenerReports
  turns : List TurnReport
  afterFailure : ListenerReports

/-- The run is let in, its steps fail, and nobody throws when that is announced. -/
structure RunReport.FailsQuietly (jobDef : JobDefinition) (report : RunReport) : Prop where
  before : Borne report.before
  turns : EndsFailed (jobDef.endUnder jobDef.startStepId report.turns)
  afterFailure : Borne report.afterFailure

namespace JobExecutor.Run

variable (R : Run)

/-- The answers of the `before:job` listeners of the run that begins in `w`. -/
def toldBefore (env : Environment α υ) (w : World υ) : ListenerReports × World υ :=
  told env (.lifecycle .before .job) (.ctx (jobContext R.execution)) R.jobResolvers
    ((R.begin_ : Code α Unit).run (handle env) w).2

/-- The answers of its `after:job` listeners when they are told in `w` how it ended. -/
def toldAfter (env : Environment α υ) (finalStatus : JobStatus) (w : World υ) :
    ListenerReports × World υ :=
  told env (.lifecycle .after .job) (.afterJob (jobContext R.execution) finalStatus)
    R.jobResolvers w

/-- What the run is told that begins in `w`. -/
structure Reports (env : Environment α υ) (fuel : Nat) (w : World υ) (report : RunReport) :
    Prop where
  before : report.before = (R.toldBefore env w).1
  turns : R.LoopReports env fuel fuel R.jobDef.startStepId (R.toldBefore env w).2 report.turns
  afterFailure : report.afterFailure = (R.toldAfter env .FAILED
    ((R.drive fuel : Code α JobStatus).run (handle env) (R.toldBefore env w).2).2).1

section Spec

variable {R} {env : Environment α υ} {fuel : Nat} {w : World υ}

/-- The driven run ends FAILED exactly on such reports. -/
theorem drive_failed_iff {status : JobStatus} (h : Recorded R.execution.id status w) :
    (R.drive fuel : Code α JobStatus).wp (rowLogic env) (fun out _ => out = .ok .FAILED ↔
      ∃ turns, R.LoopReports env fuel fuel R.jobDef.startStepId w turns ∧
        EndsFailed (R.jobDef.endUnder R.jobDef.startStepId turns)) w := by
  have hends {turns : List TurnReport}
      (hturns : R.LoopReports env fuel fuel R.jobDef.startStepId w turns) :
      (∃ turns, R.LoopReports env fuel fuel R.jobDef.startStepId w turns ∧
        EndsFailed (R.jobDef.endUnder R.jobDef.startStepId turns)) ↔
        EndsFailed (R.jobDef.endUnder R.jobDef.startStepId turns) := by
    constructor
    · intro hexists
      obtain ⟨turns', hturns', hfailed⟩ := hexists
      rwa [hturns.unique hturns']
    · exact fun hfailed => ⟨turns, hturns, hfailed⟩
  refine Prog.wp_tryCatch.mpr (Prog.wp_seq (Prog.wp_and (R.stepLoop_recorded h fuel fuel _)
    (R.stepLoop_reports h.onFile fuel fuel _)) ?_ ?_)
  · intro final w₁ h₁
    obtain ⟨hended, turns, hturns, hout⟩ := h₁
    refine Prog.wp_mono (R.completeJob_recorded status hended.onFile
      (hended.returned final rfl)) ?_
    intro out w₂ h₂
    obtain ⟨rfl, -⟩ := h₂
    rw [hends hturns, ← hout]
    exact ⟨fun h => Except.ok.inj h, fun h => congrArg _ h⟩
  · intro err w₁ h₁
    obtain ⟨hended, turns, hturns, hout⟩ := h₁
    refine Prog.wp_mono (R.onError_recorded err (hended.threw err rfl)) ?_
    intro out w₂ h₂
    rw [hends hturns, ← hout]
    change out = .ok .FAILED ↔ err.HasText
    rw [← h₂.2.1]
    constructor
    · exact fun hfailed => ⟨_, hfailed⟩
    · intro hreturned
      obtain ⟨final, rfl⟩ := hreturned
      exact congrArg _ (h₂.2.2 final rfl)

/-- A run is let in exactly if every entry bears with its `before:job` listener, and goes on where
these leave it. -/
theorem prologue_told (hfile : OnFile R.execution.id w) :
    (R.prologue : Code α Unit).wp (rowLogic env) (fun out w' =>
      (out = .ok () ↔ Borne (R.toldBefore env w).1) ∧
        (out = .ok () → w' = (R.toldBefore env w).2)) w := by
  refine Prog.wp_seq (Prog.wp_and (R.begin_recorded hfile) (wp_as_run env _ w)) ?_
    fun _ _ h => by cases h.1.1
  intro _ w₁ h₁
  obtain ⟨-, hbegun⟩ := h₁
  have htold := invokeMatching_told env (.lifecycle .before .job) (.ctx (jobContext R.execution))
    R.jobResolvers w₁
  unfold toldBefore
  rw [hbegun]
  exact htold

/-- The announcement of the end returns exactly if every entry bears with its listener. -/
theorem finish_told (finalStatus : JobStatus) :
    (R.finish finalStatus : Code α Unit).wp (rowLogic env)
      (fun out _ => out = .ok () ↔ Borne (R.toldAfter env finalStatus w).1) w := by
  refine Prog.wp_seq (invokeMatching_told env _ _ R.jobResolvers w) ?_ ?_
  · intro _ w₁ h₁
    refine Prog.wp_bind.mpr (Prog.wp_perform.mpr ⟨trivial, fun timestamp w₂ _ => ?_⟩)
    exact Prog.wp_perform.mpr ⟨trivial, fun _ _ _ => h₁.1⟩
  · intro err w₁ h₁
    exact iff_of_false (fun h => by cases h) fun h => by cases h₁.1.mpr h

/-- What the announcement of a failure returns and what the loop does are seen in the reports. -/
theorem settle_fails_iff (fuel : Nat) {status : JobStatus}
    (h : Recorded R.execution.id status w) :
    (R.settle fuel : Code α JobExecution).wp (rowLogic env) (fun out w' =>
      (∃ latest, out = .ok latest) ∧ Recorded R.execution.id .FAILED w' ↔
        (∃ turns, R.LoopReports env fuel fuel R.jobDef.startStepId w turns ∧
          EndsFailed (R.jobDef.endUnder R.jobDef.startStepId turns)) ∧
        Borne (R.toldAfter env .FAILED
          ((R.drive fuel : Code α JobStatus).run (handle env) w).2).1) w := by
  refine Prog.wp_seq (Prog.wp_and (Prog.wp_and (R.drive_recorded h fuel) (drive_failed_iff h))
    (wp_as_run env _ w)) ?_ ?_
  · intro final w₁ h₁
    obtain ⟨⟨hended, hfailed⟩, hrun⟩ := h₁
    obtain ⟨-, hrecorded⟩ := hended.returned final rfl
    rw [← hfailed, hrun]
    by_cases hfinal : final = .FAILED
    · subst hfinal
      refine Prog.wp_seq (Prog.wp_and (R.finish_recorded .FAILED hrecorded)
        (finish_told .FAILED)) ?_ ?_
      · intro _ w₂ h₂
        refine Prog.wp_bind.mpr (Prog.wp_perform.mpr ⟨trivial, fun latest w₃ ht => ?_⟩)
        cases ht
        exact iff_of_true ⟨⟨_, rfl⟩, h₂.1⟩ ⟨rfl, h₂.2.mp rfl⟩
      · intro err w₂ h₂
        refine iff_of_false ?_ fun h => by cases h₂.2.mpr h.2
        intro h
        obtain ⟨⟨latest, hlatest⟩, -⟩ := h
        cases hlatest
    · have hnot {w₂ : World υ} (h₂ : Recorded R.execution.id final w₂) :
          ¬ Recorded R.execution.id .FAILED w₂ := fun h => hfinal (h₂.unique h)
      have hother : ¬ (Except.ok final : Except Thrown JobStatus) = .ok .FAILED :=
        fun h => hfinal (Except.ok.inj h)
      refine Prog.wp_seq (R.finish_recorded final hrecorded) ?_ ?_
      · intro _ w₂ h₂
        refine Prog.wp_bind.mpr (Prog.wp_perform.mpr ⟨trivial, fun latest w₃ ht => ?_⟩)
        cases ht
        exact iff_of_false (fun h => hnot h₂ h.2) fun h => hother h.1
      · intro err w₂ h₂
        exact iff_of_false (fun h => hnot h₂ h.2) fun h => hother h.1
  · intro err w₁ h₁
    obtain ⟨⟨-, hfailed⟩, -⟩ := h₁
    rw [← hfailed]
    refine iff_of_false ?_ fun h => by cases h.1
    intro h
    obtain ⟨⟨latest, hlatest⟩, -⟩ := h
    cases hlatest

/-- **A run returns on a FAILED row** exactly when it is told what makes it fail quietly. -/
theorem proceed_fails_iff (hfile : OnFile R.execution.id w) :
    (R.proceed fuel : Code α JobExecution).wp (rowLogic env) (fun out w' =>
      (∃ latest, out = .ok latest) ∧ Recorded R.execution.id .FAILED w' ↔
        ∃ report, R.Reports env fuel w report ∧ report.FailsQuietly R.jobDef) w := by
  rw [R.proceed_eq]
  refine Prog.wp_seq (Prog.wp_and (prologue_told hfile) (R.prologue_recorded hfile)) ?_ ?_
  · intro _ w₂ h₂
    obtain ⟨⟨hborne, hworld⟩, hstarted₂⟩ := h₂
    have hw₂ := hworld rfl
    refine Prog.wp_mono (settle_fails_iff fuel hstarted₂) ?_
    intro out w' hquiet
    rw [hquiet, hw₂]
    constructor
    · intro h
      obtain ⟨⟨turns, hturns, hfailed⟩, hdismissed⟩ := h
      exact ⟨⟨_, turns, _⟩, ⟨rfl, hturns, rfl⟩, hborne.mp rfl, hfailed, hdismissed⟩
    · intro h
      obtain ⟨report, hreports, hfails⟩ := h
      refine ⟨⟨report.turns, hreports.turns, hfails.turns⟩, ?_⟩
      rw [← hreports.afterFailure]
      exact hfails.afterFailure
  · intro err w₂ h₂
    refine iff_of_false ?_ ?_
    · intro h
      obtain ⟨⟨latest, hlatest⟩, -⟩ := h
      cases hlatest
    · intro h
      obtain ⟨report, hreports, hfails⟩ := h
      have hborne := hfails.before
      rw [hreports.before] at hborne
      cases h₂.1.1.mpr hborne

end Spec

end JobExecutor.Run

end NestBatch
