import NestBatch.Execution.EventTrace
import NestBatch.Execution.LaunchSettles
import NestBatch.Lib.Brackets

/-!
# Whether the events of a run are bracketed

Every step start should have one end, and the start of the job too.  A run ends
its steps and itself exactly when no step executor throws, no `before:job` or
`after:job` listener throws, no decider throws a value without a string form, and
every step ends COMPLETED or FAILED.
-/

namespace NestBatch

open Brackets

variable {α β υ : Type}

/-! ### What well bracketed means -/

/-- Steps are opened by their start and closed by either end, under their id. -/
def stepShape : Shape BatchEvent (Option String) where
  opens event := if event.type = .STEP_STARTED then some event.stepExecutionId else none
  closes event :=
    if event.type = .STEP_COMPLETED ∨ event.type = .STEP_FAILED then some event.stepExecutionId
    else none

/-- The kind of the end of a step agrees with the status. -/
def TellsStep (type : BatchEventType) (status : StepStatus) : Prop :=
  (type = .STEP_COMPLETED ∧ status = .COMPLETED) ∨ (type = .STEP_FAILED ∧ status = .FAILED)

/-- The end of a step agrees with the row on file. -/
def AgreesWithRow (repo : InMemoryJobRepository) (id : Option String) (ended : BatchEvent) : Prop :=
  ∃ stepExecutionId status, id = some stepExecutionId ∧ StepIn stepExecutionId status repo ∧
    TellsStep ended.type status

/-- The kind of the end of a job agrees with the status. -/
def TellsJob (type : BatchEventType) (status : JobStatus) : Prop :=
  (type = .JOB_COMPLETED ∧ status = .COMPLETED) ∨ (type = .JOB_FAILED ∧ status = .FAILED)

/-- The events that end a job. -/
def BatchEvent.endsJob (event : BatchEvent) : Bool :=
  event.type = .JOB_COMPLETED || event.type = .JOB_FAILED

/-- The events of a run of the execution `e` that left `w`. -/
structure WellBracketed (e : String) (events : List BatchEvent) (w : World υ) : Prop where
  steps : ClosedOnce stepShape (AgreesWithRow w.repo) events
  job : ∃ started between ended status, events = started :: (between ++ [ended]) ∧
    started.type = .JOB_STARTED ∧ (∀ event ∈ between, event.endsJob = false) ∧
    Recorded e status w ∧ TellsJob ended.type status

/-! ### The story of a run -/

/-- The start and the end of a step. -/
structure StepStory where
  id : String
  started : BatchEvent
  ended : BatchEvent
  status : StepStatus

namespace StepStory

/-- The pair of a step's events, under the step's id. -/
def pair (story : StepStory) : Pair BatchEvent (Option String) :=
  { key := some story.id, opened := story.started, closed := story.ended }

/-- The story is told by its events, and by the row on file. -/
structure IsTold (story : StepStory) (repo : InMemoryJobRepository) : Prop where
  started : story.started.StartsStep story.id
  ended : story.ended.EndsStep story.id story.status
  row : StepIn story.id story.status repo

end StepStory

/-- The events between the start of the job and its end. -/
def storyEvents (stories : List StepStory) (unfinished : Option BatchEvent) : List BatchEvent :=
  (stories.map StepStory.pair).flatMap Pair.events ++ unfinished.toList

/-- The events of a run so far: the start of the job, finished steps, and
perhaps a step whose executor has thrown. -/
structure Told (first : BatchEvent) (stories : List StepStory) (unfinished : Option BatchEvent)
    (s : World υ × Calls α) : Prop where
  filed : s.1.repo.StepsFiled
  events : emitted s.2 = first :: storyEvents stories unfinished
  ids : (stories.map StepStory.id).Nodup
  told : ∀ story ∈ stories, story.IsTold s.1.repo
  open_ : ∀ event ∈ unfinished, ∃ id, event.StartsStep id

/-- What is not seen leaves the story as told. -/
theorem Told.unseen {first : BatchEvent} {stories : List StepStory} {unfinished : Option BatchEvent}
    {s s' : World υ × Calls α} (h : Told first stories unfinished s) (hunseen : StepsUnseen s s') :
    Told first stories unfinished s' where
  filed := hunseen.stepsFiled h.filed
  events := hunseen.events.trans h.events
  ids := h.ids
  told story hstory := by
    obtain ⟨row, hrow, hstatus⟩ := (h.told story hstory).row
    exact { h.told story hstory with row := ⟨row, hunseen.stepExecutions.symm ▸ hrow, hstatus⟩ }
  open_ := h.open_

/-- Rows are left alone by a step that was not on file before. -/
theorem StepStory.IsTold.kept {story : StepStory} {repo repo' : InMemoryJobRepository} {id : String}
    (h : story.IsTold repo) (hfresh : repo.stepExecutions.get? id = none)
    (hkept : StepRowsKept id repo repo') : story.id ≠ id ∧ story.IsTold repo' := by
  obtain ⟨row, hrow, hstatus⟩ := h.row
  have hne : story.id ≠ id := by
    intro heq
    rw [heq, hfresh] at hrow
    cases hrow
  exact ⟨hne, { h with row := ⟨row, hkept.kept story.id row hne hrow, hstatus⟩ }⟩

/-- A step that has run is one more story. -/
theorem Told.step {first : BatchEvent} {stories : List StepStory} {s s' : World υ × Calls α}
    {id : String} {result : StepResult} (h : Told first stories none s)
    (hfresh : s.1.repo.stepExecutions.get? id = none) (htold : StepTold id s (.ok result) s') :
    ∃ story, story.status = result.status ∧ Told first (stories ++ [story]) none s' := by
  obtain ⟨hkept, started, hstarted, ended, hended, hrow, hevents⟩ := htold
  have hold : ∀ story ∈ stories, story.id ≠ id ∧ story.IsTold s'.1.repo :=
    fun story hstory => (h.told story hstory).kept hfresh hkept
  refine ⟨⟨id, started, ended, result.status⟩, rfl, hkept.filed, ?_, ?_, ?_, ?_⟩
  · rw [hevents, h.events]
    simp [storyEvents, StepStory.pair, Pair.events]
  · rw [List.map_append, List.nodup_append]
    refine ⟨h.ids, by simp, ?_⟩
    intro a ha b hb heq
    obtain ⟨story, hstory, hid⟩ := List.mem_map.mp ha
    have hb' : b = id := by simpa using hb
    exact (hold story hstory).1 (hid.trans (heq.trans hb'))
  · intro story hstory
    rcases List.mem_append.mp hstory with hmem | hmem
    · exact (hold story hmem).2
    · have hlast := List.mem_singleton.mp hmem
      subst hlast
      exact ⟨hstarted, hended, hrow⟩
  · intro event hevent
    cases hevent

/-- A step whose executor has thrown is left open. -/
theorem Told.leaveOpen {first : BatchEvent} {stories : List StepStory} {s s' : World υ × Calls α}
    {id : String} {err : Thrown} (h : Told first stories none s)
    (hfresh : s.1.repo.stepExecutions.get? id = none) (htold : StepTold id s (.error err) s') :
    ∃ event, Told first stories (some event) s' := by
  obtain ⟨hkept, started, hstarted, hevents⟩ := htold
  refine ⟨started, hkept.filed, ?_, h.ids, ?_, ?_⟩
  · rw [hevents, h.events]
    simp [storyEvents]
  · intro story hstory
    exact ((h.told story hstory).kept hfresh hkept).2
  · intro event hevent
    cases hevent
    exact ⟨id, hstarted⟩

/-- A step has ended COMPLETED or FAILED. -/
def StepEnds (status : StepStatus) : Prop := status = .COMPLETED ∨ status = .FAILED

/-- The executor of the step returns, and the step has ended COMPLETED or FAILED. -/
def TurnReport.EndsStep : TurnReport → Prop
  | .threw _ => False
  | .returned result _ => StepEnds result.status

/-- The end of a step agrees with its row when it has ended one way or the other. -/
theorem StepStory.IsTold.agrees_iff {story : StepStory} {repo : InMemoryJobRepository}
    (h : story.IsTold repo) :
    AgreesWithRow repo story.pair.key story.pair.closed ↔ StepEnds story.status := by
  have htype : story.pair.closed.type = JobExecutor.Run.stepEventType story.status := h.ended.1
  constructor
  · intro hagrees
    obtain ⟨id, status, hid, hrow, htells⟩ := hagrees
    obtain rfl : story.id = id := Option.some.inj hid
    obtain ⟨row, hget, hstatus⟩ := h.row
    obtain ⟨row', hget', hstatus'⟩ := hrow
    rw [hget] at hget'
    cases hget'
    rw [← hstatus', hstatus] at htells
    rcases htells with ⟨-, hcompleted⟩ | ⟨-, hfailed⟩
    · exact Or.inl hcompleted
    · exact Or.inr hfailed
  · intro hends
    refine ⟨story.id, story.status, rfl, h.row, ?_⟩
    rw [TellsStep, htype]
    rcases hends with hends | hends
    · rw [hends]
      exact Or.inl ⟨rfl, rfl⟩
    · rw [hends]
      exact Or.inr ⟨rfl, rfl⟩

/-- A story that is told is a pair of the shape. -/
theorem StepStory.IsTold.fits {story : StepStory} {repo : InMemoryJobRepository}
    (h : story.IsTold repo) : story.pair.Fits stepShape := by
  have hstarted : story.pair.opened.type = .STEP_STARTED := h.started.1
  have hended : story.pair.closed.type = .STEP_COMPLETED ∨
      story.pair.closed.type = .STEP_FAILED := by
    have htype : story.pair.closed.type = JobExecutor.Run.stepEventType story.status := h.ended.1
    rw [htype]
    unfold JobExecutor.Run.stepEventType
    split
    · exact Or.inr rfl
    · exact Or.inl rfl
  have hopenId : story.pair.opened.stepExecutionId = story.pair.key := h.started.2
  have hendId : story.pair.closed.stepExecutionId = story.pair.key := h.ended.2
  refine ⟨?_, ?_, ?_, ?_⟩
  · simp [stepShape, hstarted, hopenId]
  · simp [stepShape, hstarted]
  · simp [stepShape, hended, hendId]
  · rcases hended with hended | hended
    · simp [stepShape, hended]
    · simp [stepShape, hended]

/-- An event about the job as a whole. -/
def BatchEvent.OfJob (event : BatchEvent) : Prop :=
  event.type = .JOB_STARTED ∨ event.type = .JOB_COMPLETED ∨ event.type = .JOB_FAILED

/-- Events of the job neither open nor close a step. -/
theorem BatchEvent.OfJob.plain {event : BatchEvent} (h : event.OfJob) :
    stepShape.opens event = none ∧ stepShape.closes event = none := by
  rcases h with h | h | h
  · simp [stepShape, h]
  · simp [stepShape, h]
  · simp [stepShape, h]

/-- The steps of a story are closed once when they are finished and have ended. -/
theorem Told.closedOnce_iff {first : BatchEvent} {stories : List StepStory}
    {unfinished : Option BatchEvent} {s : World υ × Calls α} (h : Told first stories unfinished s)
    (hfirst : first.OfJob) {tail : List BatchEvent} (htail : ∀ event ∈ tail, event.OfJob) :
    ClosedOnce stepShape (AgreesWithRow s.1.repo) (emitted s.2 ++ tail) ↔
      unfinished = none ∧ ∀ story ∈ stories, StepEnds story.status := by
  have hplain : ∀ k, stepShape.closing k tail = [] := by
    intro k
    unfold Shape.closing
    rw [List.filter_eq_nil_iff]
    intro event hevent
    simp [(htail event hevent).plain.2]
  have hopens : ∀ event ∈ unfinished, stepShape.opens event = some event.stepExecutionId ∧
      stepShape.closes event = none := by
    intro event hevent
    obtain ⟨id, htype, -⟩ := h.open_ event hevent
    simp [stepShape, htype]
  have hrest : ∀ k, stepShape.closing k (unfinished.toList ++ tail) = [] := by
    intro k
    cases unfinished with
    | none => exact hplain k
    | some event =>
        have hclosing := hplain k
        unfold Shape.closing at hclosing ⊢
        simp [(hopens event rfl).2, hclosing]
  have hkeys : ((stories.map StepStory.pair).map Pair.key).Nodup := by
    rw [List.map_map]
    have hmap : Pair.key ∘ StepStory.pair = some ∘ StepStory.id := rfl
    rw [hmap, ← List.map_map]
    exact h.ids.map fun _ _ heq => Option.some.inj heq
  rw [h.events, List.cons_append, closedOnce_cons_of_none hfirst.plain.1, storyEvents,
    List.append_assoc, closedOnce_pairs_iff ?_ hkeys fun p _ => hrest p.key]
  · have hstories : (∀ p ∈ stories.map StepStory.pair, AgreesWithRow s.1.repo p.key p.closed) ↔
        ∀ story ∈ stories, StepEnds story.status := by
      rw [List.forall_mem_map]
      exact forall₂_congr fun story hstory => (h.told story hstory).agrees_iff
    rw [hstories]
    cases unfinished with
    | none =>
        have hclosed : ClosedOnce stepShape (AgreesWithRow s.1.repo) ([] ++ tail) :=
          closedOnce_of_none fun event hevent => (htail event hevent).plain.1
        constructor
        · intro hboth
          exact ⟨rfl, hboth.1⟩
        · intro hboth
          exact ⟨hboth.2, hclosed⟩
    | some event =>
        have hnot : ¬ ClosedOnce stepShape (AgreesWithRow s.1.repo) ([event] ++ tail) :=
          not_closedOnce_cons (hopens event rfl).1 (hplain _)
        constructor
        · intro hboth
          exact absurd hboth.2 hnot
        · intro hboth
          cases hboth.1
  · intro p hp
    obtain ⟨story, hstory, heq⟩ := List.mem_map.mp hp
    subst heq
    exact (h.told story hstory).fits

/-- Until its end is told, nothing in a story ends the job. -/
theorem Told.not_endsJob {first : BatchEvent} {stories : List StepStory}
    {unfinished : Option BatchEvent} {s : World υ × Calls α} (h : Told first stories unfinished s) :
    ∀ event ∈ storyEvents stories unfinished, event.endsJob = false := by
  intro event hevent
  rcases List.mem_append.mp hevent with hmem | hmem
  · obtain ⟨p, hp, hin⟩ := List.mem_flatMap.mp hmem
    obtain ⟨story, hstory, heq⟩ := List.mem_map.mp hp
    subst heq
    have htold := h.told story hstory
    rcases List.mem_cons.mp hin with heq | hin
    · have htype : event.type = .STEP_STARTED := heq ▸ htold.started.1
      simp [BatchEvent.endsJob, htype]
    · have heq := List.mem_singleton.mp hin
      have htype : event.type = JobExecutor.Run.stepEventType story.status := heq ▸ htold.ended.1
      unfold JobExecutor.Run.stepEventType at htype
      split at htype <;> simp [BatchEvent.endsJob, htype]
  · have hopen : event ∈ unfinished := by simpa using hmem
    obtain ⟨id, htype, -⟩ := h.open_ event hopen
    simp [BatchEvent.endsJob, htype]

/-- An event that tells how a job ended, ends it. -/
theorem TellsJob.endsJob {event : BatchEvent} {status : JobStatus}
    (h : TellsJob event.type status) :
    event.endsJob = true := by
  rcases h with ⟨htype, -⟩ | ⟨htype, -⟩
  · simp [BatchEvent.endsJob, htype]
  · simp [BatchEvent.endsJob, htype]

section Ends

variable {e : String} {first : BatchEvent} {stories : List StepStory}
  {unfinished : Option BatchEvent} {s : World υ × Calls α} {w : World υ}

/-- Without an end of the job a story is not well bracketed. -/
theorem Told.not_wellBracketed (h : Told first stories unfinished s) :
    ¬ WellBracketed e (emitted s.2) w := by
  intro hwell
  obtain ⟨started, between, ended, status, hevents, -, -, -, htells⟩ := hwell.job
  rw [h.events] at hevents
  have hmem : ended ∈ storyEvents stories unfinished := by
    rw [(List.cons.inj hevents).2]
    simp
  have hends := h.not_endsJob ended hmem
  rw [htells.endsJob] at hends
  cases hends

/-- With its end it is when all steps are finished and have ended. -/
theorem Told.wellBracketed_iff (h : Told first stories unfinished s)
    (hfirst : first.type = .JOB_STARTED) {ended : BatchEvent} {status : JobStatus}
    (hsame : s.1.repo.SameRows w.repo) (hrecorded : Recorded e status w)
    (htells : TellsJob ended.type status) :
    WellBracketed e (emitted s.2 ++ [ended]) w ↔
      unfinished = none ∧ ∀ story ∈ stories, StepEnds story.status := by
  have hrow : AgreesWithRow w.repo = AgreesWithRow s.1.repo := by
    funext id ended
    unfold AgreesWithRow StepIn
    rw [hsame.stepExecutions]
  have htail : ∀ event ∈ [ended], event.OfJob := by
    intro event hevent
    rw [List.mem_singleton.mp hevent]
    rcases htells with ⟨htype, -⟩ | ⟨htype, -⟩
    · exact Or.inr (Or.inl htype)
    · exact Or.inr (Or.inr htype)
  rw [← h.closedOnce_iff (Or.inl hfirst) htail, ← hrow]
  constructor
  · intro hwell
    exact hwell.steps
  · intro hsteps
    refine ⟨hsteps, first, storyEvents stories unfinished, ended, status, ?_, hfirst,
      h.not_endsJob, hrecorded, htells⟩
    rw [h.events]
    rfl

end Ends

namespace JobExecutor.Run

variable {env : Environment α υ} (R : Run)

/-- A turn of the step loop: a step and the decision on its result. -/
def visit (loopFuel : Nat) (stepId : String) (step : StepDefinition) :
    Code α (Next × StepResult) := do
  let ran ← R.runStep loopFuel step
  let decider ← R.resolveDeciderExitStatus stepId
    { jobExecution := R.execution, stepId := step.id, stepExecutionId := ran.1.id
      stepStatus := ran.2.status, exitCode := ran.2.exitCode, exitMessage := ran.2.exitMessage }
  let next ← .ofExcept (nextStep R.jobDef stepId decider ran.2)
  .pure (next, ran.2)

/-- What the step loop does after a turn. -/
def proceedTo (loopFuel fuel : Nat) (turn : Next × StepResult) : Code α JobStatus :=
  match turn.1 with
  | .goto next => R.stepLoop loopFuel fuel next
  | .finish => .pure .COMPLETED
  | .fail => R.failJob turn.2.exitCode turn.2.exitMessage

/-- The loop visits a step and goes on. -/
theorem stepLoop_some {loopFuel fuel : Nat} {stepId : String} {step : StepDefinition}
    (h : R.jobDef.step? stepId = some step) :
    (R.stepLoop loopFuel (fuel + 1) stepId : Code α JobStatus) =
      R.visit loopFuel stepId step >>= R.proceedTo loopFuel fuel := by
  unfold stepLoop visit
  rw [h]
  simp only [Prog.bind_assoc]
  congr 1

/-- A turn has told the story of the step of its report, or has left it open. -/
def ToldTurn (first : BatchEvent) (stories : List StepStory) (report : TurnReport)
    (s' : World υ × Calls α) : Prop :=
  (∃ story, (report.EndsStep ↔ StepEnds story.status) ∧
    Told first (stories ++ [story]) none s') ∨
  (∃ err event, report = .threw err ∧ Told first stories (some event) s')

/-- The loop tells more stories, all of them finished exactly when its steps end. -/
def TellsOn (first : BatchEvent) (stories : List StepStory) (ends : Prop)
    (s' : World υ × Calls α) : Prop :=
  ∃ more unfinished, Told first (stories ++ more) unfinished s' ∧
    (ends ↔ unfinished = none ∧ ∀ story ∈ more, StepEnds story.status)

variable {first : BatchEvent} {stories : List StepStory} {s : World υ × Calls α}

/-- What a run is, with its calls written down. -/
theorem wp_run_of {p : Code α β} : p.wp (worldLogic env)
    (fun out s' => p.run (handle env) s.1 = (.ended out, s'.1)) s := by
  refine Prog.wp_mono (Prog.wp_self (fun _ _ => trivial) p s) ?_
  intro out s' hrun
  rw [Prog.run_traced (handle env) p s, hrun]

/-- Writing a status of the job keeps the story. -/
theorem told_mark {p : Code α β} (hp : p.Uses (Looping [.clock, .updateJob]))
    {unfinished : Option BatchEvent} (h : Told first stories unfinished s) :
    p.wp (worldLogic env) (fun _ s' => Told first stories unfinished s') s := by
  have hframe : (worldLogic env).Frame (Looping [.clock, .updateJob]) (StepsUnseen s) :=
    stepsUnseen_frame env (by decide) s
  refine Prog.wp_mono (Prog.wp_of_uses hp hframe (.refl s)) ?_
  intro out s' hunseen
  exact h.unseen hunseen

/-- Failing the job keeps what a turn has told. -/
theorem told_fail {report : TurnReport} (h : ToldTurn first stories report s)
    {exitCode exitMessage : String} :
    (R.failJob exitCode exitMessage : Code α JobStatus).wp (worldLogic env)
      (fun _ s' => ToldTurn first stories report s') s := by
  rcases h with ⟨story, hstory, htold⟩ | ⟨err, event, hthrew, htold⟩
  · refine Prog.wp_mono (told_mark (R.uses_failJob (by decide) (by decide) _ _) htold) ?_
    exact fun _ s' htold' => Or.inl ⟨story, hstory, htold'⟩
  · refine Prog.wp_mono (told_mark (R.uses_failJob (by decide) (by decide) _ _) htold) ?_
    exact fun _ s' htold' => Or.inr ⟨err, event, hthrew, htold'⟩

/-- A loop that ends with the step of a turn. -/
theorem ToldTurn.last {report : TurnReport} {s' : World υ × Calls α}
    (h : ToldTurn first stories report s') :
    TellsOn first stories (∀ report' ∈ [report], report'.EndsStep) s' := by
  rw [TellsOn, List.forall_mem_singleton]
  rcases h with ⟨story, hends, htold⟩ | ⟨err, event, rfl, htold⟩
  · exact ⟨[story], none, htold, by simp [hends]⟩
  · exact ⟨[], some event, by simpa using htold, by simp [TurnReport.EndsStep]⟩

/-- A loop that goes on after a turn. -/
theorem TellsOn.cons {report : TurnReport} {story : StepStory} {ends : Prop}
    {s' : World υ × Calls α} (hstory : report.EndsStep ↔ StepEnds story.status)
    (h : TellsOn first (stories ++ [story]) ends s') :
    TellsOn first stories (report.EndsStep ∧ ends) s' := by
  obtain ⟨more, unfinished, htold, hends⟩ := h
  refine ⟨story :: more, unfinished, by simpa using htold, ?_⟩
  rw [hends, hstory, List.forall_mem_cons]
  tauto

/-- A turn tells the story of its step, or leaves it open when the executor throws. -/
theorem told_visit (h : Told first stories none s) (loopFuel : Nat) (stepId : String)
    (step : StepDefinition) :
    (R.visit loopFuel stepId step : Code α (Next × StepResult)).wp (worldLogic env)
      (fun out s' => ∃ report w', R.StepReports env loopFuel stepId step s.1 report w' ∧
        out.map Prod.fst = R.jobDef.turn stepId report ∧
        (∀ turn, out = .ok turn → w' = s'.1) ∧ ToldTurn first stories report s') s := by
  refine Prog.wp_seq (Prog.wp_and (R.told_runStep loopFuel step h.filed)
    (Prog.wp_traced (fun _ _ => trivial) (R.runStep_reports loopFuel stepId step))) ?_ ?_
  · intro ran s₁ h₁
    obtain ⟨⟨id, hfresh, htold⟩, hreports⟩ := h₁
    obtain ⟨story, hstatus, htold₁⟩ := h.step hfresh htold
    have hends (answer : Except Thrown (Option String)) :
        (TurnReport.returned ran.2 answer).EndsStep ↔ StepEnds story.status := by
      rw [hstatus]
      exact Iff.rfl
    have hquiet : (worldLogic env).Frame (Looping [.decide]) (Unseen s₁) :=
      unseen_frame env (by decide) s₁
    refine Prog.wp_seq (Prog.wp_and (Prog.wp_of_uses
      (R.uses_resolveDecider (by decide) stepId _) hquiet (.refl s₁)) wp_run_of) ?_ ?_
    · intro decider s₂ h₂
      obtain ⟨hunseen, hanswer⟩ := h₂
      have hdone := htold₁.unseen hunseen.stepsUnseen
      have hreport := hreports (.ok decider) s₂.1 hanswer
      refine Prog.wp_bind.mpr ((Prog.wp_ofExcept _).mpr ?_)
      cases hnext : nextStep R.jobDef stepId decider ran.2 with
      | ok next =>
          exact ⟨_, _, hreport, hnext.symm, fun _ _ => rfl, Or.inl ⟨story, hends _, hdone⟩⟩
      | error err =>
          exact ⟨_, _, hreport, hnext.symm, fun _ _ => rfl, Or.inl ⟨story, hends _, hdone⟩⟩
    · intro err s₂ h₂
      obtain ⟨hunseen, hanswer⟩ := h₂
      exact ⟨_, _, hreports (.error err) s₂.1 hanswer, rfl, fun _ _ => rfl,
        Or.inl ⟨story, hends _, htold₁.unseen hunseen.stepsUnseen⟩⟩
  · intro err s₁ h₁
    obtain ⟨⟨id, hfresh, htold⟩, stepErr, w', rfl, hreport⟩ := h₁
    obtain ⟨event, hopen⟩ := h.leaveOpen hfresh htold
    exact ⟨_, _, hreport, rfl, (fun _ heq => by cases heq), Or.inr ⟨stepErr, event, rfl, hopen⟩⟩

/-- The loop tells the stories of the steps that it gets reports of. -/
theorem told_stepLoop (h : Told first stories none s) (loopFuel fuel : Nat) (stepId : String) :
    (R.stepLoop loopFuel fuel stepId : Code α JobStatus).wp (worldLogic env) (fun _ s' =>
      ∃ reports, R.LoopReports env loopFuel fuel stepId s.1 reports ∧
        TellsOn first stories (∀ report ∈ reports, report.EndsStep) s') s := by
  induction fuel generalizing stories stepId s with
  | zero => trivial
  | succ fuel ih =>
      cases hstep : R.jobDef.step? stepId with
      | none =>
          unfold stepLoop
          rw [hstep]
          refine Prog.wp_mono (told_mark (R.uses_failJob (by decide) (by decide) _ _) h) ?_
          intro out s' h'
          exact ⟨[], .missing hstep, [], none, by simpa using h', by simp⟩
      | some step =>
          rw [R.stepLoop_some hstep]
          refine Prog.wp_seq (R.told_visit h loopFuel stepId step) ?_ ?_
          · intro turn s₁ h₁
            obtain ⟨report, w', hreport, hturn, hworld, htold⟩ := h₁
            obtain rfl := hworld turn rfl
            obtain ⟨next, result⟩ := turn
            have hturn : R.jobDef.turn stepId report = .ok next := hturn.symm
            cases next with
            | goto next =>
                rcases htold with ⟨story, hstory, htold⟩ | ⟨err, event, rfl, htold⟩
                · refine Prog.wp_mono (ih htold next) ?_
                  intro out s' h'
                  obtain ⟨rest, hrest, htells⟩ := h'
                  refine ⟨_, .on hstep hreport hturn hrest, ?_⟩
                  rw [List.forall_mem_cons]
                  exact htells.cons hstory
                · cases hturn
            | finish =>
                refine ⟨_, .last hstep hreport fun next h => ?_, htold.last⟩
                cases hturn.symm.trans h
            | fail =>
                refine Prog.wp_mono (R.told_fail htold) ?_
                intro out s' htold'
                refine ⟨_, .last hstep hreport fun next h => ?_, htold'.last⟩
                cases hturn.symm.trans h
          · intro err s₁ h₁
            obtain ⟨report, w', hreport, hturn, -, htold⟩ := h₁
            refine ⟨_, .last hstep hreport fun next h => ?_, htold.last⟩
            cases hturn.trans h


/-- The whole loop and the final write. -/
theorem told_drive (h : Told first [] none s) (fuel : Nat) :
    (R.drive fuel : Code α JobStatus).wp (worldLogic env) (fun _ s' =>
      ∃ reports, R.LoopReports env fuel fuel R.jobDef.startStepId s.1 reports ∧
        TellsOn first [] (∀ report ∈ reports, report.EndsStep) s') s := by
  have hkeep : ∀ {p : Code α JobStatus} {s₁ : World υ × Calls α},
      p.Uses (Looping [.clock, .updateJob]) →
      (∃ reports, R.LoopReports env fuel fuel R.jobDef.startStepId s.1 reports ∧
        TellsOn first [] (∀ report ∈ reports, report.EndsStep) s₁) →
      p.wp (worldLogic env) (fun _ s' =>
        ∃ reports, R.LoopReports env fuel fuel R.jobDef.startStepId s.1 reports ∧
          TellsOn first [] (∀ report ∈ reports, report.EndsStep) s') s₁ := by
    intro p s₁ hp htells
    obtain ⟨reports, hreports, more, unfinished, htold, hiff⟩ := htells
    refine Prog.wp_mono (told_mark hp htold) ?_
    intro out s' htold'
    exact ⟨reports, hreports, more, unfinished, htold', hiff⟩
  refine Prog.wp_tryCatch.mpr (Prog.wp_seq (R.told_stepLoop h fuel fuel _) ?_ ?_)
  · intro status s₁ h₁
    refine Prog.wp_mono (hkeep (R.uses_completeJob (by decide) (by decide) status) h₁) ?_
    intro out s₂ h₂
    cases out with
    | ok status => exact h₂
    | error err => exact hkeep (R.uses_onError (by decide) (by decide) err) h₂
  · intro err s₁ h₁
    exact hkeep (R.uses_onError (by decide) (by decide) err) h₁

/-- The start of the job is the first event, if nothing was emitted before. -/
theorem told_prologue (hfiled : s.1.repo.StepsFiled) (hnone : emitted s.2 = []) :
    (R.prologue : Code α Unit).wp (worldLogic env) (fun out s' =>
      (∃ first : BatchEvent, first.type = .JOB_STARTED ∧ Told first [] none s') ∨
        ∃ err, out = .error err ∧ emitted s'.2 = []) s := by
  have hlisten : ∀ k ∈ [OpKind.listener], k ∉ seenKinds := by decide
  have hframe : (worldLogic env).Frame (Looping [.clock, .updateJob]) (StepsUnseen s) :=
    stepsUnseen_frame env (by decide) s
  have hmark : (now >>= fun startTime => updateJobExecution R.execution.id
      { status := some .STARTED, startTime := some (some startTime) } : Code α Unit).Uses
      (Looping [.clock, .updateJob]) :=
    (uses_now (by decide)).bind fun _ => uses_updateJobExecution (by decide) _ _
  unfold prologue begin_
  rw [← Prog.bind_assoc, Prog.bind_assoc]
  refine Prog.wp_seq (Prog.wp_of_uses hmark hframe (.refl s)) ?_ ?_
  · intro _ s₁ h₁
    rw [Prog.bind_assoc]
    refine wp_tell ?_
    intro timestamp s₂ hrows₂ hevents₂
    have hfiled₂ := hrows₂.stepsFiled (h₁.stepsFiled hfiled)
    rw [h₁.events, hnone, List.nil_append] at hevents₂
    have htold : Told _ [] none s₂ := ⟨hfiled₂, hevents₂, List.nodup_nil, by simp, by simp⟩
    have hquiet : (worldLogic env).Frame (Looping [.listener]) (Unseen s₂) :=
      unseen_frame env hlisten s₂
    refine Prog.wp_mono (Prog.wp_of_uses
      (ListenerInvoker.uses_invokeMatching (by decide) _ _ _) hquiet (.refl s₂)) ?_
    intro out s₃ h₃
    exact Or.inl ⟨_, rfl, htold.unseen h₃.stepsUnseen⟩
  · intro err s₁ h₁
    exact Or.inr ⟨err, rfl, h₁.events.trans hnone⟩

/-- The end of the job is told last, unless an `after:job` listener throws. -/
theorem told_finish (finalStatus : JobStatus) :
    (R.finish finalStatus : Code α Unit).wp (worldLogic env) (fun out s' =>
      s.1.repo.SameRows s'.1.repo ∧
        ((out = .ok () ∧ ∃ ended : BatchEvent, emitted s'.2 = emitted s.2 ++ [ended] ∧
            ended.type = if finalStatus = .COMPLETED then .JOB_COMPLETED else .JOB_FAILED) ∨
          ((∃ err, out = .error err) ∧ emitted s'.2 = emitted s.2))) s := by
  have hlisten : ∀ k ∈ [OpKind.listener], k ∉ seenKinds := by decide
  unfold finish
  refine wp_unseen (ListenerInvoker.uses_invokeMatching (by decide) _ _ _) hlisten ?_ ?_
  · intro _ s₁ h₁
    refine wp_tell_last ?_
    intro timestamp s₂ hrows₂ hevents₂
    rw [h₁.events] at hevents₂
    refine ⟨h₁.rows.trans hrows₂, Or.inl ⟨rfl, _, hevents₂, ?_⟩⟩
    rfl
  · intro err s₁ h₁
    exact ⟨h₁.rows, Or.inr ⟨⟨err, rfl⟩, h₁.events⟩⟩

/-- Every entry bears with its listeners before and after the job, every step executor the run
comes to returns, COMPLETED or FAILED, and no decider throws a value without a string form. -/
structure RunsThrough (env : Environment α υ) (fuel : Nat) (w : World υ) : Prop where
  letIn : ListenerInvoker.Borne (R.toldBefore env w).1
  steps : ∀ reports, R.LoopReports env fuel fuel R.jobDef.startStepId
      (R.toldBefore env w).2 reports → ∀ report ∈ reports, report.EndsStep
  speaks : R.Speaks env fuel (R.toldBefore env w).2
  letOut : ∀ status w', (R.drive fuel : Code α JobStatus).run (handle env) (R.toldBefore env w).2 =
      (.returned status, w') →
    ListenerInvoker.Borne (R.toldAfter env status w').1

/-- The event of the final status tells the final status. -/
theorem tellsJob_of_final {status : JobStatus} (h : IsFinal status) {event : BatchEvent}
    (htype : event.type = if status = .COMPLETED then .JOB_COMPLETED else .JOB_FAILED) :
    TellsJob event.type status := by
  rw [htype]
  rcases h with h | h
  · rw [h]
    exact Or.inl ⟨rfl, rfl⟩
  · rw [h]
    exact Or.inr ⟨rfl, rfl⟩

variable {w : World υ}

/-- A run that was let in. -/
theorem bracketed_settle (fuel : Nat) (htold : Told first [] none s)
    (hfirst : first.type = .JOB_STARTED) (hrecorded : Recorded R.execution.id .STARTED s.1)
    (hletIn : ListenerInvoker.Borne (R.toldBefore env w).1)
    (hworld : (R.toldBefore env w).2 = s.1) :
    (R.settle fuel : Code α JobExecution).wp (worldLogic env) (fun _ s' =>
      WellBracketed R.execution.id (emitted s'.2) s'.1 ↔ R.RunsThrough env fuel w) s := by
  refine Prog.wp_seq (Prog.wp_and (Prog.wp_and (R.told_drive htold fuel) wp_run_of)
    (Prog.wp_traced (fun _ _ => trivial) (Prog.wp_and (R.drive_recorded hrecorded fuel)
      (R.drive_returns_iff env hrecorded fuel)))) ?_ ?_
  · intro finalStatus s₂ h₂
    obtain ⟨⟨⟨reports, hreports, more, unfinished, htold₂, hsteps⟩, hrun₂⟩, hended, hspeaks⟩ := h₂
    obtain ⟨hfinal, hrecorded₂⟩ := hended.returned finalStatus rfl
    have hspeaks : R.Speaks env fuel s.1 := hspeaks.mp ⟨finalStatus, rfl⟩
    rw [List.nil_append] at htold₂
    refine Prog.wp_seq (Prog.wp_and (R.told_finish finalStatus)
      (Prog.wp_traced (fun _ _ => trivial) (Prog.wp_and (finish_told finalStatus)
        (R.finish_recorded finalStatus hrecorded₂)))) ?_ ?_
    · intro _ s₃ h₃
      obtain ⟨⟨hrows, hended⟩, hborne, hrecorded₃⟩ := h₃
      rcases hended with ⟨-, ended, hevents, htype⟩ | ⟨⟨err, herr⟩, -⟩
      · refine Prog.wp_bind.mpr (Prog.wp_perform.mpr ⟨trivial, ?_⟩)
        intro latest s₄ ht₄
        cases ht₄
        have htells := tellsJob_of_final hfinal htype
        have hiff := htold₂.wellBracketed_iff hfirst hrows hrecorded₃ htells
        rw [← hsteps] at hiff
        have hall : emitted (s₃.2 ++ [⟨.getJobExecution R.execution.id,
            s₃.1.repo.getJobExecution R.execution.id⟩]) = emitted s₂.2 ++ [ended] := by
          rw [emitted_concat, hevents]
          exact List.append_nil _
        change WellBracketed R.execution.id (emitted (s₃.2 ++ [⟨.getJobExecution R.execution.id,
            s₃.1.repo.getJobExecution R.execution.id⟩])) s₃.1 ↔ _
        rw [hall, hiff]
        constructor
        · intro hreturn
          refine ⟨hletIn, ?_, hworld ▸ hspeaks, ?_⟩
          · intro reports' hreports'
            rw [hworld] at hreports'
            rw [hreports'.unique hreports]
            exact hreturn
          · intro status w' hdrive
            rw [hworld, hrun₂] at hdrive
            cases hdrive
            exact hborne.mp rfl
        · intro hthrough
          exact hthrough.steps reports (hworld ▸ hreports)
      · cases herr
    · intro err s₃ h₃
      obtain ⟨⟨hrows, hended⟩, hborne, hrecorded₃⟩ := h₃
      rcases hended with ⟨hok, -⟩ | ⟨-, hevents⟩
      · cases hok
      · rw [hevents]
        have hthrew : ¬ R.RunsThrough env fuel w := by
          intro hthrough
          have hlet := hthrough.letOut finalStatus s₂.1 (by rw [hworld]; exact hrun₂)
          cases hborne.mpr hlet
        exact iff_of_false htold₂.not_wellBracketed hthrew
  · intro err s₂ h₂
    obtain ⟨⟨⟨reports, hreports, more, unfinished, htold₂, -⟩, -⟩, -, hspeaks⟩ := h₂
    refine iff_of_false htold₂.not_wellBracketed fun hthrough => ?_
    obtain ⟨final, hout⟩ := hspeaks.mpr (hworld ▸ hthrough.speaks)
    cases hout

/-- **A run is well bracketed** exactly if it runs through. -/
theorem bracketed_proceed (fuel : Nat) (hfiled : w.repo.StepsFiled)
    (hfile : OnFile R.execution.id w) :
    (R.proceed fuel : Code α JobExecution).wp (worldLogic env) (fun _ s' =>
      WellBracketed R.execution.id (emitted s'.2) s'.1 ↔ R.RunsThrough env fuel w) (w, []) := by
  have hstart : (R.prologue : Code α Unit).wp (worldLogic env) (fun out s' =>
      (∃ first : BatchEvent, first.type = .JOB_STARTED ∧ Told first [] none s') ∨
        ∃ err, out = .error err ∧ emitted s'.2 = []) (w, []) := R.told_prologue hfiled rfl
  rw [R.proceed_eq]
  refine Prog.wp_seq (Prog.wp_and hstart (Prog.wp_traced (fun _ _ => trivial)
    (Prog.wp_and (prologue_told hfile) (R.prologue_recorded hfile)))) ?_ ?_
  · intro _ s₁ h₁
    obtain ⟨htold, ⟨hborne, hworld⟩, hrecorded⟩ := h₁
    rcases htold with ⟨first, hfirst, htold⟩ | ⟨err, hout, -⟩
    · exact R.bracketed_settle fuel htold hfirst hrecorded (hborne.mp rfl) (hworld rfl).symm
    · cases hout
  · intro err s₁ h₁
    obtain ⟨htold, ⟨hborne, -⟩, -⟩ := h₁
    have hthrew : ¬ R.RunsThrough env fuel w := by
      intro hthrough
      cases hborne.mpr hthrough.letIn
    have hopen : ¬ WellBracketed R.execution.id (emitted s₁.2) s₁.1 := by
      rcases htold with ⟨first, -, htold⟩ | ⟨-, -, hnone⟩
      · exact htold.not_wellBracketed
      · intro hwell
        obtain ⟨started, between, ended, status, hevents, -⟩ := hwell.job
        rw [hnone] at hevents
        cases hevents
    exact iff_of_false hopen hthrew

end JobExecutor.Run

/-- **When the events of a run are well bracketed**: exactly when every entry bears with its
listeners before and after the job, every step executor returns, COMPLETED or FAILED, and no decider
throws a value without a string form. -/
theorem JobExecutor.events_well_bracketed_iff {env : Environment α υ} {fuel : Nat}
    {execution : JobExecution} {jobDef : JobDefinition} {partition : PartitionArgs}
    {w w' : World υ} {calls : Calls α} {out : Prog.Outcome Thrown JobExecution}
    (hallowed : ¬ (isRestart execution ∧ jobDef.restartable = false))
    (hfile : OnFile execution.id w) (hfiled : w.repo.StepsFiled)
    (hrun : (execute fuel execution jobDef partition : Code α JobExecution).run
      (handle env).traced (w, []) = (out, w', calls))
    (hsettled : out.settled) :
    WellBracketed execution.id (emitted calls) w' ↔
      Run.RunsThrough { execution := execution, jobDef := jobDef, partition := partition }
        env fuel w := by
  unfold execute at hrun
  rw [if_neg hallowed] at hrun
  have hwp :
      (Run.proceed { execution := execution, jobDef := jobDef, partition := partition } fuel :
      Code α JobExecution).wp (worldLogic env) (fun _ s' =>
        WellBracketed execution.id (emitted s'.2) s'.1 ↔ Run.RunsThrough
          { execution := execution, jobDef := jobDef, partition := partition } env fuel w)
        (w, []) :=
    Run.bracketed_proceed _ fuel hfiled hfile
  have hspec := Prog.wp_run hwp
  rw [hrun] at hspec
  cases out with
  | returned execution => exact hspec
  | threw err => exact hspec
  | stuck => cases hsettled

/-! ### A run of the pairs job, and three that are not well bracketed -/

namespace JobExecutor

/-- A run of the new execution of a job, with its calls. -/
def tracedRun (env : Environment Nat Nat) (job : JobDefinition) :
    Prog.Outcome Thrown JobExecution × World Nat × Calls Nat :=
  (execute 5 (InMemoryJobRepository.newExecution "r" "" []) job {}).run (handle env).traced
    (JobLauncher.pairsCreated, [])

/-- The traced run, in its parts. -/
theorem tracedRun_eq (env : Environment Nat Nat) (job : JobDefinition) :
    (execute 5 (InMemoryJobRepository.newExecution "r" "" []) job {}).run (handle env).traced
      (JobLauncher.pairsCreated, []) =
      ((tracedRun env job).1, (tracedRun env job).2.1, (tracedRun env job).2.2) := rfl

/-- The run of the pairs job. -/
theorem events_well_bracketed_iff_pairs :
    WellBracketed "r" (emitted (tracedRun (willing [10, 20, 30]) pairsJob).2.2)
        (tracedRun (willing [10, 20, 30]) pairsJob).2.1 ↔
      Run.RunsThrough { execution := InMemoryJobRepository.newExecution "r" "" []
                        jobDef := pairsJob, partition := {} }
        (willing [10, 20, 30]) 5 JobLauncher.pairsCreated := by
  have hfile : Recorded "r" .STARTING JobLauncher.pairsCreated := by decide +kernel
  have hfiled : JobLauncher.pairsCreated.repo.StepsFiled := by
    constructor
    · intro id step hget
      cases hget
    · intro id step hget
      cases hget
  have hsettled : (tracedRun (willing [10, 20, 30]) pairsJob).1.settled := by decide +kernel
  have hrun := tracedRun_eq (willing [10, 20, 30]) pairsJob
  have hiff := events_well_bracketed_iff (by decide) hfile.onFile hfiled hrun hsettled
  exact hiff

/-- A listener of a kind and phase. -/
def listenerOf (kind : ListenerKind) (phase : ListenerPhase) : ListenerDefinition :=
  { kind := kind, ref := { kind := .BuilderLambda, fn := some 4 }, phase := phase }

end JobExecutor

/-- Events without an end are not well bracketed. -/
theorem not_wellBracketed_of_types {e : String} {events : List BatchEvent} {w : World υ}
    (h : (.STEP_STARTED ∈ events.map (·.type) ∧ .STEP_COMPLETED ∉ events.map (·.type) ∧
        .STEP_FAILED ∉ events.map (·.type)) ∨
      (.JOB_COMPLETED ∉ events.map (·.type) ∧ .JOB_FAILED ∉ events.map (·.type))) :
    ¬ WellBracketed e events w := by
  intro hwell
  rcases h with ⟨hstart, hcompleted, hfailed⟩ | ⟨hcompleted, hfailed⟩
  · obtain ⟨opened, hmem, htype⟩ := List.mem_map.mp hstart
    obtain ⟨before, after, hsplit⟩ := List.append_of_mem hmem
    have hopen : stepShape.opens opened = some opened.stepExecutionId := by
      simp [stepShape, htype]
    obtain ⟨closed, hone, id, status, -, -, htells⟩ :=
      hwell.steps before opened after _ hsplit hopen
    have hin : closed ∈ after := by
      have hclosing : closed ∈ stepShape.closing opened.stepExecutionId after := by
        rw [hone]
        exact List.mem_singleton_self _
      exact List.mem_of_mem_filter hclosing
    have hmem' : closed.type ∈ events.map (·.type) := by
      rw [hsplit]
      exact List.mem_map_of_mem (List.mem_append_right _ (List.mem_cons_of_mem _ hin))
    rcases htells with ⟨htype', -⟩ | ⟨htype', -⟩
    · exact hcompleted (htype' ▸ hmem')
    · exact hfailed (htype' ▸ hmem')
  · obtain ⟨started, between, ended, status, hsplit, -, -, -, htells⟩ := hwell.job
    have hmem' : ended.type ∈ events.map (·.type) := by
      rw [hsplit]
      exact List.mem_map_of_mem (by simp)
    rcases htells with ⟨htype', -⟩ | ⟨htype', -⟩
    · exact hcompleted (htype' ▸ hmem')
    · exact hfailed (htype' ▸ hmem')

namespace JobExecutor

/-- A throwing listener of the step leaves the step open; one before or after the job leaves the
job open, and so does a decider that throws a value without a string form. -/
theorem events_may_stay_open :
    let brackets (env : Environment Nat Nat) (job : JobDefinition) :=
      WellBracketed "r" (emitted (tracedRun env job).2.2) (tracedRun env job).2.1
    let gatekeeper := JobLauncher.gatekeeper [10]
    ¬ brackets gatekeeper (jobOf pairsStep [] [listenerOf .step .before]) ∧
    ¬ brackets gatekeeper (jobOf pairsStep [] [listenerOf .job .before]) ∧
    ¬ brackets gatekeeper (jobOf pairsStep [] [listenerOf .job .after]) ∧
    ¬ brackets (JobLauncher.speechless [10]) JobLauncher.decidedJob := by
  refine ⟨?_, ?_, ?_, ?_⟩
  all_goals
    apply not_wellBracketed_of_types
    decide +kernel

end JobExecutor

end NestBatch
