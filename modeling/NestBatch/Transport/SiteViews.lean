import NestBatch.Lib.Beside
import NestBatch.Transport.SiteCheckpoints
import NestBatch.Transport.SiteRecords

/-!
# What the explorer shows of a running site

`getJobExecutionDetails` puts a view together from several reads, between which
launches, calls of the operator and deliveries go on.  The parts belong together all
the same, and the view lies between what was on record when it was asked for and what
is on record when it is handed out (`details_belong_together`).  So a view that is
taken later shows no less (`later_view_shows_no_less`).
-/

namespace NestBatch

variable {α υ : Type}

/-- The step executions of an execution, in the order of their creation. -/
def World.stepIds (w : World υ) (e : String) : List String :=
  (w.repo.findStepExecutions e).map (·.id)

/-- What holds between any moment of a site and every later one. -/
structure Later (w w' : World υ) : Prop where
  kept : w.repo.Extends w'.repo
  order : w.repo.stepExecutions.keys <+: w'.repo.stepExecutions.keys
  forward : Deployment.Forward w w'

theorem Later.refl (w : World υ) : Later w w where
  kept := .refl w.repo
  order := List.prefix_rfl
  forward _ := Int.le_refl _

theorem Later.trans {w w' w'' : World υ} (h : Later w w') (h' : Later w' w'') : Later w w'' where
  kept := h.kept.trans h'.kept
  order := h.order.trans h'.order
  forward id := Int.le_trans (h.forward id) (h'.forward id)

section Order

variable {w w' : World υ} {e : String}

/-- The step executions of an execution among all that are on file. -/
theorem stepIds_eq (h : w.repo.StepsFiled) (e : String) :
    w.stepIds e = w.repo.stepExecutions.keys.filter fun id =>
      (w.repo.stepExecutions.get? id).any fun step => step.jobExecutionId = e := by
  have hentry {entry : String × StepExecution} (hentry : entry ∈ w.repo.stepExecutions.entries) :
      w.repo.stepExecutions.get? entry.1 = some entry.2 :=
    (w.repo.stepExecutions.get?_eq_some_iff _ _).mpr hentry
  unfold World.stepIds InMemoryJobRepository.findStepExecutions JsMap.values JsMap.keys
  rw [List.filter_map, List.filter_map, List.map_map]
  have hsame : w.repo.stepExecutions.entries.filter
      ((fun step => decide (step.jobExecutionId = e)) ∘ Prod.snd) =
      w.repo.stepExecutions.entries.filter ((fun id => (w.repo.stepExecutions.get? id).any
        fun step => step.jobExecutionId = e) ∘ Prod.fst) := by
    apply List.filter_congr
    intro entry hmem
    simp only [Function.comp_apply, hentry hmem, Option.any_some]
  rw [← hsame]
  apply List.map_congr_left
  intro entry hmem
  exact h.own _ _ (hentry (List.mem_filter.mp hmem).1)

/-- Later on the step executions of an execution are the same, and perhaps some more behind. -/
theorem Later.stepIds (h : Later w w') (hfiled : w.repo.StepsFiled)
    (hfiled' : w'.repo.StepsFiled) : w.stepIds e <+: w'.stepIds e := by
  obtain ⟨more, hmore⟩ := h.order
  rw [stepIds_eq hfiled, stepIds_eq hfiled', ← hmore, List.filter_append]
  have hsame : w.repo.stepExecutions.keys.filter (fun id =>
      (w'.repo.stepExecutions.get? id).any fun step => step.jobExecutionId = e) =
      w.repo.stepExecutions.keys.filter fun id =>
        (w.repo.stepExecutions.get? id).any fun step => step.jobExecutionId = e := by
    apply List.filter_congr
    intro id hid
    cases hget : w.repo.stepExecutions.get? id with
    | none => exact absurd hid ((JsMap.get?_eq_none_iff _ _).mp hget)
    | some step =>
        obtain ⟨step', hget', howner, -⟩ := h.kept.steps id step hget
        rw [hget']
        simp only [Option.any_some, howner]
  rw [hsame]
  exact List.prefix_append _ _

/-- Step executions keep their order. -/
theorem order_handle (env : Environment α υ) (o : Op α) (w : World υ) :
    w.repo.stepExecutions.keys <+: (handle env o w).2.repo.stepExecutions.keys := by
  by_cases hcreate : o.kind = .createStep
  · cases o with
    | createStepExecution e name => exact JsMap.keys_prefix_set _ _ _
    | user call => cases call <;> cases hcreate
    | _ => cases hcreate
  · by_cases hupdate : o.kind = .updateStep
    · cases o with
      | updateStepExecution updated patch =>
          change _ <+: (w.repo.updateStepExecution updated patch).2.stepExecutions.keys
          unfold InMemoryJobRepository.updateStepExecution
          split
          · exact List.prefix_rfl
          · exact JsMap.keys_prefix_set _ _ _
      | user call => cases call <;> cases hupdate
      | _ => cases hupdate
    · have hsame := stepExecutions_handle env hcreate hupdate w
      exact ⟨[], (List.append_nil _).trans (congrArg JsMap.keys hsame.symm)⟩

end Order

/-! ### Views -/

/-- The parts of a view belong to one execution. -/
structure JobExecutionDetails.Coherent (details : JobExecutionDetails) (e : String) : Prop where
  execution : details.jobExecution.id = e
  jobInstance : details.jobInstance.id = details.jobExecution.jobInstanceId
  steps : ∀ step ∈ details.stepExecutions, step.jobExecutionId = e
  once : (details.stepExecutions.map (·.id)).Nodup
  contexts : details.stepContexts.map Prod.fst = details.stepExecutions.map (·.id)

/-- A context that shows no less progress than is on record at `w`, and no more than at `w'`. -/
def ProgressBetween (w w' : World υ) (entry : String × ExecutionContext) : Prop :=
  nextChunk (w.checkpoint entry.1) ≤ nextChunk (readLastCheckpoint entry.2) ∧
    nextChunk (readLastCheckpoint entry.2) ≤ nextChunk (w'.checkpoint entry.1)

/-- A view that shows no less than is on record at `w`, and no more than at `w'`. -/
structure JobExecutionDetails.Between (details : JobExecutionDetails) (e : String)
    (w w' : World υ) : Prop where
  jobInstance : w'.repo.instances.get? details.jobInstance.id = some details.jobInstance
  before : ∀ row, w.repo.executions.get? e = some row →
    details.jobExecution.jobInstanceId = row.jobInstanceId ∧
      details.jobExecution.params = row.params
  after : ∃ row, w'.repo.executions.get? e = some row ∧
    row.jobInstanceId = details.jobExecution.jobInstanceId ∧
      row.params = details.jobExecution.params
  noFewer : w.stepIds e <+: details.stepExecutions.map (·.id)
  noMore : details.stepExecutions.map (·.id) <+: w'.stepIds e
  progress : ∀ entry ∈ details.stepContexts, ProgressBetween w w' entry

/-- Later on no less is on record. -/
theorem JobExecutionDetails.Between.later {details : JobExecutionDetails} {e : String}
    {w w' w'' : World υ} (h : details.Between e w w') (hfiled : w'.repo.StepsFiled)
    (hlater : Later w' w'') (hfiled' : w''.repo.StepsFiled) : details.Between e w w'' where
  jobInstance := hlater.kept.instances _ _ h.jobInstance
  before := h.before
  after := by
    obtain ⟨row, hrow, hinstance, hparams⟩ := h.after
    obtain ⟨row', hrow', hinstance', hparams'⟩ := hlater.kept.executions e row hrow
    exact ⟨row', hrow', hinstance'.trans hinstance, hparams'.trans hparams⟩
  noFewer := h.noFewer
  noMore := h.noMore.trans (hlater.stepIds hfiled hfiled')
  progress entry hmem := ⟨(h.progress entry hmem).1,
    Int.le_trans (h.progress entry hmem).2 (hlater.forward entry.1)⟩

/-- What the explorer shows or throws, asked at `w` and done at `w'`. -/
def Shows (e : String) (w : World υ) : Except Thrown JobExecutionDetails → World υ → Prop
  | .ok details, w' => details.Coherent e ∧ details.Between e w w'
  | .error err, _ => err = .JobExecutionNotFoundError e ∧ ¬ w.Files e

section View

variable {env : Environment α υ} {e : String} {w w' : World υ}

/-- Reading beside a site: consistent states, each later than the last. -/
def readingLogic (env : Environment α υ) : Prog.Logic (Op α) Op.Resp (World υ) :=
  Prog.relying (handle env) (·.repo.Consistent) Later

/-- The contexts of the steps are read one by one. -/
theorem wp_stepContexts (steps : List StepExecution) (hw : w.repo.Consistent) :
    (JobExplorer.stepContexts steps : Code α (List (String × ExecutionContext))).wp
      (readingLogic env) (fun out w' => (Later w w' ∧ w'.repo.Consistent) ∧
        ∃ contexts, out = .ok contexts ∧ contexts.map Prod.fst = steps.map (·.id) ∧
          ∀ entry ∈ contexts, ProgressBetween w w' entry) w := by
  induction steps generalizing w with
  | nil => exact ⟨⟨.refl w, hw⟩, [], rfl, rfl, fun _ hmem => by cases hmem⟩
  | cons step rest ih =>
      refine Prog.wp_bind.mpr (Prog.wp_perform.mpr ⟨fun _ => rfl, ?_⟩)
      intro context w₁ ht
      obtain ⟨hlater, hsound, rfl⟩ := ht
      refine Prog.wp_bind.mpr (Prog.wp_mono (ih hsound) ?_)
      intro out w₂ hrest
      obtain ⟨⟨hlater', hsound'⟩, contexts, rfl, hids, hprogress⟩ := hrest
      refine ⟨⟨hlater.trans hlater', hsound'⟩, _, rfl, congrArg (step.id :: ·) hids, ?_⟩
      intro entry hmem
      rcases List.mem_cons.mp hmem with rfl | hmem
      · exact ⟨hlater.forward step.id, hlater'.forward step.id⟩
      · obtain ⟨hlow, hhigh⟩ := hprogress entry hmem
        exact ⟨Int.le_trans (hlater.forward entry.1) hlow, hhigh⟩

/-- **The explorer beside a site.** -/
theorem wp_getJobExecutionDetails (hw : w.repo.Consistent) :
    (JobExplorer.getJobExecutionDetails e : Code α JobExecutionDetails).wp (readingLogic env)
      (Shows e w) w := by
  refine Prog.wp_bind.mpr (Prog.wp_perform.mpr ⟨fun _ => rfl, ?_⟩)
  intro found w₁ ht
  obtain ⟨hlater₁, hsound₁, rfl⟩ := ht
  cases hrow : w₁.repo.executions.get? e with
  | none =>
      have hnone : (handle env (.getJobExecution e) w₁).1 = none := hrow
      rw [hnone]
      refine ⟨rfl, fun hfiles => ?_⟩
      have hstill := hfiles.of_extends hlater₁.kept
      unfold World.Files at hstill
      rw [hrow] at hstill
      cases hstill
  | some row =>
      have hsome : (handle env (.getJobExecution e) w₁).1 = some row := hrow
      rw [hsome]
      have hid : row.id = e := hsound₁.executionOwn e row hrow
      obtain ⟨inst, hinst⟩ := hsound₁.executionOf e row hrow
      refine Prog.wp_bind.mpr (Prog.wp_perform.mpr ⟨fun _ => rfl, ?_⟩)
      intro found w₂ ht
      obtain ⟨hlater₂, hsound₂, rfl⟩ := ht
      have hinst₂ := hlater₂.kept.instances _ inst hinst
      have hfound : (handle env (.getJobInstance row.jobInstanceId) w₂).1 = some inst := hinst₂
      rw [hfound]
      refine Prog.wp_bind.mpr (Prog.wp_perform.mpr ⟨fun _ => rfl, ?_⟩)
      intro steps w₃ ht
      obtain ⟨hlater₃, hsound₃, hsteps⟩ := ht
      refine Prog.wp_bind.mpr (Prog.wp_perform.mpr ⟨fun _ => rfl, ?_⟩)
      intro jobContext w₄ ht
      obtain ⟨hlater₄, hsound₄, -⟩ := ht
      refine Prog.wp_bind.mpr (Prog.wp_mono (wp_stepContexts steps hsound₄) ?_)
      intro out w₅ hrest
      obtain ⟨⟨hlater₅, hsound₅⟩, contexts, rfl, hids, hprogress⟩ := hrest
      have hown : inst.id = row.jobInstanceId := hsound₁.instanceOwn _ inst hinst
      have hlisted : steps.map (·.id) = w₃.stepIds e := congrArg (List.map (·.id)) hsteps
      have hupto₃ : Later w w₃ := (hlater₁.trans hlater₂).trans hlater₃
      have hfrom₃ : Later w₃ w₅ := hlater₄.trans hlater₅
      have hrest : Later w₁ w₅ := (hlater₂.trans hlater₃).trans hfrom₃
      refine ⟨⟨hid, hown, fun step hmem => ?_, ?_, hids⟩,
        ⟨?_, fun row' hrow' => ?_, hrest.kept.executions e row hrow, ?_, ?_, fun entry hmem => ?_⟩⟩
      · rw [hsteps] at hmem
        exact of_decide_eq_true (List.mem_filter.mp hmem).2
      · change (steps.map (·.id)).Nodup
        rw [hlisted, stepIds_eq hsound₃.steps]
        exact w₃.repo.stepExecutions.nodup.filter _
      · change w₅.repo.instances.get? inst.id = some inst
        rw [hown]
        exact hrest.kept.instances _ inst hinst
      · obtain ⟨row₁, hrow₁, hinstance, hparams⟩ := hlater₁.kept.executions e row' hrow'
        cases hrow.symm.trans hrow₁
        exact ⟨hinstance, hparams⟩
      · change w.stepIds e <+: steps.map (·.id)
        rw [hlisted]
        exact hupto₃.stepIds hw.steps hsound₃.steps
      · change steps.map (·.id) <+: w₅.stepIds e
        rw [hlisted]
        exact hfrom₃.stepIds hsound₃.steps hsound₅.steps
      · obtain ⟨hlow, hhigh⟩ := hprogress entry hmem
        exact ⟨Int.le_trans ((hupto₃.trans hlater₄).forward entry.1) hlow, hhigh⟩

end View

/-! ### At a site -/

namespace Deployment

variable (D : Deployment) (env : Environment α υ)

/-- A site as the explorer finds it. -/
def Readable (site : SiteState α υ) : Prop := D.OnRecord site ∧ InStep site

theorem readable_started {w : World υ} (h : w.repo.Consistent) (hfiles : w.CheckpointsFiled) :
    D.Readable (Prog.Service.started w : SiteState α υ) :=
  ⟨D.onRecord_started h, inStep_started hfiles⟩

variable {env}

/-- The service evolves to later worlds while it can be read. -/
theorem evolves (henv : env.KeepsCheckpoint) :
    (D.service env).Evolves D.Readable (·.repo.Consistent) Later where
  refl := .refl
  trans _ _ _ h h' := h.trans h'
  shared _ h := h.1.consistent
  step site happening site' h hstep := by
    obtain ⟨hrecord, hkept⟩ := h.1.step hstep
    obtain ⟨hinStep, hforward⟩ := h.2.step henv hstep
    refine ⟨⟨hrecord, hinStep⟩, hkept, ?_, hforward⟩
    cases happening with
    | come request =>
        obtain ⟨w, harrive, rfl⟩ := Prog.Service.step_come hstep
        have hrepo := (arrive_eq_some harrive).2
        exact ⟨[], (List.append_nil _).trans
          (congrArg (fun repo => repo.stepExecutions.keys) hrepo.symm)⟩
    | act n =>
        obtain ⟨session, o, k, -, -, rfl⟩ := Prog.Service.step_act hstep
        exact order_handle env o site.shared

/-- The explorer beside a site. -/
abbrev Watched (α υ : Type) :=
  Prog.Beside Request (Op α) Op.Resp Thrown Unit JobExecutionDetails (World υ)

/-- Somebody asks for the details of an execution. -/
def asks (site : SiteState α υ) (e : String) : Watched α υ :=
  { site := site, rest := JobExplorer.getJobExecutionDetails e }

variable {D} {site site' : SiteState α υ} {e : String}

/-- What the explorer has shown or thrown, and what is on record by then. -/
theorem shown (henv : env.KeepsCheckpoint) (h : D.Readable site)
    {moves : List (Prog.Move Request)} {watched : Watched α υ}
    (hrun : (D.service env).beside.run (asks site e) moves = some watched) :
    D.Readable watched.site ∧ ∃ w, w.repo.Consistent ∧ Later site.shared w ∧
      Later w watched.site.shared ∧
        watched.rest.wp (readingLogic env) (Shows e site.shared) w := by
  have hasked : (asks site e).rest.wp (readingLogic env) (Shows e site.shared) site.shared :=
    wp_getJobExecutionDetails h.1.consistent
  exact (D.evolves henv).beside_keeps (b := asks site e) h hasked hrun

/-- A view that has been handed out. -/
theorem shown_details (henv : env.KeepsCheckpoint) (h : D.Readable site)
    {moves : List (Prog.Move Request)} {details : JobExecutionDetails}
    (hrun : (D.service env).beside.run (asks site e) moves = some ⟨site', .pure details⟩) :
    D.Readable site' ∧ Later site.shared site'.shared ∧ details.Coherent e ∧
      details.Between e site.shared site'.shared := by
  obtain ⟨hreadable, w, hsound, hupto, hfrom, hcoherent, hbetween⟩ := shown henv h hrun
  exact ⟨hreadable, hupto.trans hfrom, hcoherent,
    hbetween.later hsound.steps hfrom hreadable.1.consistent.steps⟩

/-- An error that has been thrown. -/
theorem shown_error (henv : env.KeepsCheckpoint) (h : D.Readable site)
    {moves : List (Prog.Move Request)} {err : Thrown}
    (hrun : (D.service env).beside.run (asks site e) moves = some ⟨site', .throw err⟩) :
    err = .JobExecutionNotFoundError e ∧ ¬ site.shared.Files e := by
  obtain ⟨-, w, -, -, -, hthrown⟩ := shown henv h hrun
  exact hthrown

variable (D)

/-- **What the explorer shows of a running site.**  However launches, calls of the operator and
deliveries interleave with its reads: the view that it hands out is of one execution and its
instance, with the steps of that execution and their contexts, each once; it shows the steps that
were on record when it was asked for, in their order, and only such as are on record when it is
handed out, and no checkpoint is shown behind the one or ahead of the other.  It throws only for
an execution that was not on file. -/
theorem details_belong_together (henv : env.KeepsCheckpoint) {w : World υ}
    (h : w.repo.Consistent) (hfiles : w.CheckpointsFiled)
    {happenings : List (Prog.Happening Request)} {moves : List (Prog.Move Request)}
    (hbefore : (D.service env).machine.run (Prog.Service.started w) happenings = some site) :
    (∀ details, (D.service env).beside.run (asks site e) moves = some ⟨site', .pure details⟩ →
      details.Coherent e ∧ details.Between e site.shared site'.shared) ∧
    ∀ err, (D.service env).beside.run (asks site e) moves = some ⟨site', .throw err⟩ →
      err = .JobExecutionNotFoundError e ∧ ¬ site.shared.Files e := by
  have hsite := ((D.evolves henv).run (D.readable_started h hfiles) hbefore).1
  refine ⟨fun details hrun => ?_, fun err hrun => shown_error henv hsite hrun⟩
  obtain ⟨-, -, hcoherent, hbetween⟩ := shown_details henv hsite hrun
  exact ⟨hcoherent, hbetween⟩

/-- The view that has been handed out. -/
def viewOf (watched : Watched α υ) : Option JobExecutionDetails :=
  match watched.rest with
  | .pure details => some details
  | _ => none

theorem viewOf_eq_some {watched : Watched α υ} {details : JobExecutionDetails}
    (h : viewOf watched = some details) : watched = ⟨watched.site, .pure details⟩ := by
  obtain ⟨site, rest⟩ := watched
  unfold viewOf at h
  split at h
  · next given hrest =>
      obtain rfl := Option.some.inj h
      exact congrArg (Prog.Beside.mk site) hrest
  · cases h

/-- A launch whose job is under way. -/
def halfway : List (Prog.Happening Request) :=
  .come (.launch "import" [] none) :: List.replicate 12 (.act 0)

/-- The explorer and the job, taking turns. -/
def takingTurns : List (Prog.Move Request) :=
  (List.replicate 5 [.acts, .happens (.act 0)]).flatten

theorem details_belong_together_import :
    ∃ site site' details, ((importSite .direct).service fullDisk).machine.run
        (Prog.Service.started freshWorld) halfway = some site ∧
      ((importSite .direct).service fullDisk).beside.run (asks site "r") takingTurns =
        some ⟨site', .pure details⟩ ∧
      details.Coherent "r" ∧ details.Between "r" site.shared site'.shared := by
  have hsome : ((((importSite .direct).service fullDisk).machine.run
      (Prog.Service.started freshWorld) halfway).bind fun site =>
        (((importSite .direct).service fullDisk).beside.run (asks site "r") takingTurns).bind
          viewOf).isSome = true := by decide +kernel
  obtain ⟨details, hdetails⟩ := Option.isSome_iff_exists.mp hsome
  obtain ⟨site, hbefore, hrest⟩ := Option.bind_eq_some_iff.mp hdetails
  obtain ⟨watched, hrun, hview⟩ := Option.bind_eq_some_iff.mp hrest
  rw [viewOf_eq_some hview] at hrun
  exact ⟨site, watched.site, details, hbefore, hrun,
    (details_belong_together (importSite .direct) (listEnvironment_keepsCheckpoint _ _)
      (InMemoryJobRepository.consistent_new _) (checkpointsFiled_initial _ _ 0) hbefore).1
        details hrun⟩

/-- **A later view shows no less.**  Once a view of an execution has been handed out, it can be had
at any time, and whatever happens before it is asked for again or meanwhile: the instance and the
parameters are the same, the steps shown before are shown again, in their places, and no checkpoint
has gone back. -/
theorem later_view_shows_no_less (henv : env.KeepsCheckpoint) {w : World υ}
    (h : w.repo.Consistent) (hfiles : w.CheckpointsFiled)
    {happenings meanwhile : List (Prog.Happening Request)}
    {moves moves' : List (Prog.Move Request)} {site₁ site₂ site₃ : SiteState α υ}
    {view : JobExecutionDetails} {rest : Code α JobExecutionDetails}
    (hbefore : (D.service env).machine.run (Prog.Service.started w) happenings = some site)
    (hview : (D.service env).beside.run (asks site e) moves = some ⟨site₁, .pure view⟩)
    (hmeanwhile : (D.service env).machine.run site₁ meanwhile = some site₂)
    (hagain : (D.service env).beside.run (asks site₂ e) moves' = some ⟨site₃, rest⟩) :
    (∀ err, rest ≠ .throw err) ∧ ∀ view', rest = .pure view' →
      view'.jobInstance = view.jobInstance ∧
      view'.jobExecution.params = view.jobExecution.params ∧
      view.stepExecutions.map (·.id) <+: view'.stepExecutions.map (·.id) ∧
      ∀ id ctx ctx', (id, ctx) ∈ view.stepContexts → (id, ctx') ∈ view'.stepContexts →
        nextChunk (readLastCheckpoint ctx) ≤ nextChunk (readLastCheckpoint ctx') := by
  have hsite := ((D.evolves henv).run (D.readable_started h hfiles) hbefore).1
  obtain ⟨hsite₁, -, hcoherent, hbetween⟩ := shown_details henv hsite hview
  obtain ⟨hsite₂, hlater⟩ := (D.evolves henv).run hsite₁ hmeanwhile
  obtain ⟨row, hrow, hinstance, hparams⟩ := hbetween.after
  obtain ⟨row₂, hrow₂, hinstance₂, hparams₂⟩ := hlater.kept.executions e row hrow
  refine ⟨fun err heq => ?_, fun view' heq => ?_⟩
  · subst heq
    exact (shown_error henv hsite₂ hagain).2 (Option.isSome_of_eq_some hrow₂)
  · subst heq
    obtain ⟨-, hlater', hcoherent', hbetween'⟩ := shown_details henv hsite₂ hagain
    obtain ⟨hsame, hparams'⟩ := hbetween'.before row₂ hrow₂
    refine ⟨?_, hparams'.trans (hparams₂.trans hparams), ?_, fun id ctx ctx' hctx hctx' => ?_⟩
    · have hkept := (hlater.trans hlater').kept.instances _ _ hbetween.jobInstance
      have hid : view'.jobInstance.id = view.jobInstance.id := by
        rw [hcoherent'.jobInstance, hcoherent.jobInstance, hsame, hinstance₂, hinstance]
      have hshown := hbetween'.jobInstance
      rw [hid, hkept] at hshown
      exact (Option.some.inj hshown).symm
    · exact (hbetween.noMore.trans (hlater.stepIds hsite₁.1.consistent.steps
        hsite₂.1.consistent.steps)).trans hbetween'.noFewer
    · exact Int.le_trans (hbetween.progress _ hctx).2
        (Int.le_trans (hlater.forward id) (hbetween'.progress _ hctx').1)

theorem later_view_shows_no_less_import :
    ∃ site site₁ site₂ view view', ((importSite .direct).service fullDisk).machine.run
        (Prog.Service.started freshWorld) halfway = some site ∧
      ((importSite .direct).service fullDisk).beside.run (asks site "r") takingTurns =
        some ⟨site₁, .pure view⟩ ∧
      ((importSite .direct).service fullDisk).beside.run (asks site₁ "r") takingTurns =
        some ⟨site₂, .pure view'⟩ ∧
      view'.jobInstance = view.jobInstance ∧
      view'.jobExecution.params = view.jobExecution.params ∧
      view.stepExecutions.map (·.id) <+: view'.stepExecutions.map (·.id) ∧
      ∀ id ctx ctx', (id, ctx) ∈ view.stepContexts → (id, ctx') ∈ view'.stepContexts →
        nextChunk (readLastCheckpoint ctx) ≤ nextChunk (readLastCheckpoint ctx') := by
  have hsome : ((((importSite .direct).service fullDisk).machine.run
      (Prog.Service.started freshWorld) halfway).bind fun site =>
        (((importSite .direct).service fullDisk).beside.run (asks site "r") takingTurns).bind
          fun first => (viewOf first).bind fun _ =>
            (((importSite .direct).service fullDisk).beside.run (asks first.site "r")
              takingTurns).bind viewOf).isSome = true := by decide +kernel
  obtain ⟨view', hview'⟩ := Option.isSome_iff_exists.mp hsome
  obtain ⟨site, hbefore, hrest⟩ := Option.bind_eq_some_iff.mp hview'
  obtain ⟨first, hrun, hrest⟩ := Option.bind_eq_some_iff.mp hrest
  obtain ⟨view, hview, hrest⟩ := Option.bind_eq_some_iff.mp hrest
  obtain ⟨second, hagain, hsecond⟩ := Option.bind_eq_some_iff.mp hrest
  rw [viewOf_eq_some hview] at hrun
  rw [viewOf_eq_some hsecond] at hagain
  have hstay : ((importSite .direct).service fullDisk).machine.run first.site [] =
      some first.site := rfl
  exact ⟨site, first.site, second.site, view, view', hbefore, hrun, hagain,
    (later_view_shows_no_less (importSite .direct) (listEnvironment_keepsCheckpoint _ _)
      (InMemoryJobRepository.consistent_new _) (checkpointsFiled_initial _ _ 0) hbefore hrun hstay
      hagain).2 view' rfl⟩

end Deployment

end NestBatch
