import NestBatch.Lib.Congruence
import NestBatch.Execution.JobFootprint

/-!
# Runs with other listeners

The executors do nothing with a resolver map but call its listeners.  Whatever
congruence relates the listener calls made with one map to those made with another
relates the runs: two runs of a job that differ in their listeners differ no further.
-/

namespace NestBatch

open ListenerInvoker

variable {α β : Type}

/-- A congruence that relates every operation to itself, calls of listeners apart. -/
structure ListenerCongruence (Rel : (β : Type) → Code α β → Code α β → Prop) : Prop
    extends Prog.Congruence Rel where
  ops : ∀ o : Op α, o.kind ≠ .listener → o.kind ≠ .afterStep → Rel _ (request o) (request o)

/-- Listener calls with the one map are related to those with the other. -/
structure Exchanged (Rel : (β : Type) → Code α β → Code α β → Prop) (A B : ResolverMap) :
    Prop where
  matching : ∀ key args, Rel _ (invokeMatching key args A) (invokeMatching key args B)
  afterStep : ∀ ctx result, Rel _ (invokeAfterStep ctx A result) (invokeAfterStep ctx B result)

/-- The same of the calls that tell of one step. -/
structure ExchangedFor (Rel : (β : Type) → Code α β → Code α β → Prop) (ctx : ListenerContext)
    (A B : ResolverMap) : Prop where
  before : Rel _ (invokeBeforeStepLegacy A ctx) (invokeBeforeStepLegacy B ctx)
  onError : ∀ err, Rel _ (invokeOnErrorStepLegacy A ctx err) (invokeOnErrorStepLegacy B ctx err)
  after : ∀ result, Rel _ (invokeAfterStepLegacy A ctx result) (invokeAfterStepLegacy B ctx result)

/-- The same step, told to other listeners. -/
def ChunkExecutionContext.hearing (context : ChunkExecutionContext) (B : ResolverMap) :
    ChunkExecutionContext :=
  { context with listenerResolvers := B }

@[inherit_doc ChunkExecutionContext.hearing]
def ChunkStepExecutor.Setting.hearing (S : ChunkStepExecutor.Setting) (B : ResolverMap) :
    ChunkStepExecutor.Setting :=
  { S with context := S.context.hearing B }

/-- The same job with other listeners. -/
def JobDefinition.hearing (jobDef : JobDefinition) (listeners : List ListenerDefinition) :
    JobDefinition :=
  { jobDef with listeners := listeners }

@[inherit_doc JobDefinition.hearing]
def JobExecutor.Run.hearing (R : JobExecutor.Run) (listeners : List ListenerDefinition) :
    JobExecutor.Run :=
  { R with jobDef := R.jobDef.hearing listeners }

section Exchange

variable {Rel : (β : Type) → Code α β → Code α β → Prop} (hRel : ListenerCongruence Rel)
include hRel

/-- Code that calls no listener is related to itself. -/
theorem ListenerCongruence.of_uses {K : List OpKind} {p : Code α β} (hp : p.Uses (On K))
    (hlistener : .listener ∉ K) (hafterStep : .afterStep ∉ K) : Rel β p p := by
  refine hRel.toCongruence.of_uses hp fun o ho => hRel.ops o ?_ ?_
  · exact fun h => hlistener (h ▸ ho)
  · exact fun h => hafterStep (h ▸ ho)

/-! ### The chunk executor -/

namespace ChunkStepExecutor

/-- Code that calls no listener is related to itself. -/
theorem related_of_keeps {K : List OpKind} {R : Locals → Locals → Prop} {c : ChunkCode α β}
    (hc : c.Keeps (On K) R) (hlistener : .listener ∉ K)
    (hafterStep : .afterStep ∉ K) : Scoped.Related Rel c c := by
  refine Scoped.related_of_keeps hRel.toCongruence hc fun o ho => hRel.ops o ?_ ?_
  · exact fun h => hlistener (h ▸ ho)
  · exact fun h => hafterStep (h ▸ ho)

/-- Related programs are related as chunk code. -/
theorem related_lift {p p' : Code α β} (hp : Rel β p p') :
    Scoped.Related Rel (Scoped.lift p : ChunkCode α β) (Scoped.lift p') :=
  Scoped.related_lift hRel.toCongruence hp

/-- Related chunk code in related contexts is related. -/
theorem related_bind {γ : Type} {c c' : ChunkCode α β} {g g' : β → ChunkCode α γ}
    (hc : Scoped.Related Rel c c') (hg : ∀ b, Scoped.Related Rel (g b) (g' b)) :
    Scoped.Related Rel (c >>= g) (c' >>= g') :=
  Scoped.Related.bind hRel.toCongruence hc hg

omit hRel in
/-- The hooks of a phase are related one by one. -/
structure PhaseHooks.Related (Rel : (β : Type) → Code α β → Code α β → Prop)
    (hooks hooks' : PhaseHooks α β) : Prop where
  name : hooks.name = hooks'.name
  before : Rel _ hooks.before hooks'.before
  after : ∀ value, Rel _ (hooks.after value) (hooks'.after value)
  onError : ∀ err, Rel _ (hooks.onError err) (hooks'.onError err)
  onSkip : ∀ err, Rel _ (hooks.onSkip err) (hooks'.onSkip err)

/-- A phase with related operation and hooks is related. -/
theorem related_runPhase (policies : Policies) {op : Code α β} {hooks hooks' : PhaseHooks α β}
    (hop : Rel β op op) (hhooks : PhaseHooks.Related Rel hooks hooks') :
    Scoped.Related Rel (runPhase policies op hooks) (runPhase policies op hooks') := by
  have hfrom : ∀ cap attempt, Scoped.Related Rel (runPhaseFrom policies op hooks cap attempt)
      (runPhaseFrom policies op hooks' cap attempt) := by
    intro cap
    induction cap with
    | zero =>
        intro _
        unfold runPhaseFrom
        rw [hhooks.name]
        exact Scoped.related_throw hRel.toCongruence _
    | succ cap ih =>
        intro attempt
        refine related_bind hRel (related_lift hRel hhooks.before) fun _ => ?_
        refine related_bind hRel (Scoped.Related.attempt hRel.toCongruence
          (related_lift hRel hop)) fun out => ?_
        cases out with
        | ok value =>
            refine related_bind hRel (related_lift hRel (hhooks.after value)) fun _ => ?_
            exact Scoped.related_pure hRel.toCongruence _
        | error err =>
            refine related_bind hRel (related_lift hRel (hhooks.onError err)) fun _ => ?_
            refine related_bind hRel (Scoped.related_get hRel.toCongruence) fun l => ?_
            cases consult policies err l.skipCount attempt with
            | skip =>
                refine related_bind hRel (Scoped.related_modify hRel.toCongruence _) fun _ => ?_
                refine related_bind hRel (related_lift hRel (hhooks.onSkip err)) fun _ => ?_
                exact Scoped.related_pure hRel.toCongruence _
            | retry => exact ih _
            | fail err' => exact Scoped.related_throw hRel.toCongruence _
  exact hfrom _ _

namespace Setting

variable {S : Setting} {B : ResolverMap} (hS : Exchanged Rel S.listeners B)
  (hskip : Exchanged Rel S.skipListeners (S.hearing B).skipListeners)
include hS hskip

omit hRel in
/-- The hooks of a read are related. -/
theorem related_readHooks (hpure : Rel Unit (.pure ()) (.pure ())) (k : Int) :
    PhaseHooks.Related Rel (S.readHooks k : PhaseHooks α (Option α)) ((S.hearing B).readHooks k)
    where
  name := rfl
  before := hS.matching _ _
  after value := by
    cases value with
    | none => exact hpure
    | some item => exact hS.matching _ _
  onError _ := hS.matching _ _
  onSkip _ := hskip.matching _ _

omit hRel in
/-- The hooks of a process call are related. -/
theorem related_processHooks (k : Int) (item : α) :
    PhaseHooks.Related Rel (S.processHooks k item) ((S.hearing B).processHooks k item) where
  name := rfl
  before := hS.matching _ _
  after _ := hS.matching _ _
  onError _ := hS.matching _ _
  onSkip _ := hskip.matching _ _

omit hRel in
/-- The hooks of a write are related. -/
theorem related_writeHooks (k : Int) (processed : List α) :
    PhaseHooks.Related Rel (S.writeHooks k processed) ((S.hearing B).writeHooks k processed) where
  name := rfl
  before := hS.matching _ _
  after _ := hS.matching _ _
  onError _ := hS.matching _ _
  onSkip _ := hskip.matching _ _

/-- The read phase is related. -/
theorem related_readPhase (k : Int) (n : Nat) (items : List α) :
    Scoped.Related Rel (S.readPhase k n items) ((S.hearing B).readPhase k n items) := by
  induction n generalizing items with
  | zero => exact Scoped.related_pure hRel.toCongruence _
  | succ n ih =>
      have hread : Rel _ (S.read k : Code α (Option α)) (S.read k) :=
        hRel.of_uses (S.uses_read (K := [.read]) (by decide) k) (by decide) (by decide)
      refine related_bind hRel (related_runPhase hRel S.policies hread
        (related_readHooks hS hskip (hRel.pure ()) k)) fun r => ?_
      match r with
      | .skipped => exact ih items
      | .ok none => exact Scoped.related_pure hRel.toCongruence _
      | .ok (some item) =>
          exact related_bind hRel (Scoped.related_modify hRel.toCongruence _) fun _ => ih _

/-- The process phase is related. -/
theorem related_processPhase (k : Int) (items processed : List α) :
    Scoped.Related Rel (S.processPhase k items processed)
      ((S.hearing B).processPhase k items processed) := by
  induction items generalizing processed with
  | nil => exact Scoped.related_pure hRel.toCongruence _
  | cons item items ih =>
      unfold processPhase
      have hprocessor : (S.hearing B).processor = S.processor := rfl
      rw [hprocessor]
      cases S.processor with
      | none => exact ih _
      | some processor =>
          let call : Op α := .user (.process processor.target item (S.itemContext k))
          have hprocess : Rel (Option α) (orThrow (request call)) (orThrow (request call)) :=
            hRel.bind (hRel.ops call (fun h => by cases h) fun h => by cases h)
              fun _ => hRel.ofExcept _
          refine related_bind hRel (related_runPhase hRel S.policies hprocess
            (related_processHooks hS hskip k item)) fun r => ?_
          cases r with
          | skipped => exact ih _
          | ok kept =>
              cases kept with
              | some value => exact ih _
              | none =>
                  exact related_bind hRel (Scoped.related_modify hRel.toCongruence _) fun _ => ih _

omit hS hskip in
/-- Counting a write tells nobody. -/
theorem related_countWrite (processed : List α) (value : Option WriterResult) :
    Scoped.Related Rel (countWrite processed value) (countWrite processed value) := by
  unfold countWrite
  cases value with
  | some report => exact Scoped.related_modify hRel.toCongruence _
  | none =>
      have hlength : Rel Nat (lengthOf processed) (lengthOf processed) :=
        hRel.ops (.user (.lengthOf processed)) (fun h => by cases h) fun h => by cases h
      refine related_bind hRel (related_lift hRel hlength) fun length => ?_
      exact Scoped.related_modify hRel.toCongruence _

/-- The write phase is related. -/
theorem related_writePhase (k : Int) (processed : List α) :
    Scoped.Related Rel (S.writePhase k processed) ((S.hearing B).writePhase k processed) := by
  unfold writePhase
  split
  · exact Scoped.related_pure hRel.toCongruence _
  · have hwrite : Rel _ (S.write k processed) (S.write k processed) :=
      hRel.of_uses (S.uses_write (K := [.write]) (by decide) k processed) (by decide) (by decide)
    refine related_bind hRel (related_runPhase hRel S.policies hwrite
      (related_writeHooks hS hskip k processed)) fun r => ?_
    match r with
    | .skipped => exact Scoped.related_pure hRel.toCongruence _
    | .ok value =>
        refine related_bind hRel (related_countWrite hRel processed value) fun _ => ?_
        exact Scoped.related_pure hRel.toCongruence _

/-- The commit of a chunk is related. -/
theorem related_commitChunk (k : Int) (items : List α) :
    Scoped.Related Rel (S.commitChunk k items) ((S.hearing B).commitChunk k items) := by
  unfold commitChunk
  refine related_bind hRel (related_processPhase hRel hS hskip k items []) fun processed => ?_
  refine related_bind hRel (related_writePhase hRel hS hskip k processed) fun ending => ?_
  let passed : Op α := .passed S.context.stepExecutionId k items ending
  refine related_bind hRel (related_lift hRel (hRel.ops passed nofun nofun)) fun _ => ?_
  refine related_bind hRel (related_of_keeps hRel S.keeps_checkpoint (by decide) (by decide))
    fun _ => ?_
  refine related_bind hRel (Scoped.related_get hRel.toCongruence) fun l => ?_
  refine related_bind hRel (related_lift hRel (hS.matching _ _)) fun _ => ?_
  exact Scoped.related_modify hRel.toCongruence _

/-- One turn of the chunk loop is related. -/
theorem related_runChunk :
    Scoped.Related Rel (S.runChunk : ChunkCode α Bool) (S.hearing B).runChunk := by
  unfold runChunk
  refine related_bind hRel (Scoped.related_get hRel.toCongruence) fun l => ?_
  change Scoped.Related Rel (ite (S.cap l.readCount = 0) _ _) (ite (S.cap l.readCount = 0) _ _)
  split
  · exact Scoped.related_pure hRel.toCongruence _
  · refine related_bind hRel (related_lift hRel (hS.matching _ _)) fun _ => ?_
    refine related_bind hRel (related_readPhase hRel hS hskip _ _ _) fun items => ?_
    split
    · refine related_bind hRel (Scoped.related_get hRel.toCongruence) fun l' => ?_
      refine related_bind hRel (related_lift hRel (hS.matching _ _)) fun _ => ?_
      exact Scoped.related_pure hRel.toCongruence _
    · refine related_bind hRel (related_commitChunk hRel hS hskip _ _) fun _ => ?_
      exact Scoped.related_pure hRel.toCongruence _

omit hRel hS hskip in
/-- Draining tells nobody. -/
theorem drainItems_hearing (k : Int) (n drained : Nat) :
    ((S.hearing B).drainItems k n drained : Code α Nat) = S.drainItems k n drained := by
  induction n generalizing drained with
  | zero => rfl
  | succ n ih =>
      unfold drainItems
      refine congrArg _ (funext fun item => ?_)
      cases item with
      | none => rfl
      | some item => exact ih _

omit hS hskip in
/-- The draining of a chunk is related. -/
theorem related_drainChunk :
    Scoped.Related Rel (S.drainChunk : ChunkCode α Bool) (S.hearing B).drainChunk := by
  unfold drainChunk
  simp only [drainItems_hearing]
  refine related_bind hRel (Scoped.related_get hRel.toCongruence) fun l => ?_
  change Scoped.Related Rel (ite (S.cap l.readCount = 0) _ _) (ite (S.cap l.readCount = 0) _ _)
  split
  · exact Scoped.related_pure hRel.toCongruence _
  · have hdrain : Rel Nat (S.drainItems l.chunkIndex (S.cap l.readCount) 0)
        (S.drainItems l.chunkIndex (S.cap l.readCount) 0) :=
      hRel.of_uses (S.uses_drainItems (K := [.read]) (by decide) _ _ _) (by decide) (by decide)
    refine related_bind hRel (related_lift hRel hdrain) fun drained => ?_
    split
    · exact Scoped.related_pure hRel.toCongruence _
    · refine related_bind hRel (Scoped.related_modify hRel.toCongruence _) fun _ => ?_
      exact Scoped.related_pure hRel.toCongruence _

/-- **The chunk loop** with other listeners. -/
theorem related_chunkLoop (fuel : Nat) :
    Scoped.Related Rel (S.chunkLoop fuel : ChunkCode α Unit) ((S.hearing B).chunkLoop fuel) := by
  induction fuel with
  | zero => exact Scoped.related_spin hRel.toCongruence
  | succ fuel ih =>
      have hiteration : Scoped.Related Rel (S.iteration : ChunkCode α Bool)
          (S.hearing B).iteration := by
        unfold iteration
        refine related_bind hRel (Scoped.related_get hRel.toCongruence) fun l => ?_
        change Scoped.Related Rel (ite (S.mustDrain l.chunkIndex = true) _ _)
          (ite (S.mustDrain l.chunkIndex = true) _ _)
        split
        · exact related_drainChunk hRel
        · exact related_runChunk hRel hS hskip
      refine related_bind hRel hiteration fun again => ?_
      cases again with
      | true => exact ih
      | false => exact Scoped.related_pure hRel.toCongruence _

end Setting

variable {step : ChunkStepDefinition} {context : ChunkExecutionContext} {B : ResolverMap}

/-- The preparation of a step makes settings that differ in their listeners only. -/
theorem related_prepare_bind (policies : Policies) (partition : Option (Int × Int))
    {f f' : Setting → ChunkCode α β} (hf : ∀ S : Setting, S.context = context →
      Scoped.Related Rel (f S) (f' (S.hearing B))) :
    Scoped.Related Rel (prepare step context policies partition >>= f)
      (prepare step (context.hearing B) policies partition >>= f') := by
  have hreader : Rel _ (resolveReader step.reader context step : Code α ItemHandler)
      (resolveReader step.reader context step) :=
    hRel.of_uses (uses_resolveReader (K := [.invoke, .factory]) (by decide) (by decide) _ _ _)
      (by decide) (by decide)
  have hprocessor : Rel _ (resolveProcessorOf step context : Code α (Option ItemHandler))
      (resolveProcessorOf step context) :=
    hRel.of_uses (uses_resolveProcessorOf (K := [.invoke]) (by decide) _ _) (by decide) (by decide)
  have hwriter : Rel _ (resolveWriter step.writer context : Code α ItemHandler)
      (resolveWriter step.writer context) :=
    hRel.of_uses (uses_resolveHandler (K := [.invoke]) (by decide) _ _ _ _) (by decide) (by decide)
  let load : Op α := .getExecutionContext (.stepExecutionId context.stepExecutionId)
  simp only [prepare, Scoped.bind_assoc]
  refine related_bind hRel (related_lift hRel hreader) fun reader => ?_
  refine related_bind hRel (related_lift hRel hprocessor) fun processor => ?_
  refine related_bind hRel (related_lift hRel hwriter) fun writer => ?_
  refine related_bind hRel (related_lift hRel (hRel.ops load nofun nofun)) fun ctx => ?_
  refine related_bind hRel (Scoped.related_modify hRel.toCongruence _) fun _ => ?_
  refine related_bind hRel (related_of_keeps hRel (keeps_openStreams (K := [.openStream])
    (by decide) _) (by decide) (by decide)) fun _ => ?_
  refine related_bind hRel (Scoped.related_modify hRel.toCongruence _) fun _ => ?_
  exact hf _ rfl

/-- Closing the streams is related to itself. -/
theorem related_closeStreams (streams : List Handle) :
    Rel Unit (closeStreams streams) (closeStreams streams) :=
  hRel.of_uses (uses_closeStreams (K := [.closeStream]) (by decide) streams) (by decide)
    (by decide)

/-- **The chunk executor** with other listeners. -/
theorem related_execute (step : ChunkStepDefinition) (context : ChunkExecutionContext)
    (hlisteners : Exchanged Rel context.listenerResolvers B)
    (hskip : Exchanged Rel (context.skipListenerResolvers.getD context.listenerResolvers)
      (context.skipListenerResolvers.getD B)) (fuel : Nat) :
    Rel StepResult (execute fuel step context) (execute fuel step (context.hearing B)) := by
  have hbody (policies : Policies) (partition : Option (Int × Int)) :
      Scoped.Related Rel (body fuel step context policies partition)
        (body fuel step (context.hearing B) policies partition) := by
    unfold body
    refine related_prepare_bind hRel policies partition fun S hS => ?_
    subst hS
    refine related_bind hRel (Setting.related_chunkLoop hRel hlisteners hskip fuel) fun _ => ?_
    refine related_bind hRel (Scoped.related_get hRel.toCongruence) fun l => ?_
    refine related_bind hRel (Scoped.related_modify hRel.toCongruence _) fun _ => ?_
    refine related_bind hRel (related_lift hRel (related_closeStreams hRel _)) fun _ => ?_
    exact related_lift hRel (hlisteners.afterStep _ _)
  have hcatch (err : Thrown) (l : Locals) : Rel StepResult (onFailure step context err l)
      (onFailure step (context.hearing B) err l) := by
    refine hRel.bind (hRel.attempt (related_closeStreams hRel _)) fun closed => ?_
    refine hRel.bind (hlisteners.matching _ _) fun _ => ?_
    refine hRel.bind (hRel.ofExcept _) fun exitMessage => ?_
    refine hRel.bind (hlisteners.matching _ _) fun _ => ?_
    exact hlisteners.afterStep _ _
  unfold execute
  refine hRel.bind (hRel.ofExcept _) fun policies => ?_
  refine hRel.bind (hRel.ofExcept _) fun partition => ?_
  refine hRel.bind (hlisteners.matching _ _) fun _ => ?_
  refine hRel.bind (hbody policies partition {}) ?_
  intro h
  obtain ⟨out, l⟩ := h
  cases out with
  | ok result => exact hRel.pure _
  | error err => exact hcatch err l

end ChunkStepExecutor

/-! ### The tasklet executor -/

/-- **The tasklet executor** with other listeners. -/
theorem TaskletStepExecutor.related_execute {step : TaskletStepDefinition}
    {context : TaskletExecutionContext} {B : ResolverMap}
    (h : ExchangedFor Rel (TaskletStepExecutor.listenerContext step context)
      context.listenerResolvers B) :
    Rel StepResult (TaskletStepExecutor.execute step context)
      (TaskletStepExecutor.execute step { context with listenerResolvers := B }) := by
  have hinvoke : OpKind.invoke ∈ [OpKind.invoke, .tasklet] := by decide
  have htasklet : OpKind.tasklet ∈ [OpKind.invoke, .tasklet] := by decide
  have hresolve : (TaskletStepExecutor.resolveTasklet step.tasklet context : Code α Handle).Uses
      (On [.invoke, .tasklet]) := by
    unfold TaskletStepExecutor.resolveTasklet
    split
    · trivial
    · exact (uses_orThrow (uses_request hinvoke)).bind fun _ => trivial
    · trivial
    · exact (Prog.uses_ofExcept _).bind fun _ => trivial
    · trivial
  have hrun : Rel _ (TaskletStepExecutor.runTasklet step context : Code α (Option String))
      (TaskletStepExecutor.runTasklet step context) :=
    hRel.of_uses (hresolve.bind fun _ => uses_orThrow (uses_request htasklet)) (by decide)
      (by decide)
  unfold TaskletStepExecutor.execute
  refine hRel.bind h.before fun _ => hRel.bind (hRel.attempt hrun) fun value => ?_
  refine hRel.bind ?_ fun res => h.after res
  cases value with
  | ok value => exact hRel.pure _
  | error err =>
      refine hRel.bind (h.onError err) fun _ => ?_
      exact hRel.bind (hRel.ofExcept _) fun _ => hRel.pure _

/-! ### The job executor -/

namespace JobExecutor.Run

variable {R : Run} {listeners : List ListenerDefinition}
  (hjob : Exchanged Rel R.jobResolvers (R.hearing listeners).jobResolvers)
  (htasklets : ∀ stepId step stepExecution, R.jobDef.step? stepId = some (.tasklet step) →
    ExchangedFor Rel
      (TaskletStepExecutor.listenerContext step (R.taskletContext stepExecution step))
      R.stepResolvers (R.hearing listeners).stepResolvers)
include hjob htasklets

/-- The dispatch of a step is related. -/
theorem related_dispatch {stepId : String} {step : StepDefinition}
    (hstep : R.jobDef.step? stepId = some step) (fuel : Nat) (stepExecution : StepExecution)
    (resume : Option Int) :
    Rel StepResult (R.dispatch fuel step stepExecution resume)
      ((R.hearing listeners).dispatch fuel step stepExecution resume) := by
  cases step with
  | tasklet step =>
      exact TaskletStepExecutor.related_execute hRel (htasklets stepId step stepExecution hstep)
  | chunk step =>
      exact ChunkStepExecutor.related_execute hRel step (R.chunkContext stepExecution step resume)
        hjob hjob fuel
  | inherited =>
      exact ChunkStepExecutor.related_execute hRel inheritedStep
        (R.chunkContext stepExecution inheritedStep resume) hjob hjob fuel

/-- A run of a step is related. -/
theorem related_runStep {stepId : String} {step : StepDefinition}
    (hstep : R.jobDef.step? stepId = some step) (fuel : Nat) :
    Rel (StepExecution × StepResult) (R.runStep fuel step)
      ((R.hearing listeners).runStep fuel step) := by
  have hquiet {β : Type} {p : Code α β} (hp : p.Uses (On [.clock, .emit, .updateStep, .createStep,
      .findLatestStep, .loadContext, .saveContext])) : Rel β p p :=
    hRel.of_uses hp (by decide) (by decide)
  have hcreate : (createStepExecution R.execution.id step.id : Code α StepExecution).Uses
      (On [.clock, .emit, .updateStep, .createStep, .findLatestStep, .loadContext,
        .saveContext]) := uses_request (by simp [Op.kind])
  unfold runStep
  refine hRel.bind (hquiet (R.uses_restartStepContext (by decide) (by decide) step))
    fun ctx => ?_
  refine hRel.bind (hquiet hcreate) fun stepExecution => ?_
  refine hRel.bind (hquiet (uses_copyContext (by decide) stepExecution ctx)) fun _ => ?_
  refine hRel.bind ?_ fun _ => hRel.pure _
  unfold runCreated
  refine hRel.bind (hquiet (uses_now (by decide))) fun _ => ?_
  refine hRel.bind (hquiet (uses_emit (by decide) _)) fun _ => ?_
  refine hRel.bind ?_ fun result => ?_
  · refine hRel.tryCatch (related_dispatch hRel hjob htasklets hstep fuel stepExecution _)
      fun err => ?_
    refine hRel.bind (hRel.ofExcept _) fun text => ?_
    refine hRel.bind (hquiet (uses_now (by decide))) fun _ => ?_
    exact hRel.bind (hquiet (uses_updateStepExecution (by decide) _ _)) fun _ => hRel.throw _
  · refine hRel.bind (hquiet (uses_now (by decide))) fun _ => ?_
    refine hRel.bind (hquiet (uses_updateStepExecution (by decide) _ _)) fun _ => ?_
    refine hRel.bind (hquiet (uses_now (by decide))) fun _ => ?_
    exact hRel.bind (hquiet (uses_emit (by decide) _)) fun _ => hRel.pure _

/-- **The step loop** with other listeners. -/
theorem related_stepLoop (loopFuel fuel : Nat) (stepId : String) :
    Rel JobStatus (R.stepLoop loopFuel fuel stepId)
      ((R.hearing listeners).stepLoop loopFuel fuel stepId) := by
  have hfail (exitCode exitMessage : String) :
      Rel JobStatus (R.failJob exitCode exitMessage) (R.failJob exitCode exitMessage) :=
    hRel.of_uses (R.uses_failJob (K := [.clock, .updateJob]) (by decide) (by decide) _ _)
      (by decide) (by decide)
  induction fuel generalizing stepId with
  | zero => exact hRel.spin
  | succ fuel ih =>
      unfold stepLoop
      have hstep? : (R.hearing listeners).jobDef.step? stepId = R.jobDef.step? stepId := rfl
      rw [hstep?]
      cases hstep : R.jobDef.step? stepId with
      | none => exact hfail _ _
      | some step =>
          refine hRel.bind (related_runStep hRel hjob htasklets hstep loopFuel) fun ran => ?_
          refine hRel.bind (hRel.of_uses (R.uses_resolveDecider (K := [.decide]) (by decide)
            stepId _) (by decide) (by decide)) fun decider => ?_
          refine hRel.bind (hRel.ofExcept _) fun next => ?_
          cases next with
          | goto next => exact ih next
          | finish => exact hRel.pure _
          | fail => exact hfail _ _

/-- The executor from its step loop on is related. -/
theorem related_proceed (fuel : Nat) :
    Rel JobExecution (R.proceed fuel) ((R.hearing listeners).proceed fuel) := by
  have hquiet {β : Type} {p : Code α β} (hp : p.Uses (On [.clock, .emit, .updateJob, .getJob])) :
      Rel β p p := hRel.of_uses hp (by decide) (by decide)
  have hget : (getJobExecution R.execution.id : Code α (Option JobExecution)).Uses
      (On [.clock, .emit, .updateJob, .getJob]) := uses_request (by simp [Op.kind])
  have hbegin : Rel Unit R.begin_ (R.hearing listeners).begin_ := by
    refine hRel.bind (hquiet (uses_now (by decide))) fun _ => ?_
    refine hRel.bind (hquiet (uses_updateJobExecution (by decide) _ _)) fun _ => ?_
    exact hRel.bind (hquiet (uses_now (by decide))) fun _ => hquiet (uses_emit (by decide) _)
  have hdrive : Rel JobStatus (R.drive fuel) ((R.hearing listeners).drive fuel) := by
    refine hRel.tryCatch ?_ fun err => hquiet (R.uses_onError (by decide) (by decide) err)
    refine hRel.bind (related_stepLoop hRel hjob htasklets fuel fuel _) fun finalStatus => ?_
    exact hquiet (R.uses_completeJob (by decide) (by decide) finalStatus)
  unfold proceed
  refine hRel.bind hbegin fun _ => hRel.bind (hjob.matching _ _) fun _ => ?_
  refine hRel.bind hdrive fun finalStatus => hRel.bind ?_ fun _ => ?_
  · refine hRel.bind (hjob.matching _ _) fun _ => ?_
    exact hRel.bind (hquiet (uses_now (by decide))) fun _ => hquiet (uses_emit (by decide) _)
  · exact hRel.bind (hquiet hget) fun _ => hRel.pure _

end JobExecutor.Run

end Exchange

end NestBatch
