import NestBatch.Core.StepBuilder
import NestBatch.Execution.EventBrackets
import NestBatch.Execution.ListenerExchange

/-!
# Listeners attached to a step

The resolver map of a run has the listeners of the job and no others.  What a step's own
listener should be told is what a listener of the job is told of that step: the calls
that a probe receives, a listener of the job that returns at once and changes nothing.
A listener of a step is told nothing.
-/

namespace NestBatch

open JobExecutor

variable {α β υ : Type}

/-! ### What listeners are told -/

/-- The context in the arguments of a listener; one that is told of a skip has none. -/
def ListenerArgs.context : ListenerArgs α → Option ListenerContext
  | .ctx context => some context
  | .afterJob context _ => some context
  | .afterChunk context _ => some context
  | .onError context _ => some context
  | .afterRead _ context => some context
  | .readError _ context => some context
  | .beforeProcess _ context => some context
  | .afterProcess _ _ context => some context
  | .processError _ _ context => some context
  | .beforeWrite _ context => some context
  | .afterWrite _ _ context => some context
  | .writeError _ _ context => some context
  | .skipRead _ => none
  | .skipProcess _ _ => none
  | .skipWrite _ _ => none

/-- What a call tells a listener. -/
inductive Telling (α : Type)
  | args (args : ListenerArgs α)
  | result (ctx : ListenerContext) (result : StepResult)

/-- The step that is told of. -/
def Telling.stepName : Telling α → Option String
  | .args told => told.context.bind ListenerContext.stepName
  | .result ctx _ => ctx.stepName

/-- The listener that an operation calls. -/
def Op.listener : Op α → Option Handle
  | .user (.listener fn _ _) => some fn
  | .user (.afterStep fn _ _) => some fn
  | _ => none

/-- What an operation tells a listener under a key. -/
def Op.tells (fn : Handle) (key : ListenerKey) : Op α → Option (Telling α)
  | .user (.listener fn' key' args) => if fn' = fn ∧ key' = key then some (.args args) else none
  | .user (.afterStep fn' ctx result) =>
      if fn' = fn ∧ key = .lifecycle .after .step then some (.result ctx result) else none
  | _ => none

/-- What calls tell a listener under a key. -/
def heard (fn : Handle) (key : ListenerKey) (calls : Calls α) : List (Telling α) :=
  calls.filterMap fun c => c.1.tells fn key

/-- A call of another listener tells this one nothing. -/
theorem tells_eq_none {fn : Handle} {o : Op α} (ho : o.listener ≠ some fn) (key : ListenerKey) :
    o.tells fn key = none := by
  cases o with
  | user call =>
      cases call with
      | listener fn' key' args => exact if_neg fun h => ho (congrArg some h.1)
      | afterStep fn' ctx result => exact if_neg fun h => ho (congrArg some h.1)
      | _ => rfl
  | _ => rfl

theorem heard_eq_nil {fn : Handle} {calls : Calls α} (h : ∀ c ∈ calls, c.1.listener ≠ some fn)
    (key : ListenerKey) : heard fn key calls = [] :=
  List.filterMap_eq_nil_iff.mpr fun c hc => tells_eq_none (h c hc) key

/-- Only listener calls are calls of a listener. -/
theorem listener_eq_none {o : Op α} (hlistener : o.kind ≠ .listener)
    (hafterStep : o.kind ≠ .afterStep) : o.listener = none := by
  cases o with
  | user call =>
      cases call with
      | listener => exact absurd rfl hlistener
      | afterStep => exact absurd rfl hafterStep
      | _ => rfl
  | _ => rfl

/-! ### Maps without a listener -/

/-- None of the entries calls the function. -/
def Without (fn : Handle) (A : ResolverMap) : Prop := ∀ e ∈ A, e.2.fn ≠ fn

/-- Operations that do not call the listener, in code that may loop. -/
def sparing (fn : Handle) : Prog.Footprint (Op α) :=
  { ops := fun o => o.listener ≠ some fn, loops := True }

section Without

variable {fn : Handle} {A : ResolverMap}

/-- The entries under some keys, without their failure policy: what becomes of a map on its way to
the tasklet executor, twice. -/
def bareEntries (keep : ListenerKey → Bool) (A : ResolverMap) : ResolverMap :=
  (A.filter fun e => keep e.1).map fun e => (e.1, { fn := e.2.fn })

/-- Bare entries are without every listener that the entries are without. -/
theorem Without.bare (hA : Without fn A) (keep : ListenerKey → Bool) :
    Without fn (bareEntries keep A) := by
  intro e he
  obtain ⟨e', he', rfl⟩ := List.mem_map.mp he
  exact hA e' (List.mem_filter.mp he').1

/-- A job that does not register a listener resolves without it. -/
theorem without_buildResolverMap {jobDef : JobDefinition}
    (h : fn ∉ jobDef.listeners.filterMap resolveListenerRef) :
    Without fn (buildResolverMap jobDef) := by
  intro e he heq
  obtain ⟨listener, hlistener, hentry⟩ := List.mem_filterMap.mp he
  obtain ⟨fn', hfn', rfl⟩ := Option.map_eq_some_iff.mp hentry
  exact h (List.mem_filterMap.mpr ⟨listener, hlistener, hfn'.trans (congrArg some heq)⟩)

namespace ListenerInvoker

/-- Settling an entry calls no listener. -/
theorem uses_sparing_settle (entry : ListenerEntry) (out : Except Thrown Unit) :
    (settle entry out : Code α Unit).Uses (sparing fn) := by
  cases out with
  | ok u => trivial
  | error err => exact .ite (fun _ => Prog.uses_ofExcept _) fun _ => trivial

/-- A round without a listener does not call it. -/
theorem Without.invokeMatching (hA : Without fn A) (key : ListenerKey) (args : ListenerArgs α) :
    (invokeMatching key args A).Uses (sparing fn) := by
  induction A with
  | nil => trivial
  | cons e rest ih =>
      have hrest := ih fun e he => hA e (List.mem_cons_of_mem _ he)
      have hfn : some e.2.fn ≠ some fn := fun h => hA e List.mem_cons_self (Option.some.inj h)
      refine .ite (fun _ => ?_) fun _ => hrest
      exact ⟨hfn, fun _ => (uses_sparing_settle _ _).bind fun _ => hrest⟩

/-- The after:step round without a listener does not call it. -/
theorem Without.invokeAfterStep (hA : Without fn A) (ctx : ListenerContext) (result : StepResult) :
    (invokeAfterStep ctx A result : Code α StepResult).Uses (sparing fn) := by
  induction A generalizing result with
  | nil => trivial
  | cons e rest ih =>
      have hrest := ih fun e he => hA e (List.mem_cons_of_mem _ he)
      have hfn : some e.2.fn ≠ some fn := fun h => hA e List.mem_cons_self (Option.some.inj h)
      refine .ite (fun _ => ?_) fun _ => hrest result
      exact ⟨hfn, fun _ => (uses_sparing_settle _ _).bind fun _ => hrest _⟩

end ListenerInvoker

end Without

/-- Maps whose bare entries may be exchanged may be exchanged for the calls of a tasklet. -/
theorem ExchangedFor.of_bare {Rel : (β : Type) → Code α β → Code α β → Prop} {A B : ResolverMap}
    (h : ∀ keep, Exchanged Rel (bareEntries keep A) (bareEntries keep B)) (ctx : ListenerContext) :
    ExchangedFor Rel ctx A B where
  before := (h fun key => key = .lifecycle .before .step).matching _ _
  onError _ := (h fun key => key = .lifecycle .onError .step).matching _ _
  after _ := (h fun key => key = .lifecycle .after .step).afterStep _ _

/-! ### Runs that spare a listener -/

section Sparing

variable {fn : Handle}

/-- Sparing a listener, as a relation of a program to itself. -/
abbrev Sparing (fn : Handle) : (β : Type) → Code α β → Code α β → Prop :=
  Prog.Diagonal fun _ p => p.Uses (sparing fn)

/-- Sparing a listener is a listener congruence. -/
theorem sparing_congruence (fn : Handle) : ListenerCongruence (Sparing fn : (β : Type) →
    Code α β → Code α β → Prop) where
  toCongruence := Prog.Closed.congruence (Prog.closed_uses trivial)
  ops o hlistener hafterStep := by
    refine ⟨rfl, Prog.uses_perform o |>.mpr ?_⟩
    change o.listener ≠ some fn
    rw [listener_eq_none hlistener hafterStep]
    nofun

/-- Entries without a listener may be exchanged for themselves. -/
theorem Without.exchanged {A : ResolverMap} (hA : Without fn A) :
    Exchanged (Sparing fn : (β : Type) → Code α β → Code α β → Prop) A A where
  matching key args := ⟨rfl, ListenerInvoker.Without.invokeMatching hA key args⟩
  afterStep ctx result := ⟨rfl, ListenerInvoker.Without.invokeAfterStep hA ctx result⟩

/-- **A run calls the listeners of the job only.** -/
theorem JobExecutor.uses_sparing_execute {jobDef : JobDefinition}
    (h : fn ∉ jobDef.listeners.filterMap resolveListenerRef) (fuel : Nat)
    (execution : JobExecution) (partition : PartitionArgs) :
    (execute fuel execution jobDef partition : Code α JobExecution).Uses (sparing fn) := by
  have hA := without_buildResolverMap h
  unfold execute
  refine .ite (fun _ => trivial) fun _ => ?_
  let R : Run := { execution := execution, jobDef := jobDef, partition := partition }
  have hrelated : Sparing fn JobExecution (R.proceed fuel : Code α JobExecution)
      ((R.hearing jobDef.listeners).proceed fuel) := by
    refine R.related_proceed (sparing_congruence fn) hA.exchanged (fun _ _ _ _ => ?_) fuel
    exact .of_bare (fun keep => ((hA.bare isStepKey).bare keep).exchanged) _
  exact hrelated.2

end Sparing

/-! ### The probe -/

/-- The definition of a job-level listener under a key. -/
def ListenerKey.definition (fn : Handle) : ListenerKey → ListenerDefinition
  | .lifecycle phase kind => { kind, phase, ref := { kind := .BuilderLambda, fn := some fn } }
  | .onSkip skipKind =>
      { kind := .skip, phase := .after, skipKind := some skipKind
        ref := { kind := .BuilderLambda, fn := some fn } }

/-- The answers of the probe: it returns at once, and leaves the result of a step as it is. -/
def probeAnswer (probe : Handle) : (o : Op α) → Option o.Resp
  | .user (.listener fn _ _) => if fn = probe then some (.ok ()) else none
  | .user (.afterStep fn _ result) => if fn = probe then some (.ok (), result) else none
  | _ => none

/-- The probe answers its own calls alone. -/
theorem probeAnswer_eq_none {probe : Handle} {o : Op α} (ho : o.listener ≠ some probe) :
    probeAnswer probe o = none := by
  cases o with
  | user call =>
      cases call with
      | listener fn key args => exact if_neg fun h => ho (congrArg some h)
      | afterStep fn ctx result => exact if_neg fun h => ho (congrArg some h)
      | _ => rfl
  | _ => rfl

namespace JobDefinition

/-- A function that no listener of the job calls. -/
def probe (jobDef : JobDefinition) : Handle :=
  (jobDef.listeners.filterMap resolveListenerRef).foldr max 0 + 1

/-- The job with the probe in front of its listeners. -/
def probed (jobDef : JobDefinition) (key : ListenerKey) : JobDefinition :=
  jobDef.hearing (key.definition jobDef.probe :: jobDef.listeners)

/-- The probe is none of the job's listeners. -/
theorem probe_not_mem (jobDef : JobDefinition) :
    jobDef.probe ∉ jobDef.listeners.filterMap resolveListenerRef := by
  have hle : ∀ fns : List Handle, ∀ fn ∈ fns, fn ≤ fns.foldr max 0 := by
    intro fns
    induction fns with
    | nil => nofun
    | cons first rest ih =>
        intro fn hfn
        rw [List.foldr_cons]
        rcases List.mem_cons.mp hfn with rfl | hrest
        · exact Nat.le_max_left _ _
        · exact Nat.le_trans (ih fn hrest) (Nat.le_max_right _ _)
  intro hmem
  exact Nat.not_succ_le_self _ (hle _ _ hmem)

end JobDefinition

section Probe

variable {probe : Handle} {A B : ResolverMap}

/-- The second map is the first, or the first behind an entry of the probe. -/
def Probed (probe : Handle) (A B : ResolverMap) : Prop :=
  B = A ∨ ∃ key entry, entry.fn = probe ∧ B = (key, entry) :: A

/-- Probed entries stay so when they are bared. -/
theorem Probed.bare (h : Probed probe A B) (keep : ListenerKey → Bool) :
    Probed probe (bareEntries keep A) (bareEntries keep B) := by
  rcases h with rfl | ⟨key, entry, hfn, rfl⟩
  · exact Or.inl rfl
  · unfold bareEntries
    by_cases hkey : keep key = true
    · have hkeep : ((key, entry) :: A).filter (fun e => keep e.1) =
          (key, entry) :: A.filter fun e => keep e.1 := List.filter_cons_of_pos hkey
      rw [hkeep]
      exact Or.inr ⟨key, { fn := entry.fn }, hfn, rfl⟩
    · have hdrop : ((key, entry) :: A).filter (fun e => keep e.1) =
          A.filter fun e => keep e.1 := List.filter_cons_of_neg hkey
      rw [hdrop]
      exact Or.inl rfl

/-- The probe put into a program. -/
abbrev WithProbe (probe : Handle) : (β : Type) → Code α β → Code α β → Prop :=
  fun _ p p' => Prog.Inserted (probeAnswer probe) p p'

/-- Adding a probe is a listener congruence. -/
theorem withProbe_congruence (probe : Handle) :
    ListenerCongruence (WithProbe probe : (β : Type) → Code α β → Code α β → Prop) where
  toCongruence := Prog.inserted_congruence _
  ops o hlistener hafterStep := by
    refine .op (probeAnswer_eq_none ?_) fun r => .pure r
    rw [listener_eq_none hlistener hafterStep]
    nofun

/-- A program that spares the probe is itself with the probe put in nowhere. -/
theorem withProbe_of_uses {p : Code α β} (hp : p.Uses (sparing probe)) : WithProbe probe β p p := by
  refine (withProbe_congruence probe).toCongruence.of_uses hp fun o ho => ?_
  exact .op (probeAnswer_eq_none ho) fun r => .pure r

/-- Probed entries may be exchanged for the bare ones. -/
theorem Probed.exchanged (hA : Without probe A) (h : Probed probe A B) :
    Exchanged (WithProbe probe : (β : Type) → Code α β → Code α β → Prop) A B := by
  rcases h with rfl | ⟨key', entry, hfn, rfl⟩
  · exact
      { matching := fun key args =>
          withProbe_of_uses (ListenerInvoker.Without.invokeMatching hA key args)
        afterStep := fun ctx result =>
          withProbe_of_uses (ListenerInvoker.Without.invokeAfterStep hA ctx result) }
  · constructor
    · intro key args
      have hrest := withProbe_of_uses (ListenerInvoker.Without.invokeMatching hA key args)
      change WithProbe probe Unit _ (ite (key' = key) _ _)
      by_cases hkey : key' = key
      · rw [if_pos hkey]
        exact .extra (if_pos hfn) hrest
      · rw [if_neg hkey]
        exact hrest
    · intro ctx result
      have hrest : WithProbe probe StepResult
          (ListenerInvoker.invokeAfterStep ctx A result : Code α StepResult)
          (ListenerInvoker.invokeAfterStep ctx A result) :=
        withProbe_of_uses (ListenerInvoker.Without.invokeAfterStep hA ctx result)
      change WithProbe probe StepResult _ (ite (key' = .lifecycle .after .step) _ _)
      by_cases hkey : key' = .lifecycle .after .step
      · rw [if_pos hkey]
        exact .extra (if_pos hfn) hrest
      · rw [if_neg hkey]
        exact hrest

/-- A probed job resolves to probed entries. -/
theorem probed_buildResolverMap (jobDef : JobDefinition) (key : ListenerKey) :
    Probed jobDef.probe (buildResolverMap jobDef) (buildResolverMap (jobDef.probed key)) := by
  cases key with
  | lifecycle phase kind => exact Or.inr ⟨_, _, rfl, rfl⟩
  | onSkip skipKind => exact Or.inr ⟨_, _, rfl, rfl⟩

/-- **The probe changes nothing**: a run with the probe performs the operations of the run without
it, and the calls of the probe. -/
theorem JobExecutor.withProbe_execute (fuel : Nat) (execution : JobExecution)
    (jobDef : JobDefinition) (partition : PartitionArgs) (key : ListenerKey) :
    WithProbe jobDef.probe JobExecution
      (execute fuel execution jobDef partition : Code α JobExecution)
      (execute fuel execution (jobDef.probed key) partition) := by
  have hA := without_buildResolverMap jobDef.probe_not_mem
  have hB := probed_buildResolverMap jobDef key
  unfold execute
  change WithProbe _ _ (ite (isRestart execution = true ∧ jobDef.restartable = false) _ _)
    (ite (isRestart execution = true ∧ jobDef.restartable = false) _ _)
  split
  · exact .throw _
  · let R : Run := { execution := execution, jobDef := jobDef, partition := partition }
    refine R.related_proceed (withProbe_congruence _) (hB.exchanged hA) (fun _ _ _ _ => ?_) fuel
    exact .of_bare (fun keep =>
      ((hB.bare isStepKey).bare keep).exchanged ((hA.bare isStepKey).bare keep)) _

end Probe

/-! ### What the listeners of steps hear -/

namespace JobExecutor

section Points

variable (env : Environment α υ) (fuel : Nat) (execution : JobExecution) (jobDef : JobDefinition)
  (partition : PartitionArgs) (w : World υ)

/-- A run with the calls it makes. -/
def tracedExecute : Prog.Outcome Thrown JobExecution × World υ × Calls α :=
  (execute fuel execution jobDef partition).run (handle env).traced (w, [])

/-- The same run with the probe under a key. -/
def probedExecute (key : ListenerKey) : Prog.Outcome Thrown JobExecution × World υ × Calls α :=
  (execute fuel execution (jobDef.probed key) partition).run
    ((handle env).answering (probeAnswer jobDef.probe)).traced (w, [])

/-- The lifecycle points of a run that match a key: what the probe hears. -/
def lifecyclePoints (key : ListenerKey) : List (Telling α) :=
  heard jobDef.probe key (probedExecute env fuel execution jobDef partition w key).2.2

/-- The run with the probe is the run without it, the calls of the probe apart. -/
theorem probedExecute_eq (key : ListenerKey) :
    (probedExecute env fuel execution jobDef partition w key).1 =
        (tracedExecute env fuel execution jobDef partition w).1 ∧
      (probedExecute env fuel execution jobDef partition w key).2.1 =
        (tracedExecute env fuel execution jobDef partition w).2.1 ∧
      Prog.ownCalls (probeAnswer jobDef.probe)
          (probedExecute env fuel execution jobDef partition w key).2.2 =
        (tracedExecute env fuel execution jobDef partition w).2.2 :=
  (withProbe_execute fuel execution jobDef partition key).run (handle env) w rfl

variable {fuel execution jobDef partition}

/-- A function that no listener of the job calls hears nothing. -/
theorem heard_eq_nil_of_not_mem {fn : Handle}
    (h : fn ∉ jobDef.listeners.filterMap resolveListenerRef) (key : ListenerKey) :
    heard fn key (tracedExecute env fuel execution jobDef partition w).2.2 = [] := by
  have hnone : ∀ c ∈ ([] : Calls α), (sparing fn).ops c.1 := by
    intro c hc
    cases hc
  have hcalls := Prog.calls_of_uses (uses_sparing_execute h fuel execution partition)
    (handle env) w hnone
  exact heard_eq_nil hcalls key

end Points

/-- The attached listeners that are to be told: those of the function under the key, and of the
step that is told of. -/
def Addressed (fn : Handle) (key : ListenerKey) (told : Telling α) (a : Attachment) : Prop :=
  a.held = true ∧ resolveListenerRef a.listener = some fn ∧ listenerKey a.listener = key ∧
    told.stepName = some a.stepId

instance (fn : Handle) (key : ListenerKey) (told : Telling α) (a : Attachment) :
    Decidable (Addressed fn key told a) :=
  inferInstanceAs (Decidable (_ ∧ _ ∧ _ ∧ _))

/-- What the listeners attached to steps ought to hear at the points of a run: each those of its
own step. -/
def dueTo (attached : List Attachment) (fn : Handle) (key : ListenerKey)
    (points : List (Telling α)) : List (Telling α) :=
  points.flatMap fun told => List.replicate (attached.countP fun a => Addressed fn key told a) told

/-- The functions of attached listeners that are no listener of the job besides. -/
def stepFunctions (calls : List JobCall) : List Handle :=
  ((attachments calls).filterMap fun a => resolveListenerRef a.listener).filter fun fn =>
    fn ∉ (calls.flatMap JobCall.jobListeners).filterMap resolveListenerRef

section Heard

variable (env : Environment α υ) (fuel : Nat) (execution : JobExecution) (calls : List JobCall)
  (jobDef : JobDefinition) (partition : PartitionArgs) (w : World υ)

/-- **Every listener of a step is heard** in a run: it is called at the matching lifecycle points of
its own step, and at no others. -/
def StepListenersHeard : Prop :=
  ∀ fn ∈ stepFunctions calls, ∀ key,
    heard fn key (tracedExecute env fuel execution jobDef partition w).2.2 =
      dueTo (attachments calls) fn key (lifecyclePoints env fuel execution jobDef partition w key)

/-- No step with a listener of its own comes to a lifecycle point of the kind and phase of the
listener. -/
def NoOwnPointReached : Prop :=
  ∀ a ∈ attachments calls, a.held = true → ∀ fn ∈ stepFunctions calls,
    resolveListenerRef a.listener = some fn →
      ∀ told ∈ lifecyclePoints env fuel execution jobDef partition w (listenerKey a.listener),
        told.stepName ≠ some a.stepId

end Heard

/-- A listener is due nothing exactly when no point addresses it. -/
theorem dueTo_eq_nil_iff {attached : List Attachment} {fn : Handle} {key : ListenerKey}
    {points : List (Telling α)} :
    dueTo attached fn key points = [] ↔
      ∀ told ∈ points, ∀ a ∈ attached, ¬ Addressed fn key told a := by
  unfold dueTo
  rw [List.flatMap_eq_nil_iff]
  refine forall₂_congr fun told _ => ?_
  rw [List.replicate_eq_nil_iff, List.countP_eq_zero]
  exact forall₂_congr fun a _ => not_congr decide_eq_true_iff

/-- Where the run comes to such a point, the listener is not heard. -/
theorem stepListenersHeard_iff_of_listeners {env : Environment α υ} {fuel : Nat}
    {execution : JobExecution} {calls : List JobCall} {jobDef : JobDefinition}
    {partition : PartitionArgs} {w : World υ}
    (hjob : jobDef.listeners = calls.flatMap JobCall.jobListeners) :
    StepListenersHeard env fuel execution calls jobDef partition w ↔
      NoOwnPointReached env fuel execution calls jobDef partition w := by
  have hnothing : ∀ fn ∈ stepFunctions calls, ∀ key,
      heard fn key (tracedExecute env fuel execution jobDef partition w).2.2 = [] := by
    intro fn hfn
    have hfree := (List.mem_filter.mp hfn).2
    rw [← hjob] at hfree
    exact heard_eq_nil_of_not_mem env w (of_decide_eq_true hfree)
  constructor
  · intro hheard a ha hheld fn hfn hresolve told htold hname
    have hdue := (hheard fn hfn (listenerKey a.listener)).symm.trans (hnothing fn hfn _)
    exact dueTo_eq_nil_iff.mp hdue told htold a ha ⟨hheld, hresolve, rfl, hname⟩
  · intro hreach fn hfn key
    rw [hnothing fn hfn key]
    refine (dueTo_eq_nil_iff.mpr fun told htold a ha haddressed => ?_).symm
    obtain ⟨hheld, hresolve, rfl, hname⟩ := haddressed
    exact hreach a ha hheld fn hfn hresolve told htold hname

/-- **When the listeners of steps are heard**: only where there is nothing to be heard. -/
theorem step_listeners_heard_iff (fields : StepDefinition → List String) (id : String)
    (calls : List JobCall) (job : CompiledJob)
    (hjob : DefinitionCompiler.compileJobCalls fields id calls = .ok job)
    (env : Environment α υ) (fuel : Nat) (execution : JobExecution) (partition : PartitionArgs)
    (w : World υ) :
    StepListenersHeard env fuel execution calls job.definition partition w ↔
      NoOwnPointReached env fuel execution calls job.definition partition w :=
  stepListenersHeard_iff_of_listeners (DefinitionCompiler.compileJobCalls_listeners hjob)

/-- Two tasklet steps, the first with a listener of its own. -/
def tidyCalls (kind : ListenerKind) : List JobCall :=
  [.step [.tasklet "tidy" { kind := .BuilderLambda, fn := some 1 },
      .addListener { kind := .BuilderLambda, fn := some 4 } kind .before none],
    .step [.tasklet "upload" { kind := .BuilderLambda, fn := some 2 }],
    .other (.fromStep "tidy"), .other (.onStatus "COMPLETED"), .other (.toStep "upload")]

def tidyJob : CompiledJob :=
  DefinitionCompiler.compiled
    [DefinitionCompiler.taskletStep "tidy" 1, DefinitionCompiler.taskletStep "upload" 2] "tidy"
    [{ fromStepId := "tidy", onStatus := "COMPLETED", toStepId := some "upload" }]

/-- The tidy calls compile to the tidy job. -/
theorem compileJobCalls_tidy (kind : ListenerKind) :
    DefinitionCompiler.compileJobCalls DefinitionCompiler.taskletFields "nightly"
      (tidyCalls kind) = .ok tidyJob := by
  have hupload : arrayIndex? "upload" = none := rfl
  apply DefinitionCompiler.compileCalls_of_listed tidyJob.steps.own rfl rfl
  · apply (JsRecord.listed_eq_self_iff _).mpr
    refine List.pairwise_pair.mpr ?_
    intro n hn
    change n ∈ arrayIndex? "upload" at hn
    rw [hupload] at hn
    cases hn
  · rfl

/-- A tasklet step comes to no point of a chunk: its listener has nothing to hear. -/
theorem step_listeners_heard_tidy :
    StepListenersHeard (willing ([] : List Nat)) 5 (InMemoryJobRepository.newExecution "r" "" [])
      (tidyCalls .chunk) tidyJob.definition {} JobLauncher.pairsCreated := by
  refine (step_listeners_heard_iff _ _ _ _ (compileJobCalls_tidy .chunk) _ _ _ _ _).mpr ?_
  intro a ha _ fn _ _ told htold
  have hkey : ∀ a ∈ attachments (tidyCalls .chunk),
      listenerKey a.listener = .lifecycle .before .chunk := by decide
  have hnone : (lifecyclePoints (willing ([] : List Nat)) 5
      (InMemoryJobRepository.newExecution "r" "" []) tidyJob.definition {}
      JobLauncher.pairsCreated (.lifecycle .before .chunk)).length = 0 := by decide +kernel
  rw [hkey a ha, List.eq_nil_of_length_eq_zero hnone] at htold
  cases htold

/-- **A listener of a step is not heard**: the step is run, and a listener of the job would be
told. -/
theorem step_listener_unheard :
    ∃ job, DefinitionCompiler.compileJobCalls DefinitionCompiler.taskletFields "nightly"
        (tidyCalls .step) = .ok job ∧
      ¬ StepListenersHeard (willing ([] : List Nat)) 5
        (InMemoryJobRepository.newExecution "r" "" []) (tidyCalls .step) job.definition {}
        JobLauncher.pairsCreated := by
  refine ⟨tidyJob, compileJobCalls_tidy .step, fun hheard => ?_⟩
  have hpoints : (lifecyclePoints (willing ([] : List Nat)) 5
      (InMemoryJobRepository.newExecution "r" "" []) tidyJob.definition {}
      JobLauncher.pairsCreated (.lifecycle .before .step)).map Telling.stepName =
        [some "tidy", some "upload"] := by decide +kernel
  have htidy : some "tidy" ∈ [some "tidy", some "upload"] := List.mem_cons_self
  rw [← hpoints] at htidy
  obtain ⟨told, htold, hname⟩ := List.mem_map.mp htidy
  have hreach := (stepListenersHeard_iff_of_listeners
    (DefinitionCompiler.compileJobCalls_listeners (compileJobCalls_tidy .step))).mp hheard
  exact hreach { stepId := "tidy", held := true
                 listener := ListenerKey.definition 4 (.lifecycle .before .step) }
    (by decide) rfl 4 (by decide) rfl told htold hname

end JobExecutor

end NestBatch
