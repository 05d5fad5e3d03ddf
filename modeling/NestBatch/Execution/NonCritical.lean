import NestBatch.Lib.Amend
import NestBatch.Execution.StepsSettled
import NestBatch.Execution.ListenerExchange

/-!
# Listeners that are not critical

A run in which such listeners throw is compared with the run in which they return
instead.  The executors ignore the difference, except where a step is a tasklet: its
listeners lose the flag on their way to the executor and count as critical.
-/

namespace NestBatch

open JobExecutor ListenerInvoker

variable {α β υ : Type}

/-! ### Forgiving a listener -/

/-- What becomes of a throw that is forgiven: nothing, unless its error cannot be quoted in the
warning. -/
def hush : Except Thrown Unit → Except Thrown Unit
  | .ok () => .ok ()
  | .error err => if (warn err).isOk then .ok () else .error err

/-- The answers of the given calls of listeners, had they not thrown what can be quoted. -/
def forgive (q : UserCall α → Bool) : Prog.Amendment (Op α) Op.Resp
  | .user (.listener fn key args), r => if q (.listener fn key args) then hush r else r
  | .user (.afterStep fn ctx result), r =>
      if q (.afterStep fn ctx result) then (hush (Prod.fst r), Prod.snd r) else r
  | _, r => r

/-- The environment in which these calls do not throw: they do and leave all else as before. -/
def Environment.forgiving (q : UserCall α → Bool) (env : Environment α υ) : Environment α υ where
  user call user ctx :=
    let (r, user', saves) := env.user call user ctx
    (forgive q (.user call) r, user', saves)
  broker := env.broker

/-- What a listener answers that returns without effect. -/
def UserCall.idle : (call : UserCall α) → call.Resp → call.Resp
  | .listener _ _ _, _ => .ok ()
  | .afterStep _ _ result, _ => (.ok (), result)
  | _, r => r

/-- The environment in which these calls return without effect wherever they would throw. -/
def Environment.idling (q : UserCall α → Bool) (env : Environment α υ) : Environment α υ where
  user call user ctx :=
    let (r, user', saves) := env.user call user ctx
    if q call && (call.thrown r).isSome then (call.idle r, user, []) else (r, user', saves)
  broker := env.broker

/-- The call leaves the live result as it was told. -/
def UserCall.KeepsResult : (call : UserCall α) → call.Resp → Prop
  | .afterStep _ _ result, r => Prod.snd r = result
  | _, _ => True

/-- Where these calls throw, they throw what has a string form, and do nothing else: they leave the
live result, the contexts and all state as they are. -/
def Environment.MerelyThrows (q : UserCall α → Bool) (env : Environment α υ) : Prop :=
  ∀ call user ctx err, q call = true → call.thrown (env.user call user ctx).1 = some err →
    err.HasText ∧ call.KeepsResult (env.user call user ctx).1 ∧
      (env.user call user ctx).2 = (user, [])

/-- An error with a text is hushed. -/
theorem hush_of_hasText {err : Thrown} (h : err.HasText) : hush (.error err) = .ok () := by
  obtain ⟨text, htext⟩ := h
  have hwarn : warn err = .ok () := warn_eq_ok.mpr ⟨text, htext⟩
  have hok : (warn err).isOk = true := by
    rw [hwarn]
    rfl
  exact if_pos hok

section Forgive

variable {q : UserCall α → Bool}

/-- Nothing is forgiven to a call that does not throw. -/
theorem forgive_of_returned {call : UserCall α} {r : call.Resp} (h : call.thrown r = none) :
    forgive q (.user call) r = r := by
  cases call with
  | listener fn key args =>
      rcases r with err | ⟨⟩
      · cases h
      · exact ite_self _
  | afterStep fn told result =>
      obtain ⟨err | ⟨⟩, left⟩ := r
      · cases h
      · exact ite_self _
  | _ => rfl

/-- A call that merely throws is forgiven by returning. -/
theorem forgive_of_thrown {call : UserCall α} {r : call.Resp} {err : Thrown} (hq : q call = true)
    (hthrown : call.thrown r = some err) (htext : err.HasText) (hkept : call.KeepsResult r) :
    forgive q (.user call) r = call.idle r := by
  cases call with
  | listener fn key args =>
      rcases r with err' | ⟨⟩
      · cases hthrown
        exact (if_pos hq).trans (hush_of_hasText htext)
      · cases hthrown
  | afterStep fn told result =>
      obtain ⟨err' | ⟨⟩, left⟩ := r
      · cases hthrown
        have hleft : left = result := hkept
        subst hleft
        exact (if_pos hq).trans (congrArg (·, left) (hush_of_hasText htext))
      · cases hthrown
  | _ => rfl

/-- A call that is not asked to be forgiven keeps its answer. -/
theorem forgive_of_not {call : UserCall α} (hq : q call = false) (r : call.Resp) :
    forgive q (.user call) r = r := by
  have hnot : ¬ q call = true := Bool.eq_false_iff.mp hq
  cases call with
  | listener fn key args => exact if_neg hnot
  | afterStep fn told result => exact if_neg hnot
  | _ => rfl

/-- **To return without effect is to be forgiven**, for listeners that merely throw. -/
theorem Environment.MerelyThrows.idling_eq {env : Environment α υ} (h : env.MerelyThrows q) :
    env.idling q = env.forgiving q := by
  have huser : (env.idling q).user = (env.forgiving q).user := by
    funext call user ctx
    have hcall := h call user ctx
    unfold idling forgiving
    dsimp only
    cases hq : q call with
    | false => rw [forgive_of_not hq, Bool.false_and, if_neg Bool.false_ne_true]
    | true =>
        rw [Bool.true_and]
        cases hthrown : call.thrown (env.user call user ctx).1 with
        | none =>
            rw [forgive_of_returned hthrown]
            exact if_neg Bool.false_ne_true
        | some err =>
            obtain ⟨htext, hkept, hrest⟩ := hcall err hq hthrown
            rw [forgive_of_thrown hq hthrown htext hkept]
            have hidle := congrArg (Prod.mk (call.idle (env.user call user ctx).1)) hrest.symm
            exact (if_pos rfl).trans hidle
  exact congrArg (fun user => (⟨user, env.broker⟩ : Environment α υ)) huser

end Forgive

/-- The forgiving environment amends the answers of the other. -/
theorem handle_forgiving (q : UserCall α → Bool) (env : Environment α υ) :
    handle (env.forgiving q) = (handle env).amended (forgive q) := by
  funext o w
  cases o with
  | user call => cases call <;> rfl
  | enqueue payload => rfl
  | _ => rfl

theorem forgive_of_kind {q : UserCall α → Bool} {o : Op α} (hlistener : o.kind ≠ .listener)
    (hafterStep : o.kind ≠ .afterStep) (r : o.Resp) : forgive q o r = r := by
  cases o with
  | user call =>
      cases call with
      | listener => exact absurd rfl hlistener
      | afterStep => exact absurd rfl hafterStep
      | _ => rfl
  | _ => rfl

section Ignores

variable {q : UserCall α → Bool}

/-- Ignoring whether a listener throws, as a relation of a program to itself. -/
abbrev Forgiving (q : UserCall α → Bool) : (β : Type) → Code α β → Code α β → Prop :=
  Prog.Diagonal fun _ p => p.Ignores (forgive q)

/-- Forgiving is a listener congruence. -/
theorem forgiving_congruence (q : UserCall α → Bool) : ListenerCongruence (Forgiving q) where
  toCongruence := Prog.Closed.congruence (Prog.closed_ignores _)
  ops _ hlistener hafterStep :=
    ⟨rfl, fun r => ⟨congrArg _ (forgive_of_kind hlistener hafterStep r), trivial⟩⟩

/-- Whichever call is forgiven, the entry is not critical. -/
structure ListenerEntry.Lenient (q : UserCall α → Bool) (key : ListenerKey)
    (entry : ListenerEntry) :
    Prop where
  listener : ∀ args, q (.listener entry.fn key args) = true → entry.nonCritical = true
  afterStep : key = .lifecycle .after .step → ∀ ctx result,
    q (.afterStep entry.fn ctx result) = true → entry.nonCritical = true

/-- The same of all entries of a resolver map. -/
def Lenient (q : UserCall α → Bool) (resolvers : ResolverMap) : Prop :=
  ∀ e ∈ resolvers, e.2.Lenient q e.1

namespace ListenerInvoker

/-- An entry that is not critical makes nothing of what it throws and can be quoted. -/
theorem settle_hush {entry : ListenerEntry} (hentry : entry.nonCritical = true)
    (out : Except Thrown Unit) : (settle entry (hush out) : Code α Unit) = settle entry out := by
  rcases out with err | ⟨⟩
  · by_cases hok : (warn err).isOk = true
    · have hhush : hush (.error err) = .ok () := if_pos hok
      have hwarn : warn err = .ok () := by
        cases h : warn err with
        | ok u => rfl
        | error err' =>
            rw [h] at hok
            cases hok
      have hsettle : (settle entry (.error err) : Code α Unit) = .ofExcept (warn err) :=
        if_pos hentry
      rw [hhush, hsettle, hwarn]
      rfl
    · have hhush : hush (.error err) = .error err := if_neg hok
      rw [hhush]
  · rfl

/-- Settling an entry ignores what is forgiven. -/
theorem ignores_settle (entry : ListenerEntry) (out : Except Thrown Unit) :
    (settle entry out : Code α Unit).Ignores (forgive q) :=
  ((forgiving_congruence q).of_uses (uses_settle (K := []) entry out) (by decide) (by decide)).2

/-- Where only nonCritical entries are forgiven, a round of listeners ignores it. -/
theorem ignores_invokeMatching_of {key : ListenerKey} {args : ListenerArgs α}
    {resolvers : ResolverMap} (h : ∀ e ∈ resolvers, e.1 = key →
      q (.listener e.2.fn key args) = true → e.2.nonCritical = true) :
    (invokeMatching key args resolvers).Ignores (forgive q) := by
  induction resolvers with
  | nil => trivial
  | cons e rest ih =>
      obtain ⟨k, entry⟩ := e
      have hrest := ih fun e he => h e (List.mem_cons_of_mem _ he)
      unfold invokeMatching
      by_cases hk : k = key
      · rw [if_pos hk]
        intro r
        constructor
        · by_cases hq : q (.listener entry.fn key args) = true
          · have hentry : entry.nonCritical = true := h (k, entry) List.mem_cons_self hk hq
            have hforgiven : forgive q (.user (.listener entry.fn key args)) r = hush r := if_pos hq
            rw [hforgiven]
            exact congrArg (· >>= fun _ => invokeMatching key args rest) (settle_hush hentry r)
          · have hsame : forgive q (.user (.listener entry.fn key args)) r = r := if_neg hq
            rw [hsame]
        · exact (ignores_settle entry r).bind fun _ => hrest
      · rw [if_neg hk]
        exact hrest

/-- Where only nonCritical entries are forgiven, the after:step round ignores it. -/
theorem ignores_invokeAfterStep_of {ctx : ListenerContext} {resolvers : ResolverMap}
    (h : ∀ e ∈ resolvers, e.1 = .lifecycle .after .step → ∀ result,
      q (.afterStep e.2.fn ctx result) = true → e.2.nonCritical = true) (result : StepResult) :
    (invokeAfterStep ctx resolvers result : Code α StepResult).Ignores (forgive q) := by
  induction resolvers generalizing result with
  | nil => trivial
  | cons e rest ih =>
      obtain ⟨k, entry⟩ := e
      have hrest := ih fun e he => h e (List.mem_cons_of_mem _ he)
      unfold invokeAfterStep
      by_cases hk : k = .lifecycle .after .step
      · rw [if_pos hk]
        intro r
        constructor
        · by_cases hq : q (.afterStep entry.fn ctx result) = true
          · have hentry : entry.nonCritical = true := h (k, entry) List.mem_cons_self hk result hq
            have hforgiven : forgive q (.user (.afterStep entry.fn ctx result)) r =
                (hush (Prod.fst r), Prod.snd r) := if_pos hq
            rw [hforgiven]
            exact congrArg (· >>= fun _ => invokeAfterStep ctx rest (Prod.snd r))
              (settle_hush hentry _)
          · have hsame : forgive q (.user (.afterStep entry.fn ctx result)) r = r := if_neg hq
            rw [hsame]
        · exact (ignores_settle entry _).bind fun _ => hrest _
      · rw [if_neg hk]
        exact hrest result

end ListenerInvoker

open ListenerInvoker

/-- A map of lenient entries may be exchanged for itself. -/
theorem exchanged_of_lenient {resolvers : ResolverMap} (h : Lenient q resolvers) :
    Exchanged (Forgiving q) resolvers resolvers where
  matching key args := by
    refine ⟨rfl, ignores_invokeMatching_of ?_⟩
    intro e he hkey hq
    subst hkey
    exact (h e he).listener args hq
  afterStep ctx result :=
    ⟨rfl, ignores_invokeAfterStep_of (fun e he hkey result => (h e he).afterStep hkey ctx result)
      result⟩

/-- No listener that is told of the step with this context is forgiven. -/
structure Spares (q : UserCall α → Bool) (ctx : ListenerContext) : Prop where
  before : ∀ fn, q (.listener fn (.lifecycle .before .step) (.ctx ctx)) = false
  onError : ∀ fn err, q (.listener fn (.lifecycle .onError .step) (.onError ctx err)) = false
  afterStep : ∀ fn result, q (.afterStep fn ctx result) = false

/-- **The tasklet executor** takes all its listeners for critical, so none may be forgiven. -/
theorem exchangedFor_of_spares {ctx : ListenerContext} (h : Spares q ctx)
    (resolvers : ResolverMap) : ExchangedFor (Forgiving q) ctx resolvers resolvers := by
  have hno {c : Bool} {p : Prop} (hc : c = false) (hc' : c = true) : p := by
    rw [hc] at hc'
    cases hc'
  constructor
  · exact ⟨rfl, ignores_invokeMatching_of fun e _ _ hq => hno (h.before _) hq⟩
  · exact fun err => ⟨rfl, ignores_invokeMatching_of fun e _ _ hq => hno (h.onError _ err) hq⟩
  · exact fun result => ⟨rfl, ignores_invokeAfterStep_of
      (fun e _ _ result hq => hno (h.afterStep _ result) hq) result⟩

/-- **A run ignores who is forgiven**, if its listeners are lenient and those of a tasklet step
are spared. -/
theorem JobExecutor.Run.ignores_proceed {R : Run} (hjob : Lenient q R.jobResolvers)
    (hspares : ∀ stepId step stepExecution, R.jobDef.step? stepId = some (.tasklet step) →
      Spares q (TaskletStepExecutor.listenerContext step (R.taskletContext stepExecution step)))
    (fuel : Nat) : (R.proceed fuel : Code α JobExecution).Ignores (forgive q) := by
  have hrelated : Forgiving q JobExecution (R.proceed fuel)
      ((R.hearing R.jobDef.listeners).proceed fuel) :=
    R.related_proceed (forgiving_congruence q) (exchanged_of_lenient hjob)
      (fun stepId step stepExecution hstep =>
        exchangedFor_of_spares (hspares stepId step stepExecution hstep) _) fuel
  exact hrelated.2

end Ignores

/-! ### Listeners that are declared non-critical -/

/-- The name of the step that a listener is told of. -/
def ListenerArgs.stepName? : ListenerArgs α → Option String
  | .ctx context => context.stepName
  | .onError context _ => context.stepName
  | _ => none

/-- Whether a step of this name is a tasklet. -/
def JobDefinition.isTasklet (jobDef : JobDefinition) (name : Option String) : Bool :=
  jobDef.steps.values.any fun
    | .tasklet step => name = some step.id
    | _ => false

/-- The calls of some listeners, except those that tell of a tasklet step. -/
def toldOfChunks (jobDef : JobDefinition) (quiet : ListenerKey → Handle → Bool) :
    UserCall α → Bool
  | .listener fn key args => quiet key fn && !(isStepKey key && jobDef.isTasklet args.stepName?)
  | .afterStep fn ctx _ =>
      quiet (.lifecycle .after .step) fn && !jobDef.isTasklet ctx.stepName
  | _ => false

/-- The listeners in `quiet` are declared non-critical. -/
def DeclaredNonCritical (jobDef : JobDefinition) (quiet : ListenerKey → Handle → Bool) : Prop :=
  ∀ listener ∈ jobDef.listeners, ∀ fn, resolveListenerRef listener = some fn →
    quiet (listenerKey listener) fn = true → listener.nonCritical = some true

/-- A step that is found as a tasklet step is one. -/
theorem isTasklet_of_step? {jobDef : JobDefinition} {stepId : String} {step : TaskletStepDefinition}
    (h : jobDef.step? stepId = some (.tasklet step)) : jobDef.isTasklet (some step.id) = true := by
  have hget : jobDef.steps.get? stepId = some (.tasklet step) := by
    unfold JobDefinition.step? at h
    cases hget : jobDef.steps.get? stepId with
    | some found =>
        rw [hget] at h
        exact h
    | none =>
        rw [hget] at h
        dsimp only at h
        split at h
        · cases h
        · cases h
  have hmem : .tasklet step ∈ jobDef.steps.values :=
    (jobDef.steps.mem_values_iff _).mpr ⟨stepId, hget⟩
  exact List.any_eq_true.mpr ⟨_, hmem, decide_eq_true rfl⟩

section Declared

variable {jobDef : JobDefinition} {quiet : ListenerKey → Handle → Bool}

/-- Listeners that are declared nonCritical make lenient resolvers. -/
theorem lenient_buildResolverMap (h : DeclaredNonCritical jobDef quiet) :
    Lenient (toldOfChunks jobDef quiet : UserCall α → Bool) (buildResolverMap jobDef) := by
  intro e he
  obtain ⟨listener, hlistener, hentry⟩ := List.mem_filterMap.mp he
  obtain ⟨fn, hfn, rfl⟩ := Option.map_eq_some_iff.mp hentry
  have hflag (hquiet : quiet (listenerKey listener) fn = true) :
      listener.nonCritical.getD false = true := by
    rw [h listener hlistener fn hfn hquiet]
    rfl
  constructor
  · intro args hq
    exact hflag (Bool.and_eq_true_iff.mp hq).1
  · intro hkey ctx result hq
    have hkey' : listenerKey listener = .lifecycle .after .step := hkey
    refine hflag ?_
    rw [hkey']
    exact (Bool.and_eq_true_iff.mp hq).1

/-- A tasklet step is spared by what is told of chunk steps. -/
theorem spares_tasklet {stepId : String} {step : TaskletStepDefinition}
    (hstep : jobDef.step? stepId = some (.tasklet step)) {ctx : ListenerContext}
    (hname : ctx.stepName = some step.id) :
    Spares (toldOfChunks jobDef quiet : UserCall α → Bool) ctx := by
  have htasklet : jobDef.isTasklet ctx.stepName = true := by
    rw [hname]
    exact isTasklet_of_step? hstep
  constructor
  · intro fn
    change (_ && !(true && jobDef.isTasklet ctx.stepName)) = false
    rw [htasklet]
    exact Bool.and_false _
  · intro fn err
    change (_ && !(true && jobDef.isTasklet ctx.stepName)) = false
    rw [htasklet]
    exact Bool.and_false _
  · intro fn result
    change (_ && !jobDef.isTasklet ctx.stepName) = false
    rw [htasklet]
    exact Bool.and_false _

end Declared

/-- **Listeners that are declared non-critical do no harm**, except where they are told of a tasklet
step: the run in which they throw what has a string form comes to the same end, in the same world
and with the same calls, as the run in which they return instead, what they did before the throw
left in place; and so, where they do nothing but throw, as the run in which they return without
effect. -/
theorem JobExecutor.nonCritical_harmless (env env' : Environment α υ) (fuel : Nat)
    (execution : JobExecution) (jobDef : JobDefinition) (partition : PartitionArgs) (w : World υ)
    (quiet : ListenerKey → Handle → Bool) (hquiet : DeclaredNonCritical jobDef quiet)
    (hreturn : env' = env.forgiving (toldOfChunks jobDef quiet) ∨
      env.MerelyThrows (toldOfChunks jobDef quiet) ∧
        env' = env.idling (toldOfChunks jobDef quiet)) :
    (execute fuel execution jobDef partition).run (handle env').traced (w, []) =
      (((execute fuel execution jobDef partition).run (handle env).traced (w, [])).1,
        ((execute fuel execution jobDef partition).run (handle env).traced (w, [])).2.1,
        Prog.amendCalls (forgive (toldOfChunks jobDef quiet))
          ((execute fuel execution jobDef partition).run (handle env).traced (w, [])).2.2) := by
  have hforgiven : env' = env.forgiving (toldOfChunks jobDef quiet) := by
    rcases hreturn with hforgiving | ⟨hmerely, hidling⟩
    · exact hforgiving
    · exact hidling.trans hmerely.idling_eq
  have hignores : (execute fuel execution jobDef partition : Code α JobExecution).Ignores
      (forgive (toldOfChunks jobDef quiet)) := by
    unfold execute
    split
    · trivial
    · refine Run.ignores_proceed (lenient_buildResolverMap hquiet) ?_ fuel
      intro stepId step stepExecution hstep
      exact spares_tasklet hstep rfl
  rw [hforgiven, handle_forgiving]
  exact hignores.run_amended (handle env) w []

namespace JobExecutor

/-- A non-critical listener of a step. -/
def quietListener (phase : ListenerPhase) : ListenerDefinition :=
  { listenerOf .step phase with nonCritical := some true }

/-- A job of one tasklet, with such a listener in front of it. -/
def taskletJob : JobDefinition where
  id := "tidy"
  steps := JsMap.empty.set "tidy"
    (.tasklet { id := "tidy", tasklet := { kind := .BuilderLambda, fn := some 0 } })
  startStepId := "tidy"
  listeners := [quietListener .before]
  restartable := true

/-- A job with the quiet listener alone declares it nonCritical. -/
theorem declaredNonCritical_quietListener {jobDef : JobDefinition} {phase : ListenerPhase}
    (h : jobDef.listeners = [quietListener phase]) :
    DeclaredNonCritical jobDef fun _ _ => true := by
  intro listener hlistener fn _ _
  rw [h] at hlistener
  rw [List.mem_singleton.mp hlistener]
  rfl

/-- Every listener of the gatekeeper merely throws. -/
theorem merelyThrows_gatekeeper (items : List Nat) (q : UserCall Nat → Bool) :
    (JobLauncher.gatekeeper items).MerelyThrows q := by
  intro call user ctx err _ hthrown
  cases call with
  | listener fn key args =>
      cases hthrown
      exact ⟨⟨_, rfl⟩, trivial, rfl⟩
  | _ => cases hthrown

/-- In front of a chunk step it may throw, and might as well return. -/
theorem nonCritical_harmless_pairs :
    (tracedRun ((JobLauncher.gatekeeper [10, 20, 30]).idling
        (toldOfChunks (jobOf pairsStep [] [quietListener .before]) fun _ _ => true))
      (jobOf pairsStep [] [quietListener .before])).1 =
      (tracedRun (JobLauncher.gatekeeper [10, 20, 30])
        (jobOf pairsStep [] [quietListener .before])).1 := by
  have hsame := nonCritical_harmless (JobLauncher.gatekeeper [10, 20, 30]) _ 5
    (InMemoryJobRepository.newExecution "r" "" []) (jobOf pairsStep [] [quietListener .before]) {}
    JobLauncher.pairsCreated (fun _ _ => true) (declaredNonCritical_quietListener rfl)
    (.inr ⟨merelyThrows_gatekeeper _ _, rfl⟩)
  unfold tracedRun
  rw [hsame]

/-- The status a run returns. -/
def returnedStatus : Prog.Outcome Thrown JobExecution → Option JobStatus
  | .returned execution => some execution.status
  | _ => none

/-- Every `after:step` listener makes a failure of the result, and throws. -/
def spoiler (items : List Nat) : Environment Nat Nat :=
  { willing items with
    user := fun call pos ctx =>
      match call with
      | .afterStep _ _ result =>
          ((.error (.error "not now"), { result with status := .FAILED }), pos, [])
      | call => (willing items).user call pos ctx }

/-- The non-critical listeners of a job make its run fail that completes where they return without
effect. -/
def Harmed (env : Environment Nat Nat) (job : JobDefinition) : Prop :=
  DeclaredNonCritical job (fun _ _ => true) ∧
    returnedStatus (tracedRun env job).1 = some .FAILED ∧
    returnedStatus (tracedRun (env.idling fun _ => true) job).1 = some .COMPLETED

/-- **A non-critical listener may do harm**: in front of a tasklet, where it counts as critical; by
what it makes of the live result before it throws; and by an error without a string form, which
the warning cannot quote. -/
theorem nonCritical_may_harm :
    Harmed (JobLauncher.gatekeeper []) taskletJob ∧
    Harmed (spoiler [10]) (jobOf pairsStep [] [quietListener .after]) ∧
    Harmed (speechlessListener [10]) (jobOf pairsStep [] [quietListener .before]) :=
  ⟨⟨declaredNonCritical_quietListener rfl, by decide +kernel, by decide +kernel⟩,
    ⟨declaredNonCritical_quietListener rfl, by decide +kernel, by decide +kernel⟩,
    declaredNonCritical_quietListener rfl, by decide +kernel, by decide +kernel⟩

end JobExecutor

end NestBatch
