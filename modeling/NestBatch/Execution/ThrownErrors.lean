import NestBatch.Execution.CallLog

/-!
# What the code around the phases throws

Apart from the limits of its phases, a chunk step only passes on what user code
throws, or fails with a plain `Error` of its own.
-/

namespace NestBatch

variable {α β : Type}

/-- What a call of user code throws. -/
def UserCall.thrown : (call : UserCall α) → call.Resp → Option Thrown
  | .invoke _, r => thrownBy (β := Component) r
  | .factory _ _, r => thrownBy (β := Component) r
  | .read _ _, r => thrownBy (β := Option α) r
  | .process _ _ _, r => thrownBy (β := Option α) r
  | .write _ _ _, r => thrownBy (β := Option WriterResult) r
  | .lengthOf _, _ => none
  | .openStream _ _, r => thrownBy (β := ExecutionContext) r
  | .updateStream _ _, r => thrownBy (β := ExecutionContext) r
  | .closeStream _, r => thrownBy (β := Unit) r
  | .tasklet _ _, r => thrownBy (β := Option String) r
  | .listener _ _ _, r => thrownBy (β := Unit) r
  | .afterStep _ _ _, r => thrownBy (β := Unit) r.1
  | .decide _ _, r => thrownBy (β := String) r
where
  thrownBy {β : Type} : Except Thrown β → Option Thrown
    | .ok _ => none
    | .error err => some err

/-- The calls that the phases make, and judge the errors of. -/
def phaseKinds : List OpKind := [.read, .process, .write]

/-- An error is `T`, and so is what reading its text throws, if it has none. -/
def Thrown.Only (T : Thrown → Prop) (err : Thrown) : Prop :=
  T err ∧ ∀ err', err.text = .error err' → T err'

/-- User code throws nothing but `T` outside the phases. -/
def Throwing (T : Thrown → Prop) : (o : Op α) → o.Resp → Prop
  | .user call, r => call.kind ∉ phaseKinds → ∀ err, call.thrown r = some err → err.Only T
  | _, _ => True

/-- `T` has the errors that the executor makes up without a name of their own. -/
structure CoversErrors (T : Thrown → Prop) : Prop where
  message : ∀ msg, T (.error msg)
  reference : T ChunkStepExecutor.notAReference

/-- Code that throws nothing but `T`, unless user code does. -/
def ThrowsOnly (T : Thrown → Prop) (p : Code α β) : Prop :=
  p.wp (Prog.answering (Throwing T)) (fun out _ => ∀ err, out = .error err → T err) ()

@[inherit_doc ThrowsOnly]
def ChunkStepExecutor.ThrowsOnlyScoped (T : Thrown → Prop)
    (c : ChunkStepExecutor.ChunkCode α β) : Prop :=
  ∀ l, Scoped.wp (Prog.answering (Throwing T)) c (fun out _ _ => ∀ err, out = .error err → T err)
    l ()

section ThrowsOnly

variable {T : Thrown → Prop}

theorem throwsOnly_pure (b : β) : ThrowsOnly T (.pure b : Code α β) :=
  fun _ h => by cases h

theorem throwsOnly_throw {err : Thrown} (h : T err) :
    ThrowsOnly T (.throw err : Code α β) := by
  intro err' heq
  cases heq
  exact h

theorem throwsOnly_ofExcept {x : Except Thrown β} (h : ∀ err, x = .error err → T err) :
    ThrowsOnly T (Prog.ofExcept x : Code α β) := (Prog.wp_ofExcept x).mpr h

/-- What both parts may throw, the sequence may throw. -/
theorem ThrowsOnly.bind {γ : Type} {p : Code α β} {f : β → Code α γ}
    (hp : ThrowsOnly T p) (hf : ∀ b, ThrowsOnly T (f b)) :
    ThrowsOnly T (p >>= f) := by
  refine Prog.wp_seq hp (fun b _ _ => hf b) ?_
  intro err _ h err' heq
  cases heq
  exact h err rfl

theorem throwsOnly_request (o : Op α) : ThrowsOnly T (request o) :=
  Prog.wp_perform.mpr ⟨trivial, fun _ _ _ _ h => by cases h⟩

/-- A call of user code whose error is thrown on. -/
theorem throwsOnly_user (call : UserCall α) {k : call.Resp → Except Thrown β}
    (hkind : call.kind ∉ phaseKinds)
    (hk : ∀ r err, k r = .error err → call.thrown r = some err) :
    ThrowsOnly T (request (.user call) >>= fun r => Prog.ofExcept (k r)) := by
  refine Prog.wp_bind.mpr (Prog.wp_perform.mpr ⟨trivial, ?_⟩)
  intro r _ hr
  exact (Prog.wp_ofExcept _).mpr fun err h => (hr hkind err (hk r err h)).1

section Listeners

open ListenerInvoker

/-- A listener lets through what it may throw. -/
theorem throwsOnly_settle (entry : ListenerEntry) {out : Except Thrown Unit}
    (hout : ∀ err, out = .error err → err.Only T) :
    ThrowsOnly T (settle entry out : Code α Unit) := by
  cases out with
  | ok u => exact throwsOnly_pure ()
  | error err =>
      change ThrowsOnly T
        (if entry.nonCritical then .ofExcept (warn err) else .throw err : Code α Unit)
      split
      · exact throwsOnly_ofExcept fun err' h => (hout err rfl).2 err' (warn_eq_error.mp h)
      · exact throwsOnly_throw (hout err rfl).1

/-- Telling listeners throws what they may throw. -/
theorem throwsOnly_invokeMatching (key : ListenerKey) (args : ListenerArgs α)
    (resolvers : ResolverMap) : ThrowsOnly T (invokeMatching key args resolvers) := by
  induction resolvers with
  | nil => exact throwsOnly_pure ()
  | cons e rest ih =>
      unfold invokeMatching
      split
      · refine Prog.wp_bind.mpr (Prog.wp_perform.mpr ⟨trivial, ?_⟩)
        intro r _ hr
        exact (throwsOnly_settle e.2 fun err h => hr (by simp [phaseKinds, UserCall.kind]) err
          (congrArg UserCall.thrown.thrownBy h)).bind fun _ => ih
      · exact ih

/-- Telling `afterStep` listeners throws what they may throw. -/
theorem throwsOnly_invokeAfterStep (ctx : ListenerContext) (resolvers : ResolverMap)
    (result : StepResult) :
    ThrowsOnly T (invokeAfterStep ctx resolvers result : Code α StepResult) := by
  induction resolvers generalizing result with
  | nil => exact throwsOnly_pure _
  | cons e rest ih =>
      unfold invokeAfterStep
      split
      · refine Prog.wp_bind.mpr (Prog.wp_perform.mpr ⟨trivial, ?_⟩)
        intro r _ hr
        exact (throwsOnly_settle e.2 fun err h => hr (by simp [phaseKinds, UserCall.kind]) err
          (congrArg UserCall.thrown.thrownBy h)).bind fun _ => ih _
      · exact ih result

end Listeners

namespace ChunkStepExecutor

section Resolving

variable (hT : CoversErrors T)
include hT

/-- Resolving a provider throws errors of the library. -/
theorem throwsOnly_resolveProviderToken (role : String) (ref : Ref)
    (map : Option (List (String × Component))) : ThrowsOnly T
      (Prog.ofExcept (resolveProviderToken role ref map) : Code α Component) := by
  refine throwsOnly_ofExcept ?_
  intro err h
  unfold resolveProviderToken at h
  split at h
  · cases h
    exact hT.message _
  · cases h
    exact hT.message _
  · split at h
    · cases h
      exact hT.message _
    · split at h
      · cases h
        exact hT.message _
      · cases h

/-- Resolving a method throws errors of the library. -/
theorem throwsOnly_resolveMethod (role Role : String) (ref : Ref)
    (context : ChunkExecutionContext) : ThrowsOnly T
      (Prog.ofExcept (resolveMethod role Role ref context) : Code α Handle) := by
  refine throwsOnly_ofExcept ?_
  intro err h
  unfold resolveMethod at h
  split at h
  · cases h
    exact hT.message _
  · split at h
    · cases h
      exact hT.message _
    · cases h

/-- Making a reader throws what its factory may throw. -/
theorem throwsOnly_invokeReaderFactory (factory : Component) (ctx : ItemExecutionContext) :
    ThrowsOnly T (invokeReaderFactory factory ctx : Code α ItemHandler) := by
  refine ThrowsOnly.bind ?_ fun reader => ?_
  · unfold callFactory
    split
    · exact throwsOnly_user (.factory factory.target ctx) (k := id)
        (by simp [phaseKinds, UserCall.kind]) fun _ _ h => congrArg UserCall.thrown.thrownBy h
    · exact throwsOnly_pure _
  · split
    · exact throwsOnly_pure _
    · exact throwsOnly_throw (hT.message _)

omit hT in
theorem throwsOnly_invoke (fn : Handle) : ThrowsOnly T
    (orThrow (request (.user (.invoke fn))) : Code α Component) :=
  throwsOnly_user (.invoke fn) (k := id) (by simp [phaseKinds, UserCall.kind])
    fun _ _ h => congrArg UserCall.thrown.thrownBy h

/-- Resolving a reader throws what it may throw. -/
theorem throwsOnly_resolveReader (ref : Ref) (context : ChunkExecutionContext)
    (step : ChunkStepDefinition) :
    ThrowsOnly T (resolveReader ref context step : Code α ItemHandler) := by
  unfold resolveReader
  split
  · exact throwsOnly_throw hT.reference
  · refine (throwsOnly_invoke _).bind fun result => ?_
    split
    · exact throwsOnly_invokeReaderFactory hT _ _
    · exact throwsOnly_pure _
  · exact throwsOnly_throw (hT.message _)
  · refine (throwsOnly_resolveProviderToken hT _ _ _).bind fun resolved => ?_
    split
    · exact throwsOnly_invokeReaderFactory hT _ _
    · exact throwsOnly_pure _
  · refine (throwsOnly_resolveMethod hT _ _ _ _).bind fun fn => ?_
    split
    · exact throwsOnly_invokeReaderFactory hT _ _
    · exact throwsOnly_pure _

/-- Resolving a handler throws what it may throw. -/
theorem throwsOnly_resolveHandler (role Role : String) (ref : Ref)
    (context : ChunkExecutionContext) : ThrowsOnly T
      (resolveHandler role Role ref context : Code α ItemHandler) := by
  unfold resolveHandler
  split
  · exact throwsOnly_throw hT.reference
  · exact (throwsOnly_invoke _).bind fun _ => throwsOnly_pure _
  · exact throwsOnly_throw (hT.message _)
  · exact (throwsOnly_resolveProviderToken hT _ _ _).bind fun _ => throwsOnly_pure _
  · exact (throwsOnly_resolveMethod hT _ _ _ _).bind fun _ => throwsOnly_pure _

/-- Resolving a processor throws what it may throw. -/
theorem throwsOnly_resolveProcessorOf (step : ChunkStepDefinition)
    (context : ChunkExecutionContext) : ThrowsOnly T
      (resolveProcessorOf step context : Code α (Option ItemHandler)) := by
  unfold resolveProcessorOf
  split
  · exact throwsOnly_pure _
  · exact (throwsOnly_resolveHandler hT _ _ _ _).bind fun _ => throwsOnly_pure _

end Resolving

/-- Updating streams throws what they may throw. -/
theorem throwsOnly_updateStreams (streams : List Handle) (ctx : ExecutionContext) :
    ThrowsOnly T (updateStreams streams ctx : Code α ExecutionContext) := by
  induction streams generalizing ctx with
  | nil => exact throwsOnly_pure _
  | cons stream rest ih =>
      exact (throwsOnly_user (.updateStream stream ctx) (k := id)
        (by simp [phaseKinds, UserCall.kind])
        fun _ _ h => congrArg UserCall.thrown.thrownBy h).bind fun next => ih next

/-- Closing streams throws what they may throw. -/
theorem throwsOnly_closeStreams (streams : List Handle) :
    ThrowsOnly T (closeStreams streams : Code α Unit) := by
  unfold closeStreams
  induction streams.reverse with
  | nil => exact throwsOnly_pure _
  | cons stream rest ih =>
      exact (throwsOnly_user (.closeStream stream) (k := id)
        (by simp [phaseKinds, UserCall.kind])
        fun _ _ h => congrArg UserCall.thrown.thrownBy h).bind fun _ => ih

/-- The same of code that has the locals of the step. -/
theorem throwsOnly_bind {γ : Type} {c : ChunkCode α β} {f : β → ChunkCode α γ}
    (hc : ThrowsOnlyScoped T c) (hf : ∀ b, ThrowsOnlyScoped T (f b)) :
    ThrowsOnlyScoped T (c >>= f) := by
  intro l
  refine Scoped.wp_seq (hc l) (fun b l' _ _ => hf b l') ?_
  intro err l' _ h err' heq
  cases heq
  exact h err rfl

theorem throwsOnly_lift {p : Code α β} (hp : ThrowsOnly T p) :
    ThrowsOnlyScoped T (Scoped.lift p) :=
  fun _ => Scoped.wp_lift.mpr hp

theorem throwsOnly_modify (f : Locals → Locals) :
    ThrowsOnlyScoped T (Scoped.modify f : ChunkCode α Unit) :=
  fun _ _ h => by cases h

theorem throwsOnly_get : ThrowsOnlyScoped T (Scoped.get : ChunkCode α Locals) :=
  fun _ _ h => by cases h

/-- Opening streams throws what they may throw. -/
theorem throwsOnly_openStreams (streams : List Handle) :
    ThrowsOnlyScoped T (openStreams streams : ChunkCode α Unit) := by
  induction streams with
  | nil => exact fun _ _ h => by cases h
  | cons stream rest ih =>
      refine throwsOnly_bind throwsOnly_get fun l => ?_
      refine throwsOnly_bind (throwsOnly_lift (throwsOnly_user
        (.openStream stream l.streamContext) (k := id)
        (by simp [phaseKinds, UserCall.kind])
        fun _ _ h => congrArg UserCall.thrown.thrownBy h)) fun ctx => ?_
      exact throwsOnly_bind (throwsOnly_modify _) fun _ => ih

/-- What a step may throw before its loop. -/
theorem throwsOnly_prepare (hT : CoversErrors T) (step : ChunkStepDefinition)
    (context : ChunkExecutionContext) (policies : Policies) (partition : Option (Int × Int)) :
    ThrowsOnlyScoped T (prepare step context policies partition : ChunkCode α Setting) := by
  refine throwsOnly_bind (throwsOnly_lift (throwsOnly_resolveReader hT _ _ _)) fun reader => ?_
  refine throwsOnly_bind (throwsOnly_lift (throwsOnly_resolveProcessorOf hT _ _)) fun _ => ?_
  refine throwsOnly_bind (throwsOnly_lift (throwsOnly_resolveHandler hT _ _ _ _)) fun writer => ?_
  refine throwsOnly_bind (throwsOnly_lift (throwsOnly_request _)) fun ctx => ?_
  refine throwsOnly_bind (throwsOnly_modify _) fun _ => ?_
  refine throwsOnly_bind (throwsOnly_openStreams _) fun _ => ?_
  exact throwsOnly_bind (throwsOnly_modify _) fun _ _ _ h => by cases h

end ChunkStepExecutor

end ThrowsOnly

end NestBatch
