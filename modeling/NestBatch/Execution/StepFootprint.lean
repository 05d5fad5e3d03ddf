import NestBatch.Execution.ChunkRules

/-!
# The footprint of a step

Neither step executor touches a row of the repository: all they do is call user
code, and read and save execution contexts.
-/

namespace NestBatch

open ListenerInvoker

variable {α β υ : Type}

/-- The kinds of operation a step executor performs. -/
def stepKinds : List OpKind :=
  [.invoke, .factory, .read, .process, .write, .lengthOf, .openStream, .updateStream, .closeStream,
    .listener, .afterStep, .tasklet, .loadContext, .saveContext, .passed]

/-- The kinds of operation the chunk loop performs. -/
def loopKinds : List OpKind :=
  [.read, .process, .write, .lengthOf, .updateStream, .listener, .loadContext, .saveContext,
    .passed]

namespace ChunkStepExecutor

/-- What `f` sees of the locals is the same. -/
def Leaves {γ : Type} (f : Locals → γ) (l l' : Locals) : Prop := f l' = f l

/-- Code of the chunk executor that performs operations of `K` and leaves what `f` sees of its
locals. -/
abbrev Stays {γ : Type} (K : List OpKind) (f : Locals → γ) (c : ChunkCode α β) : Prop :=
  c.Keeps (Looping K) (Leaves f)

section Stays

variable {γ : Type} {K M : List OpKind} {f : Locals → γ}

theorem Leaves.refl (l : Locals) : Leaves f l l := rfl

theorem Leaves.trans (l l' l'' : Locals) (h : Leaves f l l') (h' : Leaves f l' l'') :
    Leaves f l l'' := Eq.trans h' h

/-- What two parts leave of the local variables, the sequence leaves. -/
theorem Stays.seq {δ : Type} {c : ChunkCode α β} {next : β → ChunkCode α δ} (hc : Stays K f c)
    (hnext : ∀ b, Stays K f (next b)) : Stays K f (c >>= next) :=
  Scoped.Keeps.bind Leaves.trans hc hnext

theorem stays_pure (b : β) : Stays K f (pure b : ChunkCode α β) :=
  Scoped.keeps_pure Leaves.refl b

theorem stays_get : Stays K f (Scoped.get : ChunkCode α Locals) := Scoped.keeps_get Leaves.refl

theorem stays_modify {g : Locals → Locals} (h : ∀ l, f (g l) = f l) :
    Stays K f (Scoped.modify g : ChunkCode α Unit) :=
  Scoped.keeps_modify h

theorem stays_lift {p : Code α β} (hp : p.Uses (Looping K)) :
    Stays K f (Scoped.lift p : ChunkCode α β) := .lift Leaves.refl hp

/-- Code that keeps enough of the local variables leaves what is read off them. -/
theorem stays_of_keeps {R : Locals → Locals → Prop} (hK : M ⊆ K)
    (hR : ∀ l l', R l l' → Leaves f l l') {c : ChunkCode α β} (hc : c.Keeps (On M) R) :
    Stays K f c := hc.mono (On.looping hK) hR

theorem stays_of_quiet (hK : M ⊆ K) (hf : ∀ l l', SameChunk l l' → Leaves f l l')
    {c : ChunkCode α β} (hc : Quiet M c) : Stays K f c := stays_of_keeps hK hf hc

/-- Telling listeners leaves the local variables alone. -/
theorem stays_listeners (hK : .listener ∈ K) (key : ListenerKey) (args : ListenerArgs α)
    (resolvers : ResolverMap) :
    Stays K f (Scoped.lift (invokeMatching key args resolvers) : ChunkCode α Unit) :=
  stays_lift (uses_invokeMatching hK _ _ _)

end Stays

namespace Setting

variable (S : Setting)

/-- Committing a chunk leaves the streams open that are. -/
theorem stays_commitChunk (chunkIndex : Int) (items : List α) :
    Stays loopKinds Locals.openedStreams (S.commitChunk chunkIndex items) := by
  unfold commitChunk
  refine Stays.seq (stays_of_quiet (M := [.process, .listener]) (by decide)
    (fun _ _ h => h.openedStreams)
    (S.quiet_processPhase (by decide) (by decide) _ _ _)) fun processed => ?_
  refine Stays.seq (stays_of_quiet (M := [.write, .lengthOf, .listener]) (by decide)
    (fun _ _ h => h.openedStreams)
    (S.quiet_writePhase (by decide) (by decide) (by decide) _ _)) fun ending => ?_
  have hpassed : OpKind.passed ∈ loopKinds := by decide
  refine Stays.seq (stays_lift (uses_request hpassed)) fun _ => ?_
  refine Stays.seq (stays_of_keeps (by decide) (fun _ _ h => h)
    (S.keeps_checkpoint_of Leaves.refl Leaves.trans fun _ _ => rfl)) fun _ => ?_
  refine stays_get.seq fun l => (stays_listeners (by decide) _ _ _).seq fun _ => ?_
  exact stays_modify fun _ => rfl

/-- Running a chunk leaves the streams open that are. -/
theorem stays_runChunk :
    Stays loopKinds Locals.openedStreams (S.runChunk : ChunkCode α Bool) := by
  unfold runChunk
  refine stays_get.seq fun l => ?_
  split
  · exact stays_pure _
  · refine (stays_listeners (by decide) _ _ _).seq fun _ => ?_
    refine Stays.seq (stays_of_quiet (M := [.read, .listener]) (by decide)
      (fun _ _ h => h.openedStreams)
      (S.quiet_readPhase (by decide) (by decide) _ _ _)) fun items => ?_
    split
    · exact stays_get.seq fun _ => (stays_listeners (by decide) _ _ _).seq fun _ => stays_pure _
    · exact (S.stays_commitChunk _ _).seq fun _ => stays_pure _

/-- Draining a chunk leaves the streams open that are. -/
theorem stays_drainChunk :
    Stays loopKinds Locals.openedStreams (S.drainChunk : ChunkCode α Bool) := by
  unfold drainChunk
  refine stays_get.seq fun l => ?_
  split
  · exact stays_pure _
  · refine Stays.seq (stays_lift ((S.uses_drainItems (by decide) _ _ _).mono
      (On.looping fun _ h => h))) fun drained => ?_
    split
    · exact stays_pure _
    · refine Stays.seq (stays_modify ?_) fun _ => stays_pure _
      exact fun _ => rfl

/-- The chunk loop leaves the streams that are open. -/
theorem stays_chunkLoop (fuel : Nat) :
    Stays loopKinds Locals.openedStreams (S.chunkLoop fuel : ChunkCode α Unit) := by
  induction fuel with
  | zero => exact Scoped.keeps_spin trivial
  | succ fuel ih =>
      have hiteration : Stays loopKinds Locals.openedStreams (S.iteration : ChunkCode α Bool) := by
        refine stays_get.seq fun l => ?_
        split
        · exact S.stays_drainChunk
        · exact S.stays_runChunk
      refine hiteration.seq fun again => ?_
      cases again with
      | true => exact ih
      | false => exact stays_pure _

end Setting

/-- What is left of the locals when nothing is said of them. -/
def anyLocals (_ : Locals) : Unit := ()

/-- What a step performs before its loop. -/
theorem stays_prepare (step : ChunkStepDefinition) (context : ChunkExecutionContext)
    (policies : Policies) (partition : Option (Int × Int)) :
    Stays stepKinds anyLocals (prepare step context policies partition : ChunkCode α Setting) := by
  unfold prepare
  refine Stays.seq (stays_lift (uses_resolveReader (by decide) (by decide) _ _ _)) fun reader => ?_
  refine Stays.seq (stays_lift (uses_resolveProcessorOf (by decide) _ _)) fun processor => ?_
  refine Stays.seq (stays_lift (uses_resolveHandler (by decide) _ _ _ _)) fun writer => ?_
  have hload : OpKind.loadContext ∈ stepKinds := by decide
  refine Stays.seq (stays_lift (uses_request hload)) fun ctx => ?_
  refine Stays.seq (stays_modify fun _ => ?_) fun _ => ?_
  · rfl
  refine Stays.seq (stays_of_keeps (M := [.openStream]) (f := anyLocals) (by decide)
    (fun _ _ _ => rfl)
    (keeps_openStreams (by decide) _)) fun _ => ?_
  refine Stays.seq (stays_modify fun _ => ?_) fun _ => stays_pure _
  rfl

/-- What the body of a step performs. -/
theorem stays_body (fuel : Nat) (step : ChunkStepDefinition) (context : ChunkExecutionContext)
    (policies : Policies) (partition : Option (Int × Int)) :
    Stays stepKinds anyLocals
      (body fuel step context policies partition : ChunkCode α StepResult) := by
  have hloop (S : Setting) : Stays stepKinds anyLocals (S.chunkLoop fuel : ChunkCode α Unit) :=
    (S.stays_chunkLoop fuel).mono (On.mono (by decide)) fun _ _ _ => rfl
  unfold body
  refine (stays_prepare _ _ _ _).seq fun S => (hloop S).seq fun _ => ?_
  refine stays_get.seq fun l => Stays.seq (stays_modify fun _ => ?_) fun _ => ?_
  · rfl
  refine Stays.seq (stays_lift (uses_closeStreams (by decide) _)) fun _ => ?_
  exact stays_lift (uses_invokeAfterStep (by decide) _ _ _)

/-- The chunk executor performs step operations only. -/
theorem uses_execute (fuel : Nat) (step : ChunkStepDefinition) (context : ChunkExecutionContext) :
    (execute fuel step context : Code α StepResult).Uses (Looping stepKinds) := by
  unfold execute
  refine (Prog.uses_ofExcept _).bind fun policies => (Prog.uses_ofExcept _).bind fun partition => ?_
  refine (uses_invokeMatching (by decide) _ _ _).bind fun _ => ?_
  refine (stays_body fuel step context policies partition {}).1.bind fun outcome => ?_
  obtain ⟨err | result, l⟩ := outcome
  · refine (Prog.Uses.attempt (uses_closeStreams (by decide) _)).bind fun closed => ?_
    refine (uses_invokeMatching (by decide) _ _ _).bind fun _ => ?_
    refine (Prog.uses_ofExcept _).bind fun exitMessage => ?_
    refine (uses_invokeMatching (by decide) _ _ _).bind fun _ => ?_
    exact uses_invokeAfterStep (by decide) _ _ _
  · trivial

end ChunkStepExecutor

namespace TaskletStepExecutor

/-- The tasklet executor calls user code. -/
theorem uses_execute_of {K : List OpKind} {loops : Prop} (hinvoke : .invoke ∈ K)
    (htasklet : .tasklet ∈ K) (hlistener : .listener ∈ K) (hafter : .afterStep ∈ K)
    (step : TaskletStepDefinition) (context : TaskletExecutionContext) :
    (execute step context : Code α StepResult).Uses (On K loops) := by
  have hresolve :
      (resolveTasklet step.tasklet context : Code α Handle).Uses (On K loops) := by
    unfold resolveTasklet
    split
    · trivial
    · exact (uses_orThrow (uses_request hinvoke)).bind fun _ => trivial
    · trivial
    · exact (Prog.uses_ofExcept _).bind fun _ => trivial
    · trivial
  unfold execute
  refine (uses_invokeMatching hlistener _ _ _).bind fun _ => ?_
  refine Prog.Uses.bind (Prog.Uses.attempt (hresolve.bind fun _ =>
    uses_orThrow (uses_request htasklet))) fun value => ?_
  refine Prog.Uses.bind ?_ fun res => uses_invokeAfterStep hafter _ _ _
  cases value with
  | ok value => trivial
  | error err =>
      exact (uses_invokeMatching hlistener _ _ _).bind fun _ =>
        (Prog.uses_ofExcept _).bind fun _ => trivial

/-- The tasklet executor performs step operations only. -/
theorem uses_execute (step : TaskletStepDefinition) (context : TaskletExecutionContext) :
    (execute step context : Code α StepResult).Uses (Looping stepKinds) :=
  uses_execute_of (by decide) (by decide) (by decide) (by decide) step context

end TaskletStepExecutor

end NestBatch
