import NestBatch.Transport.Routing

/-!
# Footprints

Which kinds of operation each part of the executors performs.  A footprint is
all it takes to see that, say, no step executor ever touches a job execution
row, or that the read phase of a chunk leaves the checkpoint alone.
-/

namespace NestBatch

/-- The kinds of calls, by which code is told apart. -/
inductive OpKind
  | createExecution | updateJob | getJob | getInstance | createStep | updateStep | findSteps
  | loadContext | saveContext | findLatestStep | clock | uuid | enqueue | emit | passed
  | invoke | factory | read | process | write | lengthOf | openStream | updateStream | closeStream
  | tasklet | listener | afterStep | decide
  deriving DecidableEq, Repr

variable {α β : Type}

def UserCall.kind : UserCall α → OpKind
  | .invoke _ => .invoke
  | .factory _ _ => .factory
  | .read _ _ => .read
  | .process _ _ _ => .process
  | .write _ _ _ => .write
  | .lengthOf _ => .lengthOf
  | .openStream _ _ => .openStream
  | .updateStream _ _ => .updateStream
  | .closeStream _ => .closeStream
  | .tasklet _ _ => .tasklet
  | .listener _ _ _ => .listener
  | .afterStep _ _ _ => .afterStep
  | .decide _ _ => .decide

def Op.kind : Op α → OpKind
  | .createExecutionAtomic _ _ _ => .createExecution
  | .updateJobExecution _ _ => .updateJob
  | .getJobExecution _ => .getJob
  | .getJobInstance _ => .getInstance
  | .createStepExecution _ _ => .createStep
  | .updateStepExecution _ _ => .updateStep
  | .findStepExecutions _ => .findSteps
  | .getExecutionContext _ => .loadContext
  | .saveExecutionContext _ _ => .saveContext
  | .findLatestStepExecution _ _ => .findLatestStep
  | .now => .clock
  | .randomUUID => .uuid
  | .enqueue _ => .enqueue
  | .emit _ => .emit
  | .user call => call.kind
  | .passed _ _ _ _ => .passed

/-- The operations of the given kinds, with loops bounded by fuel or without. -/
def On (K : List OpKind) (loops : Prop := False) : Prog.Footprint (Op α) :=
  { ops := fun o => o.kind ∈ K, loops := loops }

/-- Code with loops. -/
abbrev Looping (K : List OpKind) : Prog.Footprint (Op α) := On K True

theorem On.mono {K K' : List OpKind} {loops : Prop} (h : K ⊆ K') :
    (On K loops : Prog.Footprint (Op α)) ≤ On K' loops := ⟨fun _ ho => h ho, id⟩

theorem On.looping {K K' : List OpKind} {loops : Prop} (h : K ⊆ K') :
    (On K loops : Prog.Footprint (Op α)) ≤ Looping K' := ⟨fun _ ho => h ho, fun _ => trivial⟩

section Wrappers

variable {K : List OpKind} {loops : Prop}

theorem uses_request {o : Op α} (h : o.kind ∈ K) :
    (request o : Code α o.Resp).Uses (On K loops) := Prog.uses_perform o |>.mpr h

theorem uses_orThrow {p : Code α (Except Thrown β)} (h : p.Uses (On K loops)) :
    (orThrow p).Uses (On K loops) := h.bind fun _ => Prog.uses_ofExcept _

theorem uses_now (h : .clock ∈ K) : (now : Code α Time).Uses (On K loops) := uses_request h

theorem uses_emit (h : .emit ∈ K) (event : BatchEvent) :
    (emit event : Code α Unit).Uses (On K loops) := uses_request h

/-- Updating an execution is one operation, whose error is thrown. -/
theorem uses_updateJobExecution (h : .updateJob ∈ K) (id : String) (patch : JobExecutionPatch) :
    (updateJobExecution id patch : Code α Unit).Uses (On K loops) := uses_orThrow (uses_request h)

/-- Updating a step execution is one operation, whose error is thrown. -/
theorem uses_updateStepExecution (h : .updateStep ∈ K) (id : String)
    (patch : StepExecutionPatch) :
    (updateStepExecution id patch : Code α Unit).Uses (On K loops) := uses_orThrow (uses_request h)

end Wrappers

/-! ### Listeners -/

namespace ListenerInvoker

variable {K : List OpKind} {loops : Prop}

/-- What a listener has thrown is reported without an operation. -/
theorem uses_settle (entry : ListenerEntry) (out : Except Thrown Unit) :
    (settle entry out : Code α Unit).Uses (On K loops) := by
  cases out with
  | ok u => trivial
  | error err => exact .ite (fun _ => Prog.uses_ofExcept _) (fun _ => trivial)

/-- Telling listeners calls listeners only. -/
theorem uses_invokeMatching (h : .listener ∈ K) (key : ListenerKey) (args : ListenerArgs α)
    (resolvers : ResolverMap) : (invokeMatching key args resolvers).Uses (On K loops) := by
  induction resolvers with
  | nil => trivial
  | cons e rest ih =>
      refine .ite (fun _ => ?_) (fun _ => ih)
      exact (uses_request h).bind fun _ => (uses_settle _ _).bind fun _ => ih

/-- Telling `afterStep` listeners calls them only. -/
theorem uses_invokeAfterStep (h : .afterStep ∈ K) (ctx : ListenerContext)
    (resolvers : ResolverMap) (result : StepResult) :
    (invokeAfterStep ctx resolvers result : Code α StepResult).Uses (On K loops) := by
  induction resolvers generalizing result with
  | nil => trivial
  | cons e rest ih =>
      refine .ite (fun _ => ?_) (fun _ => ih result)
      exact (uses_request h).bind fun _ => (uses_settle _ _).bind fun _ => ih _

end ListenerInvoker

/-! ### The chunk step executor -/

namespace ChunkStepExecutor

open ListenerInvoker

variable {K : List OpKind}

/-- The locals a phase may change: its counters. -/
structure SameChunk (l l' : Locals) : Prop where
  chunkIndex : l'.chunkIndex = l.chunkIndex
  commitCount : l'.commitCount = l.commitCount
  openedStreams : l'.openedStreams = l.openedStreams
  streamContext : l'.streamContext = l.streamContext

theorem SameChunk.refl (l : Locals) : SameChunk l l := ⟨rfl, rfl, rfl, rfl⟩

theorem SameChunk.trans (l l' l'' : Locals) (h : SameChunk l l') (h' : SameChunk l' l'') :
    SameChunk l l'' :=
  ⟨h'.chunkIndex.trans h.chunkIndex, h'.commitCount.trans h.commitCount,
    h'.openedStreams.trans h.openedStreams, h'.streamContext.trans h.streamContext⟩

/-- Code that stays within the kinds `K` and changes only the counters. -/
abbrev Quiet (K : List OpKind) (c : ChunkCode α β) : Prop := c.Keeps (On K) SameChunk

theorem quiet_pure (b : β) : Quiet K (pure b : ChunkCode α β) := Scoped.keeps_pure .refl b

theorem quiet_throw (err : Thrown) : Quiet K (Scoped.throw err : ChunkCode α β) :=
  Scoped.keeps_throw .refl err

theorem quiet_get : Quiet K (Scoped.get : ChunkCode α Locals) := Scoped.keeps_get .refl

theorem quiet_modify {f : Locals → Locals} (h : ∀ l, SameChunk l (f l)) :
    Quiet K (Scoped.modify f : ChunkCode α Unit) := Scoped.keeps_modify h

theorem quiet_lift {p : Code α β} (h : p.Uses (On K)) :
    Quiet K (Scoped.lift p : ChunkCode α β) := .lift .refl h

/-- Quiet parts make a quiet sequence. -/
theorem Quiet.seq {γ : Type} {c : ChunkCode α β} {f : β → ChunkCode α γ}
    (hc : Quiet K c) (hf : ∀ b, Quiet K (f b)) : Quiet K (c >>= f) :=
  Scoped.Keeps.bind .trans hc hf

/-- The hooks of a phase stay within `K`. -/
structure PhaseHooks.Within (K : List OpKind) (hooks : PhaseHooks α β) : Prop where
  before : hooks.before.Uses (On K)
  after : ∀ value, (hooks.after value).Uses (On K)
  onError : ∀ err, (hooks.onError err).Uses (On K)
  onSkip : ∀ err, (hooks.onSkip err).Uses (On K)

/-- A phase is quiet when its operation and its hooks are. -/
theorem quiet_runPhaseFrom {policies : Policies} {op : Code α β} {hooks : PhaseHooks α β}
    (hop : op.Uses (On K)) (hhooks : hooks.Within K) (cap attempt : Nat) :
    Quiet K (runPhaseFrom policies op hooks cap attempt) := by
  induction cap generalizing attempt with
  | zero => exact quiet_throw _
  | succ cap ih =>
      refine (quiet_lift hhooks.before).seq fun _ => ?_
      refine Quiet.seq (Scoped.Keeps.attempt (quiet_lift hop)) fun out => ?_
      cases out with
      | ok value => exact (quiet_lift (hhooks.after value)).seq fun _ => quiet_pure _
      | error err =>
          refine (quiet_lift (hhooks.onError err)).seq fun _ => quiet_get.seq fun l => ?_
          cases consult policies err l.skipCount attempt with
          | skip =>
              refine Quiet.seq (quiet_modify ?_) fun _ =>
                (quiet_lift (hhooks.onSkip err)).seq fun _ => quiet_pure _
              exact fun l => ⟨rfl, rfl, rfl, rfl⟩
          | retry => exact ih _
          | fail err' => exact quiet_throw _

theorem quiet_runPhase (policies : Policies) {op : Code α β} {hooks : PhaseHooks α β}
    (hop : op.Uses (On K)) (hhooks : hooks.Within K) :
    Quiet K (runPhase policies op hooks) := quiet_runPhaseFrom hop hhooks _ _

namespace Setting

variable (S : Setting)

theorem uses_read (h : .read ∈ K) (chunkIndex : Int) :
    (S.read chunkIndex : Code α (Option α)).Uses (On K) := uses_orThrow (uses_request h)

theorem readHooks_within (h : .listener ∈ K) (chunkIndex : Int) :
    (S.readHooks chunkIndex : PhaseHooks α (Option α)).Within K where
  before := uses_invokeMatching h _ _ _
  after := fun item => by
    cases item with
    | none => trivial
    | some item => exact uses_invokeMatching h _ _ _
  onError := fun _ => uses_invokeMatching h _ _ _
  onSkip := fun _ => uses_invokeMatching h _ _ _

theorem processHooks_within (h : .listener ∈ K) (chunkIndex : Int) (item : α) :
    (S.processHooks chunkIndex item).Within K where
  before := uses_invokeMatching h _ _ _
  after := fun _ => uses_invokeMatching h _ _ _
  onError := fun _ => uses_invokeMatching h _ _ _
  onSkip := fun _ => uses_invokeMatching h _ _ _

theorem writeHooks_within (h : .listener ∈ K) (chunkIndex : Int) (processed : List α) :
    (S.writeHooks chunkIndex processed).Within K where
  before := uses_invokeMatching h _ _ _
  after := fun _ => uses_invokeMatching h _ _ _
  onError := fun _ => uses_invokeMatching h _ _ _
  onSkip := fun _ => uses_invokeMatching h _ _ _

/-- Reading a chunk performs reads, and tells listeners. -/
theorem quiet_readPhase (hr : .read ∈ K) (hl : .listener ∈ K) (chunkIndex : Int) (n : Nat)
    (items : List α) : Quiet K (S.readPhase chunkIndex n items) := by
  induction n generalizing items with
  | zero => exact quiet_pure _
  | succ n ih =>
      have hphase := quiet_runPhase S.policies (S.uses_read hr chunkIndex)
        (S.readHooks_within (α := α) hl chunkIndex)
      refine hphase.seq fun r => ?_
      match r with
      | .skipped => exact ih items
      | .ok none => exact quiet_pure _
      | .ok (some item) =>
          refine Quiet.seq (quiet_modify ?_) fun _ => ih _
          exact fun l => ⟨rfl, rfl, rfl, rfl⟩

/-- Processing a chunk performs calls of the processor, and tells listeners. -/
theorem quiet_processPhase (hp : .process ∈ K) (hl : .listener ∈ K) (chunkIndex : Int)
    (items processed : List α) : Quiet K (S.processPhase chunkIndex items processed) := by
  induction items generalizing processed with
  | nil => exact quiet_pure _
  | cons item items ih =>
      unfold processPhase
      cases S.processor with
      | none => exact ih _
      | some processor =>
          have hphase := quiet_runPhase S.policies
            (uses_orThrow (uses_request (o := .user (.process processor.target item
              (S.itemContext chunkIndex))) hp)) (S.processHooks_within hl chunkIndex item)
          refine hphase.seq fun r => ?_
          match r with
          | .skipped => exact ih _
          | .ok (some value) => exact ih _
          | .ok none =>
              refine Quiet.seq (quiet_modify ?_) fun _ => ih _
              exact fun l => ⟨rfl, rfl, rfl, rfl⟩

theorem uses_write (h : .write ∈ K) (chunkIndex : Int) (processed : List α) :
    (S.write chunkIndex processed).Uses (On K) := uses_orThrow (uses_request h)

theorem quiet_countWrite (h : .lengthOf ∈ K) (processed : List α) (value : Option WriterResult) :
    Quiet K (countWrite processed value) := by
  cases value with
  | some r => exact quiet_modify fun l => ⟨rfl, rfl, rfl, rfl⟩
  | none =>
      refine (quiet_lift (uses_request h)).seq fun length => ?_
      exact quiet_modify fun l => ⟨rfl, rfl, rfl, rfl⟩

/-- Writing a chunk performs writes, and tells listeners. -/
theorem quiet_writePhase (hw : .write ∈ K) (hn : .lengthOf ∈ K) (hl : .listener ∈ K)
    (chunkIndex : Int) (processed : List α) : Quiet K (S.writePhase chunkIndex processed) := by
  unfold writePhase
  split
  · exact quiet_pure _
  · have hphase := quiet_runPhase S.policies (S.uses_write hw chunkIndex processed)
      (S.writeHooks_within hl chunkIndex processed)
    refine hphase.seq fun r => ?_
    match r with
    | .skipped => exact quiet_pure _
    | .ok value =>
        exact (quiet_countWrite hn processed value).seq fun _ => quiet_pure _

/-- Draining performs reads only. -/
theorem uses_drainItems (h : .read ∈ K) (chunkIndex : Int) (n drained : Nat) :
    (S.drainItems chunkIndex n drained : Code α Nat).Uses (On K) := by
  induction n generalizing drained with
  | zero => trivial
  | succ n ih =>
      refine (S.uses_read h chunkIndex).bind fun item => ?_
      cases item with
      | none => trivial
      | some item => exact ih _

end Setting

end ChunkStepExecutor

end NestBatch
