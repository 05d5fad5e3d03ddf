import NestBatch.Core.JobBuilder

/-!
# The step builder

`StepBuilder` is what the callback of `JobBuilder.addStep` is handed.  A listener
attached to a step is recorded twice, as a reference and as a definition; `build` hands
on the references alone, and `addStep` the step: the job that is compiled is the one in
which nothing was attached.
-/

namespace NestBatch

/-- The last argument of `chunk`. -/
structure ChunkConfig where
  reader : Ref
  processor : Option Ref := none
  writer : Ref
  skipPolicy : Option SkipPolicyConfig := none
  retryPolicy : Option RetryPolicyConfig := none

/-- A call of one of the builder's methods; a size that is no integer is `none`. -/
inductive StepBuilderCall
  | chunk (id : String) (size : Option Int) (config : Option ChunkConfig)
  | tasklet (id : String) (ref : Ref)
  | reader (ref : Ref)
  | processor (ref : Ref)
  | writer (ref : Ref)
  | skipPolicy (p : SkipPolicyConfig)
  | retryPolicy (p : RetryPolicyConfig)
  | addListener (ref : Ref) (kind : ListenerKind) (phase : ListenerPhase)
      (nonCritical : Option Bool)

structure StepBuilder where
  chunkSize : Option Nat := none
  reader : Option Ref := none
  processor : Option Ref := none
  writer : Option Ref := none
  tasklet : Option Ref := none
  id : Option String := none
  skipPolicy : Option SkipPolicyConfig := none
  retryPolicy : Option RetryPolicyConfig := none
  itemListeners : List Ref := []
  listenerDefs : List ListenerDefinition := []

/-- What `build` returns: the step, and its field `listeners`, which nothing reads. -/
structure BuiltStep where
  definition : StepDefinition
  listeners : List Ref

namespace StepBuilder

/-- The settings of the last argument of `chunk`, where it is given. -/
def configure (b : StepBuilder) : Option ChunkConfig → StepBuilder
  | none => b
  | some config =>
      { b with
        reader := some config.reader
        processor := config.processor
        writer := some config.writer
        skipPolicy := config.skipPolicy
        retryPolicy := config.retryPolicy }

def chunk (b : StepBuilder) (id : String) (size : Option Int) (config : Option ChunkConfig) :
    Except Thrown StepBuilder :=
  if size.any (0 < ·) then
    .ok ({ b with id := some id, chunkSize := size.map Int.toNat }.configure config)
  else .error (.error "chunkSize must be a positive integer")

def addListener (b : StepBuilder) (ref : Ref) (kind : ListenerKind) (phase : ListenerPhase)
    (nonCritical : Option Bool) : StepBuilder :=
  { b with
    itemListeners := b.itemListeners ++ [ref]
    listenerDefs := b.listenerDefs ++ [{ ref, kind, phase, nonCritical }] }

/-- What a call makes of the builder, or throws. -/
def call (b : StepBuilder) : StepBuilderCall → Except Thrown StepBuilder
  | .chunk id size config => b.chunk id size config
  | .tasklet id ref => .ok { b with id := some id, tasklet := some ref }
  | .reader ref => .ok { b with reader := some ref }
  | .processor ref => .ok { b with processor := some ref }
  | .writer ref => .ok { b with writer := some ref }
  | .skipPolicy p => .ok { b with skipPolicy := some p }
  | .retryPolicy p => .ok { b with retryPolicy := some p }
  | .addListener ref kind phase nonCritical => .ok (b.addListener ref kind phase nonCritical)

/-- `build`: a tasklet goes before a chunk, and an empty id is none. -/
def build (b : StepBuilder) : Except Thrown BuiltStep :=
  if b.id.getD "" = "" then
    .error (.error "Step must have an id (call .chunk() or .tasklet() first)")
  else
    match b.tasklet, b.chunkSize, b.reader, b.writer with
    | some tasklet, _, _, _ =>
        .ok { definition := .tasklet { id := b.id.getD "", tasklet }
              listeners := b.itemListeners }
    | none, some chunkSize, some reader, some writer =>
        .ok { definition := .chunk
                { id := b.id.getD "", chunkSize, reader, writer
                  processor := b.processor
                  skipPolicy := b.skipPolicy
                  retryPolicy := b.retryPolicy }
              listeners := b.itemListeners }
    | _, _, _, _ => .error (.error "Step must be either tasklet or chunk with reader+writer")

/-- What a new builder makes of some calls. -/
def buildCalls (calls : List StepBuilderCall) : Except Thrown BuiltStep := do
  let b ← calls.foldlM call {}
  b.build

end StepBuilder

/-- A call of the job builder, in which a step may be built in a callback. -/
inductive JobCall
  | step (calls : List StepBuilderCall)
  | other (call : BuilderCall)

/-- `addStep` of a callback files what `build` returns. -/
def JobCall.builderCall : JobCall → BuilderCall
  | .step calls => .addStep (.callback ((StepBuilder.buildCalls calls).map BuiltStep.definition))
  | .other call => call

/-- A job built by such calls and compiled. -/
def DefinitionCompiler.compileJobCalls (fields : StepDefinition → List String) (id : String)
    (calls : List JobCall) : Except Thrown CompiledJob :=
  compileCalls fields id (calls.map JobCall.builderCall)

/-! ### What has been attached -/

/-- The listener that a call attaches. -/
def StepBuilderCall.attached : StepBuilderCall → List ListenerDefinition
  | .addListener ref kind phase nonCritical => [{ ref, kind, phase, nonCritical }]
  | _ => []

/-- The calls that attach nothing. -/
def StepBuilderCall.attachesNothing (c : StepBuilderCall) : Bool := c.attached.isEmpty

/-- The same calls of the job builder, with nothing attached to any step. -/
def JobCall.unattached : JobCall → JobCall
  | .step calls => .step (calls.filter StepBuilderCall.attachesNothing)
  | .other call => .other call

namespace StepBuilder

/-- A builder without what has been attached. -/
def bare (b : StepBuilder) : StepBuilder := { b with itemListeners := [], listenerDefs := [] }

variable {b b' : StepBuilder} {c : StepBuilderCall}

/-- A call does the same to a builder as to a bare one, and records what it attaches. -/
theorem call_cases (b : StepBuilder) (c : StepBuilderCall) :
    (∃ err, b.call c = .error err ∧ c.attachesNothing = true ∧ b.bare.call c = .error err) ∨
      ∃ b₁, b.call c = .ok b₁ ∧ b₁.listenerDefs = b.listenerDefs ++ c.attached ∧
        b₁.itemListeners = b.itemListeners ++ c.attached.map ListenerDefinition.ref ∧
        (c.attachesNothing = true → b.bare.call c = .ok b₁.bare) ∧
        (c.attachesNothing = false → b₁.bare = b.bare) := by
  cases c with
  | chunk id size config =>
      by_cases hsize : size.any (0 < ·) = true
      · right
        cases config with
        | none => exact ⟨_, if_pos hsize, (List.append_nil _).symm, (List.append_nil _).symm,
            fun _ => if_pos hsize, nofun⟩
        | some config => exact ⟨_, if_pos hsize, (List.append_nil _).symm,
            (List.append_nil _).symm, fun _ => if_pos hsize, nofun⟩
      · left
        exact ⟨_, if_neg hsize, rfl, if_neg hsize⟩
  | addListener ref kind phase nonCritical =>
      right
      exact ⟨_, rfl, rfl, rfl, nofun, fun _ => rfl⟩
  | _ =>
      right
      exact ⟨_, rfl, (List.append_nil _).symm, (List.append_nil _).symm, fun _ => rfl, nofun⟩

/-- **The calls of a builder** do the same without those that attach a listener. -/
theorem foldlM_call_bare (b : StepBuilder) (calls : List StepBuilderCall) :
    (calls.filter StepBuilderCall.attachesNothing).foldlM call b.bare =
      (calls.foldlM call b).map bare := by
  induction calls generalizing b with
  | nil => rfl
  | cons c calls ih =>
      rw [List.foldlM_cons]
      rcases call_cases b c with ⟨err, herr, hnothing, hbare⟩ | ⟨b₁, hok, -, -, hkeep, hdrop⟩
      · rw [List.filter_cons_of_pos hnothing, List.foldlM_cons, hbare, herr]
        rfl
      · rw [hok]
        by_cases hnothing : c.attachesNothing = true
        · rw [List.filter_cons_of_pos hnothing, List.foldlM_cons, hkeep hnothing]
          exact ih b₁
        · rw [List.filter_cons_of_neg hnothing, ← hdrop (Bool.eq_false_iff.mpr hnothing)]
          exact ih b₁

/-- The definitions are recorded in the order of the calls, and so are the references. -/
theorem foldlM_call_attached (calls : List StepBuilderCall) (h : calls.foldlM call b = .ok b') :
    b'.listenerDefs = b.listenerDefs ++ calls.flatMap StepBuilderCall.attached ∧
      b'.itemListeners =
        b.itemListeners ++ (calls.flatMap StepBuilderCall.attached).map ListenerDefinition.ref := by
  induction calls generalizing b with
  | nil =>
      cases h
      exact ⟨(List.append_nil _).symm, (List.append_nil _).symm⟩
  | cons c calls ih =>
      rw [List.foldlM_cons] at h
      rcases call_cases b c with ⟨err, herr, -⟩ | ⟨b₁, hok, hdefs, hrefs, -⟩
      · rw [herr] at h
        cases h
      · rw [hok] at h
        obtain ⟨hdefs', hrefs'⟩ := ih h
        rw [List.flatMap_cons, List.map_append]
        exact ⟨by rw [hdefs', hdefs, List.append_assoc],
          by rw [hrefs', hrefs, List.append_assoc]⟩

/-- Without its listeners a builder builds the same definition. -/
theorem build_bare (b : StepBuilder) :
    b.bare.build.map BuiltStep.definition = b.build.map BuiltStep.definition := by
  unfold build bare
  dsimp only
  split
  · rfl
  · cases b.tasklet with
    | some tasklet => rfl
    | none =>
        cases b.chunkSize with
        | none => rfl
        | some chunkSize =>
            cases b.reader with
            | none => rfl
            | some reader =>
                cases b.writer with
                | none => rfl
                | some writer => rfl

/-- A built step carries the item listeners of its builder. -/
theorem build_listeners {built : BuiltStep} (h : b.build = .ok built) :
    built.listeners = b.itemListeners := by
  unfold build at h
  split at h
  · cases h
  · split at h
    · cases h
      rfl
    · cases h
      rfl
    · cases h

/-- The step that is built is the one without listeners. -/
theorem buildCalls_attachesNothing (calls : List StepBuilderCall) :
    (buildCalls (calls.filter StepBuilderCall.attachesNothing)).map BuiltStep.definition =
      (buildCalls calls).map BuiltStep.definition := by
  have hbare := foldlM_call_bare {} calls
  change (calls.filter StepBuilderCall.attachesNothing).foldlM call {} = _ at hbare
  unfold buildCalls
  rw [hbare]
  cases calls.foldlM call {} with
  | error err => rfl
  | ok b => exact build_bare b

/-- Of the listeners attached to a step, `build` hands on the references alone. -/
theorem buildCalls_listeners {calls : List StepBuilderCall} {built : BuiltStep}
    (h : buildCalls calls = .ok built) :
    built.listeners = (calls.flatMap StepBuilderCall.attached).map ListenerDefinition.ref := by
  unfold buildCalls at h
  cases hcalls : calls.foldlM call {} with
  | error err =>
      rw [hcalls] at h
      cases h
  | ok b =>
      rw [hcalls] at h
      rw [build_listeners h, (foldlM_call_attached calls hcalls).2]
      exact List.nil_append _

end StepBuilder

/-- **Whatever is attached to a step is lost**: the job compiled is the one in which nothing was
attached. -/
theorem DefinitionCompiler.compileJobCalls_unattached (fields : StepDefinition → List String)
    (id : String) (calls : List JobCall) :
    compileJobCalls fields id (calls.map JobCall.unattached) = compileJobCalls fields id calls := by
  unfold compileJobCalls
  rw [List.map_map]
  refine congrArg _ (List.map_congr_left fun call _ => ?_)
  cases call with
  | step calls =>
      exact congrArg (fun built => BuilderCall.addStep (.callback built))
        (StepBuilder.buildCalls_attachesNothing calls)
  | other call => rfl

/-! ### The listeners of a job -/

/-- A listener attached to a step. -/
structure Attachment where
  stepId : String
  /-- The step is the one the job holds under its id: no later one has taken its place. -/
  held : Bool
  listener : ListenerDefinition
  deriving DecidableEq

/-- The id under which a call adds a step. -/
def JobCall.addedId (call : JobCall) : Option String :=
  (call.builderCall.added.map StepDefinition.id).head?

/-- The listeners attached by calls, each to its step. -/
def attachments : List JobCall → List Attachment
  | [] => []
  | .other _ :: rest => attachments rest
  | .step calls :: rest =>
      match (JobCall.step calls).addedId with
      | none => attachments rest
      | some stepId =>
          (calls.flatMap StepBuilderCall.attached).map (fun listener =>
            { stepId, held := !rest.any fun c => c.addedId = some stepId, listener }) ++
            attachments rest

/-- The listener that a call adds to the job itself. -/
def JobCall.jobListeners : JobCall → List ListenerDefinition
  | .other (.addListener listener) => [listener]
  | _ => []

namespace JobBuilder

/-- Committing a transition keeps the job's listeners. -/
theorem commitTransition_listeners (b : JobBuilder) :
    b.commitTransition.listeners = b.listeners := by
  unfold commitTransition
  split
  · rfl
  · split
    · split <;> rfl
    · rfl

/-- One call adds its own listener, if it adds one. -/
theorem call_listeners {b b' : JobBuilder} {c : JobCall} (h : b.call c.builderCall = .ok b') :
    b'.listeners = b.listeners ++ c.jobListeners := by
  have hfinish {toStepId : Option String} {message : String}
      (h : b.finish toStepId message = .ok b') : b'.listeners = b.listeners ++ [] := by
    unfold finish at h
    split at h
    · cases h
      rw [commitTransition_listeners, List.append_nil]
    · cases h
  have hadd {step : StepArgument} (h : b.addStep step = .ok b') :
      b'.listeners = b.listeners ++ [] := by
    unfold addStep at h
    cases hstep : StepArgument.build step with
    | error err =>
        rw [hstep] at h
        cases h
    | ok step =>
        rw [hstep] at h
        cases h
        exact (List.append_nil _).symm
  cases c with
  | step calls => exact hadd h
  | other c =>
      cases c with
      | addStep step => exact hadd h
      | fromStep stepId =>
          cases h
          rw [fromStep]
          dsimp only
          split
          · exact (commitTransition_listeners b).trans (List.append_nil _).symm
          · exact (List.append_nil _).symm
      | onStatus status =>
          change b.on status = .ok b' at h
          unfold on at h
          split at h
          · split at h
            · cases h
            · cases h
              exact (List.append_nil _).symm
          · cases h
      | toStep stepId => exact hfinish h
      | endFlow => exact hfinish h
      | addListener listener =>
          cases h
          rfl
      | _ =>
          cases h
          exact (List.append_nil _).symm

end JobBuilder

/-- **The listeners of a compiled job** are those added to the job itself. -/
theorem DefinitionCompiler.compileJobCalls_listeners {fields : StepDefinition → List String}
    {id : String} {calls : List JobCall} {job : CompiledJob}
    (h : compileJobCalls fields id calls = .ok job) :
    job.definition.listeners = calls.flatMap JobCall.jobListeners := by
  obtain ⟨b, hcalls, h⟩ := DefinitionValidator.ok_of_bind h
  obtain ⟨config, hbuild, h⟩ := DefinitionValidator.ok_of_bind h
  have hlisteners : ∀ (calls : List JobCall) (b₀ : JobBuilder),
      (calls.map JobCall.builderCall).foldlM JobBuilder.call b₀ = .ok b →
        b.listeners = b₀.listeners ++ calls.flatMap JobCall.jobListeners := by
    intro calls
    induction calls with
    | nil =>
        intro b₀ hcalls
        cases hcalls
        exact (List.append_nil _).symm
    | cons c calls ih =>
        intro b₀ hcalls
        rw [List.map_cons, List.foldlM_cons] at hcalls
        obtain ⟨b₁, hcall, hrest⟩ := DefinitionValidator.ok_of_bind hcalls
        rw [ih b₁ hrest, JobBuilder.call_listeners hcall, List.flatMap_cons, List.append_assoc]
  have hconfig : config.listeners = b.listeners := by
    unfold JobBuilder.build at hbuild
    dsimp only at hbuild
    split at hbuild
    · cases hbuild
    · cases hbuild
      exact JobBuilder.commitTransition_listeners b
  have hjob : job.listeners = config.listeners := by
    unfold compileFromBuilderConfig at h
    dsimp only at h
    generalize validate fields _ = checked at h
    cases checked with
    | error err => cases h
    | ok u =>
        cases h
        rfl
  change job.listeners = _
  rw [hjob, hconfig, hlisteners calls _ hcalls]
  rfl

end NestBatch
