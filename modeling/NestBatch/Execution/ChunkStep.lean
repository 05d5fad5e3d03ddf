import NestBatch.Lib.Scoped
import NestBatch.Execution.Listeners
import NestBatch.Execution.Policies

/-!
# The chunk step executor

`ChunkStepExecutor.execute`: read, process and write a step chunk by chunk,
with per-item skip and retry, item streams, a checkpoint after every chunk and
the drain of already committed chunks on a restart.  The function catches its
own exceptions, so its local variables are the `Locals` of scoped code.

The chunk loop has no bound of its own; it takes fuel.
-/

namespace NestBatch

/-- What the executor hands to the chunk step executor. -/
structure ChunkExecutionContext where
  jobExecutionId : String
  stepExecutionId : String
  stepName : Option String := none
  jobParameters : JobParameters := []
  listenerResolvers : ResolverMap := []
  skipListenerResolvers : Option ResolverMap := none
  resolvers : List (String × Handle) := []
  jobExecutionId2 : String := ""
  providerResolvers : Option (List (String × Component)) := none
  resumeFromChunkIndex : Option Int := none
  partitionIndex : Option Int := none
  partitionCount : Option Int := none

/-- A resolved reader, processor or writer: what is called, and whether it is an `ItemStream`. -/
structure ItemHandler where
  target : Handle
  isStream : Bool
  deriving DecidableEq, Repr

namespace ChunkStepExecutor

/-- The local variables of `execute` that its `catch` still sees. -/
structure Locals where
  readCount : Nat := 0
  writeCount : Nat := 0
  skipCount : Nat := 0
  commitCount : Nat := 0
  chunkIndex : Int := 0
  openedStreams : List Handle := []
  streamContext : ExecutionContext := { data := .null, version := 0 }

variable {α : Type}

/-- Code of the chunk step executor, over its local variables. -/
abbrev ChunkCode (α β : Type) := Scoped (Op α) Op.Resp Thrown Locals β

/-- The context that the step's listeners are told. -/
def buildListenerContext (step : ChunkStepDefinition) (context : ChunkExecutionContext)
    (chunkIndex : Option Int := none) : ListenerContext :=
  { jobExecutionId := context.jobExecutionId
    stepExecutionId := context.stepExecutionId
    stepName := some (context.stepName.getD step.id)
    jobParameters := context.jobParameters
    chunkIndex := chunkIndex }

/-- The context that the step's item code is told. -/
def buildItemContext (step : ChunkStepDefinition) (context : ChunkExecutionContext)
    (chunkIndex : Int) : ItemExecutionContext :=
  { jobExecutionId := context.jobExecutionId
    stepExecutionId := context.stepExecutionId
    stepName := context.stepName.getD step.id
    jobParameters := context.jobParameters
    chunkIndex := chunkIndex }

/-- `{ status, exitCode, exitMessage, readCount, ... }` from the counters as they stand. -/
def Locals.result (l : Locals) (status : StepStatus) (exitCode exitMessage : String) :
    StepResult :=
  { status := status, exitCode := exitCode, exitMessage := exitMessage, readCount := l.readCount
    writeCount := l.writeCount, skipCount := l.skipCount, commitCount := some l.commitCount }

/-! ### Resolving the item handlers -/

/-- `resolveProviderToken`. -/
def resolveProviderToken (role : String) (ref : Ref)
    (map : Option (List (String × Component))) : Except Thrown Component :=
  match ref.token with
  | none | some "" =>
      .error (.error ("Missing token on " ++ role ++
        " ref: RefKind.ProviderToken requires a non-empty `token` field"))
  | some token =>
      match map with
      | none =>
          .error (.error ("No provider resolvers available for " ++ role ++ " ref (token=" ++
            token ++ "); the executor context did not receive a `providerResolvers` map"))
      | some map =>
          match map.lookup token with
          | none =>
              .error (.error ("Provider for " ++ role ++ " token \"" ++ token ++
                "\" was not found in the provider resolvers map"))
          | some instance_ => .ok instance_

/-- What reading `kind` off a value that is no reference throws. -/
def notAReference : Thrown :=
  ⟨.typeError, "Cannot read properties of undefined (reading 'kind')"⟩

/-- Both tokens of a method reference, when neither is empty. -/
def methodTokens (ref : Ref) : Option (String × String) :=
  match ref.classToken, ref.methodName with
  | some classToken, some methodName =>
      if classToken = "" ∨ methodName = "" then none else some (classToken, methodName)
  | _, _ => none

/-- A method reference, looked up under its key in the resolvers. -/
def resolveMethod (role Role : String) (ref : Ref) (context : ChunkExecutionContext) :
    Except Thrown Handle :=
  match methodTokens ref with
  | none => .error (.error ("Unsupported " ++ role ++ " ref kind: method"))
  | some (classToken, methodName) =>
      match context.resolvers.lookup
          (context.jobExecutionId2 ++ "::" ++ role ++ "::" ++ classToken ++ "::" ++ methodName) with
      | none =>
          .error (.error (Role ++ " not resolved: " ++ classToken ++ "." ++ methodName))
      | some fn => .ok fn

/-- What a builder lambda stands for: a function it returns, an object with the
method it returns, else the lambda itself. -/
def fromLambda (fn : Handle) (result : Component) : ItemHandler :=
  if result.isFunction then { target := result.target, isStream := false }
  else if result.hasMethod then { target := result.target, isStream := result.isStream }
  else { target := fn, isStream := false }

/-- Call a factory function; an object stands for itself. -/
def callFactory (factory : Component) (ctx : ItemExecutionContext) : Code α Component :=
  if factory.isFunction then orThrow (request (.user (.factory factory.target ctx)))
  else .pure factory

/-- `invokeReaderFactory`: the outcome of a factory must be a reader. -/
def invokeReaderFactory (factory : Component) (ctx : ItemExecutionContext) :
    Code α ItemHandler := do
  let reader ← callFactory factory ctx
  if !reader.isFunction && reader.hasMethod then
    .pure { target := reader.target, isStream := reader.isStream }
  else .throw (.error "@ItemReader({ factory: true }) must return an ItemReader")

/-- The reader of a step: a method, a provider or what a factory makes. -/
def resolveReader (ref : Ref) (context : ChunkExecutionContext) (step : ChunkStepDefinition) :
    Code α ItemHandler :=
  let factoryContext := buildItemContext step context 0
  match ref.kind, ref.fn with
  | .undefined, _ => .throw notAReference
  | .BuilderLambda, some fn => do
      let result ← orThrow (request (.user (.invoke fn)))
      if ref.factory then invokeReaderFactory result factoryContext
      else .pure (fromLambda fn result)
  | .BuilderLambda, none => .throw (.error "Unsupported reader ref kind: builder-lambda")
  | .ProviderToken, _ => do
      let resolved ← .ofExcept (resolveProviderToken "reader" ref context.providerResolvers)
      if ref.factory then invokeReaderFactory resolved factoryContext
      else .pure { target := resolved.target, isStream := resolved.isStream }
  | .Method, _ => do
      let fn ← .ofExcept (resolveMethod "reader" "Reader" ref context)
      if ref.factory then
        invokeReaderFactory { target := fn, isFunction := true } factoryContext
      else .pure { target := fn, isStream := false }

/-- `resolveProcessor` and `resolveWriter`, which differ in their role only. -/
def resolveHandler (role Role : String) (ref : Ref) (context : ChunkExecutionContext) :
    Code α ItemHandler :=
  match ref.kind, ref.fn with
  | .undefined, _ => .throw notAReference
  | .BuilderLambda, some fn => do
      let result ← orThrow (request (.user (.invoke fn)))
      .pure (fromLambda fn result)
  | .BuilderLambda, none =>
      .throw (.error ("Unsupported " ++ role ++ " ref kind: builder-lambda"))
  | .ProviderToken, _ => do
      let resolved ← .ofExcept (resolveProviderToken role ref context.providerResolvers)
      .pure { target := resolved.target, isStream := resolved.isStream }
  | .Method, _ => do
      let fn ← .ofExcept (resolveMethod role Role ref context)
      .pure { target := fn, isStream := false }

/-- The processor of a step. -/
def resolveProcessor (ref : Ref) (context : ChunkExecutionContext) : Code α ItemHandler :=
  resolveHandler "processor" "Processor" ref context

/-- The writer of a step. -/
def resolveWriter (ref : Ref) (context : ChunkExecutionContext) : Code α ItemHandler :=
  resolveHandler "writer" "Writer" ref context

/-! ### Item streams -/

/-- Open the streams in order on the step context, each leaving it as it likes. -/
def openStreams : List Handle → ChunkCode α Unit
  | [] => pure ()
  | stream :: rest => do
      let l ← Scoped.get
      let ctx ← Scoped.lift (orThrow (request (.user (.openStream stream l.streamContext))))
      Scoped.modify fun l =>
        { l with streamContext := ctx, openedStreams := l.openedStreams ++ [stream] }
      openStreams rest

/-- Has every stream put its place into the context. -/
def updateStreams : List Handle → ExecutionContext → Code α ExecutionContext
  | [], ctx => .pure ctx
  | stream :: rest, ctx => do
      let next ← orThrow (request (.user (.updateStream stream ctx)))
      updateStreams rest next

/-- Close in the given order. -/
def closeInOrder : List Handle → Code α Unit
  | [] => .pure ()
  | stream :: rest => do
      orThrow (request (.user (.closeStream stream)))
      closeInOrder rest

/-- `closeStreams`: last opened first. -/
def closeStreams (streams : List Handle) : Code α Unit := closeInOrder streams.reverse

/-! ### One phase: retry and skip -/

/-- What to do about a failed attempt. -/
inductive Decision
  | skip
  | retry
  | fail (err : Thrown)
  deriving DecidableEq, Repr

/-- An error that the skip policy covers is skipped while the live skip count leaves budget. -/
def consultSkip (policies : Policies) (skipCount : Nat) : Decision :=
  if (skipCount : Int) + 1 > policies.skipLimit then
    .fail (.SkipLimitExceededError policies.skipLimit)
  else .skip

/-- The retry policy is asked for a retry, and past its limit for membership alone. -/
def consultRetry (policies : Policies) (err : Thrown) (attempt : Nat) : Decision :=
  match policies.retry with
  | none => .fail err
  | some retry =>
      match canRetry retry err attempt policies.retryLimit with
      | .error testErr => .fail testErr
      | .ok true => .retry
      | .ok false =>
          if (attempt : Int) > policies.retryLimit then
            match isRetryable retry err with
            | .error testErr => .fail testErr
            | .ok true => .fail (.RetryLimitExceededError policies.retryLimit)
            | .ok false => .fail err
          else .fail err

/-- The skip policy is asked first, by membership alone, then the retry policy.  What a test throws
is thrown on. -/
def consult (policies : Policies) (err : Thrown) (skipCount attempt : Nat) : Decision :=
  match policies.covers err with
  | .error testErr => .fail testErr
  | .ok true => consultSkip policies skipCount
  | .ok false => consultRetry policies err attempt

/-- What one phase came to: a value, or a skip. -/
inductive PhaseResult (β : Type)
  | ok (value : β)
  | skipped

/-- The hooks of `RunPhaseOptions`.  `onSkip` is its listener call; the count is
kept by `runPhase`. -/
structure PhaseHooks (α β : Type) where
  name : String
  before : Code α Unit
  after : β → Code α Unit
  onError : Thrown → Code α Unit
  onSkip : Thrown → Code α Unit

/-- The attempts from number `attempt` on, while there is cap left. -/
def runPhaseFrom {β : Type} (policies : Policies) (op : Code α β) (hooks : PhaseHooks α β) :
    Nat → Nat → ChunkCode α (PhaseResult β)
  | 0, _ =>
      Scoped.throw (.error ("ChunkStepExecutor: phase \"" ++ hooks.name ++
        "\" exhausted attempts without a retry policy"))
  | cap + 1, attempt => do
      Scoped.lift hooks.before
      let out ← Scoped.attempt (Scoped.lift op)
      match out with
      | .ok value => do
          Scoped.lift (hooks.after value)
          pure (.ok value)
      | .error err => do
          Scoped.lift (hooks.onError err)
          let l ← Scoped.get
          match consult policies err l.skipCount attempt with
          | .skip => do
              Scoped.modify fun l => { l with skipCount := l.skipCount + 1 }
              Scoped.lift (hooks.onSkip err)
              pure .skipped
          | .retry => runPhaseFrom policies op hooks cap (attempt + 1)
          | .fail err' => Scoped.throw err'

/-- `runPhase`: one attempt without a retry policy, up to 999 with one. -/
def runPhase {β : Type} (policies : Policies) (op : Code α β) (hooks : PhaseHooks α β) :
    ChunkCode α (PhaseResult β) :=
  runPhaseFrom policies op hooks (if policies.retry.isSome then 999 else 1) 1

/-! ### The phases of a chunk -/

/-- All the chunk loop needs besides its locals. -/
structure Setting where
  step : ChunkStepDefinition
  context : ChunkExecutionContext
  policies : Policies
  partition : Option (Int × Int)
  reader : ItemHandler
  processor : Option ItemHandler
  writer : ItemHandler

namespace Setting

/-- The listeners of the step. -/
def listeners (S : Setting) : ResolverMap := S.context.listenerResolvers

/-- The `onSkip` listeners, those of the step where it has none of its own. -/
def skipListeners (S : Setting) : ResolverMap :=
  S.context.skipListenerResolvers.getD S.context.listenerResolvers

/-- What item code is told in a chunk. -/
def itemContext (S : Setting) (chunkIndex : Int) : ItemExecutionContext :=
  buildItemContext S.step S.context chunkIndex

/-- What listeners are told in a chunk. -/
def listenerContext (S : Setting) (chunkIndex : Int) : ListenerContext :=
  buildListenerContext S.step S.context (some chunkIndex)

/-- Items this iteration may read: the rest of the partition's range, or `chunkSize`. -/
def cap (S : Setting) (readCount : Nat) : Nat :=
  match S.partition with
  | some (from_, to_) => (to_ - from_ - (readCount : Int)).toNat
  | none => S.step.chunkSize

/-- `reader.read(itemContext)`. -/
def read (S : Setting) (chunkIndex : Int) : Code α (Option α) :=
  orThrow (request (.user (.read S.reader.target (S.itemContext chunkIndex))))

/-- The listeners around a read. -/
def readHooks (S : Setting) (chunkIndex : Int) : PhaseHooks α (Option α) :=
  { name := "read"
    before := ListenerInvoker.invokeBeforeRead S.listeners (S.listenerContext chunkIndex)
    after := fun item =>
      match item with
      | some item =>
          ListenerInvoker.invokeAfterRead S.listeners item (S.listenerContext chunkIndex)
      | none => .pure ()
    onError := fun err =>
      ListenerInvoker.invokeOnReadError S.listeners err (S.listenerContext chunkIndex)
    onSkip := fun err => ListenerInvoker.invokeOnSkipRead S.skipListeners err }

/-- Read up to `n` more items behind those already read; stop at the end of input. -/
def readPhase (S : Setting) (chunkIndex : Int) : Nat → List α → ChunkCode α (List α)
  | 0, items => pure items
  | n + 1, items => do
      let r ← runPhase S.policies (S.read chunkIndex) (S.readHooks chunkIndex)
      match r with
      | .skipped => S.readPhase chunkIndex n items
      | .ok none => pure items
      | .ok (some item) => do
          Scoped.modify fun l => { l with readCount := l.readCount + 1 }
          S.readPhase chunkIndex n (items ++ [item])

/-- The listeners around a process call. -/
def processHooks (S : Setting) (chunkIndex : Int) (item : α) : PhaseHooks α (Option α) :=
  { name := "process"
    before := ListenerInvoker.invokeBeforeProcess S.listeners item (S.listenerContext chunkIndex)
    after := fun value =>
      ListenerInvoker.invokeAfterProcess S.listeners item value (S.listenerContext chunkIndex)
    onError := fun err =>
      ListenerInvoker.invokeOnProcessError S.listeners item err (S.listenerContext chunkIndex)
    onSkip := fun err => ListenerInvoker.invokeOnSkipProcess S.skipListeners item err }

/-- Process the items behind those already processed; a filtered item counts as a skip. -/
def processPhase (S : Setting) (chunkIndex : Int) : List α → List α → ChunkCode α (List α)
  | [], processed => pure processed
  | item :: items, processed =>
      match S.processor with
      | none => S.processPhase chunkIndex items (processed ++ [item])
      | some processor => do
          let r ← runPhase S.policies
            (orThrow (request (.user
              (.process processor.target item (S.itemContext chunkIndex)))))
            (S.processHooks chunkIndex item)
          match r with
          | .skipped => S.processPhase chunkIndex items processed
          | .ok (some value) => S.processPhase chunkIndex items (processed ++ [value])
          | .ok none => do
              Scoped.modify fun l => { l with skipCount := l.skipCount + 1 }
              S.processPhase chunkIndex items processed

/-- The listeners around a write. -/
def writeHooks (S : Setting) (chunkIndex : Int) (processed : List α) :
    PhaseHooks α (Option WriterResult) :=
  { name := "write"
    before :=
      ListenerInvoker.invokeBeforeWrite S.listeners processed (S.listenerContext chunkIndex)
    after := fun value =>
      ListenerInvoker.invokeAfterWrite S.listeners processed value (S.listenerContext chunkIndex)
    onError := fun err =>
      ListenerInvoker.invokeOnWriteError S.listeners processed err (S.listenerContext chunkIndex)
    onSkip := fun err => ListenerInvoker.invokeOnSkipWrite S.skipListeners processed err }

/-- `writer.write(processed, itemContext)`; the in-memory transaction manager
runs it directly. -/
def write (S : Setting) (chunkIndex : Int) (processed : List α) :
    Code α (Option WriterResult) :=
  orThrow (request (.user (.write S.writer.target processed (S.itemContext chunkIndex))))

/-- `processed.length`, behind the writer and the write listeners. -/
def lengthOf (items : List α) : Code α Nat := request (.user (.lengthOf items))

/-- Count a write: what the writer reports, or the items the array then holds. -/
def countWrite (processed : List α) : Option WriterResult → ChunkCode α Unit
  | some r =>
      Scoped.modify fun l =>
        { l with writeCount := l.writeCount + r.written, skipCount := l.skipCount + r.skipped }
  | none => do
      let length ← Scoped.lift (lengthOf processed)
      Scoped.modify fun l => { l with writeCount := l.writeCount + length }

/-- Write a chunk that has something left to write. -/
def writePhase (S : Setting) (chunkIndex : Int) (processed : List α) : ChunkCode α ChunkEnd :=
  if processed.isEmpty then pure .nothingToWrite
  else do
    let r ← runPhase S.policies (S.write chunkIndex processed) (S.writeHooks chunkIndex processed)
    match r with
    | .ok value => do
        countWrite processed value
        pure .written
    | .skipped => pure .writeSkipped

/-- Persist the checkpoint of the chunk just passed and reload the context. -/
def checkpoint (S : Setting) : ChunkCode α Unit := do
  Scoped.modify fun l =>
    { l with streamContext := withLastChunkIndex l.streamContext l.chunkIndex }
  let l ← Scoped.get
  let next ← Scoped.lift (updateStreams l.openedStreams l.streamContext)
  Scoped.modify fun l => { l with streamContext := next }
  Scoped.lift (saveExecutionContext (.stepExecutionId S.context.stepExecutionId) next)
  let reloaded ← Scoped.lift
    (getExecutionContext (.stepExecutionId S.context.stepExecutionId))
  Scoped.modify fun l => { l with streamContext := reloaded }

/-- The counts that `after:chunk` listeners are told. -/
def progress (l : Locals) (commitCount : Nat) : ChunkProgress :=
  { readCount := l.readCount, writeCount := l.writeCount, skipCount := l.skipCount
    commitCount := commitCount }

/-- Process, write and commit the items of a chunk. -/
def commitChunk (S : Setting) (chunkIndex : Int) (items : List α) : ChunkCode α Unit := do
  let processed ← S.processPhase chunkIndex items []
  let ending ← S.writePhase chunkIndex processed
  Scoped.lift (request (.passed S.context.stepExecutionId chunkIndex items ending))
  S.checkpoint
  let l ← Scoped.get
  Scoped.lift (ListenerInvoker.invokeAfterChunk S.listeners (S.listenerContext chunkIndex)
    (progress l (l.commitCount + 1)))
  Scoped.modify fun l => { l with commitCount := l.commitCount + 1, chunkIndex := l.chunkIndex + 1 }

/-- One iteration of the chunk loop past the skip phase; `false` is `break`. -/
def runChunk (S : Setting) : ChunkCode α Bool := do
  let l ← Scoped.get
  if S.cap l.readCount = 0 then pure false
  else do
    Scoped.lift (ListenerInvoker.invokeBefore S.listeners .chunk (S.listenerContext l.chunkIndex))
    let items ← S.readPhase l.chunkIndex (S.cap l.readCount) []
    if items.isEmpty then do
      let l' ← Scoped.get
      Scoped.lift (ListenerInvoker.invokeAfterChunk S.listeners (S.listenerContext l.chunkIndex)
        (progress l' l'.commitCount))
      pure false
    else do
      S.commitChunk l.chunkIndex items
      pure true

/-- Read and drop up to `n` items; the number dropped. -/
def drainItems (S : Setting) (chunkIndex : Int) : Nat → Nat → Code α Nat
  | 0, drained => .pure drained
  | n + 1, drained => do
      let item ← S.read chunkIndex
      match item with
      | none => .pure drained
      | some _ => S.drainItems chunkIndex n (drained + 1)

/-- One iteration of the skip phase: drain a chunk committed by an earlier run. -/
def drainChunk (S : Setting) : ChunkCode α Bool := do
  let l ← Scoped.get
  if S.cap l.readCount = 0 then pure false
  else do
    let drained ← Scoped.lift (S.drainItems l.chunkIndex (S.cap l.readCount) 0)
    if drained = 0 then pure false
    else do
      Scoped.modify fun l => { l with chunkIndex := l.chunkIndex + 1 }
      pure true

/-- Whether the chunk at hand was committed by an earlier run and must be drained. -/
def mustDrain (S : Setting) (chunkIndex : Int) : Bool :=
  match S.context.resumeFromChunkIndex with
  | some resume => !S.reader.isStream && decide (chunkIndex ≤ resume)
  | none => false

/-- One iteration of `while (true)`. -/
def iteration (S : Setting) : ChunkCode α Bool := do
  let l ← Scoped.get
  if S.mustDrain l.chunkIndex then S.drainChunk else S.runChunk

/-- `while (true)`, for as many iterations as there is fuel. -/
def chunkLoop (S : Setting) : Nat → ChunkCode α Unit
  | 0 => Scoped.spin
  | fuel + 1 => do
      let again ← S.iteration
      if again then S.chunkLoop fuel else pure ()

/-- Where the chunk loop starts: a stream reader reopens behind the checkpoint,
a plain one starts over and is drained. -/
def firstChunk (S : Setting) : Int :=
  match S.context.resumeFromChunkIndex with
  | some resume => if S.reader.isStream then resume + 1 else 0
  | none => 0

/-- The streams among the handlers, in opening order. -/
def streams (S : Setting) : List Handle :=
  (if S.reader.isStream then [S.reader.target] else []) ++
    (if S.writer.isStream then [S.writer.target] else [])

end Setting

/-! ### The step -/

/-- Resolve the partition range of this execution, if the transport attached one. -/
def resolveRange (step : ChunkStepDefinition) (context : ChunkExecutionContext) :
    Except Thrown (Option (Int × Int)) :=
  match context.partitionIndex, context.partitionCount with
  | some partitionIndex, some partitionCount => do
      enforcePartitionIndex partitionIndex partitionCount
      match step.partitions.bind (·.range) with
      | none => pure none
      | some range => do
          let (from_, to_) ← range partitionIndex partitionCount
          if from_ < 0 ∨ to_ < from_ then
            .error (.error ("[ChunkStepExecutor] partitions.range(" ++ toString partitionIndex ++
              ", " ++ toString partitionCount ++ ") returned invalid [" ++ toString from_ ++
              ", " ++ toString to_ ++ ")"))
          else pure (some (from_, to_))
  | _, _ => .ok none

/-- The processor, if the step has one. -/
def resolveProcessorOf (step : ChunkStepDefinition) (context : ChunkExecutionContext) :
    Code α (Option ItemHandler) :=
  match step.processor with
  | none => .pure none
  | some ref => do
      let processor ← resolveProcessor ref context
      .pure (some processor)

/-- Resolve the handlers, open the streams and place the chunk index. -/
def prepare (step : ChunkStepDefinition) (context : ChunkExecutionContext) (policies : Policies)
    (partition : Option (Int × Int)) : ChunkCode α Setting := do
  let reader ← Scoped.lift (resolveReader step.reader context step)
  let processor ← Scoped.lift (resolveProcessorOf step context)
  let writer ← Scoped.lift (resolveWriter step.writer context)
  let S : Setting := { step := step, context := context, policies := policies,
                       partition := partition, reader := reader, processor := processor,
                       writer := writer }
  let ctx ← Scoped.lift (getExecutionContext (.stepExecutionId context.stepExecutionId))
  Scoped.modify fun l => { l with streamContext := ctx }
  openStreams S.streams
  Scoped.modify fun l => { l with chunkIndex := S.firstChunk }
  pure S

/-- The body of the `try` block. -/
def body (fuel : Nat) (step : ChunkStepDefinition) (context : ChunkExecutionContext)
    (policies : Policies) (partition : Option (Int × Int)) : ChunkCode α StepResult := do
  let S ← prepare step context policies partition
  S.chunkLoop fuel
  let l ← Scoped.get
  Scoped.modify fun l => { l with openedStreams := [] }
  Scoped.lift (closeStreams l.openedStreams)
  Scoped.lift (ListenerInvoker.invokeAfterStep (buildListenerContext step context)
    context.listenerResolvers (l.result .COMPLETED "COMPLETED" ""))

/-- The `catch` block: close what is open, tell the listeners, report the step FAILED. -/
def onFailure (step : ChunkStepDefinition) (context : ChunkExecutionContext) (err : Thrown)
    (l : Locals) : Code α StepResult := do
  let closed ← (closeStreams l.openedStreams : Code α Unit).attempt
  let finalError :=
    match closed with
    | .ok () => err
    | .error closeErr => closeErr
  ListenerInvoker.invokeOnError context.listenerResolvers .chunk
    (buildListenerContext step context (some l.chunkIndex)) finalError
  let exitMessage ← .ofExcept finalError.text
  ListenerInvoker.invokeOnError context.listenerResolvers .step
    (buildListenerContext step context) finalError
  ListenerInvoker.invokeAfterStep (buildListenerContext step context) context.listenerResolvers
    (l.result .FAILED "FAILED" exitMessage)

/-- What `try`/`catch` makes of the outcome of its body. -/
def recover (step : ChunkStepDefinition) (context : ChunkExecutionContext) :
    Except Thrown StepResult × Locals → Code α StepResult
  | (.ok result, _) => .pure result
  | (.error err, l) => onFailure step context err l

/-- `execute`: the policies, the range and the `before:step` listeners, then the try block. -/
def execute (fuel : Nat) (step : ChunkStepDefinition) (context : ChunkExecutionContext) :
    Code α StepResult := do
  let policies ← .ofExcept (Policies.compile step)
  let partition ← .ofExcept (resolveRange step context)
  ListenerInvoker.invokeBefore context.listenerResolvers .step (buildListenerContext step context)
  let outcome ← body fuel step context policies partition {}
  recover step context outcome

end ChunkStepExecutor

end NestBatch
