import NestBatch.Lib.Wp
import NestBatch.Repository.InMemory

/-!
# What the executors do to the outside

Every await of the executors is an operation: a call of the repository, of the
clock, of the broker, of the observer, or of user code.  The handler answers the
repository operations by the in-memory repository, and user code and the
broker by an arbitrary environment with a state of its own.  User code that
holds an item or tasklet context may save the step's execution context any
number of times while it runs.

`passed` is a history note, no operation of the source: it marks the point of
the chunk loop where the write phase of a chunk is over and the checkpoint is
about to be moved.
-/

namespace NestBatch

/-- A value returned by user code, as the executors look at it. -/
structure Component where
  target : Handle
  /-- `typeof value === 'function'` -/
  isFunction : Bool := false
  /-- an object with the method its role needs -/
  hasMethod : Bool := true
  /-- an object with `open`, `update` and `close` -/
  isStream : Bool := false
  deriving DecidableEq, Repr

/-- What a reader, a processor and a writer are told of the item at hand. -/
structure ItemExecutionContext where
  jobExecutionId : String
  stepExecutionId : String
  stepName : String
  jobParameters : JobParameters
  chunkIndex : Int

/-- What a tasklet is told of its execution. -/
structure TaskletContext where
  jobExecutionId : String
  stepExecutionId : String
  jobParameters : JobParameters

/-- What a listener is told of the point it is called at. -/
structure ListenerContext where
  jobExecutionId : String
  stepExecutionId : String
  stepName : Option String
  jobParameters : JobParameters
  chunkIndex : Option Int := none

/-- The answer of a writer that counts for itself. -/
structure WriterResult where
  written : Nat
  skipped : Nat
  deriving DecidableEq, Repr

/-- The part of a listener key before its name: `phase:kind:` or `on-skip:kind:`. -/
inductive ListenerKey
  | lifecycle (phase : ListenerPhase) (kind : ListenerKind)
  | onSkip (kind : SkipSubKind)
  deriving DecidableEq, Repr

/-- The counters an `after:chunk` listener is shown. -/
structure ChunkProgress where
  readCount : Nat
  writeCount : Nat
  skipCount : Nat
  commitCount : Nat
  deriving DecidableEq, Repr

/-- The arguments of a listener call, by the shape of the call. -/
inductive ListenerArgs (α : Type)
  | ctx (ctx : ListenerContext)
  | afterJob (ctx : ListenerContext) (status : JobStatus)
  | afterChunk (ctx : ListenerContext) (progress : ChunkProgress)
  | onError (ctx : ListenerContext) (err : Thrown)
  | afterRead (item : α) (ctx : ListenerContext)
  | readError (err : Thrown) (ctx : ListenerContext)
  | beforeProcess (item : α) (ctx : ListenerContext)
  | afterProcess (item : α) (result : Option α) (ctx : ListenerContext)
  | processError (item : α) (err : Thrown) (ctx : ListenerContext)
  | beforeWrite (items : List α) (ctx : ListenerContext)
  | afterWrite (items : List α) (result : Option WriterResult) (ctx : ListenerContext)
  | writeError (items : List α) (err : Thrown) (ctx : ListenerContext)
  | skipRead (err : Thrown)
  | skipProcess (item : α) (err : Thrown)
  | skipWrite (items : List α) (err : Thrown)

/-- What a decider is told of the step it decides after. -/
structure DeciderContext where
  jobExecution : JobExecution
  stepId : String
  stepExecutionId : String
  stepStatus : StepStatus
  exitCode : String
  exitMessage : String

/-- A call of user code.  The `items` of a writer and of the write listeners are the executor's own
array, which they may change. -/
inductive UserCall (α : Type)
  /-- `ref.fn()` -/
  | invoke (fn : Handle)
  | factory (fn : Handle) (ctx : ItemExecutionContext)
  | read (reader : Handle) (ctx : ItemExecutionContext)
  | process (processor : Handle) (item : α) (ctx : ItemExecutionContext)
  | write (writer : Handle) (items : List α) (ctx : ItemExecutionContext)
  /-- no call: `items.length`, of an array as user code has left it -/
  | lengthOf (items : List α)
  | openStream (stream : Handle) (ctx : ExecutionContext)
  | updateStream (stream : Handle) (ctx : ExecutionContext)
  | closeStream (stream : Handle)
  | tasklet (tasklet : Handle) (ctx : TaskletContext)
  | listener (fn : Handle) (key : ListenerKey) (args : ListenerArgs α)
  /-- an `after:step` listener, which is handed the live result -/
  | afterStep (fn : Handle) (ctx : ListenerContext) (result : StepResult)
  | decide (decider : Handle) (ctx : DeciderContext)

/-- The answers of user code.  A stream answers with the context object as it
leaves it; a tasklet with its value as a string, `none` for `undefined`; an
`after:step` listener also with the result as it leaves it. -/
def UserCall.Resp {α : Type} : UserCall α → Type
  | .invoke _ => Except Thrown Component
  | .factory _ _ => Except Thrown Component
  | .read _ _ => Except Thrown (Option α)
  | .process _ _ _ => Except Thrown (Option α)
  | .write _ _ _ => Except Thrown (Option WriterResult)
  | .lengthOf _ => Nat
  | .openStream _ _ => Except Thrown ExecutionContext
  | .updateStream _ _ => Except Thrown ExecutionContext
  | .closeStream _ => Except Thrown Unit
  | .tasklet _ _ => Except Thrown (Option String)
  | .listener _ _ _ => Except Thrown Unit
  | .afterStep _ _ _ => Except Thrown Unit × StepResult
  | .decide _ _ => Except Thrown String

/-- The step whose context the called code can read and save. -/
def UserCall.stepScope {α : Type} : UserCall α → Option String
  | .factory _ ctx => some ctx.stepExecutionId
  | .read _ ctx => some ctx.stepExecutionId
  | .process _ _ ctx => some ctx.stepExecutionId
  | .write _ _ ctx => some ctx.stepExecutionId
  | .tasklet _ ctx => some ctx.stepExecutionId
  | _ => none

/-- A queued unit of work, of either transport. -/
structure JobPayload where
  executionId : String
  jobExecutionId : String
  jobId : String
  stepId : String
  partitionIndex : Option Int := none
  deriving DecidableEq, Repr

/-- How the write phase of a chunk ended. -/
inductive ChunkEnd
  | written
  | writeSkipped
  | nothingToWrite
  deriving DecidableEq, Repr

/-- Every call that the executor makes of its surroundings. -/
inductive Op (α : Type)
  | createExecutionAtomic (name jobKey : String) (params : JobParameters)
  | updateJobExecution (executionId : String) (patch : JobExecutionPatch)
  | getJobExecution (executionId : String)
  | getJobInstance (jobInstanceId : String)
  | createStepExecution (jobExecutionId stepName : String)
  | updateStepExecution (stepExecutionId : String) (patch : StepExecutionPatch)
  | findStepExecutions (jobExecutionId : String)
  | getExecutionContext (scope : ExecutionScope)
  | saveExecutionContext (scope : ExecutionScope) (ctx : ExecutionContext)
  | findLatestStepExecution (jobExecutionId stepName : String)
  | now
  | randomUUID
  | enqueue (payload : JobPayload)
  | emit (event : BatchEvent)
  | user (call : UserCall α)
  | passed (stepExecutionId : String) (chunkIndex : Int) (items : List α) (ending : ChunkEnd)

/-- The answer of an operation. -/
def Op.Resp {α : Type} : Op α → Type
  | .createExecutionAtomic _ _ _ => Except Thrown JobExecution
  | .updateJobExecution _ _ => Except Thrown Unit
  | .getJobExecution _ => Option JobExecution
  | .getJobInstance _ => Option JobInstance
  | .createStepExecution _ _ => StepExecution
  | .updateStepExecution _ _ => Except Thrown Unit
  | .findStepExecutions _ => List StepExecution
  | .getExecutionContext _ => ExecutionContext
  | .saveExecutionContext _ _ => Unit
  | .findLatestStepExecution _ _ => Option StepExecution
  | .now => Time
  | .randomUUID => String
  | .enqueue _ => Except Thrown String
  | .emit _ => Unit
  | .user call => call.Resp
  | .passed _ _ _ _ => Unit

/-- An asynchronous function of the batch code. -/
abbrev Code (α β : Type) := Prog (Op α) Op.Resp Thrown β

/-- User code and broker, with a state of their own. -/
structure Environment (α υ : Type) where
  /-- Answer, new state, and the data saved to the step's context on the way. -/
  user : (call : UserCall α) → υ → ExecutionContext → call.Resp × υ × List JsonValue
  broker : JobPayload → υ → Except Thrown String × υ

/-- The repository, the clock, the ids, the queue and the state of the user's code. -/
structure World (υ : Type) where
  repo : InMemoryJobRepository
  clock : Time
  uuid : IdGenerator
  uuidsIssued : Nat
  queue : List JobPayload
  user : υ

namespace World

variable {υ : Type}

/-- A repository with nothing in it, at time zero. -/
def initial (idGen uuid : IdGenerator) (user : υ) : World υ :=
  { repo := .new idGen, clock := 0, uuid := uuid, uuidsIssued := 0, queue := [], user := user }

/-- The contexts user code saves, oldest first. -/
def saveAll (repo : InMemoryJobRepository) (scope : ExecutionScope) :
    List JsonValue → InMemoryJobRepository
  | [] => repo
  | data :: rest =>
      saveAll (repo.saveExecutionContext scope { data := data, version := 0 }) scope rest

end World

variable {α υ : Type}

/-- A call of user code: the step context it can see goes in, its saves come out. -/
def handleUser (env : Environment α υ) (call : UserCall α) (w : World υ) :
    call.Resp × World υ :=
  match call.stepScope with
  | none =>
      let (r, user, _) := env.user call w.user { data := .null, version := 0 }
      (r, { w with user := user })
  | some stepExecutionId =>
      let scope := ExecutionScope.stepExecutionId stepExecutionId
      let (r, user, saves) := env.user call w.user (w.repo.getExecutionContext scope)
      (r, { w with user := user, repo := World.saveAll w.repo scope saves })

/-- The meaning of the operations. -/
def handle (env : Environment α υ) : Prog.Handler (Op α) Op.Resp (World υ)
  | .createExecutionAtomic name jobKey params, w =>
      let (r, repo) := w.repo.createExecutionAtomic w.clock name jobKey params
      (r, { w with repo := repo })
  | .updateJobExecution executionId patch, w =>
      let (r, repo) := w.repo.updateJobExecution executionId patch
      (r, { w with repo := repo })
  | .getJobExecution executionId, w => (w.repo.getJobExecution executionId, w)
  | .getJobInstance jobInstanceId, w => (w.repo.getJobInstance jobInstanceId, w)
  | .createStepExecution jobExecutionId stepName, w =>
      let (r, repo) := w.repo.createStepExecution jobExecutionId stepName
      (r, { w with repo := repo })
  | .updateStepExecution stepExecutionId patch, w =>
      let (r, repo) := w.repo.updateStepExecution stepExecutionId patch
      (r, { w with repo := repo })
  | .findStepExecutions jobExecutionId, w => (w.repo.findStepExecutions jobExecutionId, w)
  | .getExecutionContext scope, w => (w.repo.getExecutionContext scope, w)
  | .saveExecutionContext scope ctx, w =>
      ((), { w with repo := w.repo.saveExecutionContext scope ctx })
  | .findLatestStepExecution jobExecutionId stepName, w =>
      (w.repo.findLatestStepExecution jobExecutionId stepName, w)
  | .now, w => (w.clock, { w with clock := w.clock + 1 })
  | .randomUUID, w => (w.uuid.next w.uuidsIssued, { w with uuidsIssued := w.uuidsIssued + 1 })
  | .enqueue payload, w =>
      let (r, user) := env.broker payload w.user
      match r with
      | .ok queueJobId =>
          (.ok queueJobId, { w with user := user, queue := w.queue ++ [payload] })
      | .error err => (.error err, { w with user := user })
  | .emit _, w => ((), w)
  | .user call, w => handleUser env call w
  | .passed _ _ _ _, w => ((), w)

/-! ### Operations as code -/

/-- Perform one operation. -/
def request (o : Op α) : Code α o.Resp := Prog.perform o

/-- Perform an operation that may fail, throwing its error. -/
def orThrow {β : Type} (p : Code α (Except Thrown β)) : Code α β :=
  p >>= Prog.ofExcept

def createExecutionAtomic (name jobKey : String) (params : JobParameters) : Code α JobExecution :=
  orThrow (request (.createExecutionAtomic name jobKey params))

def updateJobExecution (executionId : String) (patch : JobExecutionPatch) : Code α Unit :=
  orThrow (request (.updateJobExecution executionId patch))

def getJobExecution (executionId : String) : Code α (Option JobExecution) :=
  request (.getJobExecution executionId)

def getJobInstance (jobInstanceId : String) : Code α (Option JobInstance) :=
  request (.getJobInstance jobInstanceId)

def createStepExecution (jobExecutionId stepName : String) : Code α StepExecution :=
  request (.createStepExecution jobExecutionId stepName)

def updateStepExecution (stepExecutionId : String) (patch : StepExecutionPatch) : Code α Unit :=
  orThrow (request (.updateStepExecution stepExecutionId patch))

def findStepExecutions (jobExecutionId : String) : Code α (List StepExecution) :=
  request (.findStepExecutions jobExecutionId)

def getExecutionContext (scope : ExecutionScope) : Code α ExecutionContext :=
  request (.getExecutionContext scope)

def saveExecutionContext (scope : ExecutionScope) (ctx : ExecutionContext) : Code α Unit :=
  request (.saveExecutionContext scope ctx)

def findLatestStepExecution (jobExecutionId stepName : String) : Code α (Option StepExecution) :=
  request (.findLatestStepExecution jobExecutionId stepName)

/-- `new Date()`. -/
def now : Code α Time := request .now

def randomUUID : Code α String := request .randomUUID

/-- Hand a payload to the broker; the answer is the id of the queued job. -/
def enqueue (payload : JobPayload) : Code α String := orThrow (request (.enqueue payload))

/-- `emit`: an observer's failure is swallowed. -/
def emit (event : BatchEvent) : Code α Unit := request (.emit event)

end NestBatch
