import NestBatch.Execution.JobLauncher

/-!
# The transports

`BullmqRuntime` and `KafkaRuntime` implement the same hand-off over different
brokers: `launch` enqueues one payload for each partition of a partitioned
start step, or a single one without partition index, and a worker turns a
payload back into a run of the executor.
-/

namespace NestBatch

variable {α : Type}

/-- `startStep?.kind === 'chunk' ? startStep.partitions : undefined`. -/
def startPartitions (job : JobDefinition) : Option ChunkPartitionConfig :=
  match job.step? job.startStepId with
  | some (.chunk step) => step.partitions
  | _ => none

/-- `partitions?.count ?? 1`. -/
def partitionCount (job : JobDefinition) : Int :=
  ((startPartitions job).map (·.count)).getD 1

/-- The payload of one message. -/
def payloadOf (job : JobDefinition) (ctx : ExecutionStrategyContext)
    (partitionIndex : Option Int) : JobPayload :=
  { executionId := ctx.executionId, jobExecutionId := ctx.jobExecutionId, jobId := job.id
    stepId := job.startStepId, partitionIndex := partitionIndex }

/-- `Array.from({ length: count }, (_, i) => i)`. -/
def ordinals (count : Int) : List Int := (List.range count.toNat).map fun (i : Nat) => (i : Int)

/-- Enqueue the payloads in order; the id of the last one. -/
def enqueueAll : List JobPayload → String → Code α String
  | [], last => .pure last
  | payload :: rest, _ => do
      let queueJobId ← enqueue payload
      enqueueAll rest queueJobId

namespace BullmqRuntime

/-- The partition indices of a launch; a lone absent one without a fan-out. -/
def partitionOrdinals (count : Int) : List (Option Int) :=
  if count ≥ 2 then (ordinals count).map some else [none]

/-- The payloads a launch hands to the broker, in order. -/
def payloads (job : JobDefinition) (ctx : ExecutionStrategyContext) : List JobPayload :=
  (partitionOrdinals (partitionCount job)).map (payloadOf job ctx)

def launch : ExecutionStrategy α := fun job _params ctx => do
  .ofExcept (validatePartitions (startPartitions job))
  let last ← enqueueAll (payloads job ctx) ""
  .pure (.enqueued last)

/-- What `processJob` does before it hands over: the arguments of `execute`. -/
def route (registry : JobRegistry) (payload : JobPayload) :
    Code α (JobExecution × JobDefinition × PartitionArgs) := do
  let execution ← getJobExecution payload.executionId
  match execution with
  | none =>
      .throw (.error ("[BullmqRuntime] JobExecution " ++ payload.executionId ++
        " not found in repository"))
  | some execution => do
      let jobDef ← .ofExcept (registry.get payload.jobId)
      .pure (execution, jobDef, {})

/-- What the BullMQ worker does with a job of its queue. -/
def processJob (registry : JobRegistry) (fuel : Nat) (payload : JobPayload) : Code α Unit := do
  let (execution, jobDef, partition) ← route registry payload
  let _ ← JobExecutor.execute fuel execution jobDef partition

end BullmqRuntime

namespace KafkaRuntime

/-- The partition indices of a launch; a lone -1 without a fan-out. -/
def partitionOrdinals (count : Int) : List Int :=
  if count ≥ 2 then ordinals count else [-1]

/-- The message values of a launch, in order.  The key of a message only chooses
the partition of the topic. -/
def payloads (job : JobDefinition) (ctx : ExecutionStrategyContext) : List JobPayload :=
  (partitionOrdinals (partitionCount job)).map fun partitionIndex =>
    payloadOf job ctx (if partitionIndex ≥ 0 then some partitionIndex else none)

def launch : ExecutionStrategy α := fun job _params ctx => do
  .ofExcept (validatePartitions (startPartitions job))
  let last ← enqueueAll (payloads job ctx) ""
  .pure (.enqueued last)

/-- Messages of the connection probe. -/
def isProbe (payload : JobPayload) : Bool :=
  payload.jobId = "probe" && payload.executionId = "probe"

/-- The partition routing of a payload, checked against the start step. -/
def partitionArgs (jobDef : JobDefinition) (payload : JobPayload) :
    Except Thrown PartitionArgs :=
  match payload.partitionIndex with
  | none => .ok {}
  | some partitionIndex => do
      enforcePartitionIndex partitionIndex (partitionCount jobDef)
      pure { partitionIndex := some partitionIndex
             partitionCount := some (partitionCount jobDef) }

/-- What `processMessage` does before it hands over: the arguments of
`execute`; `none` for a probe, which is dropped. -/
def route (registry : JobRegistry) (payload : JobPayload) :
    Code α (Option (JobExecution × JobDefinition × PartitionArgs)) :=
  if isProbe payload then .pure none
  else do
    let execution ← getJobExecution payload.executionId
    match execution with
    | none =>
        .throw (.error ("[KafkaRuntime] JobExecution " ++ payload.executionId ++
          " not found in repository"))
    | some execution => do
        let jobDef ← .ofExcept (registry.get payload.jobId)
        let partition ← .ofExcept (partitionArgs jobDef payload)
        .pure (some (execution, jobDef, partition))

/-- What the Kafka consumer does with a message of its topic. -/
def processMessage (registry : JobRegistry) (fuel : Nat) (payload : JobPayload) :
    Code α Unit := do
  let routed ← route registry payload
  match routed with
  | none => .pure ()
  | some (execution, jobDef, partition) => do
      let _ ← JobExecutor.execute fuel execution jobDef partition

end KafkaRuntime

end NestBatch
