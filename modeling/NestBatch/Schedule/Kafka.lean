import NestBatch.Schedule.Registry
import NestBatch.Transport.Agreement

/-!
# The Kafka schedule and the consumer

`KafkaSchedule` turns the schedules it can install into messages on a topic of its own,
which name a job and a schedule.  The only consumer there is belongs to `KafkaRuntime`:
it subscribes to the topic of the options and expects a message to name an execution.

The value of a message stands for its JSON text.
-/

namespace NestBatch

variable {α υ : Type}

/-- A record of the broker; a value may be empty. -/
structure KafkaMessage where
  topic : String
  key : String
  value : Option JsonValue

/-- The options that the adapter has resolved. -/
structure ResolvedKafkaModuleOptions where
  topic : String
  autoStartConsumer : Bool

/-- `forRoot`: what the host leaves out is filled in. -/
def ResolvedKafkaModuleOptions.resolve (topic : Option String) (autoStartConsumer : Option Bool) :
    ResolvedKafkaModuleOptions :=
  { topic := topic.getD "nest-batch-work", autoStartConsumer := autoStartConsumer.getD false }

namespace KafkaSchedule

/-- `KAFKA_SCHEDULE_TOPIC`. -/
def scheduleTopic : String := "nest-batch-schedule"

/-- `split(/\s+/)`. -/
def splitSpaces (s : String) : List String :=
  ((s.toList.splitBy fun c c' => isTrimmable c == isTrimmable c').filter
    fun run => !run.all isTrimmable).map String.ofList

/-- The digits of `*/N`. -/
def stepDigits (minutePart : String) : Option (List Char) :=
  match minutePart.toList with
  | '*' :: '/' :: digits => if digits ≠ [] ∧ digits.all Char.isDigit then some digits else none
  | _ => none

/-- `parseCronToIntervalMs`: every `N` minutes, or nothing. -/
def parseCronToIntervalMs (cron : String) : Option Nat :=
  match splitSpaces (jsTrim cron) with
  | [minutePart, "*", "*", "*", "*"] =>
      match stepDigits minutePart with
      | none => none
      | some digits =>
          let step := digits.foldl (fun n digit => 10 * n + (digit.toNat - 48)) 0
          if step = 0 ∨ step > 60 then none else some (step * 60 * 1000)
  | _ => none

/-- `installSchedule`: the interval of the timer, if one is installed. -/
def installSchedule (entry : BatchScheduleEntry) : Option Nat :=
  if entry.inert then none else parseCronToIntervalMs entry.cron

/-- What `fireSchedule` sends. -/
def fireSchedule (entry : BatchScheduleEntry) (timestamp : Time) : KafkaMessage where
  topic := scheduleTopic
  key := entry.jobId ++ "::" ++ entry.scheduleName
  value := some (.obj [("jobId", .str entry.jobId), ("scheduleName", .str entry.scheduleName),
    ("methodName", .str entry.methodName), ("timestamp", .num timestamp)])

end KafkaSchedule

namespace KafkaRuntime

/-- What a launch sends. -/
def encode (payload : JobPayload) : JsonValue :=
  .obj ([("executionId", .str payload.executionId), ("jobExecutionId", .str payload.jobExecutionId),
      ("jobId", .str payload.jobId), ("stepId", .str payload.stepId)] ++
    match payload.partitionIndex with
    | some partitionIndex => [("partitionIndex", .num partitionIndex)]
    | none => [])

/-- The fields of a value; only `null` has none to ask for. -/
def fieldsOf : JsonValue → Except Thrown (List (String × JsonValue))
  | .null => .error ⟨.typeError, "Cannot read properties of null (reading 'jobId')"⟩
  | .obj fields => .ok fields
  | _ => .ok []

/-- A field that should hold a string; another value is no key of anything. -/
def stringField (fields : List (String × JsonValue)) (key : String) : Option String :=
  match JsonValue.getField fields key with
  | some (.str s) => some s
  | _ => none

def partitionField (fields : List (String × JsonValue)) : Option Int :=
  match JsonValue.getField fields "partitionIndex" with
  | some (.num i) => some i
  | _ => none

/-- `processMessage` on the fields of a decoded message, up to the call of the executor. -/
def receive (registry : JobRegistry) (fields : List (String × JsonValue)) :
    Code α (Option (JobExecution × JobDefinition × PartitionArgs)) :=
  match stringField fields "executionId", stringField fields "jobId" with
  | some executionId, some jobId =>
      route registry
        { executionId := executionId
          jobExecutionId := (stringField fields "jobExecutionId").getD ""
          jobId := jobId
          stepId := (stringField fields "stepId").getD ""
          partitionIndex := partitionField fields }
  | some executionId, none => do
      let execution ← getJobExecution executionId
      match execution with
      | none =>
          .throw (.error ("[KafkaRuntime] JobExecution " ++ executionId ++
            " not found in repository"))
      | some _ => .throw (.JobNotFoundError "undefined")
  | none, _ => .throw (.error "[KafkaRuntime] JobExecution undefined not found in repository")

/-- `eachMessage`, up to the call of the executor; an empty value is skipped. -/
def eachMessage (registry : JobRegistry) (message : KafkaMessage) :
    Code α (Option (JobExecution × JobDefinition × PartitionArgs)) :=
  match message.value with
  | none => .pure none
  | some value => do
      let fields ← .ofExcept (fieldsOf value)
      receive registry fields

/-- The consumer is running, and subscribed to the topic of the message. -/
def Receives (options : ResolvedKafkaModuleOptions) (message : KafkaMessage) : Prop :=
  options.autoStartConsumer = true ∧ message.topic = options.topic

/-- What the consumer hands to the executor. -/
def consumes (env : Environment α υ) (registry : JobRegistry) (message : KafkaMessage)
    (w : World υ) : Option HandOver :=
  (outcomeIn env w (eachMessage registry message)).join

end KafkaRuntime

/-! ### A message of a launch -/

/-- The consumer takes the message of a launch for what the launch has sent. -/
theorem KafkaRuntime.consumes_encode (env : Environment α υ) (registry : JobRegistry)
    (topic key : String) (payload : JobPayload) (w : World υ) :
    consumes env registry { topic := topic, key := key, value := some (encode payload) } w =
      handsOver env registry payload w := by
  obtain ⟨executionId, jobExecutionId, jobId, stepId, partitionIndex⟩ := payload
  cases partitionIndex with
  | none => rfl
  | some partitionIndex => rfl

/-! ### A message of a schedule -/

/-- The timer of an entry that is installed sends this message at `timestamp`. -/
def KafkaSchedule.Sends (entry : BatchScheduleEntry) (timestamp : Time) (message : KafkaMessage) :
    Prop :=
  (installSchedule entry).isSome ∧ message = fireSchedule entry timestamp

/-- Producer and consumer agree: the consumer receives what the schedule sends, and hands the job
of the schedule to the executor. -/
def ScheduleAgrees (env : Environment α υ) (options : ResolvedKafkaModuleOptions)
    (registry : JobRegistry) (entry : BatchScheduleEntry) (timestamp : Time) (w : World υ) : Prop :=
  ∀ message, KafkaSchedule.Sends entry timestamp message →
    KafkaRuntime.Receives options message ∧
      ∃ execution jobDef partition,
        KafkaRuntime.consumes env registry message w = some (execution, jobDef, partition) ∧
          jobDef.id = entry.jobId

/-- The consumer finds no execution named in the message of a schedule. -/
theorem eachMessage_fired (registry : JobRegistry) (entry : BatchScheduleEntry) (timestamp : Time) :
    (KafkaRuntime.eachMessage registry (KafkaSchedule.fireSchedule entry timestamp) : Code α _) =
      .throw (.error "[KafkaRuntime] JobExecution undefined not found in repository") := rfl

/-- No consumer of the runtime takes a fired schedule message. -/
theorem consumes_fired (env : Environment α υ) (registry : JobRegistry)
    (entry : BatchScheduleEntry) (timestamp : Time) (w : World υ) :
    KafkaRuntime.consumes env registry (KafkaSchedule.fireSchedule entry timestamp) w = none := by
  unfold KafkaRuntime.consumes
  rw [eachMessage_fired]
  rfl

/-- **No fire of a Kafka schedule is executed**, whatever the options and the jobs are, of no
entry that is installed. -/
theorem schedule_never_agrees (env : Environment α υ) (options : ResolvedKafkaModuleOptions)
    (registry : JobRegistry) (entry : BatchScheduleEntry)
    (hinstalled : (KafkaSchedule.installSchedule entry).isSome) (timestamp : Time)
    (w : World υ) : ¬ ScheduleAgrees env options registry entry timestamp w := by
  intro h
  obtain ⟨-, execution, jobDef, partition, hconsumed, -⟩ := h _ ⟨hinstalled, rfl⟩
  rw [consumes_fired] at hconsumed
  cases hconsumed

/-- An import every five minutes. -/
def everyFiveMinutes : BatchScheduleEntry :=
  { jobId := "import", scheduleName := "nightly", methodName := "run", cron := "*/5 * * * *"
    timezone := "UTC" }

/-- Even a consumer of the schedule's own topic executes none of its fires. -/
theorem schedule_never_agrees_import :
    ¬ ScheduleAgrees (willing [10, 20, 30]) (.resolve (some "nest-batch-schedule") (some true))
      (JobRegistry.only (splitJob 2) rfl) everyFiveMinutes 0 (launchedWorld 0 (splitJob 2)) :=
  schedule_never_agrees _ _ _ everyFiveMinutes (by decide) 0 _

/-- By default the consumer does not receive what the schedule sends, and where it does it throws
because the message names no execution. -/
theorem schedule_message_rejected :
    let message := KafkaSchedule.fireSchedule everyFiveMinutes 0
    let registry := JobRegistry.only (splitJob 2) rfl
    let w := launchedWorld 0 (splitJob 2)
    KafkaSchedule.Sends everyFiveMinutes 0 message ∧
    ¬ KafkaRuntime.Receives (.resolve none (some true)) message ∧
    ((KafkaRuntime.eachMessage registry message).run (handle (willing [10, 20, 30])) w).1 =
      .threw (.error "[KafkaRuntime] JobExecution undefined not found in repository") ∧
    ¬ ScheduleAgrees (willing [10, 20, 30]) (.resolve none (some true)) registry
      everyFiveMinutes 0 w := by
  have hsends : KafkaSchedule.Sends everyFiveMinutes 0
      (KafkaSchedule.fireSchedule everyFiveMinutes 0) := ⟨by decide, rfl⟩
  have hdeaf : ¬ KafkaRuntime.Receives (.resolve none (some true))
      (KafkaSchedule.fireSchedule everyFiveMinutes 0) := by
    intro h
    exact absurd h.2 (by decide)
  exact ⟨hsends, hdeaf, rfl, fun h => hdeaf (h _ hsends).1⟩

end NestBatch
