import NestBatch.Schedule.Registry
import NestBatch.Transport.FanOut

/-!
# A fire of a BullMQ schedule

`BullmqSchedule` lets the queue repeat a job for each schedule; `processScheduleFire`
is what its worker does with one.  Under `skip` the launch is identified by the schedule
alone, so that the guard of the launcher refuses it while another one is active, and the
refusal is taken for an overlap.

`toISOString` is any function here: the fire only files the time among the parameters.
-/

namespace NestBatch

variable {α υ : Type}

/-- A queue job of a schedule: the payload, and what BullMQ knows of the job. -/
structure ScheduleFire where
  jobId : String
  scheduleName : String
  methodName : String
  timestamp : Option Time
  id : Option String

/-- What the log tells of a fire. -/
inductive FireReport
  | fired (execution : JobExecution)
  | skipped

structure BullmqSchedule (α : Type) where
  host : Host α
  scheduleRegistry : BatchScheduleRegistry
  toISOString : Time → String

namespace BullmqSchedule

variable (S : BullmqSchedule α)

/-- The required fields of a payload. -/
def checkPayload (fire : ScheduleFire) : Except Thrown Unit :=
  if fire.jobId = "" then .error (.error "[BullmqSchedule] schedule payload is missing jobId")
  else if fire.scheduleName = "" then
    .error (.error "[BullmqSchedule] schedule payload is missing scheduleName")
  else if fire.methodName = "" then
    .error (.error "[BullmqSchedule] schedule payload is missing methodName")
  else .ok ()

/-- The time of the queue job, else the current time. -/
def scheduledAt (fire : ScheduleFire) : Code α String :=
  match fire.timestamp with
  | some timestamp => .pure (S.toISOString timestamp)
  | none => do
      let time ← now
      .pure (S.toISOString time)

def fireParams (fire : ScheduleFire) (scheduledAt : String) : JobParameters :=
  [("scheduled", .bool true), ("scheduleName", .str fire.scheduleName),
    ("scheduledAt", .str scheduledAt), ("scheduleQueueJobId", .str (fire.id.getD ""))]

/-- What identifies a launch of the schedule under `skip`. -/
def identifyingParams (scheduleName : String) : JobParameters :=
  [("scheduled", .bool true), ("scheduleName", .str scheduleName)]

/-- `scheduleRegistry.get(jobId, scheduleName)?.overlap ?? 'skip'`. -/
def overlap (jobId scheduleName : String) : BatchOverlapPolicy :=
  ((S.scheduleRegistry.get jobId scheduleName).map (·.overlapPolicy)).getD .skip

def processScheduleFire (fire : ScheduleFire) : Code α FireReport := do
  .ofExcept (checkPayload fire)
  let scheduledAt ← S.scheduledAt fire
  Prog.tryCatch (do
      let execution ← JobLauncher.launch S.host fire.jobId (fireParams fire scheduledAt)
        (if S.overlap fire.jobId fire.scheduleName = .skip then
          some (identifyingParams fire.scheduleName) else none)
      .pure (.fired execution))
    fun err =>
      if S.overlap fire.jobId fire.scheduleName = .skip ∧ err.name = .jobExecutionAlreadyRunning
      then .pure .skipped else .throw err

end BullmqSchedule

end NestBatch
