import NestBatch.Core.Types
import NestBatch.Core.Ir

/-!
# The schedule registry

`BatchScheduleRegistry` holds what the `@BatchScheduled` decorators say; the
schedulers of the transports read it when the application starts.  The bounds
`startAt` and `endAt` of an entry are read by none of them.
-/

namespace NestBatch

inductive BatchOverlapPolicy
  | skip | queue | parallel
  deriving DecidableEq, Repr

structure BatchScheduleEntry where
  jobId : String
  scheduleName : String
  methodName : String
  cron : String
  timezone : String
  overlap : Option BatchOverlapPolicy := none
  inert : Bool := false
  deriving DecidableEq, Repr

/-- `entry.overlap ?? 'skip'`. -/
def BatchScheduleEntry.overlapPolicy (entry : BatchScheduleEntry) : BatchOverlapPolicy :=
  entry.overlap.getD .skip

/-- The entries under their composite keys. -/
structure BatchScheduleRegistry where
  entries : JsMap String BatchScheduleEntry

namespace BatchScheduleRegistry

def registryKey (jobId scheduleName : String) : String := jobId ++ "\x00" ++ scheduleName

def empty : BatchScheduleRegistry := { entries := .empty }

/-- `register`: a pair is registered once. -/
def register (registry : BatchScheduleRegistry) (entry : BatchScheduleEntry) :
    Except Thrown BatchScheduleRegistry :=
  let key := registryKey entry.jobId entry.scheduleName
  if (registry.entries.get? key).isSome then
    .error (.error ("Duplicate @BatchScheduled entry for jobId=\"" ++ entry.jobId ++
      "\", name=\"" ++ entry.scheduleName ++ "\". " ++
      "A schedule name can only be registered once per jobId. " ++
      "If you want two schedules for the same job, give them distinct names."))
  else .ok { entries := registry.entries.set key entry }

def get (registry : BatchScheduleRegistry) (jobId scheduleName : String) :
    Option BatchScheduleEntry :=
  registry.entries.get? (registryKey jobId scheduleName)

/-- `getAll`: in the order of registration. -/
def getAll (registry : BatchScheduleRegistry) : List BatchScheduleEntry := registry.entries.values

end BatchScheduleRegistry

end NestBatch
