import NestBatch.Lib.Machine
import NestBatch.Schedule.Registry

/-!
# The in-process schedule

`InProcessSchedule` turns cron ticks into launches in the same process.  Each
schedule counts its launches in flight; under `skip` a tick during a launch is
dropped, under `queue` it is remembered, and the settling of the launch starts
another one for it.

A `Lifetime` is the service between its bootstrap and whatever comes after its
shutdown, with the launches it has started: ticks, settling launches and the
shutdown come in any order.
-/

namespace NestBatch

/-- What the service keeps of one schedule. -/
structure ScheduleState where
  entry : BatchScheduleEntry
  runningCount : Int := 0
  queued : Bool := false
  queuedAt : Option Time := none

namespace ScheduleState

/-- `dispatch`: the state it leaves, and the time it launches for, if it launches. -/
def dispatch (stopped : Bool) (state : ScheduleState) (scheduledAt : Time) :
    ScheduleState × Option Time :=
  if stopped then (state, none)
  else if state.runningCount > 0 ∧ state.entry.overlapPolicy = .skip then (state, none)
  else if state.runningCount > 0 ∧ state.entry.overlapPolicy = .queue then
    ({ state with queued := true, queuedAt := some (state.queuedAt.getD scheduledAt) }, none)
  else ({ state with runningCount := state.runningCount + 1 }, some scheduledAt)

/-- The `finally` callback of a launch. -/
def settled (stopped : Bool) (state : ScheduleState) (now : Time) :
    ScheduleState × Option Time :=
  let state := { state with runningCount := state.runningCount - 1 }
  if stopped then (state, none)
  else if state.runningCount = 0 ∧ state.queued = true then
    dispatch stopped { state with queued := false, queuedAt := none } (state.queuedAt.getD now)
  else (state, none)

end ScheduleState

/-- The service.  A state lives as long as the callbacks that hold it, also when the
map of the states is cleared. -/
structure InProcessSchedule where
  states : List ScheduleState := []
  stopped : Bool := true

namespace InProcessSchedule

/-- `onApplicationBootstrap`: an entry is installed unless it is inert or `cron` refuses it. -/
def onApplicationBootstrap (registry : BatchScheduleRegistry)
    (installs : BatchScheduleEntry → Bool) : InProcessSchedule where
  states := (registry.getAll.filter fun entry => !entry.inert && installs entry).map
    fun entry => { entry := entry }
  stopped := false

def onApplicationShutdown (service : InProcessSchedule) : InProcessSchedule :=
  { service with stopped := true }

/-- Let one schedule act. -/
def act (service : InProcessSchedule) (i : Nat)
    (f : Bool → ScheduleState → ScheduleState × Option Time) : InProcessSchedule × Option Time :=
  match service.states[i]? with
  | none => (service, none)
  | some state =>
      ({ service with states := service.states.set i (f service.stopped state).1 },
        (f service.stopped state).2)

/-- `onTick`. -/
def onTick (service : InProcessSchedule) (i : Nat) (scheduledAt : Time) :
    InProcessSchedule × Option Time :=
  if service.stopped then (service, none)
  else service.act i fun stopped state => state.dispatch stopped scheduledAt

end InProcessSchedule

/-! ### A lifetime -/

/-- A call of the launcher. -/
structure ScheduledLaunch where
  id : Nat
  schedule : Nat
  scheduledAt : Time
  deriving DecidableEq, Repr

structure Lifetime where
  service : InProcessSchedule
  /-- every launch started, in order -/
  launches : List ScheduledLaunch := []
  /-- the launches that have not settled -/
  inFlight : List ScheduledLaunch := []

inductive ScheduleEvent
  | tick (schedule : Nat) (scheduledAt : Time)
  /-- a launch settles, whichever way -/
  | settle (id : Nat) (outcome : Except Thrown Unit) (now : Time)
  | shutdown

namespace Lifetime

/-- Go on with the service, and with the launch a schedule has started. -/
def resume (l : Lifetime) (schedule : Nat) : InProcessSchedule × Option Time → Lifetime
  | (service, none) => { l with service := service }
  | (service, some scheduledAt) =>
      let launch : ScheduledLaunch :=
        { id := l.launches.length, schedule := schedule, scheduledAt := scheduledAt }
      { service := service, launches := l.launches ++ [launch], inFlight := l.inFlight ++ [launch] }

/-- The launch leaves the air. -/
def land (l : Lifetime) (id : Nat) : Lifetime :=
  { l with inFlight := l.inFlight.filter fun launch => launch.id ≠ id }

def machine : Machine Lifetime ScheduleEvent where
  step l event :=
    match event with
    | .tick schedule scheduledAt =>
        if schedule < l.service.states.length then
          some (l.resume schedule (l.service.onTick schedule scheduledAt))
        else none
    | .settle id _outcome now =>
        match l.inFlight.find? fun launch => launch.id = id with
        | none => none
        | some launch =>
            some ((l.land id).resume launch.schedule (l.service.act launch.schedule
              fun stopped state => state.settled stopped now))
    | .shutdown => some { l with service := l.service.onApplicationShutdown }

/-- The service after its bootstrap. -/
def start (registry : BatchScheduleRegistry) (installs : BatchScheduleEntry → Bool) : Lifetime :=
  { service := .onApplicationBootstrap registry installs }

/-- The launches of one schedule in flight. -/
def flying (l : Lifetime) (schedule : Nat) : Nat :=
  (l.inFlight.filter fun launch => launch.schedule = schedule).length

end Lifetime

end NestBatch
