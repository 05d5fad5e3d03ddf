import Mathlib.Data.List.Nodup
import NestBatch.Schedule.InProcess

/-!
# The overlap policies of the in-process schedule

What a schedule counts is what is in the air, and unless its policy is `parallel`
that is one launch at most.  Under `queue` no tick is lost: the first one that
comes during a launch is the one the next launch is for.
-/

namespace NestBatch

namespace ScheduleState

/-- What a schedule knows when `n` of its launches are in flight. -/
structure Knows (stopped : Bool) (state : ScheduleState) (n : Nat) : Prop where
  count : state.runningCount = n
  single : state.entry.overlapPolicy ≠ .parallel → n ≤ 1
  pending : state.queued = state.queuedAt.isSome
  queues : state.queued = true → state.entry.overlapPolicy = .queue
  awaits : stopped = false → state.queued = true → 0 < n

variable {stopped : Bool} {state : ScheduleState} {n : Nat}

/-- A service that is shut down is known to be so. -/
theorem Knows.shutdown (h : Knows stopped state n) : Knows true state n :=
  ⟨h.count, h.single, h.pending, h.queues, fun hstopped => by cases hstopped⟩

/-- A dispatch that launches nothing is a tick that is dropped or remembered. -/
theorem dispatch_cases (stopped : Bool) (state : ScheduleState) (scheduledAt : Time) :
    (state.dispatch stopped scheduledAt = (state, none) ∧
      (stopped = true ∨ state.runningCount > 0 ∧ state.entry.overlapPolicy = .skip)) ∨
    (state.dispatch stopped scheduledAt = ({ state with
        queued := true, queuedAt := some (state.queuedAt.getD scheduledAt) }, none) ∧
      stopped = false ∧ state.runningCount > 0 ∧ state.entry.overlapPolicy = .queue) ∨
    (state.dispatch stopped scheduledAt = ({ state with
        runningCount := state.runningCount + 1 }, some scheduledAt) ∧
      stopped = false ∧ (state.runningCount ≤ 0 ∨ state.entry.overlapPolicy = .parallel)) := by
  unfold dispatch
  cases stopped with
  | true => exact .inl ⟨rfl, .inl rfl⟩
  | false =>
      rw [if_neg Bool.false_ne_true]
      by_cases hskip : state.runningCount > 0 ∧ state.entry.overlapPolicy = .skip
      · rw [if_pos hskip]
        exact .inl ⟨rfl, .inr hskip⟩
      · rw [if_neg hskip]
        by_cases hqueue : state.runningCount > 0 ∧ state.entry.overlapPolicy = .queue
        · rw [if_pos hqueue]
          exact .inr (.inl ⟨rfl, rfl, hqueue⟩)
        · rw [if_neg hqueue]
          refine .inr (.inr ⟨rfl, rfl, ?_⟩)
          by_cases hrunning : state.runningCount > 0
          · apply Or.inr
            cases hpolicy : state.entry.overlapPolicy with
            | skip => exact absurd ⟨hrunning, hpolicy⟩ hskip
            | queue => exact absurd ⟨hrunning, hpolicy⟩ hqueue
            | parallel => rfl
          · exact .inl (by omega)

/-- How many launches an action starts. -/
def started : Option Time → Nat
  | some _ => 1
  | none => 0

/-- A schedule goes on knowing what is in flight when it dispatches. -/
theorem Knows.dispatch (h : Knows stopped state n) (scheduledAt : Time) :
    Knows stopped (state.dispatch stopped scheduledAt).1
      (n + started (state.dispatch stopped scheduledAt).2) := by
  have hcount := h.count
  rcases dispatch_cases stopped state scheduledAt with ⟨heq, -⟩ | ⟨heq, -, hrunning, hqueue⟩ |
    ⟨heq, -, hfree⟩
  · rw [heq]
    exact h
  · rw [heq]
    refine ⟨h.count, h.single, rfl, fun _ => hqueue, fun _ _ => ?_⟩
    change 0 < n
    omega
  · rw [heq]
    refine ⟨?_, ?_, h.pending, h.queues, fun _ _ => Nat.succ_pos n⟩
    · change state.runningCount + 1 = ((n + 1 : Nat) : Int)
      omega
    · intro hpolicy
      have hnone := hfree.resolve_right hpolicy
      change n + 1 ≤ 1
      omega

/-- So it does when a launch settles. -/
theorem Knows.settled (h : Knows stopped state (n + 1)) (now : Time) :
    Knows stopped (state.settled stopped now).1 (n + started (state.settled stopped now).2) := by
  have hcount := h.count
  have hsingle : state.entry.overlapPolicy ≠ .parallel → n ≤ 1 := by
    intro hpolicy
    have hone := h.single hpolicy
    omega
  have hlanded (hawaits : stopped = false → state.queued = true → 0 < n) :
      Knows stopped { state with runningCount := state.runningCount - 1 } n := by
    refine ⟨?_, hsingle, h.pending, h.queues, hawaits⟩
    change state.runningCount - 1 = (n : Int)
    omega
  unfold ScheduleState.settled
  dsimp only
  cases stopped with
  | true => exact hlanded fun hstopped => by cases hstopped
  | false =>
      rw [if_neg Bool.false_ne_true]
      by_cases hnext : state.runningCount - 1 = 0 ∧ state.queued = true
      · rw [if_pos hnext]
        have hcalm : Knows false { state with
            runningCount := state.runningCount - 1, queued := false, queuedAt := none } n := by
          refine ⟨?_, hsingle, rfl, (fun hqueued => by cases hqueued),
            fun _ hqueued => by cases hqueued⟩
          change state.runningCount - 1 = (n : Int)
          omega
        exact hcalm.dispatch _
      · rw [if_neg hnext]
        refine hlanded fun _ hqueued => ?_
        by_contra hzero
        exact hnext ⟨by omega, hqueued⟩

/-- A schedule that may have one launch only starts it when none is in flight, and then
remembers no tick. -/
theorem Knows.started_alone (h : Knows stopped state n)
    (hpolicy : state.entry.overlapPolicy ≠ .parallel)
    {scheduledAt time : Time} (hstarts : (state.dispatch stopped scheduledAt).2 = some time) :
    (state.dispatch stopped scheduledAt).1.queuedAt = none := by
  have hcount := h.count
  have hpending := h.pending
  rcases dispatch_cases stopped state scheduledAt with ⟨heq, -⟩ | ⟨heq, -⟩ | ⟨heq, hstopped, hfree⟩
  · rw [heq] at hstarts
    cases hstarts
  · rw [heq] at hstarts
    cases hstarts
  · rw [heq]
    have hnone := hfree.resolve_right hpolicy
    change state.queuedAt = none
    cases hqueued : state.queued with
    | false =>
        rw [hqueued] at hpending
        exact Option.not_isSome_iff_eq_none.mp
          fun hsome => Bool.false_ne_true (hpending.trans hsome)
    | true =>
        have hpos := h.awaits hstopped hqueued
        omega

/-- The settling of the only launch starts the one that a tick waits for. -/
theorem Knows.settled_alone (h : Knows false state 1) (now : Time) :
    (state.settled false now).2 = state.queuedAt ∧ (state.settled false now).1.queuedAt = none := by
  have hcount := h.count
  have hpending := h.pending
  unfold ScheduleState.settled
  dsimp only
  rw [if_neg Bool.false_ne_true]
  cases hqueuedAt : state.queuedAt with
  | none =>
      rw [hqueuedAt] at hpending
      rw [if_neg (by rw [hpending]; exact fun h => by cases h.2)]
      exact ⟨rfl, rfl⟩
  | some time =>
      rw [hqueuedAt] at hpending
      rw [if_pos ⟨by omega, hpending⟩]
      rcases dispatch_cases false { state with
          runningCount := state.runningCount - 1, queued := false, queuedAt := none }
        ((some time).getD now) with ⟨-, hbusy⟩ | ⟨-, -, hbusy, -⟩ | ⟨heq, -⟩
      · rcases hbusy with hstopped | hbusy
        · cases hstopped
        · have hpos : state.runningCount - 1 > 0 := hbusy.1
          omega
      · have hpos : state.runningCount - 1 > 0 := hbusy
        omega
      · rw [heq]
        exact ⟨rfl, rfl⟩

/-- The entry of a schedule never changes. -/
theorem dispatch_entry (stopped : Bool) (state : ScheduleState) (scheduledAt : Time) :
    (state.dispatch stopped scheduledAt).1.entry = state.entry := by
  rcases dispatch_cases stopped state scheduledAt with ⟨heq, -⟩ | ⟨heq, -⟩ | ⟨heq, -⟩
  · rw [heq]
  · rw [heq]
  · rw [heq]

/-- Settling a launch keeps the entry. -/
theorem settled_entry (stopped : Bool) (state : ScheduleState) (now : Time) :
    (state.settled stopped now).1.entry = state.entry := by
  unfold settled
  dsimp only
  split
  · rfl
  · split
    · exact dispatch_entry _ _ _
    · rfl

end ScheduleState

namespace Lifetime

open ScheduleState (started)

/-! ### What is in the air -/

/-- Taking a launch out of the air takes one out of those of its schedule. -/
theorem length_filter_ne {launches : List ScheduledLaunch} {launch : ScheduledLaunch}
    (hnodup : (launches.map (·.id)).Nodup) (hmem : launch ∈ launches) (i : Nat) :
    (launches.filter fun other => other.schedule = i).length =
      ((launches.filter fun other => other.id ≠ launch.id).filter
        fun other => other.schedule = i).length + if launch.schedule = i then 1 else 0 := by
  induction launches with
  | nil => cases hmem
  | cons first rest ih =>
      obtain ⟨hfresh, hrest⟩ := List.nodup_cons.mp hnodup
      by_cases hid : first.id = launch.id
      · have hfirst : launch = first := by
          rcases List.mem_cons.mp hmem with heq | hin
          · exact heq
          · exact absurd (List.mem_map_of_mem (f := (·.id)) hin) (hid ▸ hfresh)
        have hkept : rest.filter (fun other => other.id ≠ launch.id) = rest := by
          apply List.filter_eq_self.mpr
          intro other hother
          have hne : other.id ≠ launch.id := by
            intro heq
            exact hfresh (List.mem_map.mpr ⟨other, hother, heq.trans hid.symm⟩)
          exact decide_eq_true hne
        have hdropped : (first :: rest).filter (fun other => other.id ≠ launch.id) = rest :=
          (List.filter_cons_of_neg (by simpa using hid)).trans hkept
        rw [hdropped, ← hfirst]
        by_cases hschedule : launch.schedule = i
        · rw [List.filter_cons_of_pos (by simpa using hschedule), if_pos hschedule]
          rfl
        · rw [List.filter_cons_of_neg (by simpa using hschedule), if_neg hschedule]
          rfl
      · have hin : launch ∈ rest := by
          rcases List.mem_cons.mp hmem with heq | hin
          · exact absurd (congrArg ScheduledLaunch.id heq).symm hid
          · exact hin
        have hcount := ih hrest hin
        have hstays : (first :: rest).filter (fun other => other.id ≠ launch.id) =
            first :: rest.filter fun other => other.id ≠ launch.id :=
          List.filter_cons_of_pos (by simpa using hid)
        rw [hstays]
        by_cases hschedule : first.schedule = i
        · rw [List.filter_cons_of_pos (by simpa using hschedule),
            List.filter_cons_of_pos (by simpa using hschedule), List.length_cons, List.length_cons]
          omega
        · rw [List.filter_cons_of_neg (by simpa using hschedule),
            List.filter_cons_of_neg (by simpa using hschedule)]
          exact hcount

variable {l l' : Lifetime} {i j : Nat} {state : ScheduleState}
  {f : Bool → ScheduleState → ScheduleState × Option Time}

/-- A resumed loop has one more launch in flight if it starts one. -/
theorem flying_resume (l : Lifetime) (i j : Nat) (service : InProcessSchedule) (out : Option Time) :
    (l.resume i (service, out)).flying j = l.flying j + if i = j then started out else 0 := by
  cases out with
  | none =>
      change l.flying j = l.flying j + if i = j then 0 else 0
      rw [ite_self]
      rfl
  | some time =>
      unfold flying resume
      dsimp only
      rw [List.filter_append, List.length_append]
      by_cases hij : i = j
      · rw [List.filter_cons_of_pos (by simpa using hij), if_pos hij]
        rfl
      · rw [List.filter_cons_of_neg (by simpa using hij), if_neg hij]
        rfl

/-- Acting on an entry changes the state of that entry alone. -/
theorem act_eq (service : InProcessSchedule) (hstate : service.states[i]? = some state) :
    service.act i f = ({ service with states := service.states.set i (f service.stopped state).1 },
      (f service.stopped state).2) := by
  unfold InProcessSchedule.act
  rw [hstate]

/-- The service knows what is in the air. -/
structure Sound (l : Lifetime) : Prop where
  issued : ∀ launch ∈ l.inFlight, launch.id < l.launches.length
  nodup : (l.inFlight.map (·.id)).Nodup
  known : ∀ launch ∈ l.inFlight, launch.schedule < l.service.states.length
  knows : ∀ (i : Nat) (state : ScheduleState), l.service.states[i]? = some state →
    state.Knows l.service.stopped (l.flying i)

theorem sound_start (registry : BatchScheduleRegistry) (installs : BatchScheduleEntry → Bool) :
    (start registry installs).Sound where
  issued _ hlaunch := by cases hlaunch
  nodup := List.nodup_nil
  known _ hlaunch := by cases hlaunch
  knows i state hstate := by
    have hmap := List.getElem?_map.symm.trans hstate
    obtain ⟨entry, -, heq⟩ := Option.map_eq_some_iff.mp hmap
    subst heq
    exact ⟨rfl, fun _ => Nat.zero_le 1, rfl, (fun hq => by cases hq), fun _ hq => by cases hq⟩

/-- A schedule that knows what it does goes on in a sound service. -/
theorem sound_resume (hissued : ∀ launch ∈ l.inFlight, launch.id < l.launches.length)
    (hnodup : (l.inFlight.map (·.id)).Nodup)
    (hknown : ∀ launch ∈ l.inFlight, launch.schedule < l.service.states.length)
    (hothers : ∀ j state, j ≠ i → l.service.states[j]? = some state →
      state.Knows l.service.stopped (l.flying j))
    (hstate : l.service.states[i]? = some state)
    (hself : (f l.service.stopped state).1.Knows l.service.stopped
      (l.flying i + started (f l.service.stopped state).2)) :
    (l.resume i (l.service.act i f)).Sound := by
  have hi : i < l.service.states.length := (List.getElem?_eq_some_iff.mp hstate).1
  rw [act_eq l.service hstate]
  have hknows : ∀ (j : Nat) (other : ScheduleState),
      (l.service.states.set i (f l.service.stopped state).1)[j]? = some other →
      other.Knows l.service.stopped ((l.resume i ({ l.service with
        states := l.service.states.set i (f l.service.stopped state).1 },
          (f l.service.stopped state).2)).flying j) := by
    intro j other hother
    rw [flying_resume]
    by_cases hij : i = j
    · subst hij
      rw [List.getElem?_set_self hi] at hother
      cases hother
      rw [if_pos rfl]
      exact hself
    · rw [List.getElem?_set_ne hij] at hother
      rw [if_neg hij]
      exact hothers j other (Ne.symm hij) hother
  cases hout : (f l.service.stopped state).2 with
  | none =>
      rw [hout] at hknows
      refine ⟨hissued, hnodup, ?_, hknows⟩
      intro launch hlaunch
      exact lt_of_lt_of_eq (hknown launch hlaunch) (List.length_set ..).symm
  | some time =>
      rw [hout] at hknows
      refine ⟨?_, ?_, ?_, hknows⟩
      · intro launch hlaunch
        change launch.id < (l.launches ++ [_]).length
        rw [List.length_append]
        rcases List.mem_append.mp hlaunch with hold | hnew
        · have hlt := hissued launch hold
          omega
        · rw [List.mem_singleton.mp hnew]
          exact Nat.lt_succ_self _
      · change (List.map ScheduledLaunch.id (l.inFlight ++ [_])).Nodup
        rw [List.map_append, List.map_singleton, List.nodup_append]
        refine ⟨hnodup, List.nodup_singleton _, ?_⟩
        intro id hid id' hid'
        obtain ⟨launch, hlaunch, heq⟩ := List.mem_map.mp hid
        have hlt := hissued launch hlaunch
        rw [List.mem_singleton.mp hid', ← heq]
        exact Nat.ne_of_lt hlt
      · intro launch hlaunch
        change launch.schedule < (l.service.states.set i _).length
        rw [List.length_set]
        rcases List.mem_append.mp hlaunch with hold | hnew
        · exact hknown launch hold
        · rw [List.mem_singleton.mp hnew]
          exact hi

/-- What a step of a lifetime is. -/
theorem step_cases (hsound : l.Sound) {event : ScheduleEvent}
    (h : machine.step l event = some l') :
    (∃ i time state, event = .tick i time ∧ l.service.states[i]? = some state ∧
      ((l.service.stopped = true ∧ l' = l) ∨
        (l.service.stopped = false ∧ l' = l.resume i (l.service.act i
          fun stopped state => state.dispatch stopped time)))) ∨
    (∃ launch outcome now state, event = .settle launch.id outcome now ∧ launch ∈ l.inFlight ∧
      l.service.states[launch.schedule]? = some state ∧
      l' = (l.land launch.id).resume launch.schedule (l.service.act launch.schedule
        fun stopped state => state.settled stopped now)) ∨
    (event = .shutdown ∧ l' = { l with service := l.service.onApplicationShutdown }) := by
  cases event with
  | tick i time =>
      simp only [machine] at h
      split at h
      · next hi =>
          cases h
          refine .inl ⟨i, time, l.service.states[i], rfl, List.getElem?_eq_getElem hi, ?_⟩
          unfold InProcessSchedule.onTick
          cases hstopped : l.service.stopped with
          | true => exact .inl ⟨rfl, by rw [if_pos rfl]; rfl⟩
          | false => exact .inr ⟨rfl, by rw [if_neg Bool.false_ne_true]⟩
      · cases h
  | settle id outcome now =>
      simp only [machine] at h
      split at h
      · cases h
      · next launch hfind =>
          cases h
          have hmem := List.mem_of_find?_eq_some hfind
          have hid : launch.id = id := by simpa using List.find?_some hfind
          subst hid
          exact .inr (.inl ⟨launch, outcome, now, _, rfl, hmem,
            List.getElem?_eq_getElem (hsound.known launch hmem), rfl⟩)
  | shutdown =>
      cases h
      exact .inr (.inr ⟨rfl, rfl⟩)

/-- Every event keeps the service sound. -/
theorem sound_step {event : ScheduleEvent} (hsound : l.Sound)
    (h : machine.step l event = some l') : l'.Sound := by
  rcases step_cases hsound h with ⟨i, time, state, -, hstate, hact⟩ |
    ⟨launch, -, now, state, -, hmem, hstate, rfl⟩ | ⟨-, rfl⟩
  · rcases hact with ⟨-, rfl⟩ | ⟨-, rfl⟩
    · exact hsound
    · exact sound_resume hsound.issued hsound.nodup hsound.known
        (fun j other _ hother => hsound.knows j other hother) hstate
        ((hsound.knows i state hstate).dispatch time)
  · have hlanded (j : Nat) := length_filter_ne hsound.nodup hmem j
    have hsub : ∀ other ∈ (l.land launch.id).inFlight, other ∈ l.inFlight :=
      fun other hother => (List.mem_filter.mp hother).1
    refine sound_resume (l := l.land launch.id)
      (fun other hother => hsound.issued other (hsub other hother))
      (hsound.nodup.sublist (List.filter_sublist.map _))
      (fun other hother => hsound.known other (hsub other hother)) ?_ hstate ?_
    · intro j other hj hother
      have hknows := hsound.knows j other hother
      have hcount := hlanded j
      rw [if_neg (Ne.symm hj)] at hcount
      have hsame : l.flying j = (l.land launch.id).flying j := hcount
      rw [← hsame]
      exact hknows
    · have hknows := hsound.knows launch.schedule state hstate
      have hcount := hlanded launch.schedule
      rw [if_pos rfl] at hcount
      have hsucc : l.flying launch.schedule = (l.land launch.id).flying launch.schedule + 1 :=
        hcount
      rw [hsucc] at hknows
      exact hknows.settled now
  · exact ⟨hsound.issued, hsound.nodup, hsound.known,
      fun i state hstate => (hsound.knows i state hstate).shutdown⟩

/-- A service is sound after every run of its events. -/
theorem sound_run {registry : BatchScheduleRegistry} {installs : BatchScheduleEntry → Bool}
    {events : List ScheduleEvent} (h : machine.run (start registry installs) events = some l) :
    l.Sound := machine.run_keeps (fun _ _ _ => sound_step) (sound_start registry installs) h

/-! ### What a shutdown ends -/

/-- A service that is stopped launches nothing, and stays stopped. -/
theorem stopped_step {event : ScheduleEvent} (hsound : l.Sound)
    (hstopped : l.service.stopped = true) (h : machine.step l event = some l') :
    l'.service.stopped = true ∧ l'.launches = l.launches := by
  rcases step_cases hsound h with ⟨i, time, state, -, hstate, hact⟩ |
    ⟨launch, -, now, state, -, hmem, hstate, rfl⟩ | ⟨-, rfl⟩
  · rcases hact with ⟨-, rfl⟩ | ⟨hrunning, -⟩
    · exact ⟨hstopped, rfl⟩
    · rw [hstopped] at hrunning
      cases hrunning
  · have hquiet : (state.settled l.service.stopped now).2 = none := by
      unfold ScheduleState.settled
      dsimp only
      rw [if_pos hstopped]
    rw [act_eq l.service hstate, hquiet]
    exact ⟨hstopped, rfl⟩
  · exact ⟨rfl, rfl⟩

/-- A service that is stopped launches nothing more. -/
theorem stopped_run {events : List ScheduleEvent} (hsound : l.Sound)
    (hstopped : l.service.stopped = true) (h : machine.run l events = some l') :
    l'.launches = l.launches := by
  have hkeeps := machine.run_keeps
    (P := fun l' => l'.Sound ∧ l'.service.stopped = true ∧ l'.launches = l.launches)
    (fun l₁ event l₂ h₁ hstep => by
      obtain ⟨hsound₁, hstopped₁, hlaunches₁⟩ := h₁
      have hnext := stopped_step hsound₁ hstopped₁ hstep
      exact ⟨sound_step hsound₁ hstep, hnext.1, hnext.2.trans hlaunches₁⟩)
    ⟨hsound, hstopped, rfl⟩ h
  exact hkeeps.2.2

/-! ### What a tick waits for -/

/-- The ticks of a schedule among the events. -/
def ticksOf (i : Nat) (events : List ScheduleEvent) : List Time :=
  events.filterMap fun event =>
    match event with
    | .tick j scheduledAt => if j = i then some scheduledAt else none
    | _ => none

theorem ticksOf_append (events events' : List ScheduleEvent) :
    ticksOf i (events ++ events') = ticksOf i events ++ ticksOf i events' :=
  List.filterMap_append

/-- The first tick stays the first. -/
theorem head?_append_tick (times : List Time) (time : Time) :
    (times ++ [time]).head? = some (times.head?.getD time) := by
  cases times with
  | nil => rfl
  | cons first rest => rfl

/-- A launch in flight counts as flying. -/
theorem flying_pos {launch : ScheduledLaunch} (hmem : launch ∈ l.inFlight) :
    0 < l.flying launch.schedule :=
  List.length_pos_of_mem (List.mem_filter.mpr ⟨hmem, decide_eq_true rfl⟩)

/-- A launch that is in the air after a schedule has acted was there before, or is new. -/
theorem mem_inFlight_resume {launch : ScheduledLaunch} {out : InProcessSchedule × Option Time}
    (hold : launch.id < l.launches.length) (hmem : launch ∈ (l.resume i out).inFlight) :
    launch ∈ l.inFlight := by
  obtain ⟨service, time⟩ := out
  cases time with
  | none => exact hmem
  | some time =>
      rcases List.mem_append.mp hmem with hin | hnew
      · exact hin
      · rw [List.mem_singleton.mp hnew] at hold
        exact absurd hold (Nat.lt_irrefl _)

/-- Resuming a loop takes no launch back. -/
theorem length_launches_resume (out : InProcessSchedule × Option Time) :
    l.launches.length ≤ (l.resume i out).launches.length := by
  obtain ⟨service, time⟩ := out
  cases time with
  | none => exact Nat.le_refl _
  | some time =>
      change l.launches.length ≤ (l.launches ++ [_]).length
      rw [List.length_append]
      omega

theorem service_resume (out : InProcessSchedule × Option Time) :
    (l.resume i out).service = out.1 := by
  obtain ⟨service, time⟩ := out
  cases time with
  | none => rfl
  | some time => rfl

/-- While `launch` is in the air its schedule, which queues, remembers the first of the
`times` that have come. -/
structure Remembers (launch : ScheduledLaunch) (times : List Time) (l : Lifetime) : Prop where
  sound : l.Sound
  old : launch.id < l.launches.length
  same : ∀ other ∈ l.inFlight, other.id = launch.id → other = launch
  remembers : ∃ state, l.service.states[launch.schedule]? = some state ∧
    state.entry.overlapPolicy = .queue ∧
    (l.service.stopped = false → launch ∈ l.inFlight → state.queuedAt = times.head?)

/-- A launch keeps its number when a schedule acts. -/
theorem same_resume {launch : ScheduledLaunch} {out : InProcessSchedule × Option Time}
    (hold : launch.id < l.launches.length)
    (hsame : ∀ other ∈ l.inFlight, other.id = launch.id → other = launch) :
    ∀ other ∈ (l.resume i out).inFlight, other.id = launch.id → other = launch := by
  intro other hother hid
  rw [← hid] at hold
  exact hsame other (mem_inFlight_resume hold hother) hid

/-- What a schedule that is not the launch's does. -/
theorem Remembers.elsewhere {launch : ScheduledLaunch} {times : List Time} {k : Lifetime}
    (h : Remembers launch times l) (hsound : (k.resume i (l.service.act i f)).Sound)
    (hi : i ≠ launch.schedule) (hlaunches : k.launches = l.launches)
    (hsub : ∀ other ∈ k.inFlight, other ∈ l.inFlight)
    (hstate : l.service.states[i]? = some state) :
    Remembers launch times (k.resume i (l.service.act i f)) := by
  obtain ⟨own, hown, hpolicy, hqueuedAt⟩ := h.remembers
  have hold : launch.id < k.launches.length := by
    rw [hlaunches]
    exact h.old
  refine ⟨hsound, Nat.lt_of_lt_of_le hold (length_launches_resume _),
    same_resume hold (fun other hother => h.same other (hsub other hother)), own, ?_, hpolicy, ?_⟩
  · rw [service_resume, act_eq l.service hstate]
    exact (List.getElem?_set_ne hi).trans hown
  · intro hrunning hmem
    rw [service_resume, act_eq l.service hstate] at hrunning
    exact hqueuedAt hrunning (hsub launch (mem_inFlight_resume hold hmem))

/-- What the schedule of the launch does itself. -/
theorem Remembers.itself {launch : ScheduledLaunch} {times : List Time} {k : Lifetime}
    {own : ScheduleState} (hold : launch.id < k.launches.length)
    (hsame : ∀ other ∈ k.inFlight, other.id = launch.id → other = launch)
    (hsound : (k.resume launch.schedule (l.service.act launch.schedule f)).Sound)
    (hown : l.service.states[launch.schedule]? = some own)
    (hpolicy : (f l.service.stopped own).1.entry.overlapPolicy = .queue)
    (hqueuedAt : l.service.stopped = false → launch ∈ k.inFlight →
      (f l.service.stopped own).1.queuedAt = times.head?) :
    Remembers launch times (k.resume launch.schedule (l.service.act launch.schedule f)) := by
  have hi : launch.schedule < l.service.states.length := (List.getElem?_eq_some_iff.mp hown).1
  refine ⟨hsound, Nat.lt_of_lt_of_le hold (length_launches_resume _), same_resume hold hsame,
    (f l.service.stopped own).1, ?_, hpolicy, ?_⟩
  · rw [service_resume, act_eq l.service hown]
    exact List.getElem?_set_self hi
  · intro hrunning hmem
    rw [service_resume, act_eq l.service hown] at hrunning
    exact hqueuedAt hrunning (mem_inFlight_resume hold hmem)

/-- A queueing schedule with a launch in the air remembers the tick. -/
theorem queuedAt_dispatch {state : ScheduleState} {n : Nat} (h : state.Knows false n) (hn : 0 < n)
    (hpolicy : state.entry.overlapPolicy = .queue) (time : Time) :
    (state.dispatch false time).1.queuedAt = some (state.queuedAt.getD time) := by
  have hcount := h.count
  rcases ScheduleState.dispatch_cases false state time with ⟨-, hquiet⟩ | ⟨heq, -⟩ |
    ⟨-, -, hfree⟩
  · rcases hquiet with hstopped | ⟨-, hskip⟩
    · cases hstopped
    · rw [hpolicy] at hskip
      cases hskip
  · rw [heq]
  · rcases hfree with hidle | hparallel
    · omega
    · rw [hpolicy] at hparallel
      cases hparallel

/-- A schedule with one launch in the air has no other. -/
theorem Sound.alone (hsound : l.Sound) {launch other : ScheduledLaunch} {state : ScheduleState}
    (hstate : l.service.states[launch.schedule]? = some state)
    (hpolicy : state.entry.overlapPolicy ≠ .parallel) (hmem : launch ∈ l.inFlight)
    (hother : other ∈ l.inFlight) (hschedule : other.schedule = launch.schedule) :
    launch.id = other.id := by
  by_contra hne
  have hone := (hsound.knows launch.schedule state hstate).single hpolicy
  have hcount := length_filter_ne hsound.nodup hother launch.schedule
  rw [if_pos hschedule] at hcount
  have hstays : launch ∈ (l.land other.id).inFlight :=
    List.mem_filter.mpr ⟨hmem, decide_eq_true hne⟩
  have hpos : 0 < (l.land other.id).flying launch.schedule := flying_pos hstays
  have htwo : l.flying launch.schedule = (l.land other.id).flying launch.schedule + 1 := hcount
  omega

/-- Every event keeps that a launch is remembered with the ticks so far. -/
theorem remembers_step {launch : ScheduledLaunch} {events : List ScheduleEvent}
    {event : ScheduleEvent} (h : Remembers launch (ticksOf launch.schedule events) l)
    (hstep : machine.step l event = some l') :
    Remembers launch (ticksOf launch.schedule (events ++ [event])) l' := by
  have hsound := h.sound
  have hsound' := sound_step hsound hstep
  obtain ⟨own, hown, hpolicy, hqueuedAt⟩ := h.remembers
  rw [ticksOf_append]
  rcases step_cases hsound hstep with ⟨i, time, state, rfl, hstate, hact⟩ |
    ⟨other, outcome, now, state, rfl, hmem, hstate, rfl⟩ | ⟨rfl, rfl⟩
  · rcases hact with ⟨hstopped, rfl⟩ | ⟨hrunning, rfl⟩
    · refine ⟨hsound', h.old, h.same, own, hown, hpolicy, fun hrunning => ?_⟩
      rw [hstopped] at hrunning
      cases hrunning
    · by_cases hi : i = launch.schedule
      · subst hi
        have htick : ticksOf launch.schedule [.tick launch.schedule time] = [time] := by
          simp [ticksOf]
        rw [htick]
        refine Remembers.itself h.old h.same hsound' hown ?_ ?_
        · rw [ScheduleState.dispatch_entry]
          exact hpolicy
        · intro hrunning hmem
          have hknows := hsound.knows _ own hown
          rw [hrunning] at hknows
          rw [hrunning, queuedAt_dispatch hknows (flying_pos hmem) hpolicy, head?_append_tick,
            hqueuedAt hrunning hmem]
      · have htick : ticksOf launch.schedule [.tick i time] = [] := by
          simp [ticksOf, hi]
        rw [htick, List.append_nil]
        exact h.elsewhere hsound' hi rfl (fun _ hin => hin) hstate
  · have hsettle : ticksOf launch.schedule [.settle other.id outcome now] = [] := rfl
    rw [hsettle, List.append_nil]
    by_cases hi : other.schedule = launch.schedule
    · rw [hi] at hsound' hstate ⊢
      rw [hown] at hstate
      cases hstate
      refine Remembers.itself (k := l.land other.id) h.old
        (fun old hin => h.same old (List.mem_filter.mp hin).1) hsound' hown ?_ ?_
      · rw [ScheduleState.settled_entry]
        exact hpolicy
      · intro _ hlanded
        have hin := List.mem_filter.mp hlanded
        have heq := hsound.alone hown (by rw [hpolicy]; exact fun h => by cases h) hin.1 hmem hi
        exact absurd heq (of_decide_eq_true hin.2)
    · exact h.elsewhere (k := l.land other.id) hsound' hi rfl
        (fun _ hin => (List.mem_filter.mp hin).1) hstate
  · refine ⟨hsound', h.old, h.same, own, hown, hpolicy, fun hrunning => ?_⟩
    cases hrunning

/-- Who adds a launch to the launches. -/
theorem launches_resume {launch : ScheduledLaunch} {out : InProcessSchedule × Option Time}
    (h : (l.resume i out).launches = l.launches ++ [launch]) :
    out.2 = some launch.scheduledAt ∧ launch.schedule = i ∧ launch.id = l.launches.length ∧
      (l.resume i out).inFlight = l.inFlight ++ [launch] := by
  obtain ⟨service, time⟩ := out
  cases time with
  | none =>
      have hlength : l.launches.length = l.launches.length + 1 := by
        simpa [resume] using congrArg List.length h
      omega
  | some time =>
      have heq := List.append_cancel_left h
      cases heq
      exact ⟨rfl, rfl, rfl, rfl⟩

/-- A queueing entry is not a parallel one. -/
theorem not_parallel {state : ScheduleState} (hpolicy : state.entry.overlapPolicy = .queue) :
    state.entry.overlapPolicy ≠ .parallel := by
  rw [hpolicy]
  exact fun h => by cases h

/-- The only launch of a schedule. -/
theorem Sound.flying_eq_one (hsound : l.Sound) {launch : ScheduledLaunch} {state : ScheduleState}
    (hstate : l.service.states[launch.schedule]? = some state)
    (hpolicy : state.entry.overlapPolicy ≠ .parallel) (hmem : launch ∈ l.inFlight) :
    l.flying launch.schedule = 1 := by
  have hone := (hsound.knows launch.schedule state hstate).single hpolicy
  have hpos := flying_pos hmem
  omega

/-- The step that starts a launch of a queueing schedule leaves no tick to wait for it. -/
theorem remembers_started {launch : ScheduledLaunch} {event : ScheduleEvent} {state : ScheduleState}
    (hsound : l.Sound) (hstep : machine.step l event = some l')
    (hstarts : l'.launches = l.launches ++ [launch])
    (hstate : l.service.states[launch.schedule]? = some state)
    (hpolicy : state.entry.overlapPolicy = .queue) : Remembers launch [] l' := by
  have hsound' := sound_step hsound hstep
  have hlatest (older : List ScheduledLaunch) (hid : launch.id = l.launches.length)
      (hin : l'.inFlight = older ++ [launch])
      (hissued : ∀ other ∈ older, other.id < l.launches.length) :
      ∀ other ∈ l'.inFlight, other.id = launch.id → other = launch := by
    intro other hother heq
    rw [hin] at hother
    rcases List.mem_append.mp hother with hold | hnew
    · have hlt := hissued other hold
      omega
    · exact List.mem_singleton.mp hnew
  have hlength : l'.launches.length = l.launches.length + 1 := by
    rw [hstarts, List.length_append]
    rfl
  have hi : launch.schedule < l.service.states.length := (List.getElem?_eq_some_iff.mp hstate).1
  have hknows := hsound.knows launch.schedule state hstate
  rcases step_cases hsound hstep with ⟨i, time, own, -, hown, hact⟩ |
    ⟨other, -, now, own, -, hmem, hown, rfl⟩ | ⟨-, rfl⟩
  · rcases hact with ⟨-, rfl⟩ | ⟨-, rfl⟩
    · omega
    · obtain ⟨hout, rfl, hid, hin⟩ := launches_resume hstarts
      rw [hstate] at hown
      cases hown
      rw [act_eq l.service hstate] at hout
      refine ⟨hsound', by omega, hlatest l.inFlight hid hin hsound.issued,
        (state.dispatch l.service.stopped time).1, ?_, ?_, ?_⟩
      · rw [service_resume, act_eq l.service hstate]
        exact List.getElem?_set_self hi
      · rw [ScheduleState.dispatch_entry]
        exact hpolicy
      · exact fun _ _ => hknows.started_alone (not_parallel hpolicy) hout
  · obtain ⟨hout, heq, hid, hin⟩ := launches_resume (l := l.land other.id) hstarts
    have hid : launch.id = l.launches.length := hid
    rw [← heq, hstate] at hown
    cases hown
    rw [← heq, act_eq l.service hstate] at hout
    refine ⟨hsound', by omega, hlatest _ hid hin fun old hold =>
      hsound.issued old (List.mem_filter.mp hold).1, (state.settled l.service.stopped now).1,
      ?_, ?_, ?_⟩
    · rw [service_resume, ← heq, act_eq l.service hstate]
      exact List.getElem?_set_self hi
    · rw [ScheduleState.settled_entry]
      exact hpolicy
    · intro hrunning _
      rw [service_resume, ← heq, act_eq l.service hstate] at hrunning
      have hone := hsound.flying_eq_one (heq ▸ hstate) (not_parallel hpolicy) hmem
      rw [← heq] at hone
      rw [hone, hrunning] at hknows
      rw [hrunning]
      exact (hknows.settled_alone now).2
  · have hnone : l.launches.length = l.launches.length + 1 := hlength
    omega

/-- A launch is remembered with every tick of the run. -/
theorem remembers_run {launch : ScheduledLaunch} {events : List ScheduleEvent}
    (h : Remembers launch [] l) (hrun : machine.run l events = some l') :
    Remembers launch (ticksOf launch.schedule events) l' :=
  machine.run_tracks (T := fun events l => Remembers launch (ticksOf launch.schedule events) l)
    (p := []) (fun _ _ _ _ h hstep => remembers_step h hstep) h hrun

/-- The launch that the settling of a launch starts. -/
def nextLaunch (launches : List ScheduledLaunch) (launch : ScheduledLaunch) (time : Time) :
    ScheduledLaunch :=
  { id := launches.length, schedule := launch.schedule, scheduledAt := time }

/-- What settles the launch starts the one for the tick that waits. -/
theorem launches_settle {launch : ScheduledLaunch} {times : List Time}
    {outcome : Except Thrown Unit}
    {now : Time} (h : Remembers launch times l) (hrunning : l.service.stopped = false)
    (hstep : machine.step l (.settle launch.id outcome now) = some l') :
    l'.launches = l.launches ++ (times.head?.map (nextLaunch l.launches launch)).toList := by
  have hsound := h.sound
  obtain ⟨own, hown, hpolicy, hqueuedAt⟩ := h.remembers
  rcases step_cases hsound hstep with ⟨i, time, state, hevent, -⟩ |
    ⟨other, outcome', now', state, hevent, hmem, -, rfl⟩ | ⟨hevent, -⟩
  · cases hevent
  · injection hevent with hid _ hnow
    have heq : other = launch := h.same other hmem hid.symm
    subst heq hnow
    have hknows := hsound.knows other.schedule own hown
    rw [hsound.flying_eq_one hown (not_parallel hpolicy) hmem, hrunning] at hknows
    have hnext := (hknows.settled_alone now).1
    rw [hqueuedAt hrunning hmem] at hnext
    rw [act_eq l.service hown, hrunning, hnext]
    cases times with
    | nil => exact (List.append_nil _).symm
    | cons first rest => rfl
  · cases hevent

/-- A service runs until its shutdown. -/
theorem running_run {events : List ScheduleEvent} (hsound : l.Sound)
    (hrunning : l.service.stopped = false) (hnone : .shutdown ∉ events)
    (h : machine.run l events = some l') : l'.service.stopped = false := by
  have hkeeps := machine.run_tracks (p := [])
    (T := fun events l => l.Sound ∧ (.shutdown ∉ events → l.service.stopped = false))
    (fun before l₁ event l₂ h₁ hstep => by
      refine ⟨sound_step h₁.1 hstep, fun hnone => ?_⟩
      have hrunning₁ := h₁.2 fun hmem => hnone (List.mem_append_left _ hmem)
      rcases step_cases h₁.1 hstep with ⟨i, time, state, -, hstate, hact⟩ |
        ⟨other, -, now, state, -, -, hstate, rfl⟩ | ⟨rfl, -⟩
      · rcases hact with ⟨-, rfl⟩ | ⟨-, rfl⟩
        · exact hrunning₁
        · rw [service_resume, act_eq l₁.service hstate]
          exact hrunning₁
      · rw [service_resume, act_eq l₁.service hstate]
        exact hrunning₁
      · exact absurd (List.mem_append_right before (List.mem_singleton.mpr rfl)) hnone)
    ⟨hsound, fun _ => hrunning⟩ h
  exact hkeeps.2 hnone

/-! ### The policies -/

/-- **The overlap policies of a lifetime.**  `runningCount` is what is in flight, one launch at
most unless the policy is `parallel`; a queueing schedule whose launch settles launches at once
for the first tick that came during it, if one came; a shutdown ends all launching. -/
theorem overlap_policies (registry : BatchScheduleRegistry)
    (installs : BatchScheduleEntry → Bool) :
    (∀ events l, machine.run (start registry installs) events = some l →
      ∀ (i : Nat) (state : ScheduleState), l.service.states[i]? = some state →
        state.runningCount = l.flying i ∧
          (state.entry.overlapPolicy ≠ .parallel → l.flying i ≤ 1)) ∧
    (∀ before event during l l₁ l₂ l₃ launch state outcome now,
      machine.run (start registry installs) before = some l →
      machine.step l event = some l₁ → l₁.launches = l.launches ++ [launch] →
      l.service.states[launch.schedule]? = some state → state.entry.overlapPolicy = .queue →
      machine.run l₁ during = some l₂ → .shutdown ∉ before ++ event :: during →
      machine.step l₂ (.settle launch.id outcome now) = some l₃ →
      l₃.launches = l₂.launches ++
        ((ticksOf launch.schedule during).head?.map (nextLaunch l₂.launches launch)).toList) ∧
    (∀ before after l l', machine.run (start registry installs) (before ++ [.shutdown]) = some l →
      machine.run l after = some l' → l'.launches = l.launches) := by
  refine ⟨?_, ?_, ?_⟩
  · intro events l hrun i state hstate
    have hknows := (sound_run hrun).knows i state hstate
    exact ⟨hknows.count, hknows.single⟩
  · intro before event during l l₁ l₂ l₃ launch state outcome now hbefore hevent hstarts hstate
      hpolicy hduring hnone hsettle
    have hsound := sound_run hbefore
    have hremembers :=
      remembers_run (remembers_started hsound hevent hstarts hstate hpolicy) hduring
    have hone : machine.run l [event] = some l₁ := by
      rw [Machine.run, hevent]
      rfl
    have hall := machine.run_trans hbefore (machine.run_trans hone hduring)
    have hrunning := running_run (sound_start registry installs) rfl hnone hall
    exact launches_settle hremembers hrunning hsettle
  · intro before after l l' hbefore hafter
    refine stopped_run (sound_run hbefore) ?_ hafter
    obtain ⟨l₀, -, hlast⟩ := machine.run_append_eq_some hbefore
    cases hlast
    rfl

/-- A registry with one schedule, which queues. -/
def nightly : BatchScheduleRegistry where
  entries := JsMap.empty.set (BatchScheduleRegistry.registryKey "import" "nightly")
    { jobId := "import"
      scheduleName := "nightly"
      methodName := "run"
      cron := "0 2 * * *"
      timezone := "UTC"
      overlap := some .queue }

/-- The nightly schedule launches for the second of three ticks when its launch settles. -/
theorem overlap_policies_nightly : ∃ l₂ l₃,
    machine.run (start nightly fun _ => true) [.tick 0 5, .tick 0 7, .tick 0 9] = some l₂ ∧
    machine.step l₂ (.settle 0 (.error (.error "refused")) 11) = some l₃ ∧
    l₃.launches = l₂.launches ++ [{ id := 1, schedule := 0, scheduledAt := 7 }] := by
  have hlast (l₂ l₃ : Lifetime)
      (hduring : machine.run (start nightly fun _ => true)
        [.tick 0 5, .tick 0 7, .tick 0 9] = some l₂)
      (hsettle : machine.step l₂ (.settle 0 (.error (.error "refused")) 11) = some l₃) :
      l₃.launches = l₂.launches ++ [{ id := 1, schedule := 0, scheduledAt := 7 }] := by
    cases hduring
    exact (overlap_policies nightly fun _ => true).2.1 [] (.tick 0 5) [.tick 0 7, .tick 0 9] _ _ _ _
      { id := 0, schedule := 0, scheduledAt := 5 } _ _ 11 rfl rfl rfl rfl rfl rfl (by simp) hsettle
  exact ⟨_, _, rfl, rfl, hlast _ _ rfl rfl⟩

end Lifetime

end NestBatch
