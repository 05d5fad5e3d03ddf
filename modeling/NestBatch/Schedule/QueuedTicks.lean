import NestBatch.Schedule.OverlapPolicy

/-!
# The ticks of a schedule that queues

A schedule that queues has room for one tick: the first that comes during a launch waits
for its end, and any other that comes before that is lost.  Every tick that was not lost
has been launched for, or waits; so once nothing is in flight, the launches are for the
ticks, one by one, if and only if no tick found another one waiting.
-/

namespace NestBatch

namespace Lifetime

open ScheduleState (started)

/-- The times a schedule has launched for, in order. -/
def launchedFor (i : Nat) (l : Lifetime) : List Time :=
  (l.launches.filter fun launch => launch.schedule = i).map (·.scheduledAt)

/-- The tick that waits for the end of a launch. -/
def waiting (i : Nat) (l : Lifetime) : Option Time := l.service.states[i]?.bind (·.queuedAt)

/-- No tick of the schedule comes while another one is waiting. -/
def NoneFindsAnother (first : Lifetime) (i : Nat) (events : List ScheduleEvent) : Prop :=
  ∀ before time after l, events = before ++ .tick i time :: after →
    machine.run first before = some l → l.waiting i = none

variable {l l' first : Lifetime} {i j : Nat} {events : List ScheduleEvent} {event : ScheduleEvent}
  {state : ScheduleState} {f : Bool → ScheduleState → ScheduleState × Option Time}

/-- A resumed loop launches for its own entry alone. -/
theorem launchedFor_resume (l : Lifetime) (i j : Nat) (service : InProcessSchedule)
    (out : Option Time) : launchedFor i (l.resume j (service, out)) =
      launchedFor i l ++ if j = i then out.toList else [] := by
  cases out with
  | none => simp [resume, launchedFor]
  | some time =>
      unfold launchedFor
      change ((l.launches ++ [_]).filter _).map _ = _
      rw [List.filter_append, List.map_append]
      by_cases hj : j = i
      · simp [hj]
      · simp [hj]

/-- What waits is the tick that the entry's state has buffered. -/
theorem waiting_eq (hstate : l.service.states[i]? = some state) : l.waiting i = state.queuedAt := by
  unfold waiting
  rw [hstate]
  rfl

/-- A schedule acts on its own tick only. -/
theorem waiting_act (k : Lifetime) (hstate : l.service.states[j]? = some state) :
    (k.resume j (l.service.act j f)).waiting i =
      if j = i then (f l.service.stopped state).1.queuedAt else l.waiting i := by
  unfold waiting
  rw [service_resume, act_eq l.service hstate]
  dsimp only
  by_cases hj : j = i
  · subst hj
    rw [if_pos rfl, List.getElem?_set_self (List.getElem?_eq_some_iff.mp hstate).1]
    rfl
  · rw [if_neg hj, List.getElem?_set_ne hj]

/-- One more event. -/
theorem noneFindsAnother_snoc (hrun : machine.run first events = some l) :
    NoneFindsAnother first i (events ++ [event]) ↔
      NoneFindsAnother first i events ∧ ∀ time, event = .tick i time → l.waiting i = none := by
  constructor
  · intro h
    refine ⟨fun before time after l₁ heq hrun₁ => ?_, fun time heq => ?_⟩
    · refine h before time (after ++ [event]) l₁ ?_ hrun₁
      rw [heq, List.append_assoc, List.cons_append]
    · refine h events time [] l ?_ hrun
      rw [heq]
  · intro hcase before time after l₁ heq hrun₁
    obtain ⟨hold, hlast⟩ := hcase
    rcases List.eq_nil_or_concat after with rfl | ⟨after, last, rfl⟩
    · obtain ⟨rfl, hevent⟩ := List.append_inj' heq rfl
      rw [hrun] at hrun₁
      cases hrun₁
      exact hlast time (List.cons.inj hevent).1
    · rw [List.concat_eq_append, ← List.cons_append, ← List.append_assoc] at heq
      obtain ⟨rfl, -⟩ := List.append_inj' heq rfl
      exact hold before time after l₁ rfl hrun₁

/-- The ticks that are not lost: the schedule has launched for them, or they wait. -/
def accounted (i : Nat) (l : Lifetime) : List Time := launchedFor i l ++ (l.waiting i).toList

/-- What another schedule does is of no account. -/
theorem accounted_act_of_ne (k : Lifetime) (hstate : l.service.states[j]? = some state) (hj : j ≠ i)
    (hlaunches : k.launches = l.launches) :
    accounted i (k.resume j (l.service.act j f)) = accounted i l := by
  unfold accounted
  rw [waiting_act k hstate, if_neg hj, act_eq l.service hstate, launchedFor_resume, if_neg hj,
    List.append_nil]
  unfold launchedFor
  rw [hlaunches]

/-- An action accounts for its launch and for the tick it buffers. -/
theorem accounted_act (k : Lifetime) (hstate : l.service.states[i]? = some state)
    (hlaunches : k.launches = l.launches) : accounted i (k.resume i (l.service.act i f)) =
      launchedFor i l ++ (f l.service.stopped state).2.toList ++
        ((f l.service.stopped state).1.queuedAt).toList := by
  unfold accounted
  rw [waiting_act k hstate, if_pos rfl, act_eq l.service hstate, launchedFor_resume, if_pos rfl]
  unfold launchedFor
  rw [hlaunches]

/-- The tick of a queueing schedule is launched for, or waits, unless another one waits already. -/
theorem dispatch_accounts {n : Nat} (h : state.Knows false n)
    (hpolicy : state.entry.overlapPolicy = .queue) (time : Time) :
    (state.dispatch false time).2.toList ++ (state.dispatch false time).1.queuedAt.toList =
      if state.queuedAt = none then [time] else state.queuedAt.toList := by
  have hcount := h.count
  rcases ScheduleState.dispatch_cases false state time with ⟨-, hquiet⟩ | ⟨heq, -⟩ |
    ⟨heq, -, hfree⟩
  · rcases hquiet with hstopped | ⟨-, hskip⟩
    · cases hstopped
    · rw [hpolicy] at hskip
      cases hskip
  · rw [heq]
    cases state.queuedAt with
    | none => rfl
    | some other => rfl
  · have hnone := h.started_alone (not_parallel hpolicy) (congrArg Prod.snd heq)
    rw [heq] at hnone ⊢
    have hwaits : state.queuedAt = none := hnone
    rw [if_pos hwaits]
    change [time] ++ state.queuedAt.toList = [time]
    rw [hwaits]
    rfl

/-- **The step lemma**: a tick of the schedule is lost if it finds another one waiting, and
nothing else is. -/
theorem accounted_step (hsound : l.Sound) (hrunning : l.service.stopped = false)
    (hstate : l.service.states[i]? = some state) (hpolicy : state.entry.overlapPolicy = .queue)
    (hevent : event ≠ .shutdown) (hstep : machine.step l event = some l') :
    accounted i l' = accounted i l ++ if l.waiting i = none then ticksOf i [event] else [] := by
  rcases step_cases hsound hstep with ⟨j, time, own, rfl, hown, hact⟩ |
    ⟨launch, outcome, now, own, rfl, hmem, hown, rfl⟩ | ⟨rfl, -⟩
  · rcases hact with ⟨hstopped, -⟩ | ⟨-, rfl⟩
    · rw [hrunning] at hstopped
      cases hstopped
    · by_cases hj : j = i
      · subst hj
        rw [hstate] at hown
        cases hown
        have hknows := hsound.knows j state hstate
        rw [hrunning] at hknows
        have haccounts := dispatch_accounts hknows hpolicy time
        have hticks : ticksOf j [.tick j time] = [time] := by simp [ticksOf]
        rw [accounted_act l hstate rfl, hrunning, List.append_assoc, haccounts, hticks,
          waiting_eq hstate]
        unfold accounted
        rw [waiting_eq hstate]
        cases state.queuedAt with
        | none => rw [if_pos rfl, if_pos rfl, Option.toList_none, List.append_nil]
        | some other => rw [if_neg (by simp), if_neg (by simp), List.append_nil]
      · have hticks : ticksOf i [.tick j time] = [] := by simp [ticksOf, hj]
        rw [accounted_act_of_ne l hown hj rfl, hticks, ite_self, List.append_nil]
  · have hticks : ticksOf i [.settle launch.id outcome now] = [] := rfl
    rw [hticks, ite_self, List.append_nil]
    by_cases hj : launch.schedule = i
    · subst hj
      rw [hstate] at hown
      cases hown
      have hone := hsound.flying_eq_one hstate (not_parallel hpolicy) hmem
      have hknows := hsound.knows launch.schedule state hstate
      rw [hrunning, hone] at hknows
      obtain ⟨hstarts, hnone⟩ := hknows.settled_alone now
      rw [accounted_act (l.land launch.id) hstate rfl, hrunning, hstarts, hnone, Option.toList_none,
        List.append_nil]
      unfold accounted
      rw [waiting_eq hstate]
    · exact accounted_act_of_ne (l.land launch.id) hown hj rfl
  · exact absurd rfl hevent

/-- The entry of a schedule is the one it was installed with. -/
theorem policy_step (hsound : l.Sound) (hstate : l.service.states[i]? = some state)
    (hstep : machine.step l event = some l') : ∃ state',
      l'.service.states[i]? = some state' ∧ state'.entry = state.entry := by
  have hact (k : Lifetime) (j : Nat) (own : ScheduleState)
      (g : Bool → ScheduleState → ScheduleState × Option Time)
      (hown : l.service.states[j]? = some own)
      (hentry : (g l.service.stopped own).1.entry = own.entry) :
      ∃ state', (k.resume j (l.service.act j g)).service.states[i]? = some state' ∧
        state'.entry = state.entry := by
    rw [service_resume, act_eq l.service hown]
    dsimp only
    by_cases hj : j = i
    · subst hj
      rw [hstate] at hown
      cases hown
      exact ⟨_, List.getElem?_set_self (List.getElem?_eq_some_iff.mp hstate).1, hentry⟩
    · exact ⟨state, (List.getElem?_set_ne hj).trans hstate, rfl⟩
  rcases step_cases hsound hstep with ⟨j, time, own, -, hown, hdone⟩ |
    ⟨launch, -, now, own, -, -, hown, rfl⟩ | ⟨-, rfl⟩
  · rcases hdone with ⟨-, rfl⟩ | ⟨-, rfl⟩
    · exact ⟨state, hstate, rfl⟩
    · exact hact l j own _ hown (ScheduleState.dispatch_entry _ _ _)
  · exact hact (l.land launch.id) launch.schedule own _ hown (ScheduleState.settled_entry _ _ _)
  · exact ⟨state, hstate, rfl⟩

/-- An event is a tick of the schedule, or is none. -/
theorem ticksOf_singleton (i : Nat) (event : ScheduleEvent) :
    (∃ time, event = .tick i time ∧ ticksOf i [event] = [time]) ∨
      ((∀ time, event ≠ .tick i time) ∧ ticksOf i [event] = []) := by
  cases event with
  | tick j time =>
      by_cases hj : j = i
      · subst hj
        exact Or.inl ⟨time, rfl, by simp [ticksOf]⟩
      · refine Or.inr ⟨fun other heq => hj ?_, by simp [ticksOf, hj]⟩
        cases heq
        rfl
  | settle id outcome now => exact Or.inr ⟨fun time heq => (by cases heq), rfl⟩
  | shutdown => exact Or.inr ⟨fun time heq => (by cases heq), rfl⟩

/-- What is known behind some events. -/
structure Accounts (first : Lifetime) (i : Nat) (events : List ScheduleEvent) (l : Lifetime) :
    Prop where
  run : machine.run first events = some l
  sound : l.Sound
  queues : ∃ state, l.service.states[i]? = some state ∧ state.entry.overlapPolicy = .queue
  kept : .shutdown ∉ events →
    (accounted i l = ticksOf i events ↔ NoneFindsAnother first i events)
  bounded : .shutdown ∉ events → (accounted i l).length ≤ (ticksOf i events).length

/-- Every event keeps the ticks of the entry accounted for. -/
theorem Accounts.step (h : Accounts first i events l) (hsound : first.Sound)
    (hstarted : first.service.stopped = false) (hstep : machine.step l event = some l') :
    Accounts first i (events ++ [event]) l' := by
  obtain ⟨state, hstate, hpolicy⟩ := h.queues
  obtain ⟨state', hstate', hentry⟩ := policy_step h.sound hstate hstep
  have hrun : machine.run first (events ++ [event]) = some l' := by
    refine machine.run_trans h.run ?_
    rw [Machine.run, hstep]
    rfl
  have hbefore (hnone : .shutdown ∉ events ++ [event]) : .shutdown ∉ events :=
    fun hmem => hnone (List.mem_append_left _ hmem)
  have haccounts (hnone : .shutdown ∉ events ++ [event]) :
      accounted i l' = accounted i l ++ if l.waiting i = none then ticksOf i [event] else [] := by
    have hrunning := running_run hsound hstarted (hbefore hnone) h.run
    have hevent : event ≠ .shutdown := fun heq => hnone (by simp [heq])
    exact accounted_step h.sound hrunning hstate hpolicy hevent hstep
  refine ⟨hrun, sound_step h.sound hstep, ⟨state', hstate', ?_⟩, ?_, ?_⟩
  · rw [hentry]
    exact hpolicy
  · intro hnone
    have hbounded := h.bounded (hbefore hnone)
    rw [noneFindsAnother_snoc h.run, ← h.kept (hbefore hnone), haccounts hnone, ticksOf_append]
    by_cases hfree : l.waiting i = none
    · rw [if_pos hfree]
      exact ⟨fun heq => ⟨List.append_cancel_right heq, fun _ _ => hfree⟩, fun heq => by rw [heq.1]⟩
    · rw [if_neg hfree, List.append_nil]
      rcases ticksOf_singleton i event with ⟨time, hevent, hticks⟩ | ⟨hevent, hticks⟩
      · rw [hticks]
        constructor
        · intro heq
          rw [heq, List.length_append, List.length_singleton] at hbounded
          omega
        · exact fun heq => absurd (heq.2 time hevent) hfree
      · rw [hticks, List.append_nil]
        exact ⟨fun heq => ⟨heq, fun time htick => absurd htick (hevent time)⟩, fun heq => heq.1⟩
  · intro hnone
    have hbounded := h.bounded (hbefore hnone)
    rw [haccounts hnone, ticksOf_append, List.length_append, List.length_append]
    split
    · omega
    · rw [List.length_nil]
      omega

/-- **The run lemma.** -/
theorem accounts_run {registry : BatchScheduleRegistry} {installs : BatchScheduleEntry → Bool}
    (hstate : (start registry installs).service.states[i]? = some state)
    (hpolicy : state.entry.overlapPolicy = .queue)
    (hrun : machine.run (start registry installs) events = some l) :
    Accounts (start registry installs) i events l := by
  have hsound := sound_start registry installs
  have hnone : state.queuedAt = none := by
    obtain ⟨entry, -, rfl⟩ := List.mem_map.mp (List.mem_of_getElem? hstate)
    rfl
  have haccounted : accounted i (start registry installs) = [] := by
    unfold accounted
    rw [waiting_eq hstate, hnone]
    rfl
  refine machine.run_tracks (T := fun events l => Accounts (start registry installs) i events l)
    (p := []) (fun _ _ _ _ h hstep => h.step hsound rfl hstep) ?_ hrun
  refine ⟨rfl, hsound, ⟨state, hstate, hpolicy⟩, fun _ => ?_, fun _ => ?_⟩
  · rw [haccounted]
    refine ⟨fun _ before time after l₁ heq _ => ?_, fun _ => rfl⟩
    exact absurd heq.symm (List.append_ne_nil_of_right_ne_nil _ (List.cons_ne_nil _ _))
  · rw [haccounted]
    exact Nat.zero_le _

/-- **When a queueing schedule loses no tick.**  Once all its launches have settled, they were for
its ticks, each once, in order and at its own time, if and only if no tick came while another one
was waiting for the end of a launch. -/
theorem queue_launches_every_tick_iff (registry : BatchScheduleRegistry)
    (installs : BatchScheduleEntry → Bool) (i : Nat) (state : ScheduleState)
    (events : List ScheduleEvent) (l : Lifetime)
    (hstate : (start registry installs).service.states[i]? = some state)
    (hpolicy : state.entry.overlapPolicy = .queue)
    (hrun : machine.run (start registry installs) events = some l)
    (hnone : .shutdown ∉ events) (hsettled : l.flying i = 0) :
    launchedFor i l = ticksOf i events ↔
      NoneFindsAnother (start registry installs) i events := by
  have haccounts := accounts_run hstate hpolicy hrun
  obtain ⟨own, hown, -⟩ := haccounts.queues
  have hknows := haccounts.sound.knows i own hown
  have hrunning := running_run (sound_start registry installs) rfl hnone hrun
  -- a tick does not wait while nothing is in flight
  have hwaiting : own.queuedAt = none := by
    cases hqueuedAt : own.queuedAt with
    | none => rfl
    | some time =>
        have hqueued : own.queued = true := by
          rw [hknows.pending, hqueuedAt]
          rfl
        have hpos := hknows.awaits hrunning hqueued
        omega
  rw [← haccounts.kept hnone]
  unfold accounted
  rw [waiting_eq hown, hwaiting, Option.toList_none, List.append_nil]

/-- A second tick during a launch waits for its end: no tick of this run found another waiting. -/
theorem queue_launches_every_tick_nightly :
    NoneFindsAnother (start nightly fun _ => true) 0
      [.tick 0 5, .tick 0 7, .settle 0 (.ok ()) 8, .settle 1 (.ok ()) 9] :=
  (queue_launches_every_tick_iff nightly (fun _ => true) 0 _ _ _ rfl rfl rfl
    (fun h => by grind) rfl).mp rfl

/-- **A third tick is lost.** -/
theorem queue_loses_third_tick : ∃ l, machine.run (start nightly fun _ => true)
      [.tick 0 5, .tick 0 7, .tick 0 9, .settle 0 (.ok ()) 10, .settle 1 (.ok ()) 11] = some l ∧
    l.flying 0 = 0 ∧ launchedFor 0 l = [5, 7] := by
  exact ⟨_, rfl, rfl, rfl⟩

end Lifetime

end NestBatch
