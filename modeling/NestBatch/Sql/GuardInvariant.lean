import NestBatch.Sql.GuardPhases

/-!
# The invariant of the launch guard

Any number of calls with one key run side by side.  The invariant says what the
instance table, the locks and the execution table look like while they do: one
row with the key, written by a call that will not roll back, one holder of its
lock, and at most one execution added to those of the start.

A refused call has met a running execution or the holder of the lock.
-/

namespace NestBatch

section Ledger

variable {τ : Type} {before : List JobExecution} {won pending : Option (τ × JobExecution)} {t : τ}
  {exec : JobExecution}

/-- The execution table: the executions of the start, the one that was created
and committed, and the one a call is about to commit. -/
def ledger (before : List JobExecution) (won pending : Option (τ × JobExecution)) :
    Sql.Table τ JobExecution :=
  Sql.Table.ofRows (before ++ (won.map (·.2)).toList) ++
    (pending.map fun p => ({ row := p.2, writer := some p.1 } : Sql.Version τ JobExecution)).toList

/-- The committed executions are those of the start and the one that won. -/
theorem ledger_committed :
    (ledger before won pending).committed = before ++ (won.map (·.2)).toList := by
  cases pending <;> simp [ledger]

/-- An execution that is inserted is pending. -/
theorem ledger_insert :
    (ledger before won none).insert t exec = ledger before won (some (t, exec)) := by
  simp [ledger, Sql.Table.insert]

variable [DecidableEq τ]

/-- A commit makes the pending execution the one that won. -/
theorem ledger_commit :
    (ledger before none (some (t, exec))).commit t = ledger before (some (t, exec)) none := by
  simp [ledger, Sql.Table.commit, Sql.Table.ofRows, Function.comp_def]

/-- A rollback of another leaves the executions alone. -/
theorem ledger_rollback (hother : ∀ exec, pending ≠ some (t, exec)) :
    (ledger before won pending).rollback t = ledger before won pending := by
  cases pending with
  | none => simp [ledger]
  | some p =>
      have hne : p.1 ≠ t := by
        intro heq
        exact hother p.2 (by rw [← heq])
      simp [ledger, Sql.Table.rollback_singleton, hne]

/-- A transaction that has created nothing sees the committed executions. -/
theorem ledger_visible (hother : ∀ exec, pending ≠ some (t, exec)) :
    (ledger before won pending).visible t = before ++ (won.map (·.2)).toList := by
  cases pending with
  | none => simp [ledger]
  | some p =>
      have hne : p.1 ≠ t := by
        intro heq
        exact hother p.2 (by rw [← heq])
      simp [ledger, Sql.Table.visible_singleton, hne]

end Ledger

/-- An execution of the instance with the key is `STARTING` or `STARTED`. -/
def GuardDatabase.Active {τ : Type} (db : GuardDatabase τ) (name jobKey : String) : Prop :=
  ∃ exec ∈ db.executions.committed, ∃ inst ∈ db.instances.committed,
    inst.hasKey name jobKey ∧ exec.runs inst.id

/-- The row with the key, committed or not. -/
def GuardDatabase.KeyRow {τ : Type} (db : GuardDatabase τ) (name jobKey : String)
    (row : JobInstance) : Prop :=
  ∃ v ∈ db.instances, v.row = row ∧ row.hasKey name jobKey

/-- What holds while calls of the guard with one key run side by side. -/
structure Guarded {ι : Type} (name jobKey : String) (first : List JobInstance)
    (before : List JobExecution)
    (phase : ι → GuardPhase) (db : GuardDatabase ι) (won pending : Option (ι × JobExecution)) :
    Prop where
  executions : db.executions = ledger before won pending
  won_iff : ∀ i exec, phase i = .succeeded exec ↔ won = some (i, exec)
  pending_iff : ∀ i exec, phase i = .created exec ↔ pending = some (i, exec)
  starting : ∀ p, won = some p ∨ pending = some p → p.2.status = .STARTING
  /-- at most one row has the key -/
  unique : ∀ v ∈ db.instances, ∀ w ∈ db.instances,
    v.row.hasKey name jobKey → w.row.hasKey name jobKey → v = w
  /-- a row not yet committed belongs to a call inside the guard -/
  written : ∀ v ∈ db.instances, ∀ i, v.writer = some i →
    v.row.hasKey name jobKey ∧ (phase i).inside ∧ ∀ exec ∈ before, exec.jobInstanceId ≠ v.row.id
  /-- a call inside the guard sees the row -/
  seen : ∀ i, (phase i).inside → ∃ v ∈ db.instances,
    v.row.hasKey name jobKey ∧ (v.writer = none ∨ v.writer = some i)
  held : ∀ i id, (phase i).holds = some id → db.locks id = some i ∧
    ∀ v ∈ db.instances, v.row.hasKey name jobKey → v.row.id = id
  locks : ∀ id i, db.locks id = some i →
    (phase i).holds = some id ∨ (¬ (phase i).ended ∧ db.Active name jobKey)
  lock_row : ∀ id i, db.locks id = some i →
    ∃ v ∈ db.instances, v.row.hasKey name jobKey ∧ v.row.id = id
  cleared : ∀ i id, (phase i).cleared → (phase i).holds = some id →
    ∀ exec ∈ before ++ (won.map (·.2)).toList, ¬ exec.runs id
  won_row : ∀ p, won = some p → (∃ inst ∈ db.instances.committed,
    inst.hasKey name jobKey ∧ inst.id = p.2.jobInstanceId) ∧
    ∀ exec ∈ before, ¬ exec.runs p.2.jobInstanceId
  /-- until an execution has been created, the committed rows are those of the start -/
  origin : won = none → ∀ inst ∈ db.instances.committed, inst ∈ first
  known : ∀ exec ∈ before, exec.jobInstanceId ∈ db.drawn
  drawn : ∀ i id, phase i = .drawn id → ∀ exec ∈ before, exec.jobInstanceId ≠ id
  refusal : ∀ i e, (phase i).refusal = some e →
    (∃ id, e = Thrown.JobExecutionAlreadyRunningError id) ∧
    (db.Active name jobKey ∨ ∃ j, (phase j).holds.isSome)

section Invariant

variable {ι : Type} {name jobKey : String} {first : List JobInstance} {before : List JobExecution}
  {phase : ι → GuardPhase} {db db' : GuardDatabase ι} {won pending : Option (ι × JobExecution)}
  {i : ι}

/-- The committed executions of a guarded database. -/
theorem Guarded.committed (hI : Guarded name jobKey first before phase db won pending) :
    db.executions.committed = before ++ (won.map (·.2)).toList := by
  rw [hI.executions, ledger_committed]

/-- Whoever holds the row is inside the guard. -/
theorem GuardPhase.inside_of_holds {p : GuardPhase} {id : String} (h : p.holds = some id) :
    p.inside := by
  cases p <;> first | rfl | cases h

/-- Only one call holds the row. -/
theorem Guarded.holder_unique (hI : Guarded name jobKey first before phase db won pending) {j : ι}
    {a b : String} (hi : (phase i).holds = some a) (hj : (phase j).holds = some b) : i = j := by
  obtain ⟨v, hv, hkey, -⟩ := hI.seen i (GuardPhase.inside_of_holds hi)
  obtain ⟨hlock, hid⟩ := hI.held i a hi
  obtain ⟨hlock', hid'⟩ := hI.held j b hj
  have hab : a = b := by rw [← hid v hv hkey, ← hid' v hv hkey]
  rw [hab, hlock'] at hlock
  exact (Option.some.inj hlock).symm

/-- A row the call has written can not belong to a running execution. -/
theorem Guarded.written_runs (hI : Guarded name jobKey first before phase db won pending)
    {v : Sql.Version ι JobInstance} (hv : v ∈ db.instances) (hw : v.writer = some i) :
    ∀ exec ∈ before ++ (won.map (·.2)).toList, ¬ exec.runs v.row.id := by
  obtain ⟨hkey, -, hnew⟩ := hI.written v hv i hw
  intro exec hexec hruns
  simp only [JobExecution.runs, Bool.and_eq_true, decide_eq_true_eq] at hruns
  rcases List.mem_append.mp hexec with hbefore | hwon
  · exact hnew exec hbefore hruns.1
  · obtain ⟨p, hp, heq⟩ := Option.map_eq_some_iff.mp (Option.mem_toList.mp hwon)
    obtain ⟨⟨inst, hinst, hkey', -⟩, -⟩ := hI.won_row p hp
    have hsame := hI.unique v hv _ (Sql.Table.mem_committed.mp hinst) hkey hkey'
    rw [hsame] at hw
    cases hw

/-- The row with the key in sight of a call inside the guard. -/
theorem Guarded.key_row (hI : Guarded name jobKey first before phase db won pending) {id : String}
    (hholds : (phase i).holds = some id) :
    ∃ v ∈ db.instances, v.row.hasKey name jobKey ∧ v.row.id = id ∧
      (v.writer = none ∨ v.writer = some i) := by
  obtain ⟨v, hv, hkey, hsee⟩ := hI.seen i (GuardPhase.inside_of_holds hholds)
  exact ⟨v, hv, hkey, (hI.held i id hholds).2 v hv hkey, hsee⟩

/-- A running execution of the row a call holds makes the key active. -/
theorem Guarded.active_of_runs (hI : Guarded name jobKey first before phase db won pending)
    {id : String} {exec : JobExecution} (hholds : (phase i).holds = some id)
    (hexec : exec ∈ before ++ (won.map (·.2)).toList) (hruns : exec.runs id) :
    db.Active name jobKey ∧ ∀ v ∈ db.instances, v.writer ≠ some i := by
  obtain ⟨v, hv, hkey, hid, hsee⟩ := hI.key_row hholds
  subst hid
  have hnone : ∀ w ∈ db.instances, w.writer ≠ some i := by
    intro w hw hwriter
    have hsame := hI.unique v hv w hw hkey (hI.written w hw i hwriter).1
    rw [← hsame] at hwriter
    exact hI.written_runs hv hwriter exec hexec hruns
  have hwriter : v.writer = none := hsee.resolve_right (hnone v hv)
  refine ⟨⟨exec, by rw [hI.committed]; exact hexec, v.row, ?_, hkey, hruns⟩, hnone⟩
  rw [Sql.Table.mem_committed, ← hwriter]
  exact hv

/-- While a call has created its execution, no call has succeeded. -/
theorem Guarded.won_none_of_created
    (hI : Guarded name jobKey first before phase db won pending) {exec : JobExecution}
    (hphase : phase i = .created exec) : won = none := by
  have hholds : (phase i).holds = some exec.jobInstanceId := by rw [hphase]; rfl
  obtain ⟨v, hv, hkey, hid, -⟩ := hI.key_row hholds
  cases hwon : won with
  | none => rfl
  | some p =>
      obtain ⟨⟨inst, hinst, hikey, hiid⟩, -⟩ := hI.won_row p hwon
      have hsame := hI.unique _ (Sql.Table.mem_committed.mp hinst) v hv hikey hkey
      have hrun : p.2.runs exec.jobInstanceId := by
        have hpid : p.2.jobInstanceId = exec.jobInstanceId := by
          rw [← hiid, ← hid, ← hsame]
        simp [JobExecution.runs, hpid, hI.starting p (Or.inl hwon), JobStatus.blocksLaunch]
      refine absurd hrun (hI.cleared i _ (by rw [hphase]; rfl) hholds p.2 ?_)
      rw [hwon]
      exact List.mem_append_right _ (by simp)

section NoRow

variable (hempty : ∀ v ∈ db.instances, ¬ v.row.hasKey name jobKey = true)
include hempty

/-- Where no row has the key, no call is inside the guard. -/
theorem Guarded.outside (hI : Guarded name jobKey first before phase db won pending) (j : ι) :
    (phase j).inside = false := by
  by_contra hin
  obtain ⟨v, hv, hkey, -⟩ := hI.seen j (by simpa using hin)
  exact hempty v hv hkey

/-- Where no row has the key, no call holds one. -/
theorem Guarded.holds_none (hI : Guarded name jobKey first before phase db won pending) (j : ι) :
    (phase j).holds = none := by
  cases hholds : (phase j).holds with
  | none => rfl
  | some id =>
      have hin := GuardPhase.inside_of_holds hholds
      rw [hI.outside hempty j] at hin
      cases hin

/-- Where no row has the key, no call has succeeded. -/
theorem Guarded.won_none (hI : Guarded name jobKey first before phase db won pending) :
    won = none := by
  cases hwon : won with
  | none => rfl
  | some p =>
      obtain ⟨⟨inst, hinst, hkey, -⟩, -⟩ := hI.won_row p hwon
      exact absurd hkey (hempty _ (Sql.Table.mem_committed.mp hinst))

/-- Where no row has the key, the key is not active. -/
theorem GuardDatabase.not_active : ¬ db.Active name jobKey := by
  intro hactive
  obtain ⟨exec, -, inst, hinst, hkey, -⟩ := hactive
  exact hempty _ (Sql.Table.mem_committed.mp hinst) hkey

end NoRow

variable [DecidableEq ι]

/-- What the phase a call moves to has not, another call has and had before. -/
theorem GuardPhase.of_update (P : GuardPhase → Prop) {p : GuardPhase} {j : ι}
    (h : P (Function.update phase i p j)) (hp : ¬ P p) : j ≠ i ∧ P (phase j) := by
  by_cases hji : j = i
  · subst hji
    rw [Function.update_self] at h
    exact absurd h hp
  · rw [Function.update_of_ne hji] at h
    exact ⟨hji, h⟩

/-- What was written stays written by calls inside the guard, while the one that moves stays in. -/
theorem Guarded.written_update (hI : Guarded name jobKey first before phase db won pending)
    {p : GuardPhase} (hin : (∃ v ∈ db.instances, v.writer = some i) → p.inside) :
    ∀ v ∈ db.instances, ∀ j, v.writer = some j → v.row.hasKey name jobKey ∧
      (Function.update phase i p j).inside ∧ ∀ exec ∈ before, exec.jobInstanceId ≠ v.row.id := by
  intro v hv j hj
  obtain ⟨hkey, hinside, hnew⟩ := hI.written v hv j hj
  refine ⟨hkey, ?_, hnew⟩
  by_cases hji : j = i
  · subst hji
    rw [Function.update_self]
    exact hin ⟨v, hv, hj⟩
  · rw [Function.update_of_ne hji]
    exact hinside

/-- What a call may do without touching the tables or the locks. -/
structure MayMove (name jobKey : String) (before : List JobExecution) (phase : ι → GuardPhase)
    (db : GuardDatabase ι) (won : Option (ι × JobExecution)) (i : ι) (p : GuardPhase) : Prop where
  from_open : ∀ exec, phase i ≠ .created exec ∧ phase i ≠ .succeeded exec
  to_open : ∀ exec, p ≠ .created exec ∧ p ≠ .succeeded exec
  inside : (∃ v ∈ db.instances, v.writer = some i) → p.inside
  seen : p.inside → ∃ v ∈ db.instances,
    v.row.hasKey name jobKey ∧ (v.writer = none ∨ v.writer = some i)
  holds : p.holds = (phase i).holds ∨
    (p.holds = none ∧ ¬ p.ended ∧ db.Active name jobKey)
  cleared : ∀ id, p.cleared → p.holds = some id →
    ∀ exec ∈ before ++ (won.map (·.2)).toList, ¬ exec.runs id
  drawn : ∀ id, p = .drawn id → ∀ exec ∈ before, exec.jobInstanceId ≠ id
  refusal : ∀ e, p.refusal = some e →
    (∃ id, e = Thrown.JobExecutionAlreadyRunningError id) ∧
    (db.Active name jobKey ∨ ∃ j, j ≠ i ∧ (phase j).holds.isSome)
  ended : p.ended = false

/-- **A move keeps the invariant**: a statement that touches neither tables nor locks. -/
theorem Guarded.move (hI : Guarded name jobKey first before phase db won pending) {p : GuardPhase}
    (hmove : MayMove name jobKey before phase db won i p) :
    Guarded name jobKey first before (Function.update phase i p) db won pending := by
  obtain ⟨hfrom, hto, hinside, hseen, hholds, hcleared, hdrawn, hrefusal, hended⟩ := hmove
  refine { hI with
    won_iff := ?_, pending_iff := ?_, written := hI.written_update hinside, seen := ?_,
    held := ?_, locks := ?_, cleared := ?_, drawn := ?_, refusal := ?_ }
  · grind [hI.won_iff, Function.update_apply]
  · grind [hI.pending_iff, Function.update_apply]
  · grind [hI.seen, Function.update_apply]
  · grind [hI.held, Function.update_apply]
  · grind [hI.locks, Function.update_apply]
  · grind [hI.cleared, Function.update_apply]
  · grind [hI.drawn, Function.update_apply]
  · intro j e hj
    by_cases hji : j = i
    · rw [hji, Function.update_self] at hj
      obtain ⟨hshape, hblock⟩ := hrefusal e hj
      refine ⟨hshape, ?_⟩
      rcases hblock with hactive | ⟨k, hk, hhold⟩
      · exact Or.inl hactive
      · exact Or.inr ⟨k, by rw [Function.update_of_ne hk]; exact hhold⟩
    · rw [Function.update_of_ne hji] at hj
      obtain ⟨hshape, hblock⟩ := hI.refusal j e hj
      refine ⟨hshape, ?_⟩
      rcases hblock with hactive | ⟨k, hhold⟩
      · exact Or.inl hactive
      · by_cases hk : k = i
        · rcases hholds with hsame | ⟨-, -, hactive⟩
          · exact Or.inr ⟨i, by rw [Function.update_self, hsame, ← hk]; exact hhold⟩
          · exact Or.inl hactive
        · exact Or.inr ⟨k, by rw [Function.update_of_ne hk]; exact hhold⟩

/-- Drawing an id for the instance keeps the invariant. -/
theorem Guarded.draw (hI : Guarded name jobKey first before phase db won pending) {id : String}
    (hphase : phase i = .start) (hfresh : id ∉ db.drawn) :
    Guarded name jobKey first before (Function.update phase i (.drawn id))
      { db with drawn := id :: db.drawn } won pending := by
  have hmove : MayMove name jobKey before phase db won i (.drawn id) := by
    refine ⟨by simp [hphase], by simp, ?_, by simp [GuardPhase.inside, GuardPhase.holds],
      Or.inl (by rw [hphase]; rfl),
      by simp [GuardPhase.cleared, GuardPhase.holds], ?_, by simp [GuardPhase.refusal], rfl⟩
    · intro h
      obtain ⟨v, hv, hw⟩ := h
      have hin := (hI.written v hv i hw).2.1
      rw [hphase] at hin
      exact absurd hin (by simp [GuardPhase.inside, GuardPhase.holds])
    · intro id' heq exec hexec
      cases heq
      intro hid
      exact hfresh (hid ▸ hI.known exec hexec)
  have hmoved := hI.move hmove
  exact { hmoved with known := fun exec hexec => List.mem_cons_of_mem _ (hI.known exec hexec) }

/-- Drawing an id for the execution keeps the invariant. -/
theorem Guarded.nameExecution (hI : Guarded name jobKey first before phase db won pending)
    {instanceId execId : String} (hphase : phase i = .checked instanceId) :
    Guarded name jobKey first before (Function.update phase i (.named instanceId execId))
      { db with drawn := execId :: db.drawn } won pending := by
  have hmove : MayMove name jobKey before phase db won i (.named instanceId execId) := by
    refine ⟨by simp [hphase], by simp, fun _ => rfl, ?_, Or.inl (by rw [hphase]; rfl), ?_,
      by simp, by simp [GuardPhase.refusal], rfl⟩
    · intro _
      exact hI.seen i (by rw [hphase]; rfl)
    · intro id _ hid
      exact hI.cleared i id (by rw [hphase]; rfl) (by rw [hphase]; exact hid)
  have hmoved := hI.move hmove
  exact { hmoved with known := fun exec hexec => List.mem_cons_of_mem _ (hI.known exec hexec) }

/-- Meeting the row of another keeps the invariant. -/
theorem Guarded.conflict (hI : Guarded name jobKey first before phase db won pending)
    {instId : String}
    {inst : JobInstance} (hphase : phase i = .drawn instId)
    (hseen : inst ∈ db.instances.visible i) (hkey : inst.hasKey name jobKey) :
    Guarded name jobKey first before (Function.update phase i .inserted) db won pending := by
  apply hI.move
  refine ⟨by simp [hphase], by simp, fun _ => rfl, ?_, Or.inl (by rw [hphase]; rfl),
    by simp [GuardPhase.cleared, GuardPhase.holds], by simp, by simp [GuardPhase.refusal], rfl⟩
  intro _
  rcases Sql.Table.mem_visible.mp hseen with hv | hv
  · exact ⟨_, hv, hkey, Or.inl rfl⟩
  · exact ⟨_, hv, hkey, Or.inr rfl⟩

/-- Meeting a running execution keeps the invariant. -/
theorem Guarded.busy (hI : Guarded name jobKey first before phase db won pending)
    {instanceId : String}
    {running : JobExecution} (hphase : phase i = .locked instanceId)
    (hrunning : running ∈ db.running i instanceId) :
    Guarded name jobKey first before (Function.update phase i
      (.refused (Thrown.JobExecutionAlreadyRunningError running.id))) db won pending := by
  have hpending : ∀ exec, pending ≠ some (i, exec) := by
    intro exec heq
    rw [← hI.pending_iff, hphase] at heq
    cases heq
  rw [GuardDatabase.running, List.mem_filter, hI.executions, ledger_visible hpending] at hrunning
  obtain ⟨hactive, hnone⟩ := hI.active_of_runs (by rw [hphase]; rfl) hrunning.1 hrunning.2
  apply hI.move
  refine ⟨by simp [hphase], by simp, ?_, by simp [GuardPhase.inside, GuardPhase.holds],
    Or.inr ⟨rfl, by simp [GuardPhase.ended], hactive⟩,
    by simp [GuardPhase.cleared, GuardPhase.holds], by simp, ?_, rfl⟩
  · intro h
    obtain ⟨v, hv, hw⟩ := h
    exact absurd hw (hnone v hv)
  · intro e he
    cases he
    exact ⟨⟨_, rfl⟩, Or.inl hactive⟩

/-- Finding no running execution keeps the invariant. -/
theorem Guarded.clear (hI : Guarded name jobKey first before phase db won pending)
    {instanceId : String}
    (hphase : phase i = .locked instanceId) (hnone : db.running i instanceId = []) :
    Guarded name jobKey first before
      (Function.update phase i (.checked instanceId)) db won pending := by
  have hpending : ∀ exec, pending ≠ some (i, exec) := by
    intro exec heq
    rw [← hI.pending_iff, hphase] at heq
    cases heq
  rw [GuardDatabase.running, hI.executions, ledger_visible hpending, List.filter_eq_nil_iff]
    at hnone
  apply hI.move
  refine ⟨by simp [hphase], by simp, fun _ => rfl, ?_, Or.inl (by rw [hphase]; rfl), ?_, by simp,
    by simp [GuardPhase.refusal], rfl⟩
  · intro _
    exact hI.seen i (by rw [hphase]; rfl)
  · intro id _ hid
    cases hid
    exact hnone

/-- Finding no row to lock keeps the invariant. -/
theorem Guarded.miss (hI : Guarded name jobKey first before phase db won pending)
    (hphase : phase i = .inserted) (hnone : db.lockable i name jobKey = []) :
    Guarded name jobKey first before (Function.update phase i
      (.refused (Thrown.JobExecutionAlreadyRunningError name))) db won pending := by
  obtain ⟨v, hv, hkey, hsee⟩ := hI.seen i (by rw [hphase]; rfl)
  have hvisible : v.row ∈ db.instances.visible i := by
    rw [Sql.Table.mem_visible]
    rcases hsee with hw | hw
    · left; rw [← hw]; exact hv
    · right; rw [← hw]; exact hv
  rw [GuardDatabase.lockable, List.filter_eq_nil_iff] at hnone
  have hgrants : ¬ db.locks.grants i v.row.id = true := by
    intro hgrants
    exact hnone v.row hvisible (by rw [hkey, hgrants]; rfl)
  obtain ⟨j, hj, hji⟩ := Sql.Locks.not_grants hgrants
  -- whoever has the lock is inside the guard, or has met a running execution
  have hholder : (phase j).holds = some v.row.id ∨ db.Active name jobKey := by
    rcases hI.locks v.row.id j hj with h | h
    · exact Or.inl h
    · exact Or.inr h.2
  have hunwritten : ∀ w ∈ db.instances, w.writer ≠ some i := by
    intro w hw hwriter
    have hwkey := (hI.written w hw i hwriter).1
    rcases hholder with hholds | ⟨exec, _, inst, hinst, hikey, _⟩
    · obtain ⟨u, hu, hukey, -, husee⟩ := hI.key_row hholds
      have hsame := hI.unique u hu w hw hukey hwkey
      rw [hsame, hwriter] at husee
      rcases husee with h | h
      · cases h
      · exact hji (Option.some.inj h).symm
    · have hsame := hI.unique _ (Sql.Table.mem_committed.mp hinst) w hw hikey hwkey
      rw [← hsame] at hwriter
      cases hwriter
  apply hI.move
  refine ⟨by simp [hphase], by simp, ?_, by simp [GuardPhase.inside, GuardPhase.holds],
    Or.inl (by rw [hphase]; rfl), by simp [GuardPhase.cleared, GuardPhase.holds], by simp, ?_, rfl⟩
  · intro hcase
    obtain ⟨w, hw, hwriter⟩ := hcase
    exact absurd hwriter (hunwritten w hw)
  · intro e he
    cases he
    refine ⟨⟨_, rfl⟩, ?_⟩
    rcases hholder with hholds | hactive
    · exact Or.inr ⟨j, hji, by rw [hholds]; rfl⟩
    · exact Or.inl hactive

/-! ### A row is inserted -/

/-- A row that nobody sees, and that nobody else is writing, is not there. -/
theorem GuardDatabase.no_row (hfree : ¬ db.instances.Contended i (·.hasKey name jobKey))
    (hnone : ∀ inst ∈ db.instances.visible i, ¬ inst.hasKey name jobKey = true) :
    ∀ v ∈ db.instances, ¬ v.row.hasKey name jobKey = true := by
  intro v hv hkey
  cases hw : v.writer with
  | none => exact hnone v.row (Sql.Table.mem_visible.mpr (Or.inl (by rw [← hw]; exact hv))) hkey
  | some j =>
      by_cases hji : j = i
      · refine hnone v.row (Sql.Table.mem_visible.mpr (Or.inr ?_)) hkey
        rw [← hji, ← hw]
        exact hv
      · exact hfree ⟨v, hv, hkey, j, hw, hji⟩

/-- **Inserting the row** keeps the invariant: nobody was inside the guard. -/
theorem Guarded.insert (hI : Guarded name jobKey first before phase db won pending)
    {instId : String}
    {now : Time} (hphase : phase i = .drawn instId)
    (hfree : ¬ db.instances.Contended i (·.hasKey name jobKey))
    (hnone : ∀ inst ∈ db.instances.visible i, ¬ inst.hasKey name jobKey = true) :
    Guarded name jobKey first before (Function.update phase i .inserted)
      { db with instances := db.instances.insert i (newInstance instId name jobKey now) }
      won pending := by
  -- the table has no row with the key yet, so no call is inside the guard
  have hempty := GuardDatabase.no_row hfree hnone
  have hlazy := hI.holds_none hempty
  have hidle := GuardDatabase.not_active hempty
  have hkeyNew : (newInstance instId name jobKey now).hasKey name jobKey = true := by
    simp [JobInstance.hasKey, newInstance]
  refine { hI with
    won_iff := ?_, pending_iff := ?_, unique := ?_, written := ?_, seen := ?_, held := ?_,
    locks := ?_, lock_row := ?_, cleared := ?_, won_row := ?_, origin := ?_, drawn := ?_,
    refusal := ?_ }
  · grind [hI.won_iff, Function.update_apply]
  · grind [hI.pending_iff, Function.update_apply]
  · intro v hv w hw hvkey hwkey
    rcases Sql.Table.mem_insert.mp hv with hv | hv
    · exact absurd hvkey (hempty v hv)
    · rcases Sql.Table.mem_insert.mp hw with hw | hw
      · exact absurd hwkey (hempty w hw)
      · rw [hv, hw]
  · intro v hv j hj
    rcases Sql.Table.mem_insert.mp hv with hv | hv
    · exact absurd (hI.written v hv j hj).1 (hempty v hv)
    · subst hv
      cases hj
      refine ⟨hkeyNew, by rw [Function.update_self]; rfl, hI.drawn i instId hphase⟩
  · intro j hin
    by_cases hji : j = i
    · subst hji
      exact ⟨_, Sql.Table.mem_insert.mpr (Or.inr rfl), hkeyNew, Or.inr rfl⟩
    · rw [Function.update_of_ne hji, hI.outside hempty j] at hin
      cases hin
  · intro j id hj
    obtain ⟨-, hj⟩ := GuardPhase.of_update (fun q => q.holds = some id) hj (fun h => by cases h)
    rw [hlazy j] at hj
    cases hj
  · intro id j hj
    rcases hI.locks id j hj with h | ⟨-, hactive⟩
    · rw [hlazy j] at h
      cases h
    · exact absurd hactive hidle
  · intro id j hj
    obtain ⟨v, hv, hkey, -⟩ := hI.lock_row id j hj
    exact absurd hkey (hempty v hv)
  · intro j id hc hj
    obtain ⟨-, hj⟩ := GuardPhase.of_update (fun q => q.holds = some id) hj (fun h => by cases h)
    rw [hlazy j] at hj
    cases hj
  · intro p hp
    rw [hI.won_none hempty] at hp
    cases hp
  · intro hw inst hinst
    rcases Sql.Table.mem_insert.mp (Sql.Table.mem_committed.mp hinst) with hold | hnew
    · exact hI.origin hw inst (Sql.Table.mem_committed.mpr hold)
    · cases hnew
  · grind [hI.drawn, Function.update_apply]
  · intro j e hj
    obtain ⟨-, hj⟩ := GuardPhase.of_update (fun q => q.refusal = some e) hj (fun h => by cases h)
    rcases (hI.refusal j e hj).2 with hactive | ⟨k, hk⟩
    · exact absurd hactive hidle
    · rw [hlazy k] at hk
      cases hk

/-! ### The row is locked -/

/-- A row that a call can lock has the key, is free for it, and is in its sight. -/
theorem GuardDatabase.of_lockable {row : JobInstance} (h : row ∈ db.lockable i name jobKey) :
    row.hasKey name jobKey = true ∧ db.locks.grants i row.id = true ∧
      ∃ v ∈ db.instances, v.row = row ∧ (v.writer = none ∨ v.writer = some i) := by
  rw [GuardDatabase.lockable, List.mem_filter, Bool.and_eq_true] at h
  obtain ⟨hvisible, hkey, hgrants⟩ := h
  refine ⟨hkey, hgrants, ?_⟩
  rcases Sql.Table.mem_visible.mp hvisible with hv | hv
  · exact ⟨_, hv, rfl, Or.inl rfl⟩
  · exact ⟨_, hv, rfl, Or.inr rfl⟩

/-- All that a call can lock is the one row with the key. -/
theorem Guarded.take_eq (hI : Guarded name jobKey first before phase db won pending)
    {v : Sql.Version ι JobInstance} (hv : v ∈ db.instances) (hkey : v.row.hasKey name jobKey)
    {ids : List String} (hids : ∀ id ∈ ids, ∃ inst ∈ db.lockable i name jobKey, inst.id = id)
    (id : String) :
    db.locks.take i (v.row.id :: ids) id = if id = v.row.id then some i else db.locks id := by
  have hsame : ∀ id ∈ v.row.id :: ids, id = v.row.id := by
    intro id hid
    rcases List.mem_cons.mp hid with heq | hmem
    · exact heq
    · obtain ⟨other, hother, heq⟩ := hids id hmem
      obtain ⟨hokey, -, w, hw, hwrow, -⟩ := GuardDatabase.of_lockable hother
      subst hwrow
      rw [← heq, hI.unique w hw v hv hokey hkey]
  unfold Sql.Locks.take
  by_cases hk : id = v.row.id
  · rw [if_pos hk, if_pos (by rw [hk]; exact List.mem_cons_self)]
  · rw [if_neg hk, if_neg fun hmem => hk (hsame id hmem)]

/-- While a call waits for a row that is free for it, no call holds one. -/
theorem Guarded.holds_none_of_grants
    (hI : Guarded name jobKey first before phase db won pending) (hphase : phase i = .inserted)
    {v : Sql.Version ι JobInstance} (hv : v ∈ db.instances) (hkey : v.row.hasKey name jobKey)
    (hgrants : db.locks.grants i v.row.id = true) (j : ι) : (phase j).holds = none := by
  cases hholds : (phase j).holds with
  | none => rfl
  | some id =>
      obtain ⟨hlock, hid⟩ := hI.held j id hholds
      rw [← hid v hv hkey] at hlock
      simp only [Sql.Locks.grants, hlock, Bool.or_eq_true, decide_eq_true_eq] at hgrants
      rcases hgrants with h | h
      · cases h
      · cases h
        rw [hphase] at hholds
        cases hholds

/-- **Locking the row** keeps the invariant: nobody held it. -/
theorem Guarded.lock (hI : Guarded name jobKey first before phase db won pending)
    {inst : JobInstance}
    {ids : List String} (hphase : phase i = .inserted)
    (hinst : inst ∈ db.lockable i name jobKey)
    (hids : ∀ id ∈ ids, ∃ inst ∈ db.lockable i name jobKey, inst.id = id) :
    Guarded name jobKey first before (Function.update phase i (.locked inst.id))
      { db with locks := db.locks.take i (inst.id :: ids) } won pending := by
  obtain ⟨hkey, hgrants, v, hv, hvrow, hsee⟩ := GuardDatabase.of_lockable hinst
  subst hvrow
  have htake := hI.take_eq hv hkey hids
  have hnobody := hI.holds_none_of_grants hphase hv hkey hgrants
  refine { hI with
    won_iff := ?_, pending_iff := ?_, written := hI.written_update fun _ => rfl, seen := ?_,
    held := ?_, locks := ?_, lock_row := ?_, cleared := ?_, drawn := ?_, refusal := ?_ }
  · grind [hI.won_iff, Function.update_apply]
  · grind [hI.pending_iff, Function.update_apply]
  · intro j hin
    by_cases hji : j = i
    · subst hji
      exact ⟨v, hv, hkey, hsee⟩
    · rw [Function.update_of_ne hji] at hin
      exact hI.seen j hin
  · intro j id hj
    by_cases hji : j = i
    · subst hji
      rw [Function.update_self] at hj
      cases hj
      refine ⟨(htake _).trans (if_pos rfl), ?_⟩
      intro w hw hwkey
      rw [hI.unique w hw v hv hwkey hkey]
    · rw [Function.update_of_ne hji, hnobody j] at hj
      cases hj
  · intro id j hj
    dsimp only at hj
    rw [htake] at hj
    by_cases hid : id = v.row.id
    · rw [if_pos hid] at hj
      cases hj
      left
      rw [Function.update_self, hid]
      rfl
    · rw [if_neg hid] at hj
      rcases hI.locks id j hj with h | ⟨hopen, hactive⟩
      · rw [hnobody j] at h
        cases h
      · right
        refine ⟨?_, hactive⟩
        by_cases hji : j = i
        · subst hji
          rw [Function.update_self]
          simp [GuardPhase.ended]
        · rw [Function.update_of_ne hji]
          exact hopen
  · intro id j hj
    dsimp only at hj
    rw [htake] at hj
    by_cases hid : id = v.row.id
    · exact ⟨v, hv, hkey, hid.symm⟩
    · rw [if_neg hid] at hj
      exact hI.lock_row id j hj
  · intro j id hc hj
    obtain ⟨hji, -⟩ := GuardPhase.of_update (fun q => q.cleared = true) hc (fun h => by cases h)
    rw [Function.update_of_ne hji, hnobody j] at hj
    cases hj
  · grind [hI.drawn, Function.update_apply]
  · intro j e hj
    obtain ⟨-, hj⟩ := GuardPhase.of_update (fun q => q.refusal = some e) hj (fun h => by cases h)
    exact ⟨(hI.refusal j e hj).1, Or.inr ⟨i, by rw [Function.update_self]; rfl⟩⟩

/-- **Creating an execution** keeps the invariant: the holder of the row does. -/
theorem Guarded.create (hI : Guarded name jobKey first before phase db won pending)
    {instanceId execId : String} {exec : JobExecution} (hphase : phase i = .named instanceId execId)
    (hinstance : exec.jobInstanceId = instanceId) (hstatus : exec.status = .STARTING) :
    Guarded name jobKey first before (Function.update phase i (.created exec))
      { db with executions := db.executions.insert i exec } won (some (i, exec)) := by
  have hholds : (phase i).holds = some exec.jobInstanceId := by rw [hphase, hinstance]; rfl
  have hpending : pending = none := by
    cases hp : pending with
    | none => rfl
    | some p =>
        have hcreated := (hI.pending_iff p.1 p.2).mpr hp
        have heq : p.1 = i := hI.holder_unique (by rw [hcreated]; rfl) hholds
        rw [heq, hphase] at hcreated
        cases hcreated
  subst hpending
  have hactive : db.Active name jobKey → GuardDatabase.Active
      { db with executions := db.executions.insert i exec } name jobKey := by
    intro hcase
    obtain ⟨running, hmem, hrest⟩ := hcase
    refine ⟨running, ?_, hrest⟩
    rw [hI.executions, ledger_insert, ledger_committed, ← hI.committed]
    exact hmem
  refine { hI with
    executions := by rw [hI.executions, ledger_insert], won_iff := ?_, pending_iff := ?_,
    starting := ?_, written := hI.written_update fun _ => rfl, seen := ?_, held := ?_,
    locks := ?_, cleared := ?_, drawn := ?_, refusal := ?_ }
  · grind [hI.won_iff, Function.update_apply]
  · grind [hI.pending_iff, Function.update_apply]
  · intro p hp
    rcases hp with hp | hp
    · exact hI.starting p (Or.inl hp)
    · cases hp
      exact hstatus
  · intro j hin
    by_cases hji : j = i
    · subst hji
      exact hI.seen j (GuardPhase.inside_of_holds hholds)
    · rw [Function.update_of_ne hji] at hin
      exact hI.seen j hin
  · intro j id hj
    by_cases hji : j = i
    · subst hji
      rw [Function.update_self] at hj
      exact hI.held j id (hholds.trans hj)
    · rw [Function.update_of_ne hji] at hj
      exact hI.held j id hj
  · intro id j hj
    rcases hI.locks id j hj with h | ⟨hopen, ha⟩
    · left
      by_cases hji : j = i
      · subst hji
        rw [Function.update_self]
        exact hholds.symm.trans h
      · rw [Function.update_of_ne hji]
        exact h
    · right
      refine ⟨?_, hactive ha⟩
      by_cases hji : j = i
      · subst hji
        rw [Function.update_self]
        simp [GuardPhase.ended]
      · rw [Function.update_of_ne hji]
        exact hopen
  · intro j id hc hj
    by_cases hji : j = i
    · subst hji
      rw [Function.update_self] at hj
      exact hI.cleared j id (by rw [hphase]; rfl) (hholds.trans hj)
    · rw [Function.update_of_ne hji] at hj hc
      exact hI.cleared j id hc hj
  · grind [hI.drawn, Function.update_apply]
  · intro j e hj
    obtain ⟨-, hj⟩ := GuardPhase.of_update (fun q => q.refusal = some e) hj (fun h => by cases h)
    exact ⟨(hI.refusal j e hj).1, Or.inr ⟨i, by rw [Function.update_self]; rfl⟩⟩

/-! ### The transaction ends -/

/-- The row in sight of a call is committed with it. -/
theorem GuardDatabase.committed_of_commit {v : Sql.Version ι JobInstance}
    (hv : v ∈ db.instances) (hsee : v.writer = none ∨ v.writer = some i) :
    v.row ∈ (db.commit i).instances.committed := by
  rw [Sql.Table.mem_committed]
  apply Sql.Table.mem_commit.mpr
  rcases hsee with hw | hw
  · left
    rw [← hw]
    exact ⟨hv, by rw [hw]; simp⟩
  · right
    refine ⟨rfl, ?_⟩
    rw [← hw]
    exact hv

/-- A commit leaves one row with the key. -/
theorem Guarded.unique_commit (hI : Guarded name jobKey first before phase db won pending) :
    ∀ v ∈ (db.commit i).instances, ∀ w ∈ (db.commit i).instances,
      v.row.hasKey name jobKey → w.row.hasKey name jobKey → v = w := by
  intro w hw u hu hwkey hukey
  rcases Sql.Table.mem_commit.mp hw with ⟨hw, hwne⟩ | ⟨hwnone, hw⟩
  · rcases Sql.Table.mem_commit.mp hu with ⟨hu, hune⟩ | ⟨hunone, hu⟩
    · exact hI.unique w hw u hu hwkey hukey
    · have hsame := hI.unique w hw _ hu hwkey hukey
      rw [hsame] at hwne
      exact absurd rfl hwne
  · rcases Sql.Table.mem_commit.mp hu with ⟨hu, hune⟩ | ⟨hunone, hu⟩
    · have hsame := hI.unique u hu _ hw hukey hwkey
      rw [hsame] at hune
      exact absurd rfl hune
    · have hsame := hI.unique _ hw _ hu hwkey hukey
      cases w
      cases u
      cases hsame
      cases hwnone
      cases hunone
      rfl

/-- **A commit** keeps the invariant: the one call that has created wins. -/
theorem Guarded.commit (hI : Guarded name jobKey first before phase db won pending)
    {exec : JobExecution} (hphase : phase i = .created exec) :
    Guarded name jobKey first before (Function.update phase i (.succeeded exec)) (db.commit i)
      (some (i, exec)) none := by
  have hholds : (phase i).holds = some exec.jobInstanceId := by rw [hphase]; rfl
  have hcleared := hI.cleared i _ (by rw [hphase]; rfl) hholds
  have hpending : pending = some (i, exec) := (hI.pending_iff i exec).mp hphase
  subst hpending
  obtain ⟨v, hv, hkey, hid, hsee⟩ := hI.key_row hholds
  have hunwon := hI.won_none_of_created hphase
  subst hunwon
  have hexecs : (db.commit i).executions = ledger before (some (i, exec)) none := by
    simp only [GuardDatabase.commit, hI.executions, ledger_commit]
  have hrow := GuardDatabase.committed_of_commit hv hsee
  have hactive : (db.commit i).Active name jobKey := by
    refine ⟨exec, ?_, v.row, hrow, hkey, ?_⟩
    · rw [hexecs, ledger_committed]
      simp
    · have hstatus : exec.status = .STARTING := hI.starting _ (Or.inr rfl)
      simp [JobExecution.runs, hid, hstatus, JobStatus.blocksLaunch]
  have hothers : ∀ j, j ≠ i → (phase j).holds = none := by
    intro j hji
    cases hj : (phase j).holds with
    | none => rfl
    | some id => exact absurd (hI.holder_unique hj hholds) hji
  refine {
    executions := hexecs, won_iff := ?_, pending_iff := ?_, starting := ?_,
    unique := hI.unique_commit, written := ?_, seen := ?_, held := ?_, locks := ?_,
    lock_row := ?_, cleared := ?_, won_row := ?_, origin := by simp, known := hI.known,
    drawn := ?_, refusal := ?_ }
  · grind [hI.won_iff, Function.update_apply]
  · grind [hI.pending_iff, Function.update_apply]
  · intro p hp
    rcases hp with hp | hp
    · cases hp
      exact hI.starting _ (Or.inr rfl)
    · cases hp
  · intro w hw j hj
    rcases Sql.Table.mem_commit.mp hw with ⟨hw, hwne⟩ | ⟨hwnone, hw⟩
    · have hji : j ≠ i := by
        intro heq
        exact hwne (heq ▸ hj)
      rw [Function.update_of_ne hji]
      exact hI.written w hw j hj
    · rw [hwnone] at hj
      cases hj
  · intro j hin
    obtain ⟨hji, hin⟩ := GuardPhase.of_update (fun q => q.inside = true) hin (fun h => by cases h)
    obtain ⟨w, hw, hwkey, hwsee⟩ := hI.seen j hin
    refine ⟨w, Sql.Table.mem_commit.mpr (Or.inl ⟨hw, ?_⟩), hwkey, hwsee⟩
    intro hwi
    rcases hwsee with h | h
    · rw [hwi] at h
      cases h
    · rw [hwi] at h
      exact hji (Option.some.inj h).symm
  · intro j id hj
    obtain ⟨hji, hj⟩ := GuardPhase.of_update (fun q => q.holds = some id) hj (fun h => by cases h)
    rw [hothers j hji] at hj
    cases hj
  · intro id j hj
    obtain ⟨hlock, hji⟩ := Sql.Locks.release_eq_some.mp hj
    rw [Function.update_of_ne hji]
    rcases hI.locks id j hlock with h | ⟨hopen, -⟩
    · rw [hothers j hji] at h
      cases h
    · exact Or.inr ⟨hopen, hactive⟩
  · intro id j hj
    obtain ⟨w, hw, hwkey, hwid⟩ := hI.lock_row id j (Sql.Locks.release_eq_some.mp hj).1
    have hsame := hI.unique w hw v hv hwkey hkey
    exact ⟨_, Sql.Table.mem_committed.mp hrow, hkey, by rw [← hwid, hsame]⟩
  · intro j id hc hj
    obtain ⟨hji, hj⟩ := GuardPhase.of_update (fun q => q.holds = some id) hj (fun h => by cases h)
    rw [hothers j hji] at hj
    cases hj
  · intro p hp
    cases hp
    refine ⟨⟨v.row, hrow, hkey, hid⟩, ?_⟩
    intro running hrunning
    exact hcleared running (List.mem_append_left _ hrunning)
  · grind [hI.drawn, Function.update_apply]
  · intro j e hj
    obtain ⟨-, hj⟩ := GuardPhase.of_update (fun q => q.refusal = some e) hj (fun h => by cases h)
    exact ⟨(hI.refusal j e hj).1, Or.inl hactive⟩

/-- **A rollback** keeps the invariant: a refused call leaves nothing behind. -/
theorem Guarded.rollback (hI : Guarded name jobKey first before phase db won pending) {e : Thrown}
    (hphase : phase i = .refused e) :
    Guarded name jobKey first before (Function.update phase i (.failed e)) (db.rollback i)
      won pending := by
  have hpending : ∀ exec, pending ≠ some (i, exec) := by
    intro exec heq
    rw [← hI.pending_iff, hphase] at heq
    cases heq
  have hunwritten : ∀ v ∈ db.instances, v.writer ≠ some i := by
    intro v hv hw
    have hin := (hI.written v hv i hw).2.1
    rw [hphase] at hin
    cases hin
  have hinstances : (db.rollback i).instances = db.instances := by
    apply List.filter_eq_self.mpr
    intro v hv
    simpa using hunwritten v hv
  have hexecs : (db.rollback i).executions = db.executions := by
    simp only [GuardDatabase.rollback, hI.executions, ledger_rollback hpending]
  have hactive : db.Active name jobKey → (db.rollback i).Active name jobKey := by
    unfold GuardDatabase.Active
    rw [hinstances, hexecs]
    exact id
  have hlocks : ∀ id j, (db.rollback i).locks id = some j ↔ db.locks id = some j ∧ j ≠ i :=
    fun id j => Sql.Locks.release_eq_some
  refine {
    executions := by rw [hexecs, hI.executions], won_iff := ?_, pending_iff := ?_,
    starting := hI.starting, unique := by rw [hinstances]; exact hI.unique,
    written := ?_, seen := ?_, held := ?_, locks := ?_, lock_row := ?_, cleared := ?_,
    won_row := by rw [hinstances]; exact hI.won_row,
    origin := by rw [hinstances]; exact hI.origin, known := hI.known, drawn := ?_,
    refusal := ?_ }
  · grind [hI.won_iff, Function.update_apply]
  · grind [hI.pending_iff, Function.update_apply]
  · rw [hinstances]
    intro v hv j hj
    have hji : j ≠ i := by
      intro heq
      exact hunwritten v hv (heq ▸ hj)
    rw [Function.update_of_ne hji]
    exact hI.written v hv j hj
  · rw [hinstances]
    intro j hin
    exact hI.seen j (GuardPhase.of_update (fun q => q.inside = true) hin (fun h => by cases h)).2
  · rw [hinstances]
    intro j id hj
    obtain ⟨hji, hj⟩ := GuardPhase.of_update (fun q => q.holds = some id) hj (fun h => by cases h)
    obtain ⟨hlock, hid⟩ := hI.held j id hj
    exact ⟨(hlocks id j).mpr ⟨hlock, hji⟩, hid⟩
  · intro id j hj
    obtain ⟨hlock, hji⟩ := (hlocks id j).mp hj
    rw [Function.update_of_ne hji]
    rcases hI.locks id j hlock with h | ⟨hopen, ha⟩
    · exact Or.inl h
    · exact Or.inr ⟨hopen, hactive ha⟩
  · rw [hinstances]
    intro id j hj
    exact hI.lock_row id j ((hlocks id j).mp hj).1
  · intro j id hc hj
    obtain ⟨hji, hj⟩ := GuardPhase.of_update (fun q => q.holds = some id) hj (fun h => by cases h)
    rw [Function.update_of_ne hji] at hc
    exact hI.cleared j id hc hj
  · grind [hI.drawn, Function.update_apply]
  · intro j e' hj
    have hrefusal : (phase j).refusal = some e' := by
      by_cases hji : j = i
      · subst hji
        rw [Function.update_self] at hj
        rw [hphase]
        exact hj
      · rw [Function.update_of_ne hji] at hj
        exact hj
    obtain ⟨hshape, hblock⟩ := hI.refusal j e' hrefusal
    refine ⟨hshape, ?_⟩
    rcases hblock with ha | ⟨k, hk⟩
    · exact Or.inl (hactive ha)
    · right
      refine ⟨k, ?_⟩
      have hki : k ≠ i := by
        intro heq
        rw [heq, hphase] at hk
        cases hk
      rw [Function.update_of_ne hki]
      exact hk

/-- **One statement keeps the invariant.** -/
theorem Guarded.step (hI : Guarded name jobKey first before phase db won pending) {p : GuardPhase}
    (h : GuardStep i name jobKey db (phase i) p db') :
    ∃ won' pending',
      Guarded name jobKey first before (Function.update phase i p) db' won' pending' := by
  generalize hphase : phase i = q at h
  cases h with
  | draw hfresh => exact ⟨_, _, hI.draw hphase hfresh⟩
  | conflict hfree hseen hkey => exact ⟨_, _, hI.conflict hphase hseen hkey⟩
  | insert hfree hnone => exact ⟨_, _, hI.insert hphase hfree hnone⟩
  | miss hnone => exact ⟨_, _, hI.miss hphase hnone⟩
  | lock hinst hids => exact ⟨_, _, hI.lock hphase hinst hids⟩
  | busy hrunning => exact ⟨_, _, hI.busy hphase hrunning⟩
  | clear hnone => exact ⟨_, _, hI.clear hphase hnone⟩
  | name hfresh => exact ⟨_, _, hI.nameExecution hphase⟩
  | create hinstance hstatus => exact ⟨_, _, hI.create hphase hinstance hstatus⟩
  | commit => exact ⟨_, _, hI.commit hphase⟩
  | rollback => exact ⟨_, _, hI.rollback hphase⟩

/-- The row with the key stays: a call that rolls back has not written it. -/
theorem Guarded.keyRow (hI : Guarded name jobKey first before phase db won pending) {p : GuardPhase}
    {row : JobInstance} (h : GuardStep i name jobKey db (phase i) p db')
    (hrow : db.KeyRow name jobKey row) : db'.KeyRow name jobKey row := by
  obtain ⟨v, hv, hvrow, hkey⟩ := hrow
  generalize hphase : phase i = q at h
  cases h with
  | insert hfree hnone => exact ⟨v, Sql.Table.mem_insert.mpr (Or.inl hv), hvrow, hkey⟩
  | commit =>
      by_cases hw : v.writer = some i
      · refine ⟨⟨v.row, none⟩, Sql.Table.mem_commit.mpr (Or.inr ⟨rfl, ?_⟩), hvrow, hkey⟩
        rw [← hw]
        exact hv
      · exact ⟨v, Sql.Table.mem_commit.mpr (Or.inl ⟨hv, hw⟩), hvrow, hkey⟩
  | rollback =>
      refine ⟨v, Sql.Table.mem_rollback.mpr ⟨hv, ?_⟩, hvrow, hkey⟩
      intro hw
      have hin := (hI.written v hv i hw).2.1
      rw [hphase] at hin
      cases hin
  | _ => exact ⟨v, hv, hvrow, hkey⟩

end Invariant

end NestBatch
