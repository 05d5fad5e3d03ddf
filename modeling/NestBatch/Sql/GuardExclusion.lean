import NestBatch.Sql.GuardInvariant

/-!
# The launch guard is exclusive and live

Any number of calls with one key run side by side, each of them by any of the
SQL repositories, and nobody else writes.  Whatever the order of their
statements, at most one of them creates an execution, and only if none of the
instance is running; the others are refused and leave nothing behind.

A call that is refused has met a running execution or the holder of the lock,
and the holder creates an execution unless it meets a running one.  So when
nothing runs at the start and every call has ended, one of them has succeeded;
and the calls do end.
-/

namespace NestBatch

/-- Calls side by side over one database. -/
abbrev GuardPool (ι : Type) :=
  Prog.Pool ι GuardStatement GuardStatement.Answer Thrown JobExecution (GuardDatabase ι)

/-- A call of `createExecutionAtomic` of one of the repositories, with the key. -/
def IsGuardedLaunch (name jobKey : String) (p : GuardProg JobExecution) : Prop :=
  ∃ params, p = TypeOrmJobRepository.createExecutionAtomic false name jobKey params ∨
    p = DrizzleJobRepository.createExecutionAtomic name jobKey params ∨
    p = PrismaJobRepository.createExecutionAtomic name jobKey params

/-- A database no transaction is open on: the unique key of the instance table
holds, and the ids in use have been drawn. -/
structure GuardDatabase.Settled {τ : Type} (db : GuardDatabase τ) (name jobKey : String) :
    Prop where
  instances : ∀ v ∈ db.instances, v.writer = none
  executions : ∃ rows, db.executions = Sql.Table.ofRows rows
  locks : ∀ id, db.locks id = none
  unique : ∀ v ∈ db.instances, ∀ w ∈ db.instances,
    v.row.hasKey name jobKey → w.row.hasKey name jobKey → v = w
  drawn : ∀ exec ∈ db.executions.committed, exec.jobInstanceId ∈ db.drawn

namespace GuardPool

variable {ι : Type} [DecidableEq ι] {name jobKey : String} {P Q R : GuardPool ι}

/-- A statement of a call is a statement of its transaction. -/
abbrev Reaches (P Q : GuardPool ι) : Prop :=
  Prog.Pool.Reaches (fun i o => GuardStatement.trans i o) P Q

@[inherit_doc Reaches]
abbrev Step (P Q : GuardPool ι) : Prop := Prog.Pool.Step (fun i o => GuardStatement.trans i o) P Q

/-- Every call is about to begin, on a database at rest. -/
structure Launches (P : GuardPool ι) (name jobKey : String) : Prop where
  calls : ∀ i, IsGuardedLaunch name jobKey (P.threads i)
  settled : P.shared.Settled name jobKey

/-- Every call has returned or thrown. -/
def AllEnded (P : GuardPool ι) : Prop :=
  ∀ i, (∃ exec, P.threads i = .pure exec) ∨ ∃ e, P.threads i = .throw e

/-- Where the calls stand, and that the database fits. -/
def Standing (name jobKey : String) (first : List JobInstance) (before : List JobExecution)
    (limit : ι → Option Nat) (params : ι → JobParameters) (P : GuardPool ι) : Prop :=
  ∃ phase won pending, (∀ i, P.threads i = (phase i).rest (limit i) name jobKey (params i)) ∧
    Guarded name jobKey first before phase P.shared won pending

/-- A call in a phase has returned exactly when the phase says so. -/
theorem rest_eq_pure {phase : GuardPhase} {limit : Option Nat} {params : JobParameters}
    {exec : JobExecution} (h : phase.rest limit name jobKey params = .pure exec) :
    phase = .succeeded exec := by
  cases phase with
  | succeeded exec' => cases h; rfl
  | _ => cases h

/-- What is left of a call throws only after a failure. -/
theorem rest_eq_throw {phase : GuardPhase} {limit : Option Nat} {params : JobParameters}
    {e : Thrown} (h : phase.rest limit name jobKey params = .throw e) : phase = .failed e := by
  cases phase with
  | failed e' => cases h; rfl
  | _ => cases h

/-- A call that has ended returns or throws. -/
theorem ended_of_rest {phase : GuardPhase} {limit : Option Nat} {params : JobParameters}
    (h : phase.ended) : (∃ exec, phase.rest limit name jobKey params = .pure exec) ∨
      ∃ e, phase.rest limit name jobKey params = .throw e := by
  cases phase with
  | succeeded exec => exact Or.inl ⟨exec, rfl⟩
  | failed e => exact Or.inr ⟨e, rfl⟩
  | _ => cases h

omit [DecidableEq ι] in
/-- Calls that launch start with the invariant. -/
theorem Launches.standing (h : P.Launches name jobKey) :
    ∃ limit params, (∀ i, limit i ≠ some 0) ∧
      Standing name jobKey P.shared.instances.committed P.shared.executions.committed
        limit params P := by
  have hcall : ∀ i, ∃ limit params, limit ≠ some 0 ∧
      P.threads i = GuardPhase.start.rest limit name jobKey params := by
    intro i
    obtain ⟨params, hp⟩ := h.calls i
    rcases hp with hp | hp | hp
    · exact ⟨none, params, by simp, hp⟩
    · exact ⟨some 1, params, by simp, hp⟩
    · exact ⟨some 1, params, by simp, hp⟩
  choose limit params hlimit hthread using hcall
  refine ⟨limit, params, hlimit, fun _ => .start, none, none, hthread, ?_⟩
  obtain ⟨hinstances, ⟨rows, hrows⟩, hlocks, hunique, hdrawn⟩ := h.settled
  refine {
    executions := ?_, won_iff := by simp, pending_iff := by simp, starting := by simp,
    unique := hunique, written := ?_, seen := ?_, held := ?_, locks := ?_, lock_row := ?_,
    cleared := ?_, won_row := by simp, origin := fun _ _ h => h, known := hdrawn, drawn := by simp,
      refusal := ?_ }
  · simp [hrows, ledger]
  · intro v hv i hw
    rw [hinstances v hv] at hw
    cases hw
  · intro i hin
    cases hin
  · intro i id hheld
    cases hheld
  · intro id i hlock
    rw [hlocks id] at hlock
    cases hlock
  · intro id i hlock
    rw [hlocks id] at hlock
    cases hlock
  · intro i id hcleared
    cases hcleared
  · intro i e hrefusal
    cases hrefusal

section Run

variable {first : List JobInstance} {before : List JobExecution} {limit : ι → Option Nat}
    {params : ι → JobParameters}

/-- **Step lemma.**  A statement takes one call to its next phase, keeps the
invariant, and keeps the row with the key. -/
theorem Standing.step (hlimit : ∀ i, limit i ≠ some 0)
    (hP : Standing name jobKey first before limit params P) (h : Step P Q) :
    Standing name jobKey first before limit params Q ∧
      ∀ row, P.shared.KeyRow name jobKey row → Q.shared.KeyRow name jobKey row := by
  obtain ⟨phase, won, pending, hthreads, hI⟩ := hP
  cases h with
  | @act i o k r s' hthread ht =>
      rw [hthreads i] at hthread
      obtain ⟨p, hk, hstep⟩ := GuardPhase.step (hlimit i) hthread ht
      obtain ⟨won', pending', hI'⟩ := hI.step hstep
      constructor
      · refine ⟨Function.update phase i p, won', pending', ?_, hI'⟩
        intro j
        by_cases hji : j = i
        · subst hji
          simp only [Function.update_self, hk]
        · simp only [Function.update_of_ne hji, hthreads j]
      · intro row hrow
        exact hI.keyRow hstep hrow

/-- **The invariant holds** wherever the calls have come to. -/
theorem Standing.reaches (hlimit : ∀ i, limit i ≠ some 0)
    (hP : Standing name jobKey first before limit params P) (h : Reaches P Q) :
    Standing name jobKey first before limit params Q ∧
      ∀ row, P.shared.KeyRow name jobKey row → Q.shared.KeyRow name jobKey row := by
  let I Q := Standing name jobKey first before limit params Q ∧
    ∀ row, P.shared.KeyRow name jobKey row → Q.shared.KeyRow name jobKey row
  have hstep : ∀ Q R, I Q → Step Q R → I R := by
    intro Q R hcase hlast
    obtain ⟨hstanding, hrows⟩ := hcase
    obtain ⟨hstanding', hkeep⟩ := hstanding.step hlimit hlast
    exact ⟨hstanding', fun row hrow => hkeep row (hrows row hrow)⟩
  exact Prog.Pool.invariant hstep h ⟨hP, fun row hrow => hrow⟩

/-- Some call can always go on: the one that waits waits for another that does not. -/
theorem Standing.live (hP : Standing name jobKey first before limit params P) (h : ¬ P.AllEnded) :
    ∃ Q, Step P Q := by
  obtain ⟨phase, won, pending, hthreads, hI⟩ := hP
  have hgo : ∀ i, ¬ (phase i).ended → ¬ P.shared.instances.Contended i (·.hasKey name jobKey) →
      ∃ Q, Step P Q := by
    intro i hopen hfree
    obtain ⟨o, k, r, db', hrest, ht⟩ :=
      GuardPhase.enabled (limit i) (params i) hopen hfree
    exact ⟨_, .act ((hthreads i).trans hrest) ht⟩
  have hopen : ∃ i, ¬ (phase i).ended := by
    by_contra hall
    apply h
    intro i
    rw [hthreads i]
    exact ended_of_rest (by simpa using not_exists.mp hall i)
  obtain ⟨i, hi⟩ := hopen
  by_cases hfree : P.shared.instances.Contended i (·.hasKey name jobKey)
  · obtain ⟨v, hv, hkey, j, hw, -⟩ := hfree
    refine hgo j (GuardPhase.not_ended_of_inside (hI.written v hv j hw).2.1) ?_
    intro hcase
    obtain ⟨w, hwmem, hwkey, u, hu, huj⟩ := hcase
    rw [hI.unique w hwmem v hv hwkey hkey, hw] at hu
    exact huj (Option.some.inj hu).symm
  · exact hgo i hi hfree

end Run

/-- What a run of the calls from `P` has done when it is at `Q`. -/
structure Exclusive (name jobKey : String) (P Q : GuardPool ι) : Prop where
  /-- a call that succeeds is the only one, has created the only running
  execution of the instance, and nothing ran before -/
  success : ∀ i exec, Q.threads i = .pure exec →
    exec.status = .STARTING ∧ ¬ P.shared.Active name jobKey ∧
    Q.shared.executions.committed = P.shared.executions.committed ++ [exec] ∧
    (∃ row, Q.shared.KeyRow name jobKey row ∧ row.id = exec.jobInstanceId) ∧
    (∀ other ∈ Q.shared.executions.committed, other.runs exec.jobInstanceId → other = exec) ∧
    ∀ j exec', Q.threads j = .pure exec' → j = i
  /-- a call that fails has been refused and leaves no execution behind -/
  refusal : ∀ i e, Q.threads i = .throw e →
    (∃ id, e = Thrown.JobExecutionAlreadyRunningError id) ∧
    ∀ v ∈ Q.shared.executions, v.writer ≠ some i
  /-- no success, no new execution -/
  unchanged : (∀ i exec, Q.threads i ≠ .pure exec) →
    Q.shared.executions.committed = P.shared.executions.committed
  /-- every lock a call has taken is that of the one row with the key -/
  oneRow : ∀ i id, Q.shared.locks id = some i →
    ∃ row, Q.shared.KeyRow name jobKey row ∧ row.id = id
  /-- when all calls have ended and nothing ran before, one has succeeded -/
  someSuccess : Nonempty ι → Q.AllEnded → ¬ P.shared.Active name jobKey →
    ∃ i exec, Q.threads i = .pure exec

section Guarantee

variable {limit : ι → Option Nat} {params : ι → JobParameters}

omit [DecidableEq ι] in
/-- A committed row with the key is its row. -/
theorem keyRow_of_committed {db : GuardDatabase ι} {inst : JobInstance}
    (h : inst ∈ db.instances.committed) (hkey : inst.hasKey name jobKey) :
    db.KeyRow name jobKey inst :=
  ⟨_, Sql.Table.mem_committed.mp h, rfl, hkey⟩

omit [DecidableEq ι] in
/-- One row has the key. -/
theorem Standing.keyRow_unique {first : List JobInstance} {before : List JobExecution}
    (hQ : Standing name jobKey first before limit params Q) {a b : JobInstance}
    (ha : Q.shared.KeyRow name jobKey a) (hb : Q.shared.KeyRow name jobKey b) : a = b := by
  obtain ⟨phase, won, pending, -, hI⟩ := hQ
  obtain ⟨v, hv, hva, hakey⟩ := ha
  obtain ⟨w, hw, hwb, hbkey⟩ := hb
  subst hva
  subst hwb
  rw [hI.unique v hv w hw hakey hbkey]

section Ends

variable {first : List JobInstance} {before : List JobExecution} {phase : ι → GuardPhase}
  {db : GuardDatabase ι} {won pending : Option (ι × JobExecution)} {i : ι} {e : Thrown}

omit [DecidableEq ι] in
/-- A call that has failed has no execution in the table. -/
theorem writes_none_of_failed (hI : Guarded name jobKey first before phase db won pending)
    (hfailed : phase i = .failed e) : ∀ v ∈ db.executions, v.writer ≠ some i := by
  intro v hv hw
  have hmine : pending = some (i, v.row) := by
    rw [hI.executions, ledger] at hv
    rcases List.mem_append.mp hv with hold | hnew
    · obtain ⟨row, -, hrow⟩ := List.mem_map.mp hold
      rw [← hrow] at hw
      cases hw
    · obtain ⟨p, hp, hpv⟩ := Option.map_eq_some_iff.mp (Option.mem_toList.mp hnew)
      rw [← hpv] at hw ⊢
      cases hw
      exact hp
  rw [← hI.pending_iff, hfailed] at hmine
  cases hmine

omit [DecidableEq ι] in
/-- Without a winner and a holder, a refusal is due to an execution that ran before. -/
theorem ran_before_of_refused (hI : Guarded name jobKey first before phase db won pending)
    (hwon : won = none) (hholds : ∀ j, (phase j).holds = none)
    (hrefused : (phase i).refusal = some e) :
    ∃ exec ∈ before, ∃ inst ∈ first, inst.hasKey name jobKey ∧ exec.runs inst.id := by
  rcases (hI.refusal i e hrefused).2 with hactive | ⟨j, hj⟩
  · obtain ⟨exec, hexec, inst, hinst, hkey, hruns⟩ := hactive
    rw [hI.committed, hwon] at hexec
    exact ⟨exec, by simpa using hexec, inst, hI.origin hwon inst hinst, hkey, hruns⟩
  · rw [hholds j] at hj
    cases hj

end Ends

omit [DecidableEq ι] in
/-- **The guard excludes**: the invariant says so at every moment. -/
theorem Standing.exclusive
    (hQ : Standing name jobKey P.shared.instances.committed P.shared.executions.committed
        limit params Q)
    (hkeep : ∀ row, P.shared.KeyRow name jobKey row → Q.shared.KeyRow name jobKey row) :
    Exclusive name jobKey P Q := by
  have hunique := fun a b => hQ.keyRow_unique (a := a) (b := b)
  obtain ⟨phase, won, pending, hthreads, hI⟩ := hQ
  have hwon : ∀ i exec, Q.threads i = .pure exec → won = some (i, exec) := by
    intro i exec h
    rw [hthreads i] at h
    exact (hI.won_iff i exec).mp (rest_eq_pure h)
  refine ⟨?_, ?_, ?_, ?_, ?_⟩
  · intro i exec h
    have hw := hwon i exec h
    obtain ⟨⟨inst, hinst, hkey, hid⟩, hquiet⟩ := hI.won_row _ hw
    have hrow : Q.shared.KeyRow name jobKey inst := keyRow_of_committed hinst hkey
    have hcommitted : Q.shared.executions.committed =
        P.shared.executions.committed ++ [exec] := by rw [hI.committed, hw]; rfl
    refine ⟨hI.starting _ (Or.inl hw), ?_, hcommitted, ⟨inst, hrow, hid⟩, ?_, ?_⟩
    · intro hcase
      obtain ⟨other, hother, row, hrow', hkey', hruns⟩ := hcase
      have hsame := hunique _ _ (hkeep row (keyRow_of_committed hrow' hkey')) hrow
      rw [hsame, hid] at hruns
      exact hquiet other hother hruns
    · intro other hother hruns
      rw [hcommitted, List.mem_append, List.mem_singleton] at hother
      rcases hother with hbefore | heq
      · exact absurd hruns (hquiet other hbefore)
      · exact heq
    · intro j exec' h'
      have hw' := hwon j exec' h'
      rw [hw] at hw'
      exact (congrArg Prod.fst (Option.some.inj hw')).symm
  · intro i e h
    rw [hthreads i] at h
    have hfailed := rest_eq_throw h
    exact ⟨(hI.refusal i e (by rw [hfailed]; rfl)).1, writes_none_of_failed hI hfailed⟩
  · intro hnone
    have hw : won = none := by
      cases hw : won with
      | none => rfl
      | some p =>
          have hphase := (hI.won_iff p.1 p.2).mpr hw
          refine absurd ?_ (hnone p.1 p.2)
          rw [hthreads, hphase]
          rfl
    rw [hI.committed, hw]
    simp
  · intro i id hlock
    obtain ⟨v, hv, hkey, hid⟩ := hI.lock_row id i hlock
    exact ⟨v.row, ⟨v, hv, rfl, hkey⟩, hid⟩
  · intro hcase hended hidle
    obtain ⟨i⟩ := hcase
    cases hw : won with
    | some p =>
        refine ⟨p.1, p.2, ?_⟩
        rw [hthreads, (hI.won_iff p.1 p.2).mpr hw]
        rfl
    | none =>
        rcases hended i with hpure | ⟨e, hthrow⟩
        · exact ⟨i, hpure⟩
        · rw [hthreads] at hthrow
          refine absurd (ran_before_of_refused hI hw ?_ (by rw [rest_eq_throw hthrow]; rfl)) hidle
          intro j
          rcases hended j with ⟨exec, hpure⟩ | ⟨e', hthrow'⟩
          · rw [hthreads] at hpure
            rw [rest_eq_pure hpure]
            rfl
          · rw [hthreads] at hthrow'
            rw [rest_eq_throw hthrow']
            rfl

end Guarantee

/-- **The launch guard is exclusive and live.**  Whatever the number of calls
and the order of their statements, every state they come to is as `Exclusive`
says, all calls meet the same instance row, the calls can always be run to their
end, and no run of them goes on for ever. -/
theorem launches_exclusive_and_live [Finite ι] (hstart : P.Launches name jobKey)
    (hreach : Reaches P Q) :
    Exclusive name jobKey P Q ∧
    (∀ R a b, Reaches Q R → Q.shared.KeyRow name jobKey a → R.shared.KeyRow name jobKey b →
      a = b) ∧
    (∃ R, Reaches Q R ∧ R.AllEnded) ∧
    ∀ f : Nat → GuardPool ι, f 0 = Q → ¬ ∀ n, Step (f n) (f (n + 1)) := by
  obtain ⟨limit, params, hlimit, hstanding⟩ := hstart.standing
  obtain ⟨hQ, hkeep⟩ := hstanding.reaches hlimit hreach
  refine ⟨hQ.exclusive hkeep, ?_, ?_, ?_⟩
  · intro R a b hR ha hb
    obtain ⟨hstandingR, hkeepR⟩ := hQ.reaches hlimit hR
    exact hstandingR.keyRow_unique (hkeepR a ha) hb
  · exact Prog.Pool.completes (fun _ _ hI h => (hI.step hlimit h).1)
      (fun _ hI h => hI.live h) hQ
  · intro f _
    exact Prog.Pool.no_endless_run f

/-- One call by each repository, the first ever for the key. -/
def threeCalls (name jobKey : String) : GuardPool (Fin 3) :=
  { threads := fun i =>
      match i with
      | 0 => TypeOrmJobRepository.createExecutionAtomic false name jobKey []
      | 1 => DrizzleJobRepository.createExecutionAtomic name jobKey []
      | 2 => PrismaJobRepository.createExecutionAtomic name jobKey []
    shared := { instances := [], executions := [], locks := fun _ => none, drawn := [] } }

/-- Three calls that launch. -/
theorem threeCalls_launches (name jobKey : String) :
    (threeCalls name jobKey).Launches name jobKey := by
  constructor
  · intro i
    match i with
    | 0 => exact ⟨[], Or.inl rfl⟩
    | 1 => exact ⟨[], Or.inr (Or.inl rfl)⟩
    | 2 => exact ⟨[], Or.inr (Or.inr rfl)⟩
  · constructor
    · simp [threeCalls]
    · exact ⟨[], rfl⟩
    · intro id
      rfl
    · simp [threeCalls]
    · simp [threeCalls, Sql.Table.committed]

/-- Run to their end, one of the three calls succeeds and creates the only execution. -/
theorem launches_exclusive_and_live_three : ∃ R, Reaches (threeCalls "job" "key") R ∧
    R.AllEnded ∧ ∃ i exec, R.threads i = .pure exec ∧ R.shared.executions.committed = [exec] := by
  have hstart := threeCalls_launches "job" "key"
  obtain ⟨-, -, ⟨R, hreach, hended⟩, -⟩ := launches_exclusive_and_live hstart .refl
  obtain ⟨hexclusive, -⟩ := launches_exclusive_and_live hstart hreach
  have hidle : ¬ (threeCalls "job" "key").shared.Active "job" "key" := by
    intro h
    obtain ⟨exec, hexec, _⟩ := h
    cases hexec
  obtain ⟨i, exec, hi⟩ := hexclusive.someSuccess ⟨0⟩ hended hidle
  exact ⟨R, hreach, hended, i, exec, hi, (hexclusive.success i exec hi).2.2.1⟩

end GuardPool

end NestBatch
