import Mathlib.Data.Fintype.EquivFin
import NestBatch.Sql.LaunchGuard

/-!
# Where a call of the launch guard stands

A call under way is in one of ten phases, and its phase is all that is left of
it.  `GuardStep` says once what a statement can do to the phase of its call and
to the database.
-/

namespace NestBatch

/-- How far a call has come. -/
inductive GuardPhase
  | start
  | drawn (instId : String)
  | inserted
  | locked (instanceId : String)
  | checked (instanceId : String)
  | named (instanceId execId : String)
  | created (exec : JobExecution)
  | refused (e : Thrown)
  | succeeded (exec : JobExecution)
  | failed (e : Thrown)

namespace GuardPhase

/-- What a call in the phase has still to do. -/
def rest (limit : Option Nat) (name jobKey : String) (params : JobParameters) :
    GuardPhase → GuardProg JobExecution
  | .start => lockedInsert limit name jobKey params
  | .drawn instId => transaction do
      Prog.perform (GuardStatement.insertInstance instId name jobKey)
      selectAndInsert (.lockInstance name jobKey limit) id name params
  | .inserted => transaction (selectAndInsert (.lockInstance name jobKey limit) id name params)
  | .locked instanceId => transaction (checkAndInsert params instanceId)
  | .checked instanceId => transaction do
      let execId ← Prog.perform GuardStatement.randomUUID
      Prog.perform (GuardStatement.insertExecution execId instanceId params)
  | .named instanceId execId =>
      transaction (Prog.perform (GuardStatement.insertExecution execId instanceId params))
  | .created exec => transaction (.pure exec)
  | .refused e => transaction (.throw e)
  | .succeeded exec => .pure exec
  | .failed e => .throw e

/-- The instance row the call has locked and may still insert for. -/
def holds : GuardPhase → Option String
  | .locked instanceId => some instanceId
  | .checked instanceId => some instanceId
  | .named instanceId _ => some instanceId
  | .created exec => some exec.jobInstanceId
  | _ => none

/-- The call is past its first statement and has not been refused. -/
def inside : GuardPhase → Bool
  | .inserted => true
  | phase => phase.holds.isSome

/-- The call has found no running execution. -/
def cleared : GuardPhase → Bool
  | .locked _ => false
  | phase => phase.holds.isSome

/-- The error the call ends with. -/
def refusal : GuardPhase → Option Thrown
  | .refused e => some e
  | .failed e => some e
  | _ => none

/-- The call has returned or thrown. -/
def ended : GuardPhase → Bool
  | .succeeded _ => true
  | .failed _ => true
  | _ => false

/-- A call inside the guard has not ended. -/
theorem not_ended_of_inside {phase : GuardPhase} (h : phase.inside) : ¬ phase.ended := by
  cases phase <;> simp [inside, holds, ended] at h ⊢

end GuardPhase

/-- What one statement of the call `t` does to its phase and to the database. -/
inductive GuardStep {τ : Type} [DecidableEq τ] (t : τ) (name jobKey : String)
    (db : GuardDatabase τ) : GuardPhase → GuardPhase → GuardDatabase τ → Prop
  | draw {instId : String} (hfresh : instId ∉ db.drawn) :
      GuardStep t name jobKey db .start (.drawn instId)
        { db with drawn := instId :: db.drawn }
  | conflict {instId : String} {inst : JobInstance}
      (hfree : ¬ db.instances.Contended t (·.hasKey name jobKey))
      (hseen : inst ∈ db.instances.visible t) (hkey : inst.hasKey name jobKey) :
      GuardStep t name jobKey db (.drawn instId) .inserted db
  | insert {instId : String} {now : Time}
      (hfree : ¬ db.instances.Contended t (·.hasKey name jobKey))
      (hnone : ∀ inst ∈ db.instances.visible t, ¬ inst.hasKey name jobKey = true) :
      GuardStep t name jobKey db (.drawn instId) .inserted
        { db with instances := db.instances.insert t (newInstance instId name jobKey now) }
  | miss (hnone : db.lockable t name jobKey = []) :
      GuardStep t name jobKey db .inserted
        (.refused (Thrown.JobExecutionAlreadyRunningError name)) db
  | lock {inst : JobInstance} {ids : List String}
      (hinst : inst ∈ db.lockable t name jobKey)
      (hids : ∀ id ∈ ids, ∃ inst ∈ db.lockable t name jobKey, inst.id = id) :
      GuardStep t name jobKey db .inserted (.locked inst.id)
        { db with locks := db.locks.take t (inst.id :: ids) }
  | busy {instanceId : String} {running : JobExecution}
      (hrunning : running ∈ db.running t instanceId) :
      GuardStep t name jobKey db (.locked instanceId)
        (.refused (Thrown.JobExecutionAlreadyRunningError running.id)) db
  | clear {instanceId : String} (hnone : db.running t instanceId = []) :
      GuardStep t name jobKey db (.locked instanceId) (.checked instanceId) db
  | name {instanceId execId : String} (hfresh : execId ∉ db.drawn) :
      GuardStep t name jobKey db (.checked instanceId) (.named instanceId execId)
        { db with drawn := execId :: db.drawn }
  | create {instanceId execId : String} {exec : JobExecution}
      (hinstance : exec.jobInstanceId = instanceId) (hstatus : exec.status = .STARTING) :
      GuardStep t name jobKey db (.named instanceId execId) (.created exec)
        { db with executions := db.executions.insert t exec }
  | commit {exec : JobExecution} :
      GuardStep t name jobKey db (.created exec) (.succeeded exec) (db.commit t)
  | rollback {e : Thrown} :
      GuardStep t name jobKey db (.refused e) (.failed e) (db.rollback t)

section Steps

variable {τ : Type} [DecidableEq τ] {t : τ} {name jobKey : String} {limit : Option Nat}
  {params : JobParameters}

/-- A limit takes rows from the front; only `LIMIT 0` takes none. -/
theorem limitTo_eq_cons {α : Type} {limit : Option Nat} {rows rest : List α} {row : α}
    (h : limitTo limit rows = row :: rest) : row ∈ rows ∧ ∀ other ∈ rest, other ∈ rows := by
  have hsub : ∀ other ∈ limitTo limit rows, other ∈ rows := by
    intro other hother
    cases limit with
    | none => exact hother
    | some n => exact List.mem_of_mem_take hother
  rw [h] at hsub
  exact ⟨hsub row List.mem_cons_self,
    fun other hother => hsub other (List.mem_cons_of_mem _ hother)⟩

theorem limitTo_eq_nil {α : Type} {limit : Option Nat} {rows : List α} (hlimit : limit ≠ some 0)
    (h : limitTo limit rows = []) : rows = [] := by
  cases limit with
  | none => exact h
  | some n =>
      cases rows with
      | nil => rfl
      | cons row rest =>
          cases n with
          | zero => exact absurd rfl hlimit
          | succ n => cases h

/-- **One statement of a call.**  The next thing a call in a phase does is a
step of the guard, and leaves the call in the phase after it. -/
theorem GuardPhase.step {phase : GuardPhase} {o : GuardStatement}
    {k : o.Answer → GuardProg JobExecution} {r : o.Answer} {db db' : GuardDatabase τ}
    (hlimit : limit ≠ some 0) (hrest : phase.rest limit name jobKey params = .op o k)
    (ht : o.trans t db r db') :
    ∃ phase', k r = phase'.rest limit name jobKey params ∧
      GuardStep t name jobKey db phase phase' db' := by
  cases phase with
  | start =>
      cases hrest
      obtain ⟨hfresh, hdb⟩ := ht
      rw [hdb]
      exact ⟨.drawn r, rfl, .draw hfresh⟩
  | drawn instId =>
      cases hrest
      obtain ⟨hfree, hinsert⟩ := ht
      refine ⟨.inserted, rfl, ?_⟩
      by_cases hseen : ∃ inst ∈ db.instances.visible t, inst.hasKey name jobKey
      · rw [if_pos hseen] at hinsert
        obtain ⟨inst, hinst, hkey⟩ := hseen
        rw [hinsert]
        exact .conflict hfree hinst hkey
      · rw [if_neg hseen] at hinsert
        obtain ⟨now, hdb⟩ := hinsert
        rw [hdb]
        exact .insert hfree fun inst hinst hkey => hseen ⟨inst, hinst, hkey⟩
  | inserted =>
      cases hrest
      obtain ⟨hids, hdb⟩ := ht
      cases hrows : limitTo limit (db.lockable t name jobKey) with
      | nil =>
          rw [hrows] at hids
          have htake : db.locks.take t [] = db.locks := by
            funext key
            simp [Sql.Locks.take]
          rw [List.map_nil] at hids
          subst hids
          rw [htake] at hdb
          rw [hdb]
          exact ⟨_, rfl, .miss (limitTo_eq_nil hlimit hrows)⟩
      | cons inst others =>
          obtain ⟨hinst, hothers⟩ := limitTo_eq_cons hrows
          rw [hrows, List.map_cons] at hids
          subst hids
          rw [hdb]
          refine ⟨.locked inst.id, rfl, .lock hinst ?_⟩
          intro id hid
          obtain ⟨other, hother, heq⟩ := List.mem_map.mp hid
          exact ⟨other, hothers other hother, heq⟩
  | locked instanceId =>
      cases hrest
      obtain ⟨hdb, hrows⟩ := ht
      subst hdb
      rcases hrows with ⟨hr, hnone⟩ | ⟨running, hrunning, hr⟩
      · subst hr
        exact ⟨.checked instanceId, rfl, .clear (List.map_eq_nil_iff.mp hnone)⟩
      · subst hr
        obtain ⟨exec, hexec, hid⟩ := List.mem_map.mp hrunning
        subst hid
        exact ⟨_, rfl, .busy hexec⟩
  | checked instanceId =>
      cases hrest
      obtain ⟨hfresh, hdb⟩ := ht
      rw [hdb]
      exact ⟨.named instanceId r, rfl, .name hfresh⟩
  | named instanceId execId =>
      cases hrest
      obtain ⟨hexec, hdb⟩ := ht
      rw [hdb]
      exact ⟨.created r, rfl, .create (by rw [hexec]; rfl) (by rw [hexec]; rfl)⟩
  | created exec =>
      cases hrest
      have hdb : db' = db.commit t := ht
      rw [hdb]
      exact ⟨.succeeded exec, rfl, .commit⟩
  | refused e =>
      cases hrest
      have hdb : db' = db.rollback t := ht
      rw [hdb]
      exact ⟨.failed e, rfl, .rollback⟩
  | succeeded exec => cases hrest
  | failed e => cases hrest

/-- The only statement that may have to wait is the insert of the instance row. -/
theorem GuardPhase.enabled (limit : Option Nat) (params : JobParameters)
    {phase : GuardPhase} {db : GuardDatabase τ} (hopen : ¬ phase.ended)
    (hfree : ¬ db.instances.Contended t (·.hasKey name jobKey)) :
    ∃ o k r db', phase.rest limit name jobKey params = .op o k ∧ o.trans t db r db' := by
  obtain ⟨fresh, hfresh⟩ := Infinite.exists_notMem_finset db.drawn.toFinset
  rw [List.mem_toFinset] at hfresh
  cases phase with
  | start => exact ⟨_, _, fresh, _, rfl, hfresh, rfl⟩
  | drawn instId =>
      by_cases hseen : ∃ inst ∈ db.instances.visible t, inst.hasKey name jobKey
      · exact ⟨_, _, (), db, rfl, hfree, by rw [if_pos hseen]⟩
      · exact ⟨_, _, (), _, rfl, hfree, by rw [if_neg hseen]; exact ⟨0, rfl⟩⟩
  | inserted => exact ⟨_, _, _, _, rfl, rfl, rfl⟩
  | locked instanceId =>
      cases hrunning : db.running t instanceId with
      | nil => exact ⟨_, _, [], db, rfl, rfl, Or.inl ⟨rfl, by rw [hrunning]; rfl⟩⟩
      | cons exec others =>
          refine ⟨_, _, [exec.id], db, rfl, rfl, Or.inr ⟨exec.id, ?_, rfl⟩⟩
          rw [hrunning]
          exact List.mem_cons_self
  | checked instanceId => exact ⟨_, _, fresh, _, rfl, hfresh, rfl⟩
  | named instanceId execId => exact ⟨_, _, _, _, rfl, rfl, rfl⟩
  | created exec => exact ⟨_, _, (), _, rfl, rfl⟩
  | refused e => exact ⟨_, _, (), _, rfl, rfl⟩
  | succeeded exec => exact absurd rfl hopen
  | failed e => exact absurd rfl hopen

end Steps

end NestBatch
