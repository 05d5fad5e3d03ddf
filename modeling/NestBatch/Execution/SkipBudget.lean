import Mathlib.Data.List.Induction
import NestBatch.Execution.ListEnvironment
import NestBatch.Execution.LoopRules

/-!
# What a skip limit counts

The budget of a skip policy is checked against the skip count of the step, and
that count also moves where no error was skipped: for an item the processor
filters out, and for items the writer reports as skipped.
-/

namespace NestBatch

variable {α υ : Type}

/-- An attempt of a phase that ends in an error of the kind. -/
def phaseErrors (kind : Thrown → Bool) : (o : Op α) → o.Resp → Nat
  | .user (.read _ _), r => failures (β := Option α) kind r
  | .user (.process _ _ _), r => failures (β := Option α) kind r
  | .user (.write _ _ _), r => failures (β := Option WriterResult) kind r
  | _, _ => 0

/-- Items that are counted as skipped although nothing was thrown. -/
def quietSkips : (o : Op α) → o.Resp → Nat
  | .user (.process _ _ _), r => filtered r
  | .user (.write _ _ _), r => reported r
  | _, _ => 0
where
  filtered : Except Thrown (Option α) → Nat
    | .ok none => 1
    | _ => 0
  reported : Except Thrown (Option WriterResult) → Nat
    | .ok (some result) => result.skipped
    | _ => 0

theorem phaseErrors_of_kind {kind : Thrown → Bool} {o : Op α} (h : o.kind ∉ phaseKinds)
    (r : o.Resp) : phaseErrors kind o r = 0 := by
  cases o with
  | user call =>
      cases call with
      | read => exact absurd (by simp [phaseKinds, Op.kind, UserCall.kind]) h
      | process => exact absurd (by simp [phaseKinds, Op.kind, UserCall.kind]) h
      | write => exact absurd (by simp [phaseKinds, Op.kind, UserCall.kind]) h
      | _ => rfl
  | _ => rfl

theorem quietSkips_of_kind {o : Op α} (h : o.kind ∉ phaseKinds) (r : o.Resp) :
    quietSkips o r = 0 := by
  cases o with
  | user call =>
      cases call with
      | process => exact absurd (by simp [phaseKinds, Op.kind, UserCall.kind]) h
      | write => exact absurd (by simp [phaseKinds, Op.kind, UserCall.kind]) h
      | _ => rfl
  | _ => rfl

/-- A call makes one phase error or none. -/
theorem phaseErrors_eq (kind : Thrown → Bool) (o : Op α) (r : o.Resp) :
    phaseErrors kind o r = 0 ∨ phaseErrors kind o r = 1 := by
  cases o with
  | user call =>
      cases call with
      | read reader ctx => exact failures_eq (β := Option α) kind r
      | process processor item ctx => exact failures_eq (β := Option α) kind r
      | write writer items ctx => exact failures_eq (β := Option WriterResult) kind r
      | _ => exact Or.inl rfl
  | _ => exact Or.inl rfl

/-- What has been taken from the budget. -/
def spent (kind : Thrown → Bool) (calls : Calls α) : Nat :=
  tally (phaseErrors kind) calls + tally quietSkips calls

/-- Every error so far found room in the budget. -/
def Within (kind : Thrown → Bool) (limit : Int) (calls : Calls α) : Prop :=
  ∀ before c, before ++ [c] <+: calls → phaseErrors kind c.1 c.2 = 1 →
    (spent kind before : Int) + 1 ≤ limit

/-- The last error found none. -/
def Overrun (kind : Thrown → Bool) (limit : Int) (calls : Calls α) : Prop :=
  ∃ before c, before ++ [c] <+: calls ∧ phaseErrors kind c.1 c.2 = 1 ∧
    limit < (spent kind before : Int) + 1 ∧ Within kind limit before ∧
    tally (phaseErrors kind) calls = tally (phaseErrors kind) before + 1

section Budget

variable {kind : Thrown → Bool} {limit : Int} {calls : Calls α} {o : Op α} {r : o.Resp}

theorem Within.snoc (h : Within kind limit calls)
    (hroom : phaseErrors kind o r = 1 → (spent kind calls : Int) + 1 ≤ limit) :
    Within kind limit (calls ++ [⟨o, r⟩]) := Throughout.snoc h hroom

theorem overrun_snoc (h : Within kind limit calls) (herror : phaseErrors kind o r = 1)
    (hnone : limit < (spent kind calls : Int) + 1) : Overrun kind limit (calls ++ [⟨o, r⟩]) := by
  refine ⟨calls, ⟨o, r⟩, List.prefix_rfl, herror, hnone, h, ?_⟩
  rw [tally_snoc, herror]

theorem Overrun.snoc (h : Overrun kind limit calls) (hnone : phaseErrors kind o r = 0) :
    Overrun kind limit (calls ++ [⟨o, r⟩]) := by
  obtain ⟨before, c, hpre, herror, hlimit, hwithin, hlast⟩ := h
  refine ⟨before, c, hpre.trans (List.prefix_append _ _), herror, hlimit, hwithin, ?_⟩
  rw [tally_snoc_zero hnone]
  exact hlast

/-- As long as every error finds room, there are no more of them than the limit. -/
theorem Within.le (h : Within kind limit calls) (hlimit : 0 ≤ limit) :
    (tally (phaseErrors kind) calls : Int) ≤ limit := by
  induction calls using List.reverseRecOn with
  | nil => exact hlimit
  | append_singleton calls c ih =>
      have hold := ih fun before d hpre => h before d (hpre.trans (List.prefix_append _ _))
      cases c with
      | mk o r =>
          rw [tally_snoc]
          rcases phaseErrors_eq kind o r with hnone | herror
          · rw [hnone]
            exact hold
          · have hroom := h calls ⟨o, r⟩ List.prefix_rfl herror
            unfold spent at hroom
            rw [herror]
            omega

theorem spent_snoc : spent kind (calls ++ [⟨o, r⟩]) =
    spent kind calls + (phaseErrors kind o r + quietSkips o r) := by
  unfold spent
  rw [tally_snoc, tally_snoc]
  omega

end Budget

/-! ### What user code may do -/

/-- No answer of user code carries the executor's own limit error, nor throws it when asked for its
text, and a listener told of a failed attempt does not fail itself. -/
def LeavesLimit : (o : Op α) → o.Resp → Prop
  | .user call, r =>
      (∀ err, call.thrown r = some err → err.Only fun err => err.name ≠ .skipLimitExceeded) ∧
      match call, r with
      | .listener _ key _, r =>
          key ∈ ChunkStepExecutor.LoopStates.itemErrorKeys → (r : Except Thrown Unit) = .ok ()
      | _, _ => True
  | _, _ => True

/-- What the budget asks of the calls. -/
def limitRules : CallRules α := { allowed := fun _ => LeavesLimit }

/-- User code of which all answers are like that. -/
def Environment.LeavesLimit (env : Environment α υ) : Prop :=
  ∀ (call : UserCall α) (user : υ) ctx,
    NestBatch.LeavesLimit (.user call) (env.user call user ctx).1

namespace ChunkStepExecutor

open ListenerInvoker

/-- Where nothing has been counted yet: chunks are drained before any is processed. -/
def Undrained (S : Setting) : Stage α → (chunkIndex : Int) → (skipCount : Nat) → Prop
  | .head, k, n => S.mustDrain k = true → n = 0
  | .draining _ _ _, _, n => n = 0
  | .ended, _, _ => True
  | _, k, _ => S.mustDrain k = false

/-- The chunk before one that is drained is drained too. -/
theorem mustDrain_of_succ {S : Setting} {k : Int} (h : S.mustDrain (k + 1) = true) :
    S.mustDrain k = true := by
  unfold Setting.mustDrain at h ⊢
  cases hresume : S.context.resumeFromChunkIndex with
  | none =>
      rw [hresume] at h
      exact h
  | some resume =>
      rw [hresume] at h
      dsimp only at h ⊢
      rw [Bool.and_eq_true, decide_eq_true_eq] at h ⊢
      exact ⟨h.1, by omega⟩

/-- `count` is what has been spent, and every error found room so far. -/
structure Charged (kind : Thrown → Bool) (limit : Int) (count : Nat) (calls : Calls α) :
    Prop where
  skipCount : count = spent kind calls
  within : Within kind limit calls

/-- What a writer has reported as skipped and is still to be counted. -/
def Stage.owed : Stage α → Nat
  | .written _ _ (some report) => report.skipped
  | _ => 0

/-- The budget, at every stage. -/
def budget (S : Setting) (limit : Int) : LoopStates α where
  holds _ stage l calls := Undrained S stage l.chunkIndex l.skipCount ∧
    Charged S.policies.skips limit (l.skipCount + stage.owed) calls
  threw err calls := (err.name = .skipLimitExceeded → Overrun S.policies.skips limit calls) ∧
    (err.name ≠ .skipLimitExceeded → Within S.policies.skips limit calls)

section Calls

variable {kind : Thrown → Bool} {limit : Int} {l : Locals} {count count' : Nat} {calls : Calls α}
  {o : Op α} {r : o.Resp}

/-- An answer that throws nothing of the kind is paid for by what it counts. -/
theorem Charged.snoc (h : Charged kind limit count calls)
    (hnone : phaseErrors kind o r = 0) (hcount : count' = count + quietSkips o r) :
    Charged kind limit count' (calls ++ [⟨o, r⟩]) := by
  refine ⟨?_, h.within.snoc fun herror => ?_⟩
  · rw [spent_snoc, hnone, hcount, h.skipCount]
    omega
  · rw [hnone] at herror
    cases herror

theorem charged_frame {loops : Prop} {K : List OpKind} (hK : ∀ k ∈ K, k ∉ phaseKinds) (c : Prop)
    (count : Nat) : (logged (limitRules (α := α)) loops).Frame (On K)
      (fun calls => c ∧ Charged kind limit count calls) :=
  logged_frame (fun _ _ _ _ => trivial) fun _ _ r ho _ h => ⟨h.1,
    h.2.snoc (phaseErrors_of_kind (hK _ ho) r)
      (by rw [quietSkips_of_kind (hK _ ho) r, Nat.add_zero])⟩

/-- **What a failed attempt does to the budget.** -/
theorem judged_budget {S : Setting} {fuel : Nat} {stage skipped : Stage α} {err : Thrown}
    (hlimit : S.policies.skipLimit = limit) (h : Charged S.policies.skips limit l.skipCount calls)
    (hname : err.name ≠ .skipLimitExceeded)
    (herror : phaseErrors S.policies.skips o r =
      failures S.policies.skips (.error err : Except Thrown Unit))
    (hquiet : quietSkips o r = 0) (howed : stage.owed = 0) (howed' : skipped.owed = 0)
    (hstage : Undrained S stage l.chunkIndex l.skipCount)
    (hskipped : Undrained S skipped l.chunkIndex (l.skipCount + 1)) :
    (budget S limit).Judged S.policies fuel stage skipped l err (calls ++ [⟨o, r⟩]) := by
  have hother : S.policies.skips err = false →
      Charged S.policies.skips limit (l.skipCount + stage.owed) (calls ++ [⟨o, r⟩]) := by
    intro hkind
    rw [failures_neg hkind] at herror
    exact h.snoc herror (by rw [hquiet, howed])
  have hspent := h.skipCount
  intro attempt
  cases hc : consult S.policies err l.skipCount attempt with
  | skip =>
      obtain ⟨hkind, hroom⟩ := consult_skip hc
      rw [failures_pos hkind] at herror
      refine ⟨hskipped, ?_, h.within.snoc fun _ => by omega⟩
      rw [spent_snoc, herror, hquiet, howed']
      exact congrArg (· + 1) h.skipCount
  | retry => exact ⟨hstage, hother (consult_retry hc).1⟩
  | fail err' =>
      rcases consult_fail hc with ⟨hkind, hnone, hthrown⟩ | ⟨hkind, hthrown⟩
      · rw [failures_pos hkind] at herror
        subst hthrown
        exact ⟨fun _ => overrun_snoc h.within herror (by omega), fun hne => absurd rfl hne⟩
      · have hname' : err'.name ≠ .skipLimitExceeded := by
          rcases hthrown with hretry | hsame
          · rw [hretry]
            exact fun heq => by cases heq
          · rcases hsame with rfl | rfl
            · exact hname
            · exact fun heq => by cases heq
        exact ⟨fun heq => absurd heq hname', fun _ => (hother hkind).within⟩

end Calls

/-- What leaves the limit to the framework throws no limit error of its own. -/
theorem throwing_of_leavesLimit {o : Op α} {r : o.Resp} (h : LeavesLimit o r) :
    Throwing (fun err => err.name ≠ .skipLimitExceeded) o r := by
  cases o with
  | user call => exact fun _ => h.1
  | _ => trivial

section Budget

variable {S : Setting} {limit : Int}

/-- What happens between the calls keeps the budget: no chunk is drained behind one that is not. -/
theorem budget_silent {fuel fuel' : Nat} {stage stage' : Stage α} {l l' : Locals} {calls : Calls α}
    (hmove : Silent S fuel stage l fuel' stage' l')
    (h : (budget S limit).holds fuel stage l calls) :
    (budget S limit).holds fuel' stage' l' calls := by
  cases hmove with
  | full _ => exact ⟨trivial, h.2⟩
  | start hdrain _ => exact ⟨hdrain, h.2⟩
  | blank => exact ⟨trivial, h.2⟩
  | process _ => exact h
  | copy _ => exact h
  | nothing => exact h
  | reported => exact h
  | commit =>
      refine ⟨?_, h.2.skipCount, h.2.within⟩
      intro hdrain
      have hnot : S.mustDrain _ = false := h.1
      rw [mustDrain_of_succ hdrain] at hnot
      cases hnot
  | drain hdrain _ => exact ⟨h.1 hdrain, h.2⟩
  | dry => exact ⟨trivial, h.2⟩
  | drained _ => exact ⟨fun _ => h.1, h.2.skipCount, h.2.within⟩

/-- Every call of the chunk loop keeps the budget. -/
theorem budget_advances (hlimit : S.policies.skipLimit = limit) (hpos : 0 < limit) :
    (budget (α := α) S limit).Advances S limitRules True where
  quiet _ stage l := charged_frame (by decide) _ _
  counters _ stage l l' calls hl h := by
    refine ⟨?_, ?_, h.2.within⟩
    · rw [hl.chunkIndex, hl.skipCount]
      exact h.1
    · rw [hl.skipCount]
      exact h.2.skipCount
  silent _ _ _ _ _ _ _ hmove h := budget_silent hmove h
  read fuel k left items l calls h := by
    refine ⟨trivial, ?_⟩
    intro r hr
    cases hanswer : (r : Except Thrown (Option α)) with
    | error err =>
        have hname := (hr.1 err (by rw [hanswer]; rfl)).1
        exact judged_budget hlimit h.2 hname rfl rfl rfl rfl h.1 h.1
    | ok item =>
        cases item with
        | none => exact ⟨h.1, h.2.snoc rfl rfl⟩
        | some item => exact ⟨h.1, h.2.snoc rfl rfl⟩
  process fuel k item rest processed l calls processor _ h := by
    refine ⟨trivial, ?_⟩
    intro r hr
    cases hanswer : (r : Except Thrown (Option α)) with
    | error err =>
        have hname := (hr.1 err (by rw [hanswer]; rfl)).1
        exact judged_budget hlimit h.2 hname rfl rfl rfl rfl h.1 h.1
    | ok value =>
        cases value with
        | none => exact ⟨h.1, h.2.snoc rfl rfl⟩
        | some value => exact ⟨h.1, h.2.snoc rfl rfl⟩
  write fuel k processed l calls _ h := by
    refine ⟨trivial, ?_⟩
    intro r hr
    cases hanswer : (r : Except Thrown (Option WriterResult)) with
    | error err =>
        have hname := (hr.1 err (by rw [hanswer]; rfl)).1
        exact judged_budget hlimit h.2 hname rfl rfl rfl rfl h.1 h.1
    | ok value =>
        cases value with
        | none => exact ⟨h.1, h.2.snoc rfl rfl⟩
        | some reported => exact ⟨h.1, h.2.snoc rfl rfl⟩
  length _ _ _ _ _ h := ⟨trivial, fun _ _ => ⟨h.1, h.2.snoc rfl rfl⟩⟩
  drain fuel k left drained l calls h := by
    refine ⟨trivial, ?_⟩
    intro r hr
    cases hanswer : (r : Except Thrown (Option α)) with
    | error err =>
        have hname := (hr.1 err (by rw [hanswer]; rfl)).1
        have hspent : l.skipCount = spent S.policies.skips calls := h.2.skipCount
        have hzero : l.skipCount = 0 := h.1
        refine ⟨fun heq => absurd heq hname, fun _ => h.2.within.snoc fun _ => ?_⟩
        omega
    | ok item =>
        cases item with
        | none => exact ⟨h.1, h.2.snoc rfl rfl⟩
        | some item => exact ⟨h.1, h.2.snoc rfl rfl⟩

/-- The budget is sound for every step with a positive limit. -/
theorem budget_sound (hlimit : S.policies.skipLimit = limit) (hpos : 0 < limit) :
    (budget (α := α) S limit).Sound S limitRules True
      (fun err => err.name ≠ .skipLimitExceeded) where
  toAdvances := budget_advances hlimit hpos
  throwing _ o r hr := throwing_of_leavesLimit hr
  fails _ _ _ _ _ h hname := ⟨fun heq => absurd heq hname, fun _ => h.2.within⟩
  exhausted _ _ _ _ _ h _ := ⟨(fun heq => by cases heq), fun _ => h.2.within⟩
  threwQuiet err := by
    refine logged_frame (fun _ _ _ _ => trivial) ?_
    intro calls o r ho _ h
    have hnone : phaseErrors S.policies.skips o r = 0 := by
      refine phaseErrors_of_kind ?_ r
      rw [List.mem_singleton.mp ho]
      decide
    refine ⟨fun heq => (h.1 heq).snoc hnone, fun hne => (h.2 hne).snoc fun herror => ?_⟩
    rw [hnone] at herror
    cases herror
  onError key hkey args J hJ := by
    have hanswers : ∀ fn calls (r : Except Thrown Unit) calls',
        (logged limitRules True).trans
          (.user (.listener fn key args) : Op α) calls r calls' → r = .ok () :=
      fun fn calls r calls' ht => ht.2.2 hkey
    have hkeeps := wp_invokeMatching_ok (A := fun _ => False) hanswers hJ S.listeners
    intro calls h
    refine Prog.wp_mono (hkeeps calls h) ?_
    intro out calls' hout
    cases out with
    | ok u => exact hout
    | error err => exact hout.elim
  spin _ _ _ := trivial

end Budget

/-- How a step with a limit ends: with an error that found no room if the limit was passed, else
with room for all of them. -/
def EndsInBudget (kind : Thrown → Bool) (limit : Int) : Except Thrown StepResult → Calls α → Prop :=
  Ends (Within kind limit) fun err calls =>
    (err.name = .skipLimitExceeded → Overrun kind limit calls) ∧
      (err.name ≠ .skipLimitExceeded → Within kind limit calls)

/-- **The budget of a step.** -/
theorem TryEnds.budget {env : Environment α υ} (henv : env.LeavesLimit) {fuel : Nat}
    {step : ChunkStepDefinition} {context : ChunkExecutionContext} {w : World υ}
    {out : Except Thrown StepResult} {calls : Calls α} {config : SkipPolicyConfig}
    (hpolicy : step.skipPolicy = some config)
    (htry : TryEnds env fuel step context w out calls) :
    0 < config.limit ∧ EndsInBudget step.skips config.limit out calls := by
  have hanswers : AnswersAs env limitRules (fun _ _ => True) := by
    refine answersAs_of_user henv ?_ rfl
    intro o r hother
    cases o with
    | user call => exact absurd rfl (hother call)
    | _ => trivial
  have hlimits : ∀ policies, Policies.compile step = .ok policies →
      policies.skips = step.skips ∧ policies.skipLimit = config.limit ∧ 0 < config.limit := by
    intro policies hcompiled
    obtain ⟨-, hlimit, hpos⟩ := Policies.compile_fields hcompiled
    rw [hpolicy] at hlimit
    exact ⟨funext (Policies.compile_skips hcompiled), hlimit, hpos config hpolicy⟩
  have hpos : 0 < config.limit := by
    obtain ⟨policies, _, _, _, _, _, hcompiled, _⟩ := htry
    exact (hlimits policies hcompiled).2.2
  have hframe : ∀ {K : List OpKind}, (∀ k ∈ K, k ∉ phaseKinds) →
      (logged (limitRules (α := α)) True).Frame (On K) (Charged step.skips config.limit 0) := by
    intro K hK
    exact logged_frame (fun _ _ _ _ => trivial) fun _ _ r ho _ h =>
      h.snoc (phaseErrors_of_kind (hK _ ho) r)
        (by rw [quietSkips_of_kind (hK _ ho) r, Nat.add_zero])
  have hclosing : (logged (limitRules (α := α)) True).Frame (On closingKinds)
      (Within step.skips config.limit) := by
    refine logged_frame (fun _ _ _ _ => trivial) ?_
    intro calls o r ho _ h
    refine h.snoc fun herror => ?_
    rw [phaseErrors_of_kind ((by decide : ∀ k ∈ closingKinds, k ∉ phaseKinds) _ ho)] at herror
    cases herror
  have hstart : Charged step.skips config.limit 0 ([] : Calls α) := ⟨rfl, throughout_nil⟩
  refine ⟨hpos, htry.of_logged hanswers trivial (hframe (by decide)) hstart ?_⟩
  intro policies partition calls₁ hcompiled _ h₁
  obtain ⟨hskips, hlimit, -⟩ := hlimits policies hcompiled
  refine wp_body_ends (T := fun err => err.name ≠ .skipLimitExceeded)
    (fun _ _ _ hr => throwing_of_leavesLimit hr)
    ⟨(fun _ h => by cases h), (fun h => by cases h)⟩ (hframe (by decide)) hclosing
    (fun err _ h hne => ⟨fun heq => absurd heq hne, fun _ => h.within⟩)
    (fun err _ h hne => ⟨fun heq => absurd heq hne, fun _ => h⟩) ?_ h₁
  intro S l calls₂ hS hl h₂
  have hpolicies : S.policies.skipLimit = config.limit := by
    rw [hS.policies]
    exact hlimit
  have hkind : S.policies.skips = step.skips := by
    rw [hS.policies]
    exact hskips
  have hhead : (ChunkStepExecutor.budget S config.limit).holds fuel .head l calls₂ := by
    refine ⟨fun _ => hl.skipCount, ?_, ?_⟩
    · rw [hkind]
      rw [hl.skipCount]
      exact h₂.skipCount
    · rw [hkind]
      exact h₂.within
  refine Scoped.wp_mono ((budget_sound hpolicies hpos).wp_chunkLoop fuel hhead) ?_
  intro out l' calls' hout
  rw [← hkind]
  cases out with
  | ok u =>
      obtain ⟨_, hended⟩ := hout
      exact hended.2.within
  | error err => exact hout

end ChunkStepExecutor

/-- Each of the errors up to the limit finds room: with what is counted as skipped without an error
it does not pass the limit. -/
def RoomForEach (kind : Thrown → Bool) (limit : Int) (calls : Calls α) : Prop :=
  ∀ before c, before ++ [c] <+: calls → phaseErrors kind c.1 c.2 = 1 →
    (tally (phaseErrors kind) before : Int) + 1 ≤ limit → (spent kind before : Int) + 1 ≤ limit

/-- Where the last error found no room, the others did. -/
theorem Overrun.roomForEach_iff {kind : Thrown → Bool} {limit : Int} {calls : Calls α}
    (h : Overrun kind limit calls) :
    RoomForEach kind limit calls ↔ limit < tally (phaseErrors kind) calls := by
  obtain ⟨before, c, hpre, herror, hnone, hwithin, hlast⟩ := h
  constructor
  · intro hroom
    by_contra hle
    have hspent := hroom before c hpre herror (by omega)
    omega
  · intro hmany before' c' hpre' herror' hfirst
    by_cases hshort : (before' ++ [c']).length ≤ before.length
    · have hearlier := List.prefix_of_prefix_length_le hpre'
        ((List.prefix_append before [c]).trans hpre) hshort
      exact hwithin before' c' hearlier herror'
    · have hlonger : before.length ≤ before'.length := by
        rw [List.length_append, List.length_singleton] at hshort
        omega
      have hlater := List.prefix_of_prefix_length_le ((List.prefix_append before [c]).trans hpre)
        ((List.prefix_append before' [c']).trans hpre') hlonger
      have hcount := tally_le_of_prefix (f := phaseErrors kind) hlater
      omega

/-- **When the limit counts errors only**: a step fails with its skip limit exactly where more
errors than that were met, provided each of them up to the limit finds room beside the items skipped
without one; and only then. -/
theorem skip_limit_counts_errors_iff {env : Environment α υ} (henv : env.LeavesLimit) {fuel : Nat}
    {step : ChunkStepDefinition} {context : ChunkExecutionContext} {w : World υ}
    {out : Except Thrown StepResult} {calls : Calls α} {config : SkipPolicyConfig}
    (hpolicy : step.skipPolicy = some config)
    (htry : ChunkStepExecutor.TryEnds env fuel step context w out calls) :
    ((∃ err, out = .error err ∧ err.name = .skipLimitExceeded) ↔
        config.limit < tally (phaseErrors step.skips) calls) ↔
      RoomForEach step.skips config.limit calls := by
  obtain ⟨hpos, hended⟩ := htry.budget henv hpolicy
  have hwithin : Within step.skips config.limit calls →
      RoomForEach step.skips config.limit calls ∧
        ¬ config.limit < tally (phaseErrors step.skips) calls := by
    intro h
    refine ⟨fun before c hpre herror _ => h before c hpre herror, ?_⟩
    have hle := h.le (by omega)
    omega
  cases out with
  | ok result =>
      obtain ⟨hroom, hfew⟩ := hwithin hended
      have hnot : ¬ ∃ err, Except.ok result = (.error err : Except Thrown StepResult) ∧
          err.name = .skipLimitExceeded := fun ⟨_, h, _⟩ => by cases h
      exact iff_of_true (iff_of_false hnot hfew) hroom
  | error err =>
      by_cases hname : err.name = .skipLimitExceeded
      · have hoverrun := hended.1 hname
        have hfails : ∃ err', Except.error err = (.error err' : Except Thrown StepResult) ∧
            err'.name = .skipLimitExceeded := ⟨err, rfl, hname⟩
        rw [hoverrun.roomForEach_iff]
        exact ⟨fun h => h.mp hfails, fun h => iff_of_true hfails h⟩
      · obtain ⟨hroom, hfew⟩ := hwithin (hended.2 hname)
        have hnot : ¬ ∃ err', Except.error err = (.error err' : Except Thrown StepResult) ∧
            err'.name = .skipLimitExceeded := by
          intro h
          obtain ⟨err', heq, hlimit⟩ := h
          cases heq
          exact hname hlimit
        exact iff_of_true (iff_of_false hnot hfew) hroom

/-! ### A limit of one -/

/-- Two rows a chunk; one bad row may be skipped. -/
def strictStep : ChunkStepDefinition :=
  { id := "rows", chunkSize := 2, reader := { kind := .BuilderLambda, fn := some 0 }
    processor := some { kind := .BuilderLambda, fn := some 2 }
    writer := { kind := .BuilderLambda, fn := some 1 }
    skipPolicy := some
      { limit := 1
        skippable := [{ prototypeInstanceofError := true, length := 1
                        hasInstance := fun err => some (err = .error "bad row")
                        call := fun _ => none }] } }

/-- Rows of which some are bad, and a processor that drops those under a bound. -/
def droppingEnvironment (rows : List (Except Thrown (Option Nat))) (bound : Nat) :
    Environment Nat Nat :=
  { willing ([] : List Nat) with
    user := fun
      | .read _ _, pos, _ => (rows.getD pos (.ok none), pos + 1, [])
      | .process _ item _, pos, _ => (.ok (if item < bound then none else some item), pos, [])
      | call, pos, ctx => (willing []).user call pos ctx }

abbrev badRow : Except Thrown (Option Nat) := .error (.error "bad row")

/-- Rows without limit errors of their own leave the limit to the framework. -/
theorem droppingEnvironment_leavesLimit {rows : List (Except Thrown (Option Nat))} (bound : Nat)
    (hrows : ∀ err, .error err ∈ rows → err.Only fun err => err.name ≠ .skipLimitExceeded) :
    (droppingEnvironment rows bound).LeavesLimit := by
  intro call user ctx
  cases call with
  | read reader itemContext =>
      refine ⟨?_, trivial⟩
      intro err herr
      have hread : UserCall.thrown.thrownBy (rows.getD user (.ok none)) = some err := herr
      cases hrow : rows[user]? with
      | none =>
          rw [List.getD_eq_getElem?_getD, hrow] at hread
          cases hread
      | some row =>
          rw [List.getD_eq_getElem?_getD, hrow] at hread
          cases row with
          | ok item => cases hread
          | error err' =>
              cases hread
              exact hrows err (List.mem_of_getElem? hrow)
  | listener fn key args => exact ⟨(fun _ h => by cases h), fun _ => rfl⟩
  | _ => exact ⟨(fun _ h => by cases h), trivial⟩

/-- The `try` block of a run of `strictStep` over the rows. -/
def strictRun (rows : List (Except Thrown (Option Nat))) (bound : Nat) :
    Prog.Outcome Thrown (Except Thrown StepResult × ChunkStepExecutor.Locals) ×
      World Nat × Calls Nat :=
  Prog.run (handle (droppingEnvironment rows bound)).traced
    (ChunkStepExecutor.body 4 strictStep
      { jobExecutionId := "e", stepExecutionId := "s1", jobParameters := [] }
      { skip := strictStep.skipPolicy, retry := none, skipLimit := 1, retryLimit := 0 } none {})
    (.initial (unaryIds 'r') (unaryIds 'u') 0, [])

/-- How it ended. -/
def strictOutcome (rows : List (Except Thrown (Option Nat))) (bound : Nat) :
    Option (Except Thrown StepResult) :=
  match (strictRun rows bound).1 with
  | .returned (out, _) => some out
  | _ => none

/-- The strict run ends its try block in the sense of the executor. -/
theorem strictRun_tryEnds {rows : List (Except Thrown (Option Nat))} {bound : Nat}
    {out : Except Thrown StepResult} (h : strictOutcome rows bound = some out) :
    ChunkStepExecutor.TryEnds (droppingEnvironment rows bound) 4 strictStep
      { jobExecutionId := "e", stepExecutionId := "s1", jobParameters := [] }
      (.initial (unaryIds 'r') (unaryIds 'u') 0) out (strictRun rows bound).2.2 := by
  unfold strictOutcome at h
  cases hrun : (strictRun rows bound).1 with
  | returned outcome =>
      obtain ⟨left, l⟩ := outcome
      rw [hrun] at h
      cases h
      have hcompiled : Policies.compile strictStep = .ok
          { skip := strictStep.skipPolicy, retry := none, skipLimit := 1, retryLimit := 0 } := rfl
      have hbody : strictRun rows bound =
          (.returned (out, l), ((strictRun rows bound).2.1, (strictRun rows bound).2.2)) := by
        rw [← hrun]
      exact ⟨_, none, [], .initial (unaryIds 'r') (unaryIds 'u') 0, l, (strictRun rows bound).2.1,
        hcompiled, rfl, rfl, hbody⟩
  | threw err =>
      rw [hrun] at h
      cases h
  | stuck =>
      rw [hrun] at h
      cases h

/-- Two bad rows, and nothing dropped. -/
theorem skip_limit_counts_errors_twice :
    RoomForEach strictStep.skips 1 (strictRun [.ok (some 10), badRow, badRow] 0).2.2 := by
  have hleaves : (droppingEnvironment [.ok (some 10), badRow, badRow] 0).LeavesLimit := by
    refine droppingEnvironment_leavesLimit 0 ?_
    intro err herr
    simp only [List.mem_cons, List.not_mem_nil, or_false, reduceCtorEq, false_or, or_self,
      Except.error.injEq] at herr
    rw [herr]
    exact ⟨(fun h => by cases h), fun _ h => by cases h⟩
  have hended : strictOutcome [.ok (some 10), badRow, badRow] 0 =
      some (.error (.SkipLimitExceededError 1)) := by decide +kernel
  exact (skip_limit_counts_errors_iff hleaves rfl (strictRun_tryEnds hended)).mp
    (iff_of_true ⟨_, rfl, rfl⟩ (by decide +kernel))

/-- Two items are dropped, and the first bad row finds no room. -/
theorem filtered_item_spends_budget : ∃ err,
    (droppingEnvironment [.ok (some 10), .ok (some 11), badRow] 20).LeavesLimit ∧
    ChunkStepExecutor.TryEnds (droppingEnvironment [.ok (some 10), .ok (some 11), badRow] 20) 4
      strictStep { jobExecutionId := "e", stepExecutionId := "s1", jobParameters := [] }
      (.initial (unaryIds 'r') (unaryIds 'u') 0) (.error err)
      (strictRun [.ok (some 10), .ok (some 11), badRow] 20).2.2 ∧
    err.name = .skipLimitExceeded ∧
    ¬ (1 : Int) < tally (phaseErrors strictStep.skips)
      (strictRun [.ok (some 10), .ok (some 11), badRow] 20).2.2 := by
  have hleaves : (droppingEnvironment [.ok (some 10), .ok (some 11), badRow] 20).LeavesLimit := by
    refine droppingEnvironment_leavesLimit 20 ?_
    intro err herr
    simp only [List.mem_cons, List.not_mem_nil, or_false, reduceCtorEq, false_or,
      Except.error.injEq] at herr
    rw [herr]
    exact ⟨(fun h => by cases h), fun _ h => by cases h⟩
  have hended : strictOutcome [.ok (some 10), .ok (some 11), badRow] 20 =
      some (.error (.SkipLimitExceededError 1)) := by decide +kernel
  exact ⟨_, hleaves, strictRun_tryEnds hended, rfl, by decide +kernel⟩

end NestBatch
