import Mathlib.Algebra.GroupWithZero.Nat
import NestBatch.Execution.ChunkRules
import NestBatch.Execution.WorldRules

/-!
# What a log of calls adds up to

A property that only speaks of what user code was asked and what it answered needs
no world: the state of its logic is the log of the calls, and `allowed` says which
answers can come.  `tally` adds up a quantity over a log, call by call.
-/

namespace NestBatch

variable {α β υ : Type}

/-- What is said of the calls: which are made, and how they are answered, given those before. -/
structure CallRules (α : Type) where
  demands : Calls α → Op α → Prop := fun _ _ => True
  allowed : Calls α → (o : Op α) → o.Resp → Prop := fun _ _ _ => True

/-- The calls are written down.  `loops` is what a loop out of fuel counts as. -/
def logged (rules : CallRules α) (loops : Prop) : Prog.Logic (Op α) Op.Resp (Calls α) where
  trans o calls r calls' := calls' = calls ++ [⟨o, r⟩] ∧ rules.allowed calls o r
  guard o calls := rules.demands calls o
  loops := loops

/-- A quantity of a log: what each call adds to it. -/
def tally (f : (o : Op α) → o.Resp → Nat) (calls : Calls α) : Nat :=
  (calls.map fun c => f c.1 c.2).sum

@[simp] theorem tally_nil (f : (o : Op α) → o.Resp → Nat) : tally f [] = 0 := rfl

theorem tally_snoc (f : (o : Op α) → o.Resp → Nat) (calls : Calls α) (o : Op α) (r : o.Resp) :
    tally f (calls ++ [⟨o, r⟩]) = tally f calls + f o r := by
  unfold tally
  rw [List.map_append, List.sum_append]
  exact congrArg _ (Nat.add_zero _)

/-- A call that adds nothing to a quantity. -/
theorem tally_snoc_zero {f : (o : Op α) → o.Resp → Nat} {calls : Calls α} {o : Op α} {r : o.Resp}
    (h : f o r = 0) : tally f (calls ++ [⟨o, r⟩]) = tally f calls := by
  rw [tally_snoc, h, Nat.add_zero]

/-- A quantity only grows. -/
theorem tally_le_of_prefix {f : (o : Op α) → o.Resp → Nat} {before calls : Calls α}
    (h : before <+: calls) : tally f before ≤ tally f calls := by
  obtain ⟨after, heq⟩ := h
  unfold tally
  rw [← heq, List.map_append, List.sum_append]
  exact Nat.le_add_right _ _

/-- Whether a call ended in an error of the given kind, as a number. -/
def failures (kind : Thrown → Bool) : Except Thrown β → Nat
  | .ok _ => 0
  | .error err => if kind err then 1 else 0

theorem failures_pos {kind : Thrown → Bool} {err : Thrown} (h : kind err = true) :
    failures kind (.error err : Except Thrown β) = 1 := if_pos h

theorem failures_neg {kind : Thrown → Bool} {err : Thrown} (h : kind err = false) :
    failures kind (.error err : Except Thrown β) = 0 := if_neg (Bool.eq_false_iff.mp h)

/-- One answer fails once at most. -/
theorem failures_eq (kind : Thrown → Bool) (r : Except Thrown β) :
    failures kind r = 0 ∨ failures kind r = 1 := by
  cases r with
  | ok b => exact Or.inl rfl
  | error err =>
      cases hkind : kind err with
      | false => exact Or.inl (failures_neg hkind)
      | true => exact Or.inr (failures_pos hkind)

/-- A quantity that no call adds to. -/
theorem tally_eq_zero {f : (o : Op α) → o.Resp → Nat} {calls : Calls α}
    (h : ∀ c ∈ calls, f c.1 c.2 = 0) : tally f calls = 0 := by
  unfold tally
  rw [List.sum_eq_zero_iff_forall_eq_nat]
  intro n hn
  obtain ⟨c, hmem, hc⟩ := List.mem_map.mp hn
  rw [← hc]
  exact h c hmem

/-- The items of a write. -/
def itemsWritten : (o : Op α) → o.Resp → List α
  | .user (.write _ items _), _ => items
  | _, _ => []

/-- All items of a log that are handed to a writer. -/
def writtenItems (calls : Calls α) : List α := calls.flatMap fun c => itemsWritten c.1 c.2

theorem writtenItems_snoc (calls : Calls α) (o : Op α) (r : o.Resp) :
    writtenItems (calls ++ [⟨o, r⟩]) = writtenItems calls ++ itemsWritten o r := by
  unfold writtenItems
  rw [List.flatMap_append, List.flatMap_singleton]

theorem writtenItems_snoc_of_kind {o : Op α} (h : o.kind ≠ .write) (calls : Calls α) (r : o.Resp) :
    writtenItems (calls ++ [⟨o, r⟩]) = writtenItems calls := by
  have hnone : itemsWritten o r = [] := by
    cases o with
    | user call =>
        cases call with
        | write => exact absurd rfl h
        | _ => rfl
    | _ => rfl
  rw [writtenItems_snoc, hnone, List.append_nil]

section Throughout

/-- Every call of a log is as said, given those before it. -/
def Throughout (P : Calls α → Prog.Call (Op α) Op.Resp → Prop) (calls : Calls α) : Prop :=
  ∀ before c, before ++ [c] <+: calls → P before c

variable {P : Calls α → Prog.Call (Op α) Op.Resp → Prop} {calls : Calls α}
  {c : Prog.Call (Op α) Op.Resp}

theorem throughout_nil : Throughout P [] := by
  intro before c hpre
  have hnil := List.prefix_nil.mp hpre
  exact absurd hnil (List.append_ne_nil_of_right_ne_nil _ (List.cons_ne_nil _ _))

theorem Throughout.snoc (h : Throughout P calls) (hc : P calls c) :
    Throughout P (calls ++ [c]) := by
  intro before d hpre
  rcases List.prefix_concat_iff.mp hpre with heq | hold
  · obtain ⟨hbefore, hlast⟩ := List.append_inj' heq rfl
    cases hlast
    rw [hbefore]
    exact hc
  · exact h before d hold

theorem Throughout.init (h : Throughout P (calls ++ [c])) : Throughout P calls :=
  fun before d hpre => h before d (hpre.trans (List.prefix_append _ _))

theorem Throughout.last (h : Throughout P (calls ++ [c])) : P calls c :=
  h calls c List.prefix_rfl

theorem Throughout.mono {P' : Calls α → Prog.Call (Op α) Op.Resp → Prop} (h : Throughout P calls)
    (hP : ∀ before c, P before c → P' before c) : Throughout P' calls :=
  fun before c hpre => hP before c (h before c hpre)

theorem throughout_of_forall {P : Prog.Call (Op α) Op.Resp → Prop} (h : ∀ c ∈ calls, P c) :
    Throughout (fun _ => P) calls := by
  intro before c hpre
  obtain ⟨after, heq⟩ := hpre
  refine h c ?_
  rw [← heq]
  exact List.mem_append_left _ (List.mem_append_right _ (List.mem_singleton.mpr rfl))

end Throughout

section Logged

variable {rules : CallRules α} {K : List OpKind} {loops : Prop}

/-- Every answer of a log is one that the rules allow. -/
def CallRules.Fair (rules : CallRules α) : Calls α → Prop :=
  Throughout fun before c => rules.allowed before c.1 c.2

/-- Every call of a log is one that the rules ask for. -/
def CallRules.Met (rules : CallRules α) : Calls α → Prop :=
  Throughout fun before c => rules.demands before c.1

/-- The same rules, as long as all answers are allowed; behind one that is not nothing is said. -/
def CallRules.assumed (rules : CallRules α) : CallRules α where
  demands calls o := rules.Fair calls → rules.demands calls o

/-- Where the answers are not those assumed, nothing is claimed. -/
theorem wp_unfair {p : Code α β} {Q : Except Thrown β → Calls α → Prop} {calls : Calls α}
    (h : ¬ rules.Fair calls) : p.wp (logged rules.assumed True)
      (fun out calls' => rules.Fair calls' → Q out calls') calls := by
  induction p generalizing calls with
  | pure b => exact fun hfair => absurd hfair h
  | throw err => exact fun hfair => absurd hfair h
  | spin => trivial
  | op o k ih =>
      refine ⟨fun hfair => absurd hfair h, ?_⟩
      intro r calls' ht
      obtain ⟨hsnoc, -⟩ := ht
      subst hsnoc
      exact ih r fun hfair => h hfair.init

/-- **What is proved of allowed answers is true of every log that has no others.** -/
theorem wp_assumed {p : Code α β} {Q : Except Thrown β → Calls α → Prop} {calls : Calls α}
    (hp : p.wp (logged rules True) Q calls) : p.wp (logged rules.assumed True)
      (fun out calls' => rules.Fair calls' → Q out calls') calls := by
  induction p generalizing calls with
  | pure b => exact fun _ => hp
  | throw err => exact fun _ => hp
  | spin => trivial
  | op o k ih =>
      refine ⟨fun _ => hp.1, ?_⟩
      intro r calls' ht
      obtain ⟨hsnoc, -⟩ := ht
      subst hsnoc
      by_cases hr : rules.allowed calls o r
      · exact ih r (hp.2 r _ ⟨rfl, hr⟩)
      · exact wp_unfair fun hfair => hr hfair.last

/-- Calls of some kinds may be made, and keep what they can be added to. -/
theorem logged_frame {J : Calls α → Prop}
    (hdemands : ∀ calls (o : Op α), o.kind ∈ K → J calls → rules.demands calls o)
    (hJ : ∀ calls (o : Op α) (r : o.Resp), o.kind ∈ K → rules.allowed calls o r → J calls →
      J (calls ++ [⟨o, r⟩])) : (logged rules loops).Frame (On K) J where
  guard o calls := hdemands calls o
  keep o calls r calls' ho hcalls ht := by
    obtain ⟨hsnoc, hr⟩ := ht
    subst hsnoc
    exact hJ calls o r ho hr hcalls
  loops h := h.elim

/-- One call. -/
theorem wp_call {o : Op α} {Q : Except Thrown o.Resp → Calls α → Prop} {calls : Calls α}
    (hdemands : rules.demands calls o)
    (h : ∀ r, rules.allowed calls o r → Q (.ok r) (calls ++ [⟨o, r⟩])) :
    (request o : Code α o.Resp).wp (logged rules loops) Q calls := by
  refine Prog.wp_perform.mpr ⟨hdemands, ?_⟩
  intro r calls' ht
  obtain ⟨hsnoc, hr⟩ := ht
  subst hsnoc
  exact h r hr

section Selected

variable {γ : Type}

/-- The calls are written down, whatever they are. -/
abbrev anyCalls : Prog.Logic (Op α) Op.Resp (Calls α) := logged {} True

theorem filterMap_snoc (f : Prog.Call (Op α) Op.Resp → Option γ) (calls : Calls α)
    (c : Prog.Call (Op α) Op.Resp) :
    (calls ++ [c]).filterMap f = calls.filterMap f ++ (f c).toList := by
  rw [List.filterMap_append]
  cases h : f c with
  | none => simp [h]
  | some selected => simp [h]

/-- Code whose calls are not selected leaves the selected ones as they are. -/
theorem selected_frame {f : Prog.Call (Op α) Op.Resp → Option γ}
    (hf : ∀ (o : Op α) (r : o.Resp), o.kind ∈ K → f ⟨o, r⟩ = none) (xs : List γ) :
    (anyCalls : Prog.Logic (Op α) Op.Resp (Calls α)).Frame (On K loops)
      (fun calls => calls.filterMap f = xs) where
  guard _ _ _ _ := trivial
  keep o calls r calls' ho h ht := by
    obtain ⟨hsnoc, -⟩ := ht
    subst hsnoc
    rw [filterMap_snoc, hf o r ho]
    exact (List.append_nil _).trans h
  loops _ := trivial

end Selected

variable {R : World υ → Calls α → Prop} {env : Environment α υ}

/-- A world answers as the rules allow as long as `R` holds of it and of its log. -/
def AnswersAs (env : Environment α υ) (rules : CallRules α) (R : World υ → Calls α → Prop) :
    Prop :=
  ∀ o w calls, R w calls → rules.allowed calls o (handle env o w).1 ∧
    R (handle env o w).2 (calls ++ [⟨o, (handle env o w).1⟩])

/-- An environment that answers as the rules say is followed by its log. -/
theorem AnswersAs.follows (h : AnswersAs env rules R) :
    Prog.Follows (logged rules loops) (worldLogic env).trans
      (fun s calls => s.2 = calls ∧ R s.1 s.2) := by
  intro o s r s' calls hrel _ ht
  obtain ⟨hcalls, hR⟩ := hrel
  subst hcalls
  obtain ⟨hr, hnext⟩ := h o s.1 s.2 hR
  cases ht
  exact ⟨_, ⟨rfl, hr⟩, rfl, hnext⟩

/-- Whatever a program does, it leaves the world and the log in `R`. -/
theorem AnswersAs.wp (h : AnswersAs env rules R) (p : Code α β) {w : World υ} {calls : Calls α}
    (hR : R w calls) : p.wp (worldLogic env) (fun _ s' => R s'.1 s'.2) (w, calls) := by
  induction p generalizing w calls with
  | pure b => exact hR
  | throw err => exact hR
  | spin => trivial
  | op o k ih =>
      refine ⟨trivial, ?_⟩
      intro r s' ht
      cases ht
      exact ih _ (h o w calls hR).2

/-- **From the log to the world.** -/
theorem wp_of_logged (h : AnswersAs env rules R) {p : Code α β}
    {Q : Except Thrown β → Calls α → Prop} {w : World υ} {calls : Calls α}
    (hp : p.wp (logged rules True) Q calls) (hR : R w calls) :
    p.wp (worldLogic env) (fun out s' => Q out s'.2 ∧ R s'.1 s'.2) (w, calls) := by
  have hrel : (w, calls).2 = calls ∧ R (w, calls).1 (w, calls).2 := ⟨rfl, hR⟩
  refine Prog.wp_mono (Prog.wp_simulate (fun _ _ _ _ _ => trivial) h.follows (fun _ => trivial) hp
    hrel) ?_
  intro out s' hout
  obtain ⟨calls', ⟨hcalls, hR'⟩, hQ⟩ := hout
  subst hcalls
  exact ⟨hQ, hR'⟩

/-- The same for code that comes to an end. -/
theorem wp_total_of_logged (h : AnswersAs env rules R) {p : Code α β}
    {Q : Except Thrown β → Calls α → Prop} {w : World υ} {calls : Calls α}
    (hp : p.wp (logged rules False) Q calls) (hR : R w calls) :
    p.wp (worldLogic env).total (fun out s' => Q out s'.2 ∧ R s'.1 s'.2) (w, calls) := by
  have hrel : (w, calls).2 = calls ∧ R (w, calls).1 (w, calls).2 := ⟨rfl, hR⟩
  refine Prog.wp_mono (Prog.wp_simulate (fun _ _ _ _ _ => trivial)
    h.follows (fun hloops => hloops) hp hrel) ?_
  intro out s' hout
  obtain ⟨calls', ⟨hcalls, hR'⟩, hQ⟩ := hout
  subst hcalls
  exact ⟨hQ, hR'⟩

theorem anyCalls_answers (env : Environment α υ) : AnswersAs env {} (fun _ _ => True) :=
  fun _ _ _ _ => ⟨trivial, trivial⟩

/-- Any world answers as nothing is said of its answers. -/
theorem answersAs_assumed (env : Environment α υ) (rules : CallRules α) :
    AnswersAs env rules.assumed (fun _ _ => True) :=
  fun _ _ _ _ => ⟨trivial, trivial⟩

/-- **Wherever a program is interrupted**, it has made the calls that the rules ask for, as long as
all answers were allowed. -/
theorem met_of_reaches {p rest : Code α β} {Q : Except Thrown β → Calls α → Prop} {w w' : World υ}
    {calls : Calls α} (hp : p.wp (logged rules True) Q [])
    (hreach : Prog.Reaches (handle env).traced.trans (p, (w, [])) (rest, (w', calls)))
    (hfair : rules.Fair calls) : rules.Met calls := by
  have hfollows : Prog.Follows (logged rules.assumed True) (handle env).traced.trans
      (fun s calls => s.2 = calls ∧ (rules.Fair calls → rules.Met calls)) := by
    intro o s r s' calls hrel hasked ht
    obtain ⟨hcalls, hmet⟩ := hrel
    subst hcalls
    cases ht
    refine ⟨_, ⟨rfl, trivial⟩, rfl, ?_⟩
    intro hfair
    exact (hmet hfair.init).snoc (hasked hfair.init)
  obtain ⟨calls', ⟨hcalls, hmet⟩, -⟩ := Prog.reaches_simulate hfollows hreach (wp_assumed hp)
    ⟨rfl, fun _ => throughout_nil⟩
  rw [← hcalls] at hmet
  exact hmet hfair

/-- User code answers as it may, whatever the other operations answer. -/
theorem answersAs_of_user {answers : (o : Op α) → o.Resp → Prop}
    (huser : ∀ (call : UserCall α) (user : υ) ctx, answers (.user call) (env.user call user ctx).1)
    (hother : ∀ (o : Op α) (r : o.Resp), (∀ call, o ≠ .user call) → answers o r)
    (hrules : rules.allowed = fun _ => answers) : AnswersAs env rules (fun _ _ => True) := by
  intro o w calls _
  rw [hrules]
  refine ⟨?_, trivial⟩
  cases o with
  | user call =>
      obtain ⟨ctx, hanswer, -⟩ := handleUser_env env call w
      have hcall := huser call w.user ctx
      rw [← hanswer] at hcall
      exact hcall
  | _ => exact hother _ _ fun _ h => by cases h

namespace ChunkStepExecutor

variable {fuel : Nat} {step : ChunkStepDefinition} {context : ChunkExecutionContext} {w : World υ}
  {result : StepResult} {calls : Calls α}

/-- The executor, started in `w`, returns `result`, having made `calls`. -/
def Returns (env : Environment α υ) (fuel : Nat) (step : ChunkStepDefinition)
    (context : ChunkExecutionContext) (w : World υ) (result : StepResult)
    (calls : Calls α) : Prop :=
  ∃ w', Prog.run (handle env).traced (execute fuel step context) (w, []) =
    (.returned result, (w', calls))

/-- What the log says of the results a step can end with is true of the one it returns. -/
theorem Returns.of_logged {C : StepResult → Calls α → Prop}
    (hrun : Returns env fuel step context w result calls) (h : AnswersAs env rules R)
    (hp : (execute fuel step context).wp (logged rules True) (EndsWith C) []) (hR : R w []) :
    C result calls := by
  obtain ⟨w', hrun⟩ := hrun
  have hended := Prog.wp_run (wp_of_logged h hp hR)
  rw [hrun] at hended
  exact hended.1 result rfl

/-- The same of one log all of whose answers are allowed. -/
theorem Returns.of_fair {C : StepResult → Calls α → Prop}
    (hrun : Returns env fuel step context w result calls) (hfair : rules.Fair calls)
    (hp : (execute fuel step context).wp (logged rules True) (EndsWith C) []) :
    C result calls := by
  obtain ⟨w', hrun⟩ := hrun
  have hended := Prog.wp_run (wp_of_logged (answersAs_assumed env rules) (wp_assumed hp)
    (w := w) trivial)
  rw [hrun] at hended
  exact hended.1 hfair result rfl

end ChunkStepExecutor

end Logged

end NestBatch
