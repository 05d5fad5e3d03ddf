import NestBatch.Execution.Footprint

/-!
# Proof rules for the parts of a chunk step

A phase runs one operation with retries and skips around it.  Whatever
specification the operation has, in any logic, the phase has it too: the rule
`wp_runPhase` is proved once and used for every phase and every property.  The
parts of the executor around the chunk loop have one rule each as well, so that
a property of the executor only has to speak of the loop.
-/

namespace NestBatch

namespace ChunkStepExecutor

open ListenerInvoker

variable {α β σ : Type}

/-- What `orThrow` asks of the code below it. -/
def unwrapped (Q : Except Thrown β → σ → Prop) : Except Thrown (Except Thrown β) → σ → Prop
  | .ok out, s => Q out s
  | .error err, s => Q (.error err) s

/-- What a request throws is what it was answered. -/
theorem wp_orThrow {L : Prog.Logic (Op α) Op.Resp σ} {p : Code α (Except Thrown β)}
    {Q : Except Thrown β → σ → Prop} {s : σ} :
    (orThrow p).wp L Q s ↔ p.wp L (unwrapped Q) s := by
  unfold orThrow
  rw [Prog.wp_bind]
  constructor
  · intro h
    refine Prog.wp_mono h ?_
    intro outcome s' h'
    rcases outcome with err | out
    · exact h'
    · exact (Prog.wp_ofExcept out).mp h'
  · intro h
    refine Prog.wp_mono h ?_
    intro outcome s' h'
    rcases outcome with err | out
    · exact h'
    · exact (Prog.wp_ofExcept out).mpr h'

/-- Sequencing after code that changes only the counters and keeps `J`. -/
theorem wp_seq_quiet {γ : Type} {L : Prog.Logic (Op α) Op.Resp σ} {K : List OpKind}
    {J : σ → Prop} {c : ChunkCode α β} {f : β → ChunkCode α γ}
    {Q : Except Thrown γ → Locals → σ → Prop} {l : Locals} {s : σ} (hc : Quiet K c)
    (hframe : L.Frame (On K) J) (hs : J s)
    (hok : ∀ b l' s', SameChunk l l' → J s' → Scoped.wp L (f b) Q l' s')
    (herr : ∀ e l' s', SameChunk l l' → J s' → Q (.error e) l' s') :
    Scoped.wp L (c >>= f) Q l s :=
  Scoped.wp_seq (Scoped.wp_of_keeps hc hframe hs) (fun b l' s' h => hok b l' s' h.1 h.2)
    (fun e l' s' h => herr e l' s' h.1 h.2)

/-- Sequencing after a write is counted, which changes only the counters and throws nothing. -/
theorem wp_seq_countWrite {γ : Type} {L : Prog.Logic (Op α) Op.Resp σ} {J : σ → Prop}
    {processed : List α} {value : Option WriterResult} {f : Unit → ChunkCode α γ}
    {Q : Except Thrown γ → Locals → σ → Prop} {l : Locals} {s : σ}
    (hframe : L.Frame (On [.lengthOf]) J) (hs : J s)
    (hok : ∀ l' s', SameChunk l l' → J s' → Scoped.wp L (f ()) Q l' s') :
    Scoped.wp L (Setting.countWrite processed value >>= f) Q l s := by
  cases value with
  | some report =>
      rw [Scoped.wp_bind]
      exact hok _ _ ⟨rfl, rfl, rfl, rfl⟩ hs
  | none =>
      have hkind : (On [.lengthOf]).ops (.user (.lengthOf processed) : Op α) :=
        List.mem_singleton_self _
      unfold Setting.countWrite Setting.lengthOf
      rw [Scoped.wp_bind, Scoped.wp_bind]
      refine Scoped.wp_lift.mpr (Prog.wp_perform.mpr ⟨hframe.guard _ _ hkind hs, ?_⟩)
      intro length s' ht
      exact hok _ _ ⟨rfl, rfl, rfl, rfl⟩ (hframe.keep _ _ _ _ hkind hs ht)

/-- The states of a phase: `I` before an attempt, `V` after a successful one,
`E` after a failed one, `A` when the phase throws. -/
structure PhaseStates (σ β : Type) where
  I : σ → Prop
  V : β → σ → Prop
  E : Thrown → σ → Prop
  A : σ → Prop

namespace PhaseStates

/-- Where an attempt of the operation may leave the state. -/
def attempted (P : PhaseStates σ β) : Except Thrown β → σ → Prop
  | .ok value => P.V value
  | .error err => P.E err

/-- Where a phase may leave the state. -/
def ended (P : PhaseStates σ β) (policies : Policies) :
    Except Thrown (PhaseResult β) → σ → Prop
  | .ok (.ok value), s => P.V value s
  | .ok .skipped, s => ∃ err skipCount attempt, P.E err s ∧
      consult policies err skipCount attempt = .skip
  | .error _, s => P.A s

end PhaseStates

/-- A hook that runs in `I` keeps it, and throws only into `A`. -/
def KeepsOr (L : Prog.Logic (Op α) Op.Resp σ) (I A : σ → Prop) (p : Code α Unit) : Prop :=
  ∀ s, I s → p.wp L (fun out s' => match out with
    | .ok _ => I s'
    | .error _ => A s') s

/-- A hook whose operations keep `I`, where throwing in `I` is fine. -/
theorem keepsOr_of_uses {L : Prog.Logic (Op α) Op.Resp σ} {K : List OpKind} {I A : σ → Prop}
    {p : Code α Unit} (hp : p.Uses (On K)) (hframe : L.Frame (On K) I) (hIA : ∀ s, I s → A s) :
    KeepsOr L I A p := by
  intro s hs
  refine Prog.wp_mono (Prog.wp_of_uses hp hframe hs) ?_
  intro out s' h
  cases out with
  | ok u => exact h
  | error err => exact hIA s' h

/-- Listeners under a key that never throw are such a hook. -/
theorem wp_invokeMatching_ok {L : Prog.Logic (Op α) Op.Resp σ} {I A : σ → Prop} {key : ListenerKey}
    {args : ListenerArgs α} (hanswers : ∀ fn s (r : Except Thrown Unit) s',
      L.trans (.user (.listener fn key args)) s r s' → r = .ok ())
    (hframe : L.Frame (On [.listener]) I) (resolvers : ResolverMap) :
    KeepsOr L I A (invokeMatching key args resolvers) := by
  induction resolvers with
  | nil => exact fun s hs => hs
  | cons e rest ih =>
      intro s hs
      unfold invokeMatching
      split
      · have hkind : (On [.listener]).ops (.user (.listener e.2.fn key args) : Op α) :=
          (by decide : OpKind.listener ∈ [OpKind.listener])
        refine Prog.wp_bind.mpr (Prog.wp_perform.mpr ⟨hframe.guard _ _ hkind hs, ?_⟩)
        intro r s₁ ht
        obtain rfl := hanswers _ _ _ _ ht
        exact ih s₁ (hframe.keep _ _ _ _ hkind hs ht)
      · exact ih s hs

/-! ### What is decided about a failed attempt -/

section Decision

variable {policies : Policies} {err err' : Thrown} {skipCount attempt : Nat}

/-- The skip policy first: its budget decides about what it covers, the retry policy about what it
does not cover, and what a test throws is thrown on. -/
theorem consult_cases (policies : Policies) (err : Thrown) (skipCount attempt : Nat) :
    (policies.skips err = true ∧
      consult policies err skipCount attempt = consultSkip policies skipCount) ∨
    policies.skips err = false ∧
      (consult policies err skipCount attempt = .fail noPrototype ∨
        consult policies err skipCount attempt = consultRetry policies err attempt) := by
  unfold consult
  cases hcovers : policies.covers err with
  | error testErr =>
      obtain rfl := policies.covers_error hcovers
      refine Or.inr ⟨?_, Or.inl rfl⟩
      unfold Policies.skips
      rw [hcovers]
      rfl
  | ok answer =>
      have hskips := Policies.skips_of_covers hcovers
      cases answer with
      | true => exact Or.inl ⟨hskips, rfl⟩
      | false => exact Or.inr ⟨hskips, Or.inr rfl⟩

/-- The retry policy retries, where there is one, or fails with its own limit, the error it was
asked about, or what a test throws. -/
theorem consultRetry_cases (policies : Policies) (err : Thrown) (attempt : Nat) :
    (consultRetry policies err attempt = .retry ∧ policies.retry.isSome = true) ∨
    ∃ err', consultRetry policies err attempt = .fail err' ∧
      (err' = .RetryLimitExceededError policies.retryLimit ∨ err' = err ∨ err' = noPrototype) := by
  unfold consultRetry
  cases policies.retry with
  | none => exact Or.inr ⟨err, rfl, Or.inr (Or.inl rfl)⟩
  | some retry =>
      dsimp only
      cases hretry : canRetry retry err attempt policies.retryLimit with
      | error testErr => exact Or.inr ⟨_, rfl, Or.inr (Or.inr (answered_error hretry))⟩
      | ok answer =>
          cases answer with
          | true => exact Or.inl ⟨rfl, rfl⟩
          | false =>
              right
              by_cases hlimit : (attempt : Int) > policies.retryLimit
              · simp only [if_pos hlimit]
                cases hmember : isRetryable retry err with
                | error testErr => exact ⟨_, rfl, Or.inr (Or.inr (answered_error hmember))⟩
                | ok answer =>
                    cases answer with
                    | true => exact ⟨_, rfl, Or.inl rfl⟩
                    | false => exact ⟨_, rfl, Or.inr (Or.inl rfl)⟩
              · simp only [if_neg hlimit]
                exact ⟨_, rfl, Or.inr (Or.inl rfl)⟩

/-- An error is skipped if the policy covers it and the limit has room for one more. -/
theorem consult_skip (h : consult policies err skipCount attempt = .skip) :
    policies.skips err = true ∧ (skipCount : Int) + 1 ≤ policies.skipLimit := by
  rcases consult_cases policies err skipCount attempt with
    ⟨hskips, heq⟩ | ⟨-, heq | heq⟩
  · rw [heq, consultSkip] at h
    split at h
    · cases h
    · exact ⟨hskips, by omega⟩
  · rw [heq] at h
    cases h
  · rw [heq] at h
    rcases consultRetry_cases policies err attempt with ⟨hretry, -⟩ | ⟨err', hfail, -⟩
    · rw [hretry] at h
      cases h
    · rw [hfail] at h
      cases h

/-- An error is tried again only if the skip policy does not cover it. -/
theorem consult_retry (h : consult policies err skipCount attempt = .retry) :
    policies.skips err = false ∧ policies.retry.isSome = true := by
  rcases consult_cases policies err skipCount attempt with
    ⟨-, heq⟩ | ⟨hskips, heq | heq⟩
  · rw [heq, consultSkip] at h
    split at h <;> cases h
  · rw [heq] at h
    cases h
  · rw [heq] at h
    rcases consultRetry_cases policies err attempt with ⟨-, hsome⟩ | ⟨err', hfail, -⟩
    · exact ⟨hskips, hsome⟩
    · rw [hfail] at h
      cases h

/-- What the policy covers is skipped while the limit has room. -/
theorem consult_of_skips (hskips : policies.skips err = true)
    (hroom : (skipCount : Int) + 1 ≤ policies.skipLimit) (attempt : Nat) :
    consult policies err skipCount attempt = .skip := by
  rcases consult_cases policies err skipCount attempt with ⟨-, heq⟩ | ⟨hnot, -⟩
  · rw [heq, consultSkip, if_neg (Int.not_lt.mpr hroom)]
  · rw [hskips] at hnot
    cases hnot

/-- A phase fails with an error of its own where a limit is passed or a test throws, else with the
one it met. -/
theorem consult_fail (h : consult policies err skipCount attempt = .fail err') :
    (policies.skips err = true ∧ policies.skipLimit < (skipCount : Int) + 1 ∧
      err' = .SkipLimitExceededError policies.skipLimit) ∨
    (policies.skips err = false ∧
      (err' = .RetryLimitExceededError policies.retryLimit ∨ err' = err ∨ err' = noPrototype)) := by
  rcases consult_cases policies err skipCount attempt with
    ⟨hskips, heq⟩ | ⟨hskips, heq | heq⟩
  · rw [heq, consultSkip] at h
    split at h
    · next hlimit =>
        cases h
        exact Or.inl ⟨hskips, hlimit, rfl⟩
    · cases h
  · rw [heq] at h
    cases h
    exact Or.inr ⟨hskips, Or.inr (Or.inr rfl)⟩
  · rw [heq] at h
    rcases consultRetry_cases policies err attempt with ⟨hretry, -⟩ | ⟨err'', hfail, herr⟩
    · rw [hretry] at h
      cases h
    · rw [hfail] at h
      cases h
      exact Or.inr ⟨hskips, herr⟩

end Decision

section Phase

variable {L : Prog.Logic (Op α) Op.Resp σ} {policies : Policies} {op : Code α β}
  {hooks : PhaseHooks α β} {K : List OpKind} {P : PhaseStates σ β}

/-- The operation and the hooks of one attempt move between the states of a phase. -/
structure PhaseStates.Steps (L : Prog.Logic (Op α) Op.Resp σ) (P : PhaseStates σ β)
    (op : Code α β) (hooks : PhaseHooks α β) : Prop where
  before : KeepsOr L P.I P.A hooks.before
  attempt : ∀ s, P.I s → op.wp L P.attempted s
  after : ∀ value, KeepsOr L (P.V value) P.A (hooks.after value)
  onError : ∀ err, KeepsOr L (P.E err) P.A (hooks.onError err)
  onSkip : ∀ err, KeepsOr L (P.E err) P.A (hooks.onSkip err)
  fail : ∀ err s, P.E err s → P.A s

/-- So do the attempts of a phase, one after the other. -/
structure PhaseStates.Sound (L : Prog.Logic (Op α) Op.Resp σ) (P : PhaseStates σ β)
    (op : Code α β) (hooks : PhaseHooks α β) : Prop extends P.Steps L op hooks where
  retry : ∀ err s, P.E err s → P.I s

/-- Where a phase may throw anywhere, hooks that keep each of its states are sound. -/
theorem PhaseStates.Sound.of_frames (hhooks : hooks.Within K) (hI : L.Frame (On K) P.I)
    (hV : ∀ value, L.Frame (On K) (P.V value)) (hE : ∀ err, L.Frame (On K) (P.E err))
    (hop : ∀ s, P.I s → op.wp L P.attempted s) (hretry : ∀ err s, P.E err s → P.I s)
    (hIA : ∀ s, P.I s → P.A s) (hVA : ∀ value s, P.V value s → P.A s) : P.Sound L op hooks where
  before := keepsOr_of_uses hhooks.before hI hIA
  attempt := hop
  after value := keepsOr_of_uses (hhooks.after value) (hV value) (hVA value)
  onError err := keepsOr_of_uses (hhooks.onError err) (hE err) fun s h => hIA s (hretry err s h)
  onSkip err := keepsOr_of_uses (hhooks.onSkip err) (hE err) fun s h => hIA s (hretry err s h)
  retry := hretry
  fail err s h := hIA s (hretry err s h)

/-- So are hooks that keep anything at all. -/
theorem PhaseStates.Sound.of_frame (hhooks : hooks.Within K) (hframe : ∀ J, L.Frame (On K) J)
    (hop : ∀ s, P.I s → op.wp L P.attempted s) (hretry : ∀ err s, P.E err s → P.I s)
    (hI : ∀ s, P.I s → P.A s) (hV : ∀ value s, P.V value s → P.A s) : P.Sound L op hooks :=
  .of_frames hhooks (hframe _) (fun _ => hframe _) (fun _ => hframe _) hop hretry hI hV

/-- A hook that runs in `I` keeps it, and throws an error only into `A` of it. -/
def KeepsOrThrows {γ : Type} (L : Prog.Logic (Op α) Op.Resp σ) (I : σ → Prop)
    (A : Thrown → σ → Prop) (p : Code α γ) : Prop :=
  ∀ s, I s → p.wp L (fun out s' => match out with
    | .ok _ => I s'
    | .error err => A err s') s

theorem KeepsOr.throws {I A : σ → Prop} {p : Code α Unit} (h : KeepsOr L I A p) :
    KeepsOrThrows L I (fun _ => A) p := by
  intro s hs
  refine Prog.wp_mono (h s hs) ?_
  intro out s' hout
  cases out with
  | ok u => exact hout
  | error err => exact hout

/-- A hook whose operations keep `I`, where any error may be thrown in `I`. -/
theorem keepsOrThrows_of_uses {I : σ → Prop} {A : Thrown → σ → Prop} {p : Code α Unit}
    (hp : p.Uses (On K)) (hframe : L.Frame (On K) I) (hIA : ∀ err s, I s → A err s) :
    KeepsOrThrows L I A p := by
  intro s hs
  refine Prog.wp_mono (Prog.wp_of_uses hp hframe hs) ?_
  intro out s' h
  cases out with
  | ok u => exact h
  | error err => exact hIA err s' h

/-- The states of a phase, where it matters which error it throws. -/
structure PhaseContract (σ β : Type) where
  I : σ → Prop
  V : β → σ → Prop
  E : Thrown → σ → Prop
  A : Thrown → σ → Prop

/-- What a phase throws once its attempts are used up. -/
def exhaustedAttempts (name : String) : Thrown :=
  .error ("ChunkStepExecutor: phase \"" ++ name ++ "\" exhausted attempts without a retry policy")

namespace PhaseContract

@[inherit_doc PhaseStates.attempted]
def attempted (P : PhaseContract σ β) : Except Thrown β → σ → Prop
  | .ok value => P.V value
  | .error err => P.E err

/-- Where a phase that begins with the locals `l` may leave them and the state. -/
def ended (P : PhaseContract σ β) (policies : Policies) (l : Locals) :
    Except Thrown (PhaseResult β) → Locals → σ → Prop
  | .ok (.ok value), l', s => l' = l ∧ P.V value s
  | .ok .skipped, l', s => l' = { l with skipCount := l.skipCount + 1 } ∧
      ∃ err attempt, P.E err s ∧ consult policies err l.skipCount attempt = .skip
  | .error err, l', s => SameChunk l l' ∧ P.A err s

/-- The operation and the hooks move between the states, and what is decided of an error at this
`skipCount` leads on from there. -/
structure Sound (L : Prog.Logic (Op α) Op.Resp σ) (P : PhaseContract σ β) (policies : Policies)
    (skipCount : Nat) (op : Code α β) (hooks : PhaseHooks α β) : Prop where
  before : KeepsOrThrows L P.I P.A hooks.before
  attempt : ∀ s, P.I s → op.wp L P.attempted s
  after : ∀ value, KeepsOrThrows L (P.V value) P.A (hooks.after value)
  onError : ∀ err, KeepsOrThrows L (P.E err) P.A (hooks.onError err)
  onSkip : ∀ err attempt, consult policies err skipCount attempt = .skip →
    KeepsOrThrows L (P.E err) P.A (hooks.onSkip err)
  retry : ∀ err s attempt, P.E err s → consult policies err skipCount attempt = .retry →
    P.I s ∧ P.A (exhaustedAttempts hooks.name) s
  fail : ∀ err err' s attempt, P.E err s → consult policies err skipCount attempt = .fail err' →
    P.A err' s

end PhaseContract

/-- Sequencing after a hook. -/
theorem wp_seq_hook {γ δ : Type} {I : σ → Prop} {A : Thrown → σ → Prop} {p : Code α δ}
    {f : δ → ChunkCode α γ} {Q : Except Thrown γ → Locals → σ → Prop} {l : Locals} {s : σ}
    (hp : KeepsOrThrows L I A p) (hs : I s) (hok : ∀ d s', I s' → Scoped.wp L (f d) Q l s')
    (herr : ∀ err s', A err s' → Q (.error err) l s') :
    Scoped.wp L (Scoped.lift p >>= f) Q l s := by
  rw [Scoped.wp_bind, Scoped.wp_lift]
  refine Prog.wp_mono (hp s hs) ?_
  intro out s' h
  cases out with
  | ok d => exact hok d s' h
  | error err => exact herr err s' h

section Contract

variable {P : PhaseContract σ β} {l : Locals} {s : σ}

/-- What a phase does about a failed attempt. -/
theorem wp_settleFailure (hP : P.Sound L policies l.skipCount op hooks)
    {again : ChunkCode α (PhaseResult β)} {attempt : Nat} {err : Thrown}
    (hagain : ∀ s, P.I s ∧ P.A (exhaustedAttempts hooks.name) s →
      Scoped.wp L again (P.ended policies l) l s) (hs : P.E err s) :
    Scoped.wp L (do
      Scoped.lift (hooks.onError err)
      let l ← Scoped.get
      match consult policies err l.skipCount attempt with
      | .skip => do
          Scoped.modify fun l => { l with skipCount := l.skipCount + 1 }
          Scoped.lift (hooks.onSkip err)
          pure .skipped
      | .retry => again
      | .fail err' => Scoped.throw err') (P.ended policies l) l s := by
  refine wp_seq_hook (hP.onError err) hs ?_ fun _ s' h => ⟨.refl l, h⟩
  intro _ s₁ hs₁
  rw [Scoped.wp_bind, Scoped.wp_get, Scoped.afterwards_ok]
  cases hc : consult policies err l.skipCount attempt with
  | skip =>
      have hcount : SameChunk l { l with skipCount := l.skipCount + 1 } := ⟨rfl, rfl, rfl, rfl⟩
      rw [Scoped.wp_bind, Scoped.wp_modify, Scoped.afterwards_ok]
      refine wp_seq_hook (hP.onSkip err attempt hc) hs₁ ?_ fun _ s' h => ⟨hcount, h⟩
      intro _ s₂ hs₂
      exact ⟨rfl, err, attempt, hs₂, hc⟩
  | retry => exact hagain s₁ (hP.retry err s₁ attempt hs₁ hc)
  | fail err' => exact ⟨.refl l, hP.fail err err' s₁ attempt hs₁ hc⟩

/-- One attempt of a phase, given what the attempts after it do. -/
theorem wp_runPhaseFrom_succ (hP : P.Sound L policies l.skipCount op hooks) {cap attempt : Nat}
    (hagain : ∀ s, P.I s ∧ P.A (exhaustedAttempts hooks.name) s →
      Scoped.wp L (runPhaseFrom policies op hooks cap (attempt + 1)) (P.ended policies l) l s)
    (hs : P.I s) :
    Scoped.wp L (runPhaseFrom policies op hooks (cap + 1) attempt) (P.ended policies l) l s := by
  refine wp_seq_hook hP.before hs ?_ fun _ s' h => ⟨.refl l, h⟩
  intro _ s₁ hs₁
  rw [Scoped.wp_bind, Scoped.wp_attempt, Scoped.wp_lift]
  refine Prog.wp_mono (hP.attempt s₁ hs₁) ?_
  intro out s₂ hs₂
  cases out with
  | error err => exact wp_settleFailure hP hagain hs₂
  | ok value =>
      refine wp_seq_hook (hP.after value) hs₂ ?_ fun _ s' h => ⟨.refl l, h⟩
      intro _ s₃ hs₃
      exact ⟨rfl, hs₃⟩

/-- The attempts of a phase, of which there is at least one: while it retries, the locals stay
what they were. -/
theorem wp_runPhaseFrom (hP : P.Sound L policies l.skipCount op hooks) (cap attempt : Nat)
    (hs : P.I s) :
    Scoped.wp L (runPhaseFrom policies op hooks (cap + 1) attempt) (P.ended policies l) l s := by
  induction cap generalizing attempt s with
  | zero => exact wp_runPhaseFrom_succ hP (fun s h => ⟨.refl l, h.2⟩) hs
  | succ cap ih => exact wp_runPhaseFrom_succ hP (fun s h => ih (attempt + 1) h.1) hs

/-- **The phase rule**: a phase ends as its contract says, and counts at most one skip. -/
theorem wp_runPhase_contract (hP : P.Sound L policies l.skipCount op hooks) (hs : P.I s) :
    Scoped.wp L (runPhase policies op hooks) (P.ended policies l) l s := by
  unfold runPhase
  split
  · exact wp_runPhaseFrom hP 998 1 hs
  · exact wp_runPhaseFrom hP 0 1 hs

end Contract

/-! ### Phases whose errors are all alike -/

/-- The contract of phase states in which it does not matter what is thrown. -/
def PhaseStates.contract (P : PhaseStates σ β) : PhaseContract σ β :=
  { I := P.I, V := P.V, E := P.E, A := fun _ => P.A }

/-- The rules of an attempt are a contract of its phase. -/
theorem PhaseStates.Steps.contract (hP : P.Steps L op hooks) {skipCount : Nat}
    (hretry : ∀ err s attempt, P.E err s →
      consult policies err skipCount attempt = .retry → P.I s) :
    P.contract.Sound L policies skipCount op hooks where
  before := hP.before.throws
  attempt s hs := Prog.wp_mono (hP.attempt s hs) fun out s' h => by
    cases out with
    | ok value => exact h
    | error err => exact h
  after value := (hP.after value).throws
  onError err := (hP.onError err).throws
  onSkip err _ _ := (hP.onSkip err).throws
  retry err s attempt hE hc := ⟨hretry err s attempt hE hc, hP.fail err s hE⟩
  fail err _ s _ hE _ := hP.fail err s hE

/-- What the contract says of the end of a phase, without its locals. -/
theorem PhaseStates.ended_of_contract {l l' : Locals} {s : σ} {out : Except Thrown (PhaseResult β)}
    (h : P.contract.ended policies l out l' s) : SameChunk l l' ∧ P.ended policies out s := by
  match out with
  | .ok (.ok value) =>
      obtain ⟨hl, hV⟩ := h
      subst hl
      exact ⟨.refl l', hV⟩
  | .ok .skipped =>
      obtain ⟨hl, err, attempt, hE, hc⟩ := h
      subst hl
      exact ⟨⟨rfl, rfl, rfl, rfl⟩, err, _, attempt, hE, hc⟩
  | .error err => exact h

/-- **A phase** ends as its states say, within one chunk. -/
theorem wp_runPhase (policies : Policies) (hP : P.Sound L op hooks) {l : Locals} {s : σ}
    (hs : P.I s) :
    Scoped.wp L (runPhase policies op hooks)
      (fun out l' s' => SameChunk l l' ∧ P.ended policies out s') l s :=
  Scoped.wp_mono (wp_runPhase_contract (hP.contract fun err s _ hE _ => hP.retry err s hE) hs)
    fun _ _ _ => PhaseStates.ended_of_contract

/-- A phase whose failures are never retried makes one attempt. -/
theorem wp_runPhase_once (hP : P.Steps L op hooks)
    (honce : ∀ err s skipCount attempt, P.E err s → consult policies err skipCount attempt ≠ .retry)
    {l : Locals} {s : σ} (hs : P.I s) :
    Scoped.wp L (runPhase policies op hooks)
      (fun out l' s' => SameChunk l l' ∧ P.ended policies out s') l s :=
  Scoped.wp_mono (wp_runPhase_contract
    (hP.contract fun err s _ hE hc => absurd hc (honce err s _ _ hE)) hs)
    fun _ _ _ => PhaseStates.ended_of_contract

end Phase

/-! ### Around the chunk loop -/

section Around

variable {K : List OpKind} {loops : Prop}

/-- Making a reader is one call of its factory. -/
theorem uses_invokeReaderFactory (h : .factory ∈ K) (factory : Component)
    (ctx : ItemExecutionContext) :
    (invokeReaderFactory factory ctx : Code α ItemHandler).Uses (On K loops) := by
  refine Prog.Uses.bind ?_ fun reader => ?_
  · exact .ite (fun _ => uses_orThrow (uses_request h)) fun _ => trivial
  · exact .ite (fun _ => trivial) fun _ => trivial

/-- Resolving a reader calls providers and factories only. -/
theorem uses_resolveReader (hi : .invoke ∈ K) (hf : .factory ∈ K) (ref : Ref)
    (context : ChunkExecutionContext) (step : ChunkStepDefinition) :
    (resolveReader ref context step : Code α ItemHandler).Uses (On K loops) := by
  unfold resolveReader
  split
  · trivial
  · refine (uses_orThrow (uses_request hi)).bind fun _ => ?_
    exact .ite (fun _ => uses_invokeReaderFactory hf _ _) (fun _ => trivial)
  · trivial
  · refine (Prog.uses_ofExcept _).bind fun _ => ?_
    exact .ite (fun _ => uses_invokeReaderFactory hf _ _) (fun _ => trivial)
  · refine (Prog.uses_ofExcept _).bind fun _ => ?_
    exact .ite (fun _ => uses_invokeReaderFactory hf _ _) (fun _ => trivial)

/-- What a token provides for the reader of the step is no item stream. -/
def PlainProvider (step : ChunkStepDefinition) (context : ChunkExecutionContext) : Prop :=
  ∀ reader, resolveProviderToken "reader" step.reader context.providerResolvers = .ok reader →
    reader.isStream = false

/-- Without providers a token provides nothing. -/
theorem plainProvider_of_none {step : ChunkStepDefinition} {context : ChunkExecutionContext}
    (h : context.providerResolvers = none) : PlainProvider step context := by
  intro reader hreader
  rw [h] at hreader
  unfold resolveProviderToken at hreader
  split at hreader
  · cases hreader
  · cases hreader
  · cases hreader

section PlainReader

variable {L : Prog.Logic (Op α) Op.Resp σ} {J : σ → Prop} {s : σ}

/-- Resolving ends in `J`, with something plain if with anything. -/
def Plain {γ : Type} (J : σ → Prop) (isStream : γ → Bool) : Except Thrown γ → σ → Prop :=
  fun out s => J s ∧ ∀ c, out = .ok c → isStream c = false

theorem plain_error {γ : Type} {isStream : γ → Bool} (err : Thrown) (hs : J s) :
    Plain J isStream (.error err) s := ⟨hs, fun _ h => by cases h⟩

theorem plain_ok {γ : Type} {isStream : γ → Bool} {c : γ} (hc : isStream c = false) (hs : J s) :
    Plain J isStream (.ok c) s := by
  refine ⟨hs, ?_⟩
  intro c' h
  cases h
  exact hc

variable (hframe : L.Frame (On [.invoke, .factory]) J)
  (hfactory : ∀ fn ctx s (r : Except Thrown Component) s',
    L.trans (.user (.factory fn ctx)) s r s' → ∀ c, r = .ok c → c.isStream = false)
include hframe hfactory

/-- A factory makes a plain reader, or stands for one. -/
theorem wp_invokeReaderFactory_plain (factory : Component) (ctx : ItemExecutionContext)
    (hplain : factory.isStream = false) (hs : J s) :
    (invokeReaderFactory factory ctx : Code α ItemHandler).wp L (Plain J (·.isStream)) s := by
  have hcall : (callFactory factory ctx : Code α Component).wp L (Plain J (·.isStream)) s := by
    unfold callFactory
    split
    · have hkind : (On [.invoke, .factory]).ops (.user (.factory factory.target ctx) : Op α) :=
        (by decide : OpKind.factory ∈ [OpKind.invoke, .factory])
      refine wp_orThrow.mpr (Prog.wp_perform.mpr ⟨hframe.guard _ _ hkind hs, ?_⟩)
      intro r s' ht
      have hs' := hframe.keep _ _ _ _ hkind hs ht
      have hmade := hfactory _ _ _ _ _ ht
      cases r with
      | error err => exact plain_error err hs'
      | ok c => exact plain_ok (hmade c rfl) hs'
    · exact plain_ok hplain hs
  refine Prog.wp_seq hcall ?_ fun err _ h => plain_error err h.1
  intro reader s' h
  split
  · exact plain_ok (h.2 reader rfl) h.1
  · exact plain_error _ h.1

/-- A reader is plain if what makes it is. -/
theorem wp_resolveReader_plain {step : ChunkStepDefinition} {context : ChunkExecutionContext}
    (hproviders : PlainProvider step context)
    (hinvoke : ∀ fn s (r : Except Thrown Component) s', L.trans (.user (.invoke fn)) s r s' →
      step.reader.fn = some fn → ∀ c, r = .ok c → c.isStream = false) (hs : J s) :
    (resolveReader step.reader context step : Code α ItemHandler).wp L
      (Plain J (·.isStream)) s := by
  unfold resolveReader
  split
  · exact plain_error _ hs
  · next fn _ hfn =>
      have hkind : (On [.invoke, .factory]).ops (.user (.invoke fn) : Op α) :=
        (by decide : OpKind.invoke ∈ [OpKind.invoke, .factory])
      refine Prog.wp_bind.mpr (wp_orThrow.mpr (Prog.wp_perform.mpr
        ⟨hframe.guard _ _ hkind hs, ?_⟩))
      intro r s' ht
      have hs' := hframe.keep _ _ _ _ hkind hs ht
      have hmade := hinvoke _ _ _ _ ht hfn
      cases r with
      | error err => exact plain_error err hs'
      | ok c =>
          have hplain := hmade c rfl
          change (if step.reader.factory then _ else _ : Code α ItemHandler).wp L _ s'
          split
          · exact wp_invokeReaderFactory_plain hframe hfactory c _ hplain hs'
          · refine plain_ok ?_ hs'
            unfold fromLambda
            split
            · rfl
            · split
              · exact hplain
              · rfl
  · exact plain_error _ hs
  · cases hprovided : resolveProviderToken "reader" step.reader context.providerResolvers with
    | error err => exact plain_error err hs
    | ok resolved =>
        have hplain := hproviders resolved hprovided
        change (if step.reader.factory then _ else _ : Code α ItemHandler).wp L _ s
        split
        · exact wp_invokeReaderFactory_plain hframe hfactory resolved _ hplain hs
        · exact plain_ok hplain hs
  · cases resolveMethod "reader" "Reader" step.reader context with
    | error err => exact plain_error err hs
    | ok fn =>
        change (if step.reader.factory then _ else _ : Code α ItemHandler).wp L _ s
        split
        · exact wp_invokeReaderFactory_plain hframe hfactory _ _ rfl hs
        · exact plain_ok rfl hs

end PlainReader

/-- Resolving a handler calls providers only. -/
theorem uses_resolveHandler (hi : .invoke ∈ K) (role Role : String) (ref : Ref)
    (context : ChunkExecutionContext) :
    (resolveHandler role Role ref context : Code α ItemHandler).Uses (On K loops) := by
  unfold resolveHandler
  split
  · trivial
  · exact (uses_orThrow (uses_request hi)).bind fun _ => trivial
  · trivial
  · exact (Prog.uses_ofExcept _).bind fun _ => trivial
  · exact (Prog.uses_ofExcept _).bind fun _ => trivial

/-- Closing streams performs nothing else. -/
theorem uses_closeStreams (h : .closeStream ∈ K) (streams : List Handle) :
    (closeStreams streams : Code α Unit).Uses (On K loops) := by
  unfold closeStreams
  induction streams.reverse with
  | nil => trivial
  | cons stream rest ih => exact (uses_orThrow (uses_request h)).bind fun _ => ih

/-- The counters and the chunk index; what opening the streams leaves alone. -/
structure SameCounters (l l' : Locals) : Prop where
  readCount : l'.readCount = l.readCount
  writeCount : l'.writeCount = l.writeCount
  skipCount : l'.skipCount = l.skipCount
  commitCount : l'.commitCount = l.commitCount
  chunkIndex : l'.chunkIndex = l.chunkIndex

theorem SameCounters.refl (l : Locals) : SameCounters l l := ⟨rfl, rfl, rfl, rfl, rfl⟩

theorem SameCounters.trans (l l' l'' : Locals) (h : SameCounters l l') (h' : SameCounters l' l'') :
    SameCounters l l'' :=
  ⟨h'.readCount.trans h.readCount, h'.writeCount.trans h.writeCount,
    h'.skipCount.trans h.skipCount, h'.commitCount.trans h.commitCount,
    h'.chunkIndex.trans h.chunkIndex⟩

/-- Opening streams leaves the counters alone. -/
theorem keeps_openStreams (h : .openStream ∈ K) (streams : List Handle) :
    (openStreams streams : ChunkCode α Unit).Keeps (On K) SameCounters := by
  induction streams with
  | nil => exact Scoped.keeps_pure SameCounters.refl ()
  | cons stream rest ih =>
      refine Scoped.Keeps.bind SameCounters.trans (Scoped.keeps_get SameCounters.refl) fun l => ?_
      refine Scoped.Keeps.bind SameCounters.trans
        (Scoped.Keeps.lift SameCounters.refl (uses_orThrow (uses_request h))) fun ctx => ?_
      refine Scoped.Keeps.bind SameCounters.trans (Scoped.keeps_modify ?_) fun _ => ih
      exact fun l => ⟨rfl, rfl, rfl, rfl, rfl⟩

/-- Opening one stream, and the others behind it unless it throws. -/
theorem wp_openStreams_cons {L : Prog.Logic (Op α) Op.Resp σ} {stream : Handle} {rest : List Handle}
    {Q : Except Thrown Unit → Locals → σ → Prop} {l : Locals} {s : σ}
    (hguard : L.guard (.user (.openStream stream l.streamContext)) s)
    (hopened : ∀ (answer : Except Thrown ExecutionContext) s',
      L.trans (.user (.openStream stream l.streamContext)) s answer s' →
        match answer with
        | .error err => Q (.error err) l s'
        | .ok ctx => Scoped.wp L (openStreams rest) Q
            { l with streamContext := ctx, openedStreams := l.openedStreams ++ [stream] } s') :
    Scoped.wp L (openStreams (stream :: rest)) Q l s := by
  unfold openStreams
  rw [Scoped.wp_bind, Scoped.wp_get, Scoped.afterwards_ok, Scoped.wp_bind, Scoped.wp_lift]
  refine wp_orThrow.mpr (Prog.wp_perform.mpr ⟨hguard, ?_⟩)
  intro answer s' ht
  have hnext := hopened answer s' ht
  cases answer with
  | error err => exact hnext
  | ok ctx =>
      change Scoped.wp L (_ >>= fun _ => openStreams rest) _ l _
      rw [Scoped.wp_bind, Scoped.wp_modify, Scoped.afterwards_ok]
      exact hnext

/-- Updating streams performs nothing else. -/
theorem uses_updateStreams (h : .updateStream ∈ K) (streams : List Handle)
    (ctx : ExecutionContext) :
    (updateStreams streams ctx : Code α ExecutionContext).Uses (On K loops) := by
  induction streams generalizing ctx with
  | nil => trivial
  | cons stream rest ih => exact (uses_orThrow (uses_request h)).bind fun next => ih next

/-- The kinds of operation that move the checkpoint. -/
def checkpointKinds : List OpKind := [.updateStream, .saveContext, .loadContext]

/-- Moving the checkpoint replaces the stream context, and nothing else. -/
theorem Setting.keeps_checkpoint_of (S : Setting) {R : Locals → Locals → Prop} (hrefl : ∀ l, R l l)
    (htrans : ∀ l l' l'', R l l' → R l' l'' → R l l'')
    (hcontext : ∀ l ctx, R l { l with streamContext := ctx }) :
    (S.checkpoint : ChunkCode α Unit).Keeps (On checkpointKinds) R := by
  have hmodify (ctx : Locals → ExecutionContext) :
      (Scoped.modify fun l => { l with streamContext := ctx l } : ChunkCode α Unit).Keeps
        (On checkpointKinds) R :=
    Scoped.keeps_modify fun l => hcontext l (ctx l)
  refine Scoped.Keeps.bind htrans (hmodify _) fun _ => ?_
  refine Scoped.Keeps.bind htrans (Scoped.keeps_get hrefl) fun l => ?_
  refine Scoped.Keeps.bind htrans (Scoped.Keeps.lift hrefl
    (uses_updateStreams (by decide) _ _)) fun next => ?_
  refine Scoped.Keeps.bind htrans (hmodify fun _ => next) fun _ => ?_
  have hsave : OpKind.saveContext ∈ checkpointKinds := by decide
  have hload : OpKind.loadContext ∈ checkpointKinds := by decide
  refine Scoped.Keeps.bind htrans (Scoped.Keeps.lift hrefl (uses_request hsave)) fun _ => ?_
  refine Scoped.Keeps.bind htrans (Scoped.Keeps.lift hrefl
    (uses_request hload)) fun reloaded => ?_
  exact hmodify fun _ => reloaded

/-- Saving a checkpoint leaves the counters alone. -/
theorem Setting.keeps_checkpoint (S : Setting) :
    (S.checkpoint : ChunkCode α Unit).Keeps (On checkpointKinds) SameCounters :=
  S.keeps_checkpoint_of SameCounters.refl SameCounters.trans
    fun _ _ => ⟨rfl, rfl, rfl, rfl, rfl⟩

/-- What the setting of a step keeps of the arguments of `execute`. -/
structure Setting.For (S : Setting) (step : ChunkStepDefinition) (context : ChunkExecutionContext)
    (policies : Policies) (partition : Option (Int × Int)) : Prop where
  step : S.step = step
  context : S.context = context
  policies : S.policies = policies
  partition : S.partition = partition

/-- The kinds of operation the preparation of a step performs. -/
def prepareKinds : List OpKind := [.invoke, .factory, .loadContext, .openStream]

/-- Resolving a processor calls providers only. -/
theorem uses_resolveProcessorOf (hi : .invoke ∈ K) (step : ChunkStepDefinition)
    (context : ChunkExecutionContext) :
    (resolveProcessorOf step context : Code α (Option ItemHandler)).Uses (On K loops) := by
  unfold resolveProcessorOf
  split
  · trivial
  · exact (uses_resolveHandler hi _ _ _ _).bind fun _ => trivial

/-- What is known of a handler, by the way it is resolved. -/
theorem wp_resolveHandler {L : Prog.Logic (Op α) Op.Resp σ} {J : σ → Prop} {R : ItemHandler → Prop}
    {role Role : String} {ref : Ref} {context : ChunkExecutionContext}
    (hframe : L.Frame (On [.invoke]) J)
    (hinvoke : ∀ fn s (r : Except Thrown Component) s', ref.fn = some fn →
      L.trans (.user (.invoke fn)) s r s' → ∀ c, r = .ok c → R (fromLambda fn c))
    (hprovider : ∀ c, resolveProviderToken role ref context.providerResolvers = .ok c →
      R { target := c.target, isStream := c.isStream })
    (hmethod : ∀ fn, resolveMethod role Role ref context = .ok fn →
      R { target := fn, isStream := false }) {s : σ} (hs : J s) :
    (resolveHandler role Role ref context : Code α ItemHandler).wp L
      (fun out s' => J s' ∧ ∀ handler, out = .ok handler → R handler) s := by
  have hthrow (err : Thrown) {s' : σ} (h : J s') :
      J s' ∧ ∀ handler, Except.error err = .ok handler → R handler := ⟨h, fun _ h => by cases h⟩
  have hok {handler : ItemHandler} {s' : σ} (hR : R handler) (h : J s') :
      J s' ∧ ∀ handler', (Except.ok handler : Except Thrown _) = .ok handler' → R handler' := by
    refine ⟨h, ?_⟩
    intro _ hcase
    cases hcase
    exact hR
  unfold resolveHandler
  split
  · exact hthrow _ hs
  · next fn _ hfn =>
      have hkind : (On [.invoke]).ops (.user (.invoke fn) : Op α) :=
        (by decide : OpKind.invoke ∈ [OpKind.invoke])
      refine Prog.wp_bind.mpr (wp_orThrow.mpr (Prog.wp_perform.mpr
        ⟨hframe.guard _ _ hkind hs, ?_⟩))
      intro r s' ht
      have hs' := hframe.keep _ _ _ _ hkind hs ht
      have hmade := hinvoke fn s r s' hfn ht
      cases r with
      | error err => exact hthrow err hs'
      | ok c => exact hok (hmade c rfl) hs'
  · exact hthrow _ hs
  · cases hresolved : resolveProviderToken role ref context.providerResolvers with
    | error err => exact hthrow err hs
    | ok c => exact hok (hprovider c hresolved) hs
  · cases hresolved : resolveMethod role Role ref context with
    | error err => exact hthrow err hs
    | ok fn => exact hok (hmethod fn hresolved) hs

/-- A step has the processor that it asks for. -/
theorem wp_resolveProcessorOf {L : Prog.Logic (Op α) Op.Resp σ} {J : σ → Prop}
    {step : ChunkStepDefinition} {context : ChunkExecutionContext} (hi : .invoke ∈ K)
    (hframe : L.Frame (On K) J) {s : σ} (hs : J s) :
    (resolveProcessorOf step context : Code α (Option ItemHandler)).wp L (fun out s' => J s' ∧
      ∀ processor, out = .ok processor → (processor = none ↔ step.processor = none)) s := by
  unfold resolveProcessorOf
  cases step.processor with
  | none =>
      refine ⟨hs, ?_⟩
      intro _ hcase
      cases hcase
      exact iff_of_true rfl rfl
  | some ref =>
      refine Prog.wp_seq (Prog.wp_of_uses (uses_resolveHandler hi _ _ _ _) hframe hs) ?_ ?_
      · intro processor s₁ h₁
        refine ⟨h₁, ?_⟩
        intro _ hcase
        cases hcase
        exact iff_of_false (Option.some_ne_none _) (Option.some_ne_none _)
      · intro err s₁ h₁
        exact ⟨h₁, fun _ h => by cases h⟩

/-- **Preparing a step by its stages.**  `J` is kept until the context is there, and `R` known of
the reader and `W` of the writer; the rest is opening the streams. -/
theorem wp_prepare_of_stages {L : Prog.Logic (Op α) Op.Resp σ} {J : σ → Prop}
    {R W : ItemHandler → Prop}
    {step : ChunkStepDefinition} {context : ChunkExecutionContext} {policies : Policies}
    {partition : Option (Int × Int)} {Q : Except Thrown Setting → Locals → σ → Prop} {l : Locals}
    (hi : .invoke ∈ K) (hframe : L.Frame (On K) J) (hthrew : ∀ err s, J s → Q (.error err) l s)
    {s : σ} (hreader : (resolveReader step.reader context step).wp L
      (fun out s' => J s' ∧ ∀ reader, out = .ok reader → R reader) s)
    (hwriter : ∀ s, J s → (resolveWriter step.writer context).wp L
      (fun out s' => J s' ∧ ∀ writer, out = .ok writer → W writer) s)
    (hopening : ∀ s, J s →
      (getExecutionContext (.stepExecutionId context.stepExecutionId) :
        Code α ExecutionContext).wp L (fun out s' => J s' ∧ ∀ ctx, out = .ok ctx →
          ∀ S : Setting, S.For step context policies partition → R S.reader → W S.writer →
            (S.processor = none ↔ step.processor = none) →
            Scoped.wp L (openStreams S.streams) (fun out l' s'' =>
              match out with
              | .ok _ => Q (.ok S) { l' with chunkIndex := S.firstChunk } s''
              | .error err => Q (.error err) l' s'') { l with streamContext := ctx } s') s) :
    Scoped.wp L (prepare step context policies partition) Q l s := by
  unfold prepare
  rw [Scoped.wp_bind, Scoped.wp_lift]
  refine Prog.wp_mono hreader ?_
  intro outcome s₁ hcase
  obtain ⟨h₁, hreader⟩ := hcase
  rcases outcome with err | reader
  · exact hthrew err s₁ h₁
  · rw [Scoped.afterwards_ok, Scoped.wp_bind, Scoped.wp_lift]
    refine Prog.wp_mono (wp_resolveProcessorOf hi hframe h₁) ?_
    intro outcome s₂ hcase
    obtain ⟨h₂, hprocessor⟩ := hcase
    rcases outcome with err | processor
    · exact hthrew err s₂ h₂
    · rw [Scoped.afterwards_ok, Scoped.wp_bind, Scoped.wp_lift]
      refine Prog.wp_mono (hwriter s₂ h₂) ?_
      intro outcome s₃ hcase
      obtain ⟨h₃, hwriter⟩ := hcase
      rcases outcome with err | writer
      · exact hthrew err s₃ h₃
      · rw [Scoped.afterwards_ok, Scoped.wp_bind, Scoped.wp_lift]
        refine Prog.wp_mono (hopening s₃ h₃) ?_
        intro outcome s₄ hcase
        obtain ⟨h₄, hopens⟩ := hcase
        rcases outcome with err | ctx
        · exact hthrew err s₄ h₄
        · rw [Scoped.afterwards_ok, Scoped.wp_bind, Scoped.wp_modify, Scoped.afterwards_ok]
          refine Scoped.wp_seq (hopens ctx rfl _ ⟨rfl, rfl, rfl, rfl⟩ (hreader reader rfl)
            (hwriter writer rfl) (hprocessor processor rfl)) ?_ fun _ _ _ h => h
          intro _ l₅ s₅ h₅
          rw [Scoped.wp_bind, Scoped.wp_modify, Scoped.afterwards_ok]
          exact h₅

/-- The same where nothing is asked of the processor. -/
theorem wp_prepare_of_resolving {L : Prog.Logic (Op α) Op.Resp σ} {J : σ → Prop}
    {R W : ItemHandler → Prop}
    {step : ChunkStepDefinition} {context : ChunkExecutionContext} {policies : Policies}
    {partition : Option (Int × Int)} {Q : Except Thrown Setting → Locals → σ → Prop} {l : Locals}
    (hi : .invoke ∈ K) (hframe : L.Frame (On K) J) (hthrew : ∀ err s, J s → Q (.error err) l s)
    {s : σ} (hreader : (resolveReader step.reader context step).wp L
      (fun out s' => J s' ∧ ∀ reader, out = .ok reader → R reader) s)
    (hwriter : ∀ s, J s → (resolveWriter step.writer context).wp L
      (fun out s' => J s' ∧ ∀ writer, out = .ok writer → W writer) s)
    (hopening : ∀ s, J s →
      (getExecutionContext (.stepExecutionId context.stepExecutionId) :
        Code α ExecutionContext).wp L (fun out s' => J s' ∧ ∀ ctx, out = .ok ctx →
          ∀ S : Setting, S.For step context policies partition → R S.reader → W S.writer →
            Scoped.wp L (openStreams S.streams) (fun out l' s'' =>
              match out with
              | .ok _ => Q (.ok S) { l' with chunkIndex := S.firstChunk } s''
              | .error err => Q (.error err) l' s'') { l with streamContext := ctx } s') s) :
    Scoped.wp L (prepare step context policies partition) Q l s := by
  refine wp_prepare_of_stages hi hframe hthrew hreader hwriter ?_
  intro s hs
  refine Prog.wp_mono (hopening s hs) ?_
  intro out s' h
  obtain ⟨hs', hopens⟩ := h
  exact ⟨hs', fun ctx hctx S hS hR hW _ => hopens ctx hctx S hS hR hW⟩

/-- The same where nothing is asked of the writer. -/
theorem wp_prepare_of_opening {L : Prog.Logic (Op α) Op.Resp σ} {J : σ → Prop}
    {R : ItemHandler → Prop}
    {step : ChunkStepDefinition} {context : ChunkExecutionContext} {policies : Policies}
    {partition : Option (Int × Int)} {Q : Except Thrown Setting → Locals → σ → Prop} {l : Locals}
    (hi : .invoke ∈ K) (hframe : L.Frame (On K) J) (hthrew : ∀ err s, J s → Q (.error err) l s)
    {s : σ} (hreader : (resolveReader step.reader context step).wp L
      (fun out s' => J s' ∧ ∀ reader, out = .ok reader → R reader) s)
    (hopening : ∀ s, J s →
      (getExecutionContext (.stepExecutionId context.stepExecutionId) :
        Code α ExecutionContext).wp L (fun out s' => J s' ∧ ∀ ctx, out = .ok ctx →
          ∀ S : Setting, S.For step context policies partition → R S.reader →
            Scoped.wp L (openStreams S.streams) (fun out l' s'' =>
              match out with
              | .ok _ => Q (.ok S) { l' with chunkIndex := S.firstChunk } s''
              | .error err => Q (.error err) l' s'') { l with streamContext := ctx } s') s) :
    Scoped.wp L (prepare step context policies partition) Q l s := by
  refine wp_prepare_of_resolving (W := fun _ => True) hi hframe hthrew hreader ?_ ?_
  · intro s hs
    exact Prog.wp_mono (Prog.wp_of_uses (uses_resolveHandler hi _ _ _ _) hframe hs)
      fun _ _ h => ⟨h, fun _ _ => trivial⟩
  · intro s hs
    refine Prog.wp_mono (hopening s hs) ?_
    intro out s' hcase
    obtain ⟨hs', hopens⟩ := hcase
    exact ⟨hs', fun ctx hctx S hS hR _ => hopens ctx hctx S hS hR⟩

/-- The preparation keeps what its operations keep, and places the chunk index;
what is known of the reader it resolves is known of the one the loop reads. -/
theorem wp_prepare {L : Prog.Logic (Op α) Op.Resp σ} {J : σ → Prop} {R : ItemHandler → Prop}
    {step : ChunkStepDefinition} {context : ChunkExecutionContext} {policies : Policies}
    {partition : Option (Int × Int)} (hframe : L.Frame (On prepareKinds) J)
    {s : σ} (hreader : (resolveReader step.reader context step).wp L
      (fun out s' => J s' ∧ ∀ reader, out = .ok reader → R reader) s) :
    Scoped.wp L (prepare step context policies partition) (fun out l' s' => J s' ∧
      ∀ S, out = .ok S → S.For step context policies partition ∧ R S.reader ∧
        SameCounters { chunkIndex := S.firstChunk } l') {} s := by
  have hload : OpKind.loadContext ∈ prepareKinds := by decide
  have hfail {e : Thrown} {l : Locals} {s : σ} (h : J s) :
      J s ∧ ∀ S : Setting, Except.error e = .ok S → S.For step context policies partition ∧
        R S.reader ∧ SameCounters { chunkIndex := S.firstChunk } l :=
    ⟨h, fun _ h => by cases h⟩
  refine wp_prepare_of_opening (by decide) hframe (fun _ _ h => hfail h) hreader ?_
  intro s₃ h₃
  refine Prog.wp_mono (Prog.wp_of_uses (uses_request hload) hframe h₃) ?_
  intro out s₄ h₄
  refine ⟨h₄, ?_⟩
  intro ctx hctx S hS hknown
  refine Scoped.wp_mono (Scoped.wp_of_keeps (keeps_openStreams (by decide) _) hframe h₄) ?_
  intro out l₅ s₅ h₅
  cases out with
  | error err => exact hfail h₅.2
  | ok u =>
      refine ⟨h₅.2, ?_⟩
      intro S' hS'
      cases hS'
      have hl := h₅.1
      exact ⟨hS, hknown, hl.readCount, hl.writeCount, hl.skipCount, hl.commitCount, rfl⟩

/-- The kinds of operation that close a step. -/
def closingKinds : List OpKind := [.closeStream, .listener, .afterStep]

/-- `after:step` listeners keep `D` of a result. -/
def KeepsResult (L : Prog.Logic (Op α) Op.Resp σ) (D : StepResult → Prop) : Prop :=
  ∀ fn ctx result s r s', L.trans (.user (.afterStep fn ctx result)) s r s' → D result →
    D (Prod.snd (r : Except Thrown Unit × StepResult))

section Closing

variable {L : Prog.Logic (Op α) Op.Resp σ} {A C : σ → Prop} {D : StepResult → Prop}
  {step : ChunkStepDefinition} {context : ChunkExecutionContext}

/-- `afterStep` listeners may replace the result, within what is kept of it. -/
theorem wp_invokeAfterStep (hclosing : L.Frame (On closingKinds) A) (hkeep : KeepsResult L D)
    (ctx : ListenerContext) (resolvers : ResolverMap) {result : StepResult} {s : σ}
    (hD : D result) (hs : A s) :
    (invokeAfterStep ctx resolvers result : Code α StepResult).wp L
      (fun out s' => A s' ∧ ∀ result', out = .ok result' → D result') s := by
  induction resolvers generalizing result s with
  | nil =>
      refine ⟨hs, ?_⟩
      intro result' h
      cases h
      exact hD
  | cons e rest ih =>
      unfold invokeAfterStep
      split
      · have hkind : (On closingKinds).ops (.user (.afterStep e.2.fn ctx result) : Op α) :=
          (by decide : OpKind.afterStep ∈ closingKinds)
        refine Prog.wp_bind.mpr (Prog.wp_perform.mpr ⟨hclosing.guard _ _ hkind hs, ?_⟩)
        intro r s₁ ht
        have hs₁ : A s₁ := hclosing.keep _ _ _ _ hkind hs ht
        have hD₁ := hkeep _ _ _ _ _ _ ht hD
        refine Prog.wp_seq (Prog.wp_of_uses (uses_settle (K := closingKinds) _ _) hclosing hs₁) ?_
          fun _ _ h => ⟨h, fun _ h => by cases h⟩
        intro _ s₂ hs₂
        exact ih hD₁ hs₂
      · exact ih hD hs

/-- The `catch` block ends in `A`, with a result the listeners keep. -/
theorem wp_onFailure (hclosing : L.Frame (On closingKinds) A) (hkeep : KeepsResult L D)
    (hfailed : ∀ result, result.status = .FAILED → D result) (err : Thrown) (l : Locals) {s : σ}
    (hs : A s) :
    (onFailure step context err l : Code α StepResult).wp L
      (fun out s' => A s' ∧ ∀ result, out = .ok result → D result) s := by
  have hthrow {e : Thrown} {s' : σ} (h : A s') :
      A s' ∧ ∀ result, (Except.error e : Except Thrown StepResult) = .ok result → D result :=
    ⟨h, fun _ h => by cases h⟩
  refine Prog.wp_seq (Prog.wp_of_uses (Prog.Uses.attempt (uses_closeStreams (by decide) _))
    hclosing hs) ?_ fun _ _ h => hthrow h
  intro closed s₁ hs₁
  refine Prog.wp_seq (Prog.wp_of_uses (uses_invokeMatching (by decide) _ _ _) hclosing hs₁) ?_
    fun _ _ h => hthrow h
  intro _ s₂ hs₂
  refine Prog.wp_seq (Prog.wp_of_uses (Prog.uses_ofExcept _) hclosing hs₂) ?_ fun _ _ h => hthrow h
  intro exitMessage s₃ hs₃
  refine Prog.wp_seq (Prog.wp_of_uses (uses_invokeMatching (by decide) _ _ _) hclosing hs₃) ?_
    fun _ _ h => hthrow h
  intro _ s₄ hs₄
  exact wp_invokeAfterStep hclosing hkeep _ _ (hfailed _ rfl) hs₄

/-- The loop and what closes a step, behind a preparation that leaves the loop what it needs. -/
theorem wp_body_of_prepare {fuel : Nat} {policies : Policies} {partition : Option (Int × Int)}
    (hclosing : L.Frame (On closingKinds) C) (hended : ∀ s, C s → A s) {s : σ}
    (hprepare : Scoped.wp L (prepare step context policies partition) (fun out l s' =>
      match out with
      | .ok S => Scoped.wp L (S.chunkLoop fuel)
          (fun out _ s' => A s' ∧ (out = .ok () → C s')) l s'
      | .error _ => A s') {} s) :
    Scoped.wp L (body fuel step context policies partition : ChunkCode α StepResult)
      (fun out _ s' => A s' ∧ ∀ result, out = .ok result → C s') {} s := by
  have hthrow {e : Thrown} {s' : σ} (h : A s') :
      A s' ∧ ∀ result, (Except.error e : Except Thrown StepResult) = .ok result → C s' :=
    ⟨h, fun _ h => by cases h⟩
  refine Scoped.wp_seq hprepare ?_ fun _ _ _ h => hthrow h
  intro S l₁ s₁ hloop
  refine Scoped.wp_seq hloop ?_ fun _ _ _ h => hthrow h.1
  intro _ l₂ s₂ h₂
  rw [Scoped.wp_bind, Scoped.wp_get, Scoped.afterwards_ok, Scoped.wp_bind, Scoped.wp_modify,
    Scoped.afterwards_ok]
  refine Scoped.wp_seq (Scoped.wp_lift_of_uses (uses_closeStreams (by decide) _) hclosing
    (h₂.2 rfl)) ?_ fun _ _ s' h => hthrow (hended s' h.2)
  intro _ l₃ s₃ h₃
  refine Scoped.wp_mono (Scoped.wp_lift_of_uses
    (ListenerInvoker.uses_invokeAfterStep (by decide) _ _ _) hclosing h₃.2) ?_
  intro out l₄ s₄ h₄
  exact ⟨hended s₄ h₄.2, fun _ _ => h₄.2⟩

/-- A step around its body: what comes out is from behind the loop, or what the
listeners make of a failure. -/
theorem wp_execute_of_body {J : σ → Prop} {fuel : Nat} (hbefore : L.Frame (On [.listener]) J)
    (hclosing : L.Frame (On closingKinds) A) (hweaken : ∀ s, J s → A s) (hkeep : KeepsResult L D)
    (hfailed : ∀ result, result.status = .FAILED → D result)
    (hbody : ∀ policies partition s, Policies.compile step = .ok policies →
      resolveRange step context = .ok partition → J s →
        Scoped.wp L (body fuel step context policies partition : ChunkCode α StepResult)
          (fun out _ s' => A s' ∧ ∀ result, out = .ok result → C s') {} s) {s : σ} (hs : J s) :
    (execute fuel step context : Code α StepResult).wp L (fun out s' => A s' ∧
      ∀ result, out = .ok result → C s' ∨ D result) s := by
  have hthrow {e : Thrown} {s' : σ} (h : A s') : A s' ∧
      ∀ result, (Except.error e : Except Thrown StepResult) = .ok result → C s' ∨ D result :=
    ⟨h, fun _ h => by cases h⟩
  refine Prog.wp_bind.mpr ((Prog.wp_ofExcept _).mpr ?_)
  cases hpolicies : Policies.compile step with
  | error err => exact hthrow (hweaken s hs)
  | ok policies =>
      refine Prog.wp_bind.mpr ((Prog.wp_ofExcept _).mpr ?_)
      cases hpartition : resolveRange step context with
      | error err => exact hthrow (hweaken s hs)
      | ok partition =>
          refine Prog.wp_seq (Prog.wp_of_uses (uses_invokeMatching (by decide) _ _ _) hbefore hs)
            ?_ fun _ s' h => hthrow (hweaken s' h)
          intro _ s₁ hs₁
          refine Prog.wp_seq (hbody policies partition s₁ hpolicies hpartition hs₁) ?_
            fun _ _ h => h.elim
          intro outcome s₂ h₂
          obtain ⟨err | result, l⟩ := outcome
          · refine Prog.wp_mono (wp_onFailure hclosing hkeep hfailed err l h₂.1) ?_
            intro out s₃ h₃
            exact ⟨h₃.1, fun result h => .inr (h₃.2 result h)⟩
          · exact ⟨h₂.1, fun result' h => .inl (h₂.2 result rfl)⟩

end Closing

section Result

variable {L : Prog.Logic (Op α) Op.Resp σ} {J : σ → Prop} {C : StepResult → σ → Prop}
  {step : ChunkStepDefinition} {context : ChunkExecutionContext} {fuel : Nat}

/-- What a step may end with: a result of which `C` holds. -/
def EndsWith (C : StepResult → σ → Prop) (out : Except Thrown StepResult) (s : σ) : Prop :=
  ∀ result, out = .ok result → C result s

theorem endsWith_error (err : Thrown) (s : σ) : EndsWith C (.error err) s :=
  fun _ h => by cases h

theorem endsWith_ok {result : StepResult} {s : σ} (h : C result s) : EndsWith C (.ok result) s := by
  intro result' heq
  cases heq
  exact h

variable (hclosing : ∀ result, L.Frame (On closingKinds) (C result))
  (hkeep : ∀ fn ctx result s r s', L.trans (.user (.afterStep fn ctx result)) s r s' →
    C result s' → C (Prod.snd (r : Except Thrown Unit × StepResult)) s')

include hclosing hkeep in
/-- `after:step` listeners leave what is said of a result true of the one they hand on. -/
theorem wp_invokeAfterStep_result (ctx : ListenerContext) (resolvers : ResolverMap)
    {result : StepResult} {s : σ} (hs : C result s) :
    (invokeAfterStep ctx resolvers result : Code α StepResult).wp L (EndsWith C) s := by
  induction resolvers generalizing result s with
  | nil => exact endsWith_ok hs
  | cons e rest ih =>
      unfold invokeAfterStep
      split
      · have hkind : (On closingKinds).ops (.user (.afterStep e.2.fn ctx result) : Op α) :=
          (by decide : OpKind.afterStep ∈ closingKinds)
        refine Prog.wp_bind.mpr (Prog.wp_perform.mpr ⟨(hclosing result).guard _ _ hkind hs, ?_⟩)
        intro r s₁ ht
        have hs₁ := hkeep _ _ _ _ _ _ ht ((hclosing result).keep _ _ _ _ hkind hs ht)
        refine Prog.wp_seq (Prog.wp_of_uses (uses_settle (K := closingKinds) _ _)
          (hclosing _) hs₁) ?_ fun err s' _ => endsWith_error err s'
        intro _ s₂ hs₂
        exact ih hs₂
      · exact ih hs

include hclosing hkeep in
/-- The `catch` block ends with a failure. -/
theorem wp_onFailure_result
    (hfailed : ∀ (l : Locals) exitMessage s, C (l.result .FAILED "FAILED" exitMessage) s)
    (err : Thrown) (l : Locals) (s : σ) :
    (onFailure step context err l : Code α StepResult).wp L (EndsWith C) s := by
  have hframe : L.Frame (On closingKinds) (fun _ => True) :=
    ⟨fun o s ho _ => (hclosing (l.result .FAILED "FAILED" "")).guard o s ho (hfailed l "" s),
      fun _ _ _ _ _ _ _ => trivial, fun h => h.elim⟩
  have hquiet (kind : ListenerKind) (ctx : ListenerContext) (e : Thrown) :
      (invokeOnError context.listenerResolvers kind ctx e : Code α Unit).Uses (On closingKinds) :=
    uses_invokeMatching (by decide) _ _ _
  refine Prog.wp_seq (Prog.wp_of_uses (Prog.Uses.attempt (uses_closeStreams (by decide) _)) hframe
    trivial) ?_ fun err s' _ => endsWith_error err s'
  intro closed s₁ _
  refine Prog.wp_seq (Prog.wp_of_uses (hquiet _ _ _) hframe trivial) ?_
    fun err s' _ => endsWith_error err s'
  intro _ s₂ _
  refine Prog.wp_seq (Prog.wp_of_uses (Prog.uses_ofExcept _) hframe trivial) ?_
    fun err s' _ => endsWith_error err s'
  intro exitMessage s₃ _
  refine Prog.wp_seq (Prog.wp_of_uses (hquiet _ _ _) hframe trivial) ?_
    fun err s' _ => endsWith_error err s'
  intro _ s₄ _
  exact wp_invokeAfterStep_result hclosing hkeep _ _ (hfailed l exitMessage s₄)

include hclosing hkeep in
/-- The `try` block ends with the counters its loop leaves. -/
theorem wp_body_result (hpreparing : L.Frame (On prepareKinds) J) {policies : Policies}
    {partition : Option (Int × Int)}
    (hloop : ∀ (S : Setting) l s, S.For step context policies partition →
      SameCounters { chunkIndex := S.firstChunk } l → J s → Scoped.wp L (S.chunkLoop fuel)
        (fun out l' s' => out = .ok () → C (l'.result .COMPLETED "COMPLETED" "") s') l s)
    {s : σ} (hs : J s) :
    Scoped.wp L (body fuel step context policies partition : ChunkCode α StepResult)
      (fun out _ => EndsWith C out) {} s := by
  have hreader : (resolveReader step.reader context step : Code α ItemHandler).wp L
      (fun out s' => J s' ∧ ∀ reader, out = .ok reader → True) s :=
    Prog.wp_mono (Prog.wp_of_uses (uses_resolveReader (by decide) (by decide) _ _ _) hpreparing hs)
      fun _ _ h => ⟨h, fun _ _ => trivial⟩
  refine Scoped.wp_seq (wp_prepare hpreparing hreader) ?_ fun err _ s' _ => endsWith_error err s'
  intro S l₁ s₁ h₁
  obtain ⟨hS, -, hl⟩ := h₁.2 S rfl
  refine Scoped.wp_seq (hloop S l₁ s₁ hS hl h₁.1) ?_ fun err _ s' _ => endsWith_error err s'
  intro _ l₂ s₂ hend
  rw [Scoped.wp_bind, Scoped.wp_get, Scoped.afterwards_ok, Scoped.wp_bind, Scoped.wp_modify,
    Scoped.afterwards_ok]
  refine Scoped.wp_seq (Scoped.wp_lift_of_uses (uses_closeStreams (by decide) _) (hclosing _)
    (hend rfl)) ?_ fun err _ s' _ => endsWith_error err s'
  intro _ l₃ s₃ h₃
  rw [Scoped.wp_lift]
  exact wp_invokeAfterStep_result hclosing hkeep _ _ h₃.2

include hclosing hkeep in
/-- **The result rule.**  What the end of the loop says of the counters, the operations around it
keeping that, is true of the result a step returns. -/
theorem wp_execute_result (hbefore : L.Frame (On [.listener]) J)
    (hpreparing : L.Frame (On prepareKinds) J)
    (hfailed : ∀ (l : Locals) exitMessage s, C (l.result .FAILED "FAILED" exitMessage) s)
    (hloop : ∀ policies partition (S : Setting) l s, Policies.compile step = .ok policies →
      resolveRange step context = .ok partition → S.For step context policies partition →
      SameCounters { chunkIndex := S.firstChunk } l → J s → Scoped.wp L (S.chunkLoop fuel)
        (fun out l' s' => out = .ok () → C (l'.result .COMPLETED "COMPLETED" "") s') l s)
    {s : σ} (hs : J s) :
    (execute fuel step context : Code α StepResult).wp L (EndsWith C) s := by
  refine Prog.wp_bind.mpr ((Prog.wp_ofExcept _).mpr ?_)
  cases hpolicies : Policies.compile step with
  | error err => exact endsWith_error err s
  | ok policies =>
      refine Prog.wp_bind.mpr ((Prog.wp_ofExcept _).mpr ?_)
      cases hpartition : resolveRange step context with
      | error err => exact endsWith_error err s
      | ok partition =>
          refine Prog.wp_seq (Prog.wp_of_uses (uses_invokeMatching (by decide) _ _ _) hbefore hs)
            ?_ fun err s' _ => endsWith_error err s'
          intro _ s₁ hs₁
          have hbody := wp_body_result hclosing hkeep hpreparing
            (fun S l s hS hl h => hloop policies partition S l s hpolicies hpartition hS hl h) hs₁
          refine Prog.wp_seq hbody ?_ fun _ _ h => h.elim
          intro outcome s₂ h₂
          obtain ⟨err | result, l⟩ := outcome
          · exact wp_onFailure_result hclosing hkeep hfailed err l s₂
          · exact h₂

end Result

/-- What a step rule needs to know of the loop: `J` holds before it, `A` after
it, and `C` if it ended rather than threw; `R` is known of the reader. -/
structure StepStates (σ : Type) where
  J : σ → Prop
  A : σ → Prop
  C : σ → Prop
  R : ItemHandler → Prop

namespace StepStates

variable {L : Prog.Logic (Op α) Op.Resp σ} {P : StepStates σ} {step : ChunkStepDefinition}
  {context : ChunkExecutionContext} {fuel : Nat}

/-- The operations around the loop keep the states, and the reader is as said. -/
structure Sound (L : Prog.Logic (Op α) Op.Resp σ) (P : StepStates σ) (step : ChunkStepDefinition)
    (context : ChunkExecutionContext) : Prop where
  before : L.Frame (On [.listener]) P.J
  preparing : L.Frame (On prepareKinds) P.J
  closing : L.Frame (On closingKinds) P.A
  closingC : L.Frame (On closingKinds) P.C
  reader : ∀ s, P.J s → (resolveReader step.reader context step).wp L
    (fun out s' => P.J s' ∧ ∀ reader, out = .ok reader → P.R reader) s
  weaken : ∀ s, P.J s → P.A s
  ended : ∀ s, P.C s → P.A s

/-- The loop takes `J` to `A`, and to `C` when it ends. -/
def Loop (L : Prog.Logic (Op α) Op.Resp σ) (P : StepStates σ) (step : ChunkStepDefinition)
    (context : ChunkExecutionContext) (fuel : Nat) : Prop :=
  ∀ policies partition (S : Setting) l s, Policies.compile step = .ok policies →
    resolveRange step context = .ok partition → S.For step context policies partition →
    P.R S.reader → SameCounters { chunkIndex := S.firstChunk } l → P.J s →
    Scoped.wp L (S.chunkLoop fuel) (fun out _ s' => P.A s' ∧ (out = .ok () → P.C s')) l s

/-- **The body of a step** ends as its states say, once its loop does. -/
theorem wp_body (hP : P.Sound L step context) (hloop : P.Loop L step context fuel)
    {policies : Policies} {partition : Option (Int × Int)}
    (hpolicies : Policies.compile step = .ok policies)
    (hpartition : resolveRange step context = .ok partition) {s : σ} (hs : P.J s) :
    Scoped.wp L (body fuel step context policies partition) (fun out _ s' => P.A s' ∧
      ∀ result, out = .ok result → P.C s') {} s := by
  refine wp_body_of_prepare hP.closingC hP.ended (Scoped.wp_mono
    (wp_prepare hP.preparing (hP.reader s hs)) ?_)
  intro out l₁ s₁ h₁
  cases out with
  | error err => exact hP.weaken s₁ h₁.1
  | ok S =>
      obtain ⟨hS, hR, hl⟩ := h₁.2 S rfl
      exact hloop policies partition S l₁ s₁ hpolicies hpartition hS hR hl h₁.1

/-- **The step rule.**  What holds before the chunk loop and what its exits leave
behind is all a step adds up to: preparing, closing and the step listeners only
frame it.  A step that returns a result outside `D` has come to the end of its
loop. -/
theorem wp_execute (hP : P.Sound L step context) (hloop : P.Loop L step context fuel)
    {D : StepResult → Prop} (hkeep : KeepsResult L D)
    (hfailed : ∀ result, result.status = .FAILED → D result) {s : σ} (hs : P.J s) :
    (execute fuel step context : Code α StepResult).wp L (fun out s' => P.A s' ∧
      ∀ result, out = .ok result → P.C s' ∨ D result) s :=
  wp_execute_of_body hP.before hP.closing hP.weaken hkeep hfailed
    (fun _ _ _ hpolicies hpartition h => wp_body hP hloop hpolicies hpartition h) hs

end StepStates

end Around

end ChunkStepExecutor

end NestBatch
