import Mathlib.Algebra.GroupWithZero.Nat
import NestBatch.Core.JobBuilder

/-!
# The flow builder

`FlowBuilder` builds one transition and checks every call of the chain.
`JobBuilder` offers the same chain on a builder for the whole job and checks
less: what it makes of a sequence of calls is compared with what `FlowBuilder`
makes of each of its chains.
-/

namespace NestBatch

/-- A call of the chain `from`, `on`, `to` or `end`. -/
inductive FlowCall
  | fromStep (stepId : String)
  | on (status : String)
  | to (stepId : String)
  | endFlow

/-- A transition under construction; an unset field is `none`. -/
structure FlowBuilder where
  fromStepId : Option String := none
  onStatus : Option String := none
  toStepId : Option (Option String) := none
  committed : Bool := false

namespace FlowBuilder

/-- What every method of a committed builder throws. -/
def alreadyCommitted : Thrown := .error "FlowBuilder already committed; create a new instance"

/-- `from`. -/
def fromStep (b : FlowBuilder) (stepId : String) : Except Thrown FlowBuilder :=
  if b.committed then .error alreadyCommitted
  else .ok { b with fromStepId := some stepId }

/-- `on` needs a `fromStep` before it and no commit. -/
def on (b : FlowBuilder) (status : String) : Except Thrown FlowBuilder :=
  if b.committed then .error alreadyCommitted
  else if b.fromStepId = none then
    .error (.error "FlowBuilder: call .from(stepId) before .on(status)")
  else .ok { b with onStatus := some status }

/-- `to` and `end`: the target is set and the builder committed. -/
def finish (b : FlowBuilder) (toStepId : Option String) (message : String) :
    Except Thrown FlowBuilder :=
  if b.committed then .error alreadyCommitted
  else if b.fromStepId = none ∨ b.onStatus = none then .error (.error message)
  else .ok { b with toStepId := some toStepId, committed := true }

/-- One call of the chain. -/
def call (b : FlowBuilder) : FlowCall → Except Thrown FlowBuilder
  | .fromStep stepId => b.fromStep stepId
  | .on status => b.on status
  | .to stepId => b.finish (some stepId) "FlowBuilder: call .from() and .on() before .to()"
  | .endFlow => b.finish none "FlowBuilder: call .from() and .on() before .end()"

/-- `build` needs a committed transition. -/
def build (b : FlowBuilder) : Except Thrown TransitionDefinition :=
  if b.committed = false then
    .error (.error "FlowBuilder: must be committed via .to() or .end()")
  else
    match b.fromStepId, b.onStatus, b.toStepId with
    | none, _, _ => .error (.error "FlowBuilder: missing .from(stepId)")
    | some _, none, _ => .error (.error "FlowBuilder: missing .on(status)")
    | some _, some _, none => .error (.error "FlowBuilder: missing .to(stepId) or .end()")
    | some fromStepId, some onStatus, some toStepId => .ok { fromStepId, onStatus, toStepId }

/-- What a new builder makes of a chain. -/
def produce (chain : List FlowCall) : Except Thrown TransitionDefinition := do
  let b ← chain.foldlM call {}
  b.build

end FlowBuilder

/-! ### The chains of a sequence of calls -/

/-- The number of transitions a call brings about. -/
def BuilderCall.transitionCount : BuilderCall → Nat
  | .toStep _ => 1
  | .endFlow => 1
  | .useFlow transitions _ => transitions.length
  | _ => 0

/-- The transitions that calls stand for: each chain of them as `FlowBuilder` produces it.  A chain
starts anew at every `from` and behind every `to` and `end`; `chain` is the one at hand. -/
def produced (chain : List FlowCall) : List BuilderCall → Except Thrown (List TransitionDefinition)
  | [] => if chain.isEmpty then .ok [] else (FlowBuilder.produce chain).map ([·])
  | .fromStep stepId :: rest =>
      if chain.isEmpty then produced [.fromStep stepId] rest
      else do
        let t ← FlowBuilder.produce chain
        (produced [.fromStep stepId] rest).map (t :: ·)
  | .onStatus status :: rest => produced (chain ++ [.on status]) rest
  | .toStep stepId :: rest => do
      let t ← FlowBuilder.produce (chain ++ [.to stepId])
      (produced [] rest).map (t :: ·)
  | .endFlow :: rest => do
      let t ← FlowBuilder.produce (chain ++ [.endFlow])
      (produced [] rest).map (t :: ·)
  | .useFlow transitions _ :: rest => (produced chain rest).map (transitions ++ ·)
  | _ :: rest => produced chain rest

namespace JobBuilder

/-- What a new builder makes of some calls. -/
def buildCalls (id : String) (calls : List BuilderCall) : Except Thrown JobBuilderConfig := do
  let b ← calls.foldlM JobBuilder.call (JobBuilder.create id)
  b.build

/-- The transitions of a configuration are those of the chains, one for each `to` and `end`. -/
structure KeepsTransitions (calls : List BuilderCall) (config : JobBuilderConfig) : Prop where
  chains : produced [] calls = .ok config.transitions
  length : config.transitions.length = (calls.map BuilderCall.transitionCount).sum

/-- **Nothing is lost**: some call throws, or what is built has the transitions of the chains. -/
def LosesNothing (id : String) (calls : List BuilderCall) : Prop :=
  ∀ config, buildCalls id calls = .ok config → KeepsTransitions calls config

end JobBuilder

/-! ### Which calls complete their chains -/

/-- The step a chain has been started from, behind one more call. -/
def openBehind (started : Option String) : BuilderCall → Option String
  | .fromStep stepId => some stepId
  | .toStep _ => none
  | .endFlow => none
  | _ => started

/-- The call throws where a chain has been started from `started`, or none has. -/
def Refused (started : Option String) : BuilderCall → Prop
  | .onStatus _ => started.getD "" = ""
  | .toStep _ => started = none
  | .endFlow => started = none
  | .addStep (.callback (.error _)) => True
  | _ => False

/-- Some of the calls throws. -/
def RefusedIn (started : Option String) (calls : List BuilderCall) : Prop :=
  ∃ before c after, calls = before ++ c :: after ∧ Refused (before.foldl openBehind started) c

/-- The next calls of the chain are an `on`, unless it had one, and then `to` or `end`. -/
def completes (hasStatus : Bool) : List BuilderCall → Bool
  | [] => false
  | .fromStep _ :: _ => false
  | .onStatus _ :: rest => completes true rest
  | .toStep _ :: _ => hasStatus
  | .endFlow :: _ => hasStatus
  | _ :: rest => completes hasStatus rest

/-- Every chain is completed before the next one starts. -/
def AllCompleted (calls : List BuilderCall) : Prop :=
  ∀ before stepId after, calls = before ++ .fromStep stepId :: after → completes false after = true

theorem refusedIn_nil (started : Option String) : ¬ RefusedIn started [] := by
  intro h
  obtain ⟨before, c, after, heq, -⟩ := h
  cases before <;> cases heq

theorem refusedIn_cons {started : Option String} {c : BuilderCall} {calls : List BuilderCall} :
    RefusedIn started (c :: calls) ↔
      Refused started c ∨ RefusedIn (openBehind started c) calls := by
  constructor
  · intro h
    obtain ⟨before, c', after, heq, hrefused⟩ := h
    cases before with
    | nil =>
        cases heq
        exact Or.inl hrefused
    | cons d before =>
        obtain ⟨rfl, rfl⟩ := List.cons.inj heq
        exact Or.inr ⟨before, c', after, rfl, hrefused⟩
  · intro hcase
    rcases hcase with hrefused | ⟨before, c', after, rfl, hrefused⟩
    · exact ⟨[], c, calls, rfl, hrefused⟩
    · exact ⟨c :: before, c', after, rfl, hrefused⟩

theorem allCompleted_nil : AllCompleted [] := by
  intro before stepId after heq
  cases before <;> cases heq

theorem allCompleted_cons {c : BuilderCall} {calls : List BuilderCall} :
    AllCompleted (c :: calls) ↔
      (∀ stepId, c = .fromStep stepId → completes false calls = true) ∧ AllCompleted calls := by
  constructor
  · intro h
    refine ⟨fun stepId hc => h [] stepId calls (by rw [hc]; rfl), ?_⟩
    intro before stepId after heq
    exact h (c :: before) stepId after (by rw [heq]; rfl)
  · intro hcase before stepId after heq
    obtain ⟨hfirst, hrest⟩ := hcase
    cases before with
    | nil =>
        obtain ⟨rfl, rfl⟩ := List.cons.inj heq
        exact hfirst stepId rfl
    | cons d before =>
        obtain ⟨rfl, rfl⟩ := List.cons.inj heq
        exact hrest before stepId after rfl

/-! ### What becomes of a chain -/

/-- Where a builder is in a chain. -/
inductive ChainStage
  | idle
  | started (stepId : String)
  | ready (stepId status : String) (named : stepId ≠ "")

namespace ChainStage

def current : ChainStage → Option CurrentTransition
  | .idle => none
  | .started stepId => some { fromStepId := some stepId }
  | .ready stepId status _ => some { fromStepId := some stepId, onStatus := some status }

def stepId? : ChainStage → Option String
  | .idle => none
  | .started stepId => some stepId
  | .ready stepId _ _ => some stepId

/-- The stage behind an `on`. -/
def named (stepId status : String) : ChainStage :=
  if h : stepId = "" then .idle else .ready stepId status h

/-- The stage behind a call that does not throw. -/
def next (st : ChainStage) : BuilderCall → ChainStage
  | .fromStep stepId => .started stepId
  | .onStatus status => named (st.stepId?.getD "") status
  | .toStep _ => .idle
  | .endFlow => .idle
  | _ => st

/-- The transition a call that ends the chain writes. -/
def finished (toStepId : Option String) : ChainStage → List TransitionDefinition
  | .ready stepId status _ => [{ fromStepId := stepId, onStatus := status, toStepId := toStepId }]
  | _ => []

/-- The transitions a call writes. -/
def written (st : ChainStage) : BuilderCall → List TransitionDefinition
  | .toStep stepId => st.finished (some stepId)
  | .endFlow => st.finished none
  | .useFlow transitions _ => transitions
  | _ => []

/-- What the rest of the calls has to be for no chain to be cut. -/
def Completed (calls : List BuilderCall) : ChainStage → Prop
  | .idle => AllCompleted calls
  | .started _ => completes false calls = true ∧ AllCompleted calls
  | .ready _ _ _ => completes true calls = true ∧ AllCompleted calls

/-- A chain that leads `FlowBuilder` to the stage. -/
def Follows (chain : List FlowCall) : ChainStage → Prop
  | .idle => chain = []
  | .started stepId =>
      chain ≠ [] ∧ chain.foldlM FlowBuilder.call {} = .ok { fromStepId := some stepId }
  | .ready stepId status _ =>
      chain ≠ [] ∧ chain.foldlM FlowBuilder.call {} =
        .ok { fromStepId := some stepId, onStatus := some status }

variable {st : ChainStage} {b : JobBuilder} {c : BuilderCall} {chain : List FlowCall}
  {calls : List BuilderCall}

/-- An accepted call opens what the chain's next stage opens. -/
theorem openBehind_stepId? (hc : ¬ Refused st.stepId? c) :
    openBehind st.stepId? c = (st.next c).stepId? := by
  cases c with
  | onStatus status =>
      have hne : st.stepId?.getD "" ≠ "" := hc
      rw [next, named, dif_neg hne]
      cases st with
      | idle => exact absurd rfl hne
      | started stepId => rfl
      | ready stepId status' h => rfl
  | _ => rfl

/-- Finishing needs an open transition and closes it. -/
theorem finish_cases (hb : b.currentTransition = st.current) (toStepId : Option String)
    (message : String) :
    (st.stepId? = none ∧ b.finish toStepId message = .error (.error message)) ∨
      (st.stepId? ≠ none ∧ ∃ b₁, b.finish toStepId message = .ok b₁ ∧
        b₁.currentTransition = none ∧ b₁.transitions = b.transitions ++ st.finished toStepId) := by
  unfold JobBuilder.finish
  rw [hb]
  cases st with
  | idle => exact Or.inl ⟨rfl, rfl⟩
  | started stepId =>
      refine Or.inr ⟨by simp [stepId?], _, rfl, rfl, ?_⟩
      simp [JobBuilder.commitTransition, finished]
  | ready stepId status h =>
      refine Or.inr ⟨by simp [stepId?], _, rfl, ?_, ?_⟩
      · simp [JobBuilder.commitTransition, h]
      · simp [JobBuilder.commitTransition, finished, h]

/-- **One call of the builder**: it throws where it is refused, and else leads to the next stage. -/
theorem call_cases (hb : b.currentTransition = st.current) (c : BuilderCall) :
    (Refused st.stepId? c ∧ ∃ err, b.call c = .error err) ∨
      (¬ Refused st.stepId? c ∧ ∃ b₁, b.call c = .ok b₁ ∧
        b₁.currentTransition = (st.next c).current ∧
        b₁.transitions = b.transitions ++ st.written c) := by
  cases c with
  | fromStep stepId =>
      have hopen : (b.currentTransition.any fun t => t.onStatus.isSome && t.toStepId.isSome)
          = false := by
        rw [hb]
        cases st <;> rfl
      refine Or.inr ⟨fun h => h, _, rfl, rfl, ?_⟩
      rw [JobBuilder.fromStep, hopen]
      exact (List.append_nil _).symm
  | onStatus status =>
      by_cases hid : st.stepId?.getD "" = ""
      · refine Or.inl ⟨hid, ?_⟩
        rw [JobBuilder.call, JobBuilder.on, hb]
        cases st with
        | idle => exact ⟨_, rfl⟩
        | started stepId => exact ⟨_, if_pos hid⟩
        | ready stepId status' h => exact absurd hid h
      · refine Or.inr ⟨hid, ?_⟩
        rw [JobBuilder.call, JobBuilder.on, hb, next, named, dif_neg hid]
        cases st with
        | idle => exact absurd rfl hid
        | started stepId => exact ⟨_, if_neg hid, rfl, (List.append_nil _).symm⟩
        | ready stepId status' h => exact ⟨_, if_neg hid, rfl, (List.append_nil _).symm⟩
  | toStep stepId =>
      rcases finish_cases hb (some stepId) "Use .from(stepId) before .to(stepId)" with
        ⟨hnone, herr⟩ | ⟨hsome, b₁, hok, hcurrent, hwritten⟩
      · exact Or.inl ⟨hnone, _, herr⟩
      · exact Or.inr ⟨hsome, b₁, hok, hcurrent, hwritten⟩
  | endFlow =>
      rcases finish_cases hb none "Use .from(stepId) before .end()" with
        ⟨hnone, herr⟩ | ⟨hsome, b₁, hok, hcurrent, hwritten⟩
      · exact Or.inl ⟨hnone, _, herr⟩
      · exact Or.inr ⟨hsome, b₁, hok, hcurrent, hwritten⟩
  | addStep step =>
      cases step with
      | literal step => exact Or.inr ⟨fun h => h, _, rfl, hb, (List.append_nil _).symm⟩
      | callback built =>
          cases built with
          | error err => exact Or.inl ⟨trivial, err, rfl⟩
          | ok step => exact Or.inr ⟨fun h => h, _, rfl, hb, (List.append_nil _).symm⟩
  | useFlow transitions deciders => exact Or.inr ⟨fun h => h, _, rfl, hb, rfl⟩
  | restartable value | allowDuplicateInstances value | addListener value =>
      exact Or.inr ⟨fun h => h, _, rfl, hb, (List.append_nil _).symm⟩
  | addDecider afterStepId decide =>
      exact Or.inr ⟨fun h => h, _, rfl, hb, (List.append_nil _).symm⟩

/-- `FlowBuilder` on a chain of one call more. -/
theorem produce_concat (chain : List FlowCall) (call : FlowCall) :
    FlowBuilder.produce (chain ++ [call]) = (do
      let fb ← chain.foldlM FlowBuilder.call {}
      let fb' ← fb.call call
      fb'.build) := by
  simp only [FlowBuilder.produce, List.foldlM_append, List.foldlM_cons, List.foldlM_nil,
    bind_pure, bind_assoc]

theorem foldlM_concat {fb fb' : FlowBuilder} {call : FlowCall}
    (hchain : chain.foldlM FlowBuilder.call {} = .ok fb) (hcall : fb.call call = .ok fb') :
    (chain ++ [call]).foldlM FlowBuilder.call {} = .ok fb' := by
  rw [List.foldlM_append, hchain]
  simp only [List.foldlM_cons, List.foldlM_nil, bind_pure]
  exact hcall

/-- `FlowBuilder` rejects a chain that has not been ended. -/
theorem produce_open (hchain : st.Follows chain) (hst : st ≠ .idle) :
    chain.isEmpty = false ∧ ∃ err, FlowBuilder.produce chain = .error err := by
  unfold FlowBuilder.produce
  cases st with
  | idle => exact absurd rfl hst
  | started stepId =>
      rw [hchain.2]
      exact ⟨by simpa using hchain.1, _, rfl⟩
  | ready stepId status h =>
      rw [hchain.2]
      exact ⟨by simpa using hchain.1, _, rfl⟩

/-- What `FlowBuilder` makes of a chain that is ended: it asks for a step and a status. -/
theorem produce_ended (hchain : st.Follows chain) (hst : st ≠ .idle) {call : FlowCall}
    {toStepId : Option String} {message : String}
    (hcall : ∀ fb : FlowBuilder, fb.call call = fb.finish toStepId message) :
    ((∃ stepId, st = .started stepId) ∧
        ∃ err, FlowBuilder.produce (chain ++ [call]) = .error err) ∨
      ∃ stepId status named t, st = .ready stepId status named ∧ st.finished toStepId = [t] ∧
        FlowBuilder.produce (chain ++ [call]) = .ok t := by
  rw [produce_concat]
  simp only [hcall]
  cases st with
  | idle => exact absurd rfl hst
  | started stepId =>
      rw [hchain.2]
      exact Or.inl ⟨⟨stepId, rfl⟩, _, rfl⟩
  | ready stepId status named =>
      rw [hchain.2]
      exact Or.inr ⟨stepId, status, named, _, rfl, rfl, rfl⟩

/-- Calls other than `from` leave to the rest what is asked of the chains behind them. -/
theorem allCompleted_cons_of_ne (hc : ∀ stepId, c ≠ .fromStep stepId) :
    AllCompleted (c :: calls) ↔ AllCompleted calls := by
  rw [allCompleted_cons]
  exact ⟨fun h => h.2, fun h => ⟨fun stepId heq => absurd heq (hc stepId), h⟩⟩

/-- A call that is none of a chain changes nothing in what the chain at hand needs. -/
theorem completed_cons_of_plain (hc : ∀ stepId, c ≠ .fromStep stepId)
    (hplain : ∀ hasStatus, completes hasStatus (c :: calls) = completes hasStatus calls) :
    st.Completed (c :: calls) ↔ st.Completed calls := by
  cases st with
  | idle => exact allCompleted_cons_of_ne hc
  | started stepId | ready stepId status named =>
      rw [Completed, Completed, hplain, allCompleted_cons_of_ne hc]

/-- What a call that ends the chain asks. -/
theorem completed_cons_of_end (hst : st ≠ .idle) (hc : ∀ stepId, c ≠ .fromStep stepId)
    (hend : ∀ hasStatus, completes hasStatus (c :: calls) = hasStatus) :
    st.Completed (c :: calls) ↔ (∀ stepId, st ≠ .started stepId) ∧ AllCompleted calls := by
  cases st with
  | idle => exact absurd rfl hst
  | started stepId =>
      rw [Completed, hend]
      exact ⟨fun h => absurd h.1 Bool.false_ne_true, fun h => absurd rfl (h.1 stepId)⟩
  | ready stepId status named =>
      rw [Completed, hend, allCompleted_cons_of_ne hc]
      exact ⟨fun h => ⟨(by simp), h.2⟩, fun h => ⟨rfl, h.2⟩⟩

/-- **A call that ends the chain**: `FlowBuilder` rejects the chain where it has no status. -/
theorem produced_cases_ended (hchain : st.Follows chain) (hst : st ≠ .idle) {call : FlowCall}
    {toStepId : Option String} {message : String}
    (hcall : ∀ fb : FlowBuilder, fb.call call = fb.finish toStepId message)
    (hcompleted : st.Completed (c :: calls) ↔
      (∀ stepId, st ≠ .started stepId) ∧ AllCompleted calls)
    (hproduced : produced chain (c :: calls) = (do
      let t ← FlowBuilder.produce (chain ++ [call])
      (produced [] calls).map (t :: ·))) :
    (¬ st.Completed (c :: calls) ∧ ∃ err, produced chain (c :: calls) = .error err) ∨
      ((st.Completed (c :: calls) ↔ AllCompleted calls) ∧
        produced chain (c :: calls) = (produced [] calls).map (st.finished toStepId ++ ·) ∧
        (st.finished toStepId).length = 1) := by
  rw [hcompleted, hproduced]
  rcases produce_ended hchain hst hcall with
    ⟨⟨stepId, rfl⟩, err, herr⟩ | ⟨stepId, status, named, t, rfl, hfinished, hok⟩
  · refine Or.inl ⟨fun h => h.1 stepId rfl, err, ?_⟩
    rw [herr]
    rfl
  · refine Or.inr ⟨⟨fun h => h.2, fun h => ⟨(by simp), h⟩⟩, ?_, rfl⟩
    rw [hok, hfinished]
    rfl

/-- **One call of the chains**: where it cuts a chain, the chain is rejected; elsewhere it adds the
transitions the builder writes. -/
theorem produced_cases (hchain : st.Follows chain) (hc : ¬ Refused st.stepId? c)
    (calls : List BuilderCall) :
    (¬ st.Completed (c :: calls) ∧ ∃ err, produced chain (c :: calls) = .error err) ∨
      ∃ chain₁, (st.next c).Follows chain₁ ∧
        (st.Completed (c :: calls) ↔ (st.next c).Completed calls) ∧
        produced chain (c :: calls) = (produced chain₁ calls).map (st.written c ++ ·) ∧
        (st.written c).length = c.transitionCount := by
  have hmap : ∀ x : Except Thrown (List TransitionDefinition), x = x.map ([] ++ ·) := by
    intro x
    cases x <;> rfl
  have hended : st.stepId? ≠ none → st ≠ .idle := by
    intro hsome hsame
    subst hsame
    exact hsome rfl
  cases c with
  | fromStep stepId =>
      by_cases hst : st = .idle
      · subst hst
        obtain rfl : chain = [] := hchain
        refine Or.inr ⟨[.fromStep stepId], ⟨by simp, rfl⟩, ?_, hmap _, rfl⟩
        change AllCompleted _ ↔ _ ∧ _
        rw [allCompleted_cons]
        exact and_congr_left' ⟨fun h => h stepId rfl, fun h _ _ => h⟩
      · obtain ⟨hne, err, herr⟩ := produce_open hchain hst
        refine Or.inl ⟨?_, err, ?_⟩
        · cases st with
          | idle => exact absurd rfl hst
          | started stepId' => exact fun h => by cases h.1
          | ready stepId' status named => exact fun h => by cases h.1
        · rw [produced, hne, herr]
          rfl
  | onStatus status =>
      have hid : st.stepId?.getD "" ≠ "" := hc
      refine Or.inr ⟨chain ++ [.on status], ?_, ?_, hmap _, rfl⟩
      · rw [next, named, dif_neg hid]
        cases st with
        | idle => exact absurd rfl hid
        | started stepId | ready stepId status' named =>
            exact ⟨by simp, foldlM_concat hchain.2 rfl⟩
      · rw [next, named, dif_neg hid]
        have hall : AllCompleted (.onStatus status :: calls) ↔ AllCompleted calls :=
          allCompleted_cons_of_ne fun _ heq => by cases heq
        cases st with
        | idle => exact absurd rfl hid
        | started stepId | ready stepId status' named =>
            rw [Completed, Completed, completes, hall]
  | toStep stepId =>
      have hst := hended hc
      have hcompleted : st.Completed (.toStep stepId :: calls) ↔ _ :=
        completed_cons_of_end hst (fun _ heq => by cases heq) fun _ => rfl
      rcases produced_cases_ended hchain hst (fun _ => rfl) hcompleted rfl with
        hcut | ⟨hiff, hok, hone⟩
      · exact Or.inl hcut
      · exact Or.inr ⟨[], rfl, hiff, hok, hone⟩
  | endFlow =>
      have hst := hended hc
      have hcompleted : st.Completed (.endFlow :: calls) ↔ _ :=
        completed_cons_of_end hst (fun _ heq => by cases heq) fun _ => rfl
      rcases produced_cases_ended hchain hst (fun _ => rfl) hcompleted rfl with
        hcut | ⟨hiff, hok, hone⟩
      · exact Or.inl hcut
      · exact Or.inr ⟨[], rfl, hiff, hok, hone⟩
  | useFlow transitions deciders =>
      refine Or.inr ⟨chain, hchain, ?_, rfl, rfl⟩
      exact completed_cons_of_plain (fun _ heq => by cases heq) fun _ => rfl
  | addStep step =>
      refine Or.inr ⟨chain, hchain, ?_, hmap _, rfl⟩
      exact completed_cons_of_plain (fun _ heq => by cases heq) fun _ => rfl
  | restartable value | allowDuplicateInstances value | addListener value =>
      refine Or.inr ⟨chain, hchain, ?_, hmap _, rfl⟩
      exact completed_cons_of_plain (fun _ heq => by cases heq) fun _ => rfl
  | addDecider afterStepId decide =>
      refine Or.inr ⟨chain, hchain, ?_, hmap _, rfl⟩
      exact completed_cons_of_plain (fun _ heq => by cases heq) fun _ => rfl

/-- Every stage is followed by some chain. -/
theorem exists_follows (st : ChainStage) : ∃ chain, st.Follows chain := by
  cases st with
  | idle => exact ⟨[], rfl⟩
  | started stepId => exact ⟨[.fromStep stepId], by simp, rfl⟩
  | ready stepId status named => exact ⟨[.fromStep stepId, .on status], by simp, rfl⟩

/-- **Calls of the builder and of the chains**: one of the calls throws, or the builder writes what
the chains stand for if they are all completed, and else one of the chains is rejected. -/
theorem calls_cases (hb : b.currentTransition = st.current) (hchain : st.Follows chain) :
    (RefusedIn st.stepId? calls ∧ ∃ err, calls.foldlM JobBuilder.call b = .error err) ∨
      (¬ RefusedIn st.stepId? calls ∧ ∃ b', calls.foldlM JobBuilder.call b = .ok b' ∧
        (st.Completed calls → ∃ ts, produced chain calls = .ok ts ∧
          b'.commitTransition.transitions = b.transitions ++ ts ∧
          ts.length = (calls.map BuilderCall.transitionCount).sum) ∧
        (¬ st.Completed calls → ∃ err, produced chain calls = .error err)) := by
  induction calls generalizing b st chain with
  | nil =>
      refine Or.inr ⟨refusedIn_nil _, b, rfl, ?_, ?_⟩
      · intro hcompleted
        cases st with
        | idle =>
            obtain rfl : chain = [] := hchain
            refine ⟨[], rfl, ?_, rfl⟩
            rw [JobBuilder.commitTransition, hb, List.append_nil]
            rfl
        | started stepId | ready stepId status named => cases hcompleted.1
      · intro hnot
        by_cases hst : st = .idle
        · subst hst
          exact absurd allCompleted_nil hnot
        · obtain ⟨hne, err, herr⟩ := produce_open hchain hst
          refine ⟨err, ?_⟩
          rw [produced, hne, herr]
          rfl
  | cons c calls ih =>
      rw [refusedIn_cons, List.foldlM_cons]
      rcases call_cases hb c with ⟨hrefused, err, herr⟩ | ⟨hc, b₁, hok, hb₁, hwritten⟩
      · refine Or.inl ⟨Or.inl hrefused, err, ?_⟩
        rw [herr]
        rfl
      · rw [hok, openBehind_stepId? hc]
        rcases produced_cases hchain hc calls with
          ⟨hcut, err, herr⟩ | ⟨chain₁, hchain₁, hcompleted, hproduced, hcount⟩
        · obtain ⟨chain₁, hchain₁⟩ := exists_follows (st.next c)
          rcases ih hb₁ hchain₁ with ⟨hrefused, hthrows⟩ | ⟨hkept, b', hb', -, -⟩
          · exact Or.inl ⟨Or.inr hrefused, hthrows⟩
          · refine Or.inr ⟨fun h => h.elim hc hkept, b', hb', fun h => absurd h hcut, ?_⟩
            exact fun _ => ⟨err, herr⟩
        · rcases ih hb₁ hchain₁ with ⟨hrefused, hthrows⟩ | ⟨hkept, b', hb', hall, hnot⟩
          · exact Or.inl ⟨Or.inr hrefused, hthrows⟩
          · refine Or.inr ⟨fun h => h.elim hc hkept, b', hb', ?_, ?_⟩
            · intro h
              obtain ⟨ts, hts, htransitions, hlength⟩ := hall (hcompleted.mp h)
              refine ⟨st.written c ++ ts, ?_, ?_, ?_⟩
              · rw [hproduced, hts]
                rfl
              · rw [htransitions, hwritten, List.append_assoc]
              · rw [List.length_append, hcount, hlength, List.map_cons, List.sum_cons]
            · intro h
              obtain ⟨err, herr⟩ := hnot fun h' => h (hcompleted.mpr h')
              refine ⟨err, ?_⟩
              rw [hproduced, herr]
              rfl

end ChainStage

namespace JobBuilder

variable {id : String} {calls : List BuilderCall}

/-- **When the fluent transitions lose nothing**: exactly where a call throws, or no step is added,
or every chain is completed before the next one starts. -/
theorem loses_nothing_iff : LosesNothing id calls ↔
    RefusedIn none calls ∨ addedSteps calls = [] ∨ AllCompleted calls := by
  have hcreate : (create id).Holds [] := ⟨rfl, rfl⟩
  have hidle : (create id).currentTransition = ChainStage.idle.current := rfl
  have hnone : ChainStage.idle.Follows [] := rfl
  have hcases : (RefusedIn none calls ∧ _) ∨ _ := ChainStage.calls_cases hidle hnone
  rcases hcases with
    ⟨hrefused, err, herr⟩ | ⟨hkept, b, hb, hall, hnot⟩
  · refine ⟨fun _ => Or.inl hrefused, fun _ config hconfig => ?_⟩
    rw [buildCalls, herr] at hconfig
    cases hconfig
  · have horder := ((hcreate.calls hb).of_same (commitTransition_same b).1
      (commitTransition_same b).2).stepOrder
    rw [List.nil_append] at horder
    have hbuild : buildCalls id calls = b.build := by
      rw [buildCalls, hb]
      rfl
    unfold LosesNothing
    rw [hbuild, build, horder]
    cases hadded : addedSteps calls with
    | nil => exact ⟨fun _ => Or.inr (Or.inl rfl), fun _ config hconfig => by cases hconfig⟩
    | cons step steps =>
        constructor
        · intro hloses
          refine Or.inr (Or.inr ?_)
          by_contra hcut
          obtain ⟨err, herr⟩ := hnot hcut
          have hkeeps := (hloses _ rfl).chains
          rw [herr] at hkeeps
          cases hkeeps
        · intro h config hconfig
          rcases h with hrefused | hnone | hcompleted
          · exact absurd hrefused hkept
          · cases hnone
          · obtain ⟨ts, hts, htransitions, hlength⟩ := hall hcompleted
            cases hconfig
            have hsame : b.commitTransition.transitions = ts := by
              rw [htransitions]
              rfl
            exact ⟨by rw [hts, ← hsame], by rw [← hlength, ← hsame]⟩

section Dropped

/-- Two steps and a way between them. -/
def loadAndPublish (chain : List BuilderCall) : List BuilderCall :=
  .addStep (.literal (DefinitionCompiler.taskletStep "load" 1)) ::
    .addStep (.literal (DefinitionCompiler.taskletStep "publish" 2)) :: chain

/-- **Transitions are dropped without a word**: one without a status, and one that a `from` cuts. -/
theorem transitions_dropped :
    ¬ LosesNothing "nightly" (loadAndPublish [.fromStep "load", .toStep "publish"]) ∧
      ¬ LosesNothing "nightly" (loadAndPublish
        [.fromStep "load", .onStatus "FAILED", .fromStep "load", .onStatus "COMPLETED",
          .toStep "publish"]) := by
  constructor
  · intro h
    have hchains := (h _ rfl).chains
    cases hchains
  · intro h
    have hchains := (h _ rfl).chains
    cases hchains

end Dropped

end JobBuilder

end NestBatch
