import NestBatch.Execution.ThrownErrors

/-!
# One rule for the whole chunk loop

The chunk loop passes through stages: the head of the loop, a read phase with so
many items still to come, a process phase, a chunk on its way to its checkpoint,
a drain.  A property of the loop is what holds at each stage, and all there is to
prove of it is what one call of user code does to it; the hooks, the checkpoint
and the inductions over items and chunks are the same every time and are done
here.
-/

namespace NestBatch

namespace ChunkStepExecutor

open ListenerInvoker

variable {α : Type}

/-- Where the chunk loop stands between two calls of user code. -/
inductive Stage (α : Type)
  | head
  /-- `left` more items may be read for chunk `k`. -/
  | reading (k : Int) (left : Nat) (items : List α)
  | processing (k : Int) (rest processed : List α)
  /-- The writer has answered for chunk `k`, which is still to be counted. -/
  | written (k : Int) (processed : List α) (value : Option WriterResult)
  /-- The write phase of chunk `k` is over. -/
  | committing (k : Int)
  | draining (k : Int) (left drained : Nat)
  | ended

/-- One skip counted. -/
def Locals.counted (l : Locals) : Locals := { l with skipCount := l.skipCount + 1 }

/-- A write counted. -/
def Locals.wrote (l : Locals) (written skipped : Nat) : Locals :=
  { l with writeCount := l.writeCount + written, skipCount := l.skipCount + skipped }

/-- How the loop goes on without asking user code, with the iterations still to come. -/
inductive Silent (S : Setting) : Nat → Stage α → Locals → Nat → Stage α → Locals → Prop
  | full {fuel : Nat} {l : Locals} (hcap : S.cap l.readCount = 0) :
      Silent S (fuel + 1) .head l fuel .ended l
  | start {fuel : Nat} {l : Locals} (hdrain : S.mustDrain l.chunkIndex = false)
      (hcap : S.cap l.readCount ≠ 0) :
      Silent S (fuel + 1) .head l fuel (.reading l.chunkIndex (S.cap l.readCount) []) l
  | blank {fuel : Nat} {l : Locals} {k : Int} : Silent S fuel (.reading k 0 []) l fuel .ended l
  | process {fuel : Nat} {l : Locals} {k : Int} {items : List α} (hitems : items ≠ []) :
      Silent S fuel (.reading k 0 items) l fuel (.processing k items []) l
  | copy {fuel : Nat} {l : Locals} {k : Int} {item : α} {rest processed : List α}
      (hprocessor : S.processor = none) : Silent S fuel (.processing k (item :: rest) processed) l
        fuel (.processing k rest (processed ++ [item])) l
  | nothing {fuel : Nat} {l : Locals} {k : Int} :
      Silent S fuel (.processing k [] []) l fuel (.committing k) l
  | reported {fuel : Nat} {l : Locals} {k : Int} {processed : List α} {report : WriterResult} :
      Silent S fuel (.written k processed (some report)) l fuel (.committing k)
        (l.wrote report.written report.skipped)
  | commit {fuel : Nat} {l : Locals} {k : Int} : Silent S fuel (.committing k) l fuel .head
      { l with commitCount := l.commitCount + 1, chunkIndex := l.chunkIndex + 1 }
  | drain {fuel : Nat} {l : Locals} (hdrain : S.mustDrain l.chunkIndex = true)
      (hcap : S.cap l.readCount ≠ 0) :
      Silent S (fuel + 1) .head l fuel (.draining l.chunkIndex (S.cap l.readCount) 0) l
  | dry {fuel : Nat} {l : Locals} {k : Int} : Silent S fuel (.draining k 0 0) l fuel .ended l
  | drained {fuel : Nat} {l : Locals} {k : Int} {drained : Nat} (hdrained : drained ≠ 0) :
      Silent S fuel (.draining k 0 drained) l fuel .head { l with chunkIndex := l.chunkIndex + 1 }

/-- What holds at each stage, with the iterations still to come, and what a failure leaves. -/
structure LoopStates (α : Type) where
  holds : Nat → Stage α → Locals → Calls α → Prop
  threw : Thrown → Calls α → Prop

namespace LoopStates

variable (P : LoopStates α)

/-- Behind a failed attempt, whatever is decided about it. -/
def Judged (policies : Policies) (fuel : Nat) (stage skipped : Stage α) (l : Locals) (err : Thrown)
    (calls : Calls α) : Prop :=
  ∀ attempt, match consult policies err l.skipCount attempt with
    | .skip => P.holds fuel skipped l.counted calls
    | .retry => P.holds fuel stage l calls
    | .fail err' => P.threw err' calls

/-- Behind an attempt to read an item. -/
def AfterRead (policies : Policies) (fuel : Nat) (k : Int) (left : Nat) (items : List α)
    (l : Locals) : Except Thrown (Option α) → Calls α → Prop
  | .ok (some item), calls =>
      P.holds fuel (.reading k left (items ++ [item])) { l with readCount := l.readCount + 1 } calls
  | .ok none, calls => P.holds fuel (.reading k 0 items) l calls
  | .error err, calls =>
      P.Judged policies fuel (.reading k (left + 1) items) (.reading k left items) l err calls

/-- Behind an attempt to process an item. -/
def AfterProcess (policies : Policies) (fuel : Nat) (k : Int) (item : α) (rest processed : List α)
    (l : Locals) : Except Thrown (Option α) → Calls α → Prop
  | .ok (some value), calls => P.holds fuel (.processing k rest (processed ++ [value])) l calls
  | .ok none, calls => P.holds fuel (.processing k rest processed) l.counted calls
  | .error err, calls => P.Judged policies fuel (.processing k (item :: rest) processed)
      (.processing k rest processed) l err calls

/-- Behind an attempt to write a chunk. -/
def AfterWrite (policies : Policies) (fuel : Nat) (k : Int) (processed : List α) (l : Locals) :
    Except Thrown (Option WriterResult) → Calls α → Prop
  | .ok value, calls => P.holds fuel (.written k processed value) l calls
  | .error err, calls =>
      P.Judged policies fuel (.processing k [] processed) (.committing k) l err calls

/-- Behind a read that drains an item. -/
def AfterDrain (fuel : Nat) (k : Int) (left drained : Nat) (l : Locals) :
    Except Thrown (Option α) → Calls α → Prop
  | .ok (some _), calls => P.holds fuel (.draining k left (drained + 1)) l calls
  | .ok none, calls => P.holds fuel (.draining k 0 drained) l calls
  | .error err, calls => P.threw err calls

/-- The operations that no stage is about. -/
def quietKinds : List OpKind := [.listener, .passed, .updateStream, .saveContext, .loadContext]

/-- The listener keys of a failed attempt. -/
def itemErrorKeys : List ListenerKey :=
  [.lifecycle .onError .itemRead, .lifecycle .onError .itemProcess, .lifecycle .onError .itemWrite]

/-- Every call of user code takes the loop from stage to stage, and so does what happens between
the calls. -/
structure Advances (S : Setting) (rules : CallRules α) (loops : Prop) : Prop where
  quiet : ∀ fuel stage l, (logged rules loops).Frame (On quietKinds) (P.holds fuel stage l)
  counters : ∀ fuel stage l l' calls, SameCounters l l' → P.holds fuel stage l calls →
    P.holds fuel stage l' calls
  silent : ∀ fuel stage l fuel' stage' l' calls, Silent S fuel stage l fuel' stage' l' →
    P.holds fuel stage l calls → P.holds fuel' stage' l' calls
  read : ∀ fuel k left items l calls, P.holds fuel (.reading k (left + 1) items) l calls →
    rules.demands calls (.user (.read S.reader.target (S.itemContext k))) ∧
    ∀ r, rules.allowed calls (.user (.read S.reader.target (S.itemContext k))) r →
      P.AfterRead S.policies fuel k left items l r
        (calls ++ [⟨.user (.read S.reader.target (S.itemContext k)), r⟩])
  process : ∀ fuel k item rest processed l calls processor, S.processor = some processor →
    P.holds fuel (.processing k (item :: rest) processed) l calls →
      rules.demands calls (.user (.process processor.target item (S.itemContext k))) ∧
      ∀ r, rules.allowed calls (.user (.process processor.target item (S.itemContext k))) r →
        P.AfterProcess S.policies fuel k item rest processed l r
          (calls ++ [⟨.user (.process processor.target item (S.itemContext k)), r⟩])
  write : ∀ fuel k processed l calls, processed ≠ [] →
    P.holds fuel (.processing k [] processed) l calls →
      rules.demands calls (.user (.write S.writer.target processed (S.itemContext k))) ∧
      ∀ r, rules.allowed calls (.user (.write S.writer.target processed (S.itemContext k))) r →
        P.AfterWrite S.policies fuel k processed l r
          (calls ++ [⟨.user (.write S.writer.target processed (S.itemContext k)), r⟩])
  length : ∀ fuel k processed l calls, P.holds fuel (.written k processed none) l calls →
    rules.demands calls (.user (.lengthOf processed)) ∧
    ∀ n : Nat, rules.allowed calls (.user (.lengthOf processed)) n →
      P.holds fuel (.committing k) (l.wrote n 0) (calls ++ [⟨.user (.lengthOf processed), n⟩])
  drain : ∀ fuel k left drained l calls, P.holds fuel (.draining k (left + 1) drained) l calls →
    rules.demands calls (.user (.read S.reader.target (S.itemContext k))) ∧
    ∀ r, rules.allowed calls (.user (.read S.reader.target (S.itemContext k))) r →
      P.AfterDrain fuel k left drained l r
        (calls ++ [⟨.user (.read S.reader.target (S.itemContext k)), r⟩])

/-- The same with the failures.  `T` are the errors of the code around the phases. -/
structure Sound (S : Setting) (rules : CallRules α) (loops : Prop) (T : Thrown → Prop) : Prop
    extends P.Advances S rules loops where
  throwing : ∀ calls o r, rules.allowed calls o r → Throwing T o r
  fails : ∀ fuel stage l calls err, P.holds fuel stage l calls → T err → P.threw err calls
  exhausted : ∀ fuel stage l calls name, P.holds fuel stage l calls →
    S.policies.retry.isSome = true → P.threw (exhaustedAttempts name) calls
  threwQuiet : ∀ err, (logged rules loops).Frame (On [.listener]) (P.threw err)
  onError : ∀ key ∈ itemErrorKeys, ∀ (args : ListenerArgs α) (J : Calls α → Prop),
    (logged rules loops).Frame (On [.listener]) J →
      KeepsOrThrows (logged rules loops) J P.threw (invokeMatching key args S.listeners)
  spin : ∀ l calls, P.holds 0 .head l calls → loops

/-- Where nothing is said of a failure, that is all, but for a loop out of iterations. -/
theorem Advances.sound_of_spin {P : LoopStates α} {S : Setting} {rules : CallRules α} {loops : Prop}
    (h : P.Advances S rules loops) (hthrew : ∀ err calls, P.threw err calls)
    (hdemands : ∀ calls (o : Op α), o.kind = .listener → rules.demands calls o)
    (hspin : ∀ l calls, P.holds 0 .head l calls → loops) : P.Sound S rules loops fun _ => True where
  toAdvances := h
  throwing _ o _ _ := by
    cases o with
    | user call => exact fun _ _ _ => ⟨trivial, fun _ _ => trivial⟩
    | _ => trivial
  fails _ _ _ calls err _ _ := hthrew err calls
  exhausted _ _ _ calls _ _ _ := hthrew _ calls
  threwQuiet err := logged_frame (fun calls o ho _ => hdemands calls o (List.mem_singleton.mp ho))
    fun calls o r _ _ _ => hthrew err (calls ++ [⟨o, r⟩])
  onError _ _ _ _ hJ := keepsOrThrows_of_uses (uses_invokeMatching (by decide) _ _ _) hJ
    fun err calls _ => hthrew err calls
  spin := hspin

/-- And where the loop may run out of them, that is all. -/
theorem Advances.sound {P : LoopStates α} {S : Setting} {rules : CallRules α}
    (h : P.Advances S rules True) (hthrew : ∀ err calls, P.threw err calls)
    (hdemands : ∀ calls (o : Op α), o.kind = .listener → rules.demands calls o) :
    P.Sound S rules True fun _ => True :=
  h.sound_of_spin hthrew hdemands fun _ _ _ => trivial

section Rules

variable {P} {S : Setting} {rules : CallRules α} {loops : Prop} {T : Thrown → Prop}
  (hP : P.Sound S rules loops T)
include hP

/-- Answers that keep to the rules throw what they may throw. -/
theorem Sound.throwing' (o : Op α) (calls : Calls α) (r : o.Resp) (calls' : Calls α)
    (h : (logged rules loops).trans o calls r calls') : Throwing T o r :=
  hP.throwing calls o r h.2

/-- Code that no stage is about keeps the stage, and throws on. -/
theorem Sound.wp_quiet {β : Type} {p : Code α β} (hp : p.Uses (On quietKinds))
    (hthrows : ThrowsOnly T p) {fuel : Nat} {stage : Stage α} {l : Locals} :
    KeepsOrThrows (logged rules loops) (P.holds fuel stage l) P.threw p := by
  intro calls h
  refine Prog.wp_mono (Prog.wp_and_answering hthrows hP.throwing'
    (Prog.wp_of_uses hp (hP.quiet fuel stage l) h)) ?_
  intro out calls' hout
  cases out with
  | ok b => exact hout.2
  | error err => exact hP.fails fuel stage l calls' err hout.2 (hout.1 err rfl)

/-- Telling listeners leaves the states of a loop alone. -/
theorem Sound.quietListeners (fuel : Nat) (stage : Stage α) (l : Locals) :
    (logged rules loops).Frame (On [.listener]) (P.holds fuel stage l) := by
  have hquiet := hP.quiet fuel stage l
  have hkind : ∀ o : Op α, (On [.listener]).ops o → (On quietKinds).ops o := by
    intro o ho
    have hlistener : o.kind = .listener := List.mem_singleton.mp ho
    change o.kind ∈ quietKinds
    rw [hlistener]
    decide
  exact ⟨fun o s ho => hquiet.guard o s (hkind o ho), fun o s r s' ho => hquiet.keep o s r s'
    (hkind o ho), fun h => h.elim⟩

theorem Sound.judged_frame (fuel : Nat) (stage skipped : Stage α) (l : Locals) (err : Thrown) :
    (logged rules loops).Frame (On [.listener]) (P.Judged S.policies fuel stage skipped l err) := by
  refine logged_frame ?_ ?_
  · intro calls o ho h
    have hnext := h 0
    cases hc : consult S.policies err l.skipCount 0 with
    | skip =>
        rw [hc] at hnext
        exact (hP.quietListeners fuel skipped l.counted).guard o calls ho hnext
    | retry =>
        rw [hc] at hnext
        exact (hP.quietListeners fuel stage l).guard o calls ho hnext
    | fail err' =>
        rw [hc] at hnext
        exact (hP.threwQuiet err').guard o calls ho hnext
  · intro calls o r ho hr h attempt
    have hnext := h attempt
    have hstep : (logged rules loops).trans o calls r (calls ++ [⟨o, r⟩]) := ⟨rfl, hr⟩
    cases hc : consult S.policies err l.skipCount attempt with
    | skip =>
        rw [hc] at hnext
        exact (hP.quietListeners fuel skipped l.counted).keep o calls r _ ho hnext hstep
    | retry =>
        rw [hc] at hnext
        exact (hP.quietListeners fuel stage l).keep o calls r _ ho hnext hstep
    | fail err' =>
        rw [hc] at hnext
        exact (hP.threwQuiet err').keep o calls r _ ho hnext hstep

end Rules

/-- The hooks of a phase call listeners, and the ones of an error those listed for it. -/
structure HooksOf {β : Type} (S : Setting) (hooks : PhaseHooks α β) : Prop where
  within : hooks.Within [.listener]
  before : ∃ key args, hooks.before = invokeMatching key args S.listeners
  after : ∀ value, hooks.after value = .pure () ∨
    ∃ key args, hooks.after value = invokeMatching key args S.listeners
  onError : ∀ err, ∃ key ∈ itemErrorKeys, ∃ args,
    hooks.onError err = invokeMatching key args S.listeners
  onSkip : ∀ err, ∃ key args, hooks.onSkip err = invokeMatching key args S.skipListeners

/-- The hooks of a read are those of its stage. -/
theorem hooksOf_read (S : Setting) (k : Int) :
    HooksOf S (S.readHooks k : PhaseHooks α (Option α)) where
  within := S.readHooks_within (by decide) k
  before := ⟨_, _, rfl⟩
  after value := by
    cases value with
    | none => exact Or.inl rfl
    | some item => exact Or.inr ⟨_, _, rfl⟩
  onError err := ⟨.lifecycle .onError .itemRead, by decide, _, rfl⟩
  onSkip err := ⟨_, _, rfl⟩

/-- The hooks of processing an item are those of its stage. -/
theorem hooksOf_process (S : Setting) (k : Int) (item : α) :
    HooksOf S (S.processHooks k item) where
  within := S.processHooks_within (by decide) k item
  before := ⟨_, _, rfl⟩
  after value := Or.inr ⟨_, _, rfl⟩
  onError err := ⟨.lifecycle .onError .itemProcess, by decide, _, rfl⟩
  onSkip err := ⟨_, _, rfl⟩

/-- The hooks of a write are those of its stage. -/
theorem hooksOf_write (S : Setting) (k : Int) (processed : List α) :
    HooksOf S (S.writeHooks k processed) where
  within := S.writeHooks_within (by decide) k processed
  before := ⟨_, _, rfl⟩
  after value := Or.inr ⟨_, _, rfl⟩
  onError err := ⟨.lifecycle .onError .itemWrite, by decide, _, rfl⟩
  onSkip err := ⟨_, _, rfl⟩

section Phases

variable {P} {S : Setting} {rules : CallRules α} {loops : Prop} {T : Thrown → Prop}
  (hP : P.Sound S rules loops T) {β : Type}

/-- The contract of a phase between two stages. -/
def contract (P : LoopStates α) (policies : Policies) (fuel : Nat) (stage skipped : Stage α)
    (l : Locals) (next : β → Stage α × Locals) : PhaseContract (Calls α) β where
  I := P.holds fuel stage l
  V value := P.holds fuel (next value).1 (next value).2
  E err := P.Judged policies fuel stage skipped l err
  A := P.threw

/-- Where a phase leaves the loop. -/
def AfterPhase (P : LoopStates α) (fuel : Nat) (skipped : Stage α) (l : Locals)
    (next : β → Stage α × Locals) : Except Thrown (PhaseResult β) → Locals → Calls α → Prop
  | .ok (.ok value), l', calls => l' = l ∧ P.holds fuel (next value).1 (next value).2 calls
  | .ok .skipped, l', calls => P.holds fuel skipped l' calls
  | .error err, _, calls => P.threw err calls

include hP in
/-- **The phase lemma**: a phase goes where each of its attempts goes. -/
theorem Sound.wp_phase {hooks : PhaseHooks α β} (hhooks : HooksOf S hooks) (op : Code α β)
    (stage skipped : Stage α) (next : β → Stage α × Locals) {fuel : Nat} {l : Locals}
    {calls : Calls α}
    (hop : ∀ calls, P.holds fuel stage l calls → op.wp (logged rules loops)
      (P.contract S.policies fuel stage skipped l next).attempted calls)
    (h : P.holds fuel stage l calls) :
    Scoped.wp (logged rules loops) (runPhase S.policies op hooks)
      (P.AfterPhase fuel skipped l next) l calls := by
  have hlisteners : ∀ {key : ListenerKey} {args : ListenerArgs α} {resolvers : ResolverMap},
      ThrowsOnly T (invokeMatching key args resolvers) ∧
        (invokeMatching key args resolvers : Code α Unit).Uses (On quietKinds) :=
    ⟨throwsOnly_invokeMatching _ _ _, uses_invokeMatching (by decide) _ _ _⟩
  have hsound : (P.contract S.policies fuel stage skipped l next).Sound (logged rules loops)
      S.policies l.skipCount op hooks := by
    refine ⟨?_, hop, ?_, ?_, ?_, ?_, ?_⟩
    · obtain ⟨key, args, heq⟩ := hhooks.before
      rw [heq]
      exact hP.wp_quiet hlisteners.2 hlisteners.1
    · intro value
      rcases hhooks.after value with heq | ⟨key, args, heq⟩
      · rw [heq]
        exact fun _ h => h
      · rw [heq]
        exact hP.wp_quiet hlisteners.2 hlisteners.1
    · intro err
      obtain ⟨key, hkey, args, heq⟩ := hhooks.onError err
      rw [heq]
      exact hP.onError key hkey args _ (hP.judged_frame fuel stage skipped l err)
    · intro err attempt hc calls h
      obtain ⟨key, args, heq⟩ := hhooks.onSkip err
      have huses := hhooks.within.onSkip err
      rw [heq] at huses ⊢
      refine Prog.wp_mono (Prog.wp_and_answering hlisteners.1 hP.throwing' (Prog.wp_of_uses huses
        (hP.judged_frame fuel stage skipped l err) h)) ?_
      intro out calls' hout
      cases out with
      | ok u => exact hout.2
      | error err' =>
          have hskipped := hout.2 attempt
          rw [hc] at hskipped
          exact hP.fails fuel skipped l.counted calls' err' hskipped (hout.1 err' rfl)
    · intro err calls attempt h hc
      have hretry := h attempt
      rw [hc] at hretry
      exact ⟨hretry, hP.exhausted fuel stage l calls _ hretry (consult_retry hc).2⟩
    · intro err err' calls attempt h hc
      have hfail := h attempt
      rw [hc] at hfail
      exact hfail
  refine Scoped.wp_mono (wp_runPhase_contract hsound h) ?_
  intro out l' calls' hout
  match out with
  | .ok (.ok value) => exact hout
  | .ok .skipped =>
      obtain ⟨hl, err, attempt, hE, hc⟩ := hout
      have hskipped := hE attempt
      rw [hc] at hskipped
      have hcounted : l' = l.counted := hl
      subst hcounted
      exact hskipped
  | .error err => exact hout.2

/-- Where a part of the loop leaves it, by what it returns. -/
def Leaves (P : LoopStates α) (fuel : Nat) (stage : β → Stage α) :
    Except Thrown β → Locals → Calls α → Prop
  | .ok b, l, calls => P.holds fuel (stage b) l calls
  | .error err, _, calls => P.threw err calls

/-- Where a read that is not skipped leaves the read phase, by what it returns. -/
def afterRead (k : Int) (left : Nat) (items : List α) (l : Locals) : Option α → Stage α × Locals
  | some item => (.reading k left (items ++ [item]), { l with readCount := l.readCount + 1 })
  | none => (.reading k 0 items, l)

/-- Where an item that is not skipped leaves the process phase, by what it becomes. -/
def afterProcess (k : Int) (rest processed : List α) (l : Locals) :
    Option α → Stage α × Locals
  | some value => (.processing k rest (processed ++ [value]), l)
  | none => (.processing k rest processed, l.counted)

variable {fuel : Nat} {k : Int} {l : Locals} {calls : Calls α}

include hP in
/-- **Reading a chunk** follows the states of the loop. -/
theorem Sound.wp_readPhase {left : Nat} {items : List α}
    (h : P.holds fuel (.reading k left items) l calls) :
    Scoped.wp (logged rules loops) (S.readPhase k left items)
      (P.Leaves fuel fun items => .reading k 0 items) l calls := by
  induction left generalizing items l calls with
  | zero => exact h
  | succ left ih =>
      have hphase := hP.wp_phase (hooksOf_read S k) (S.read k) (.reading k (left + 1) items)
        (.reading k left items) (afterRead k left items l) ?_ h
      · refine Scoped.wp_seq hphase ?_ fun _ _ _ h' => h'
        intro r l' calls' hr
        cases r with
        | skipped => exact ih hr
        | ok found =>
            cases found with
            | none =>
                obtain ⟨hl, hnext⟩ := hr
                subst hl
                exact hnext
            | some item =>
                obtain ⟨hl, hnext⟩ := hr
                subst hl
                rw [Scoped.wp_bind, Scoped.wp_modify, Scoped.afterwards_ok]
                exact ih hnext
      · intro calls h
        obtain ⟨hdemands, hanswers⟩ := hP.read fuel k left items l calls h
        refine wp_orThrow.mpr (wp_call hdemands ?_)
        intro r hr
        have hread := hanswers r hr
        cases r with
        | error err => exact hread
        | ok item =>
            cases item with
            | none => exact hread
            | some item => exact hread

include hP in
/-- **Processing a chunk** follows the states of the loop. -/
theorem Sound.wp_processPhase {items processed : List α}
    (h : P.holds fuel (.processing k items processed) l calls) :
    Scoped.wp (logged rules loops) (S.processPhase k items processed)
      (P.Leaves fuel fun processed => .processing k [] processed) l calls := by
  induction items generalizing processed l calls with
  | nil => exact h
  | cons item rest ih =>
      unfold Setting.processPhase
      cases hprocessor : S.processor with
      | none => exact ih (hP.silent _ _ _ _ _ _ _ (.copy hprocessor) h)
      | some processor =>
          have hphase := hP.wp_phase (hooksOf_process S k item)
            (orThrow (request (.user (.process processor.target item (S.itemContext k)))))
            (.processing k (item :: rest) processed) (.processing k rest processed)
            (afterProcess k rest processed l) ?_ h
          · refine Scoped.wp_seq hphase ?_ fun _ _ _ h' => h'
            intro r l' calls' hr
            cases r with
            | skipped => exact ih hr
            | ok kept =>
                cases kept with
                | some value =>
                    obtain ⟨hl, hnext⟩ := hr
                    subst hl
                    exact ih hnext
                | none =>
                    obtain ⟨hl, hnext⟩ := hr
                    subst hl
                    rw [Scoped.wp_bind, Scoped.wp_modify, Scoped.afterwards_ok]
                    exact ih hnext
          · intro calls h
            obtain ⟨hdemands, hanswers⟩ :=
              hP.process fuel k item rest processed l calls processor hprocessor h
            refine wp_orThrow.mpr (wp_call hdemands ?_)
            intro r hr
            have hprocess := hanswers r hr
            cases r with
            | error err => exact hprocess
            | ok value =>
                cases value with
                | none => exact hprocess
                | some value => exact hprocess

include hP in
/-- Counting a write takes it to its commit. -/
theorem Sound.wp_countWrite {processed : List α} {value : Option WriterResult}
    (h : P.holds fuel (.written k processed value) l calls) :
    Scoped.wp (logged rules loops) (Setting.countWrite processed value)
      (P.Leaves fuel fun _ => .committing k) l calls := by
  cases value with
  | some report => exact hP.silent _ _ _ _ _ _ _ .reported h
  | none =>
      obtain ⟨hdemands, hanswers⟩ := hP.length fuel k processed l calls h
      unfold Setting.countWrite Setting.lengthOf
      refine Scoped.wp_bind.mpr (Scoped.wp_lift.mpr (wp_call hdemands ?_))
      intro n hn
      exact hanswers n hn

include hP in
/-- **Writing a chunk** follows the states of the loop. -/
theorem Sound.wp_writePhase {processed : List α}
    (h : P.holds fuel (.processing k [] processed) l calls) :
    Scoped.wp (logged rules loops) (S.writePhase k processed)
      (P.Leaves fuel fun _ => .committing k) l calls := by
  unfold Setting.writePhase
  split
  · next hempty =>
      rw [List.isEmpty_iff.mp hempty] at h
      exact hP.silent _ _ _ _ _ _ _ .nothing h
  · next hempty =>
      have hsome : processed ≠ [] := fun hnil => hempty (List.isEmpty_iff.mpr hnil)
      have hphase := hP.wp_phase (hooksOf_write S k processed) (S.write k processed)
        (.processing k [] processed) (.committing k)
        (fun value => (.written k processed value, l)) ?_ h
      · refine Scoped.wp_seq hphase ?_ fun _ _ _ h' => h'
        intro r l' calls' hr
        match r with
        | .skipped => exact hr
        | .ok value =>
            obtain ⟨hl, hnext⟩ := hr
            subst hl
            exact Scoped.wp_seq (hP.wp_countWrite hnext) (fun _ _ _ h' => h') fun _ _ _ h' => h'
      · intro calls h
        obtain ⟨hdemands, hanswers⟩ := hP.write fuel k processed l calls hsome h
        refine wp_orThrow.mpr (wp_call hdemands ?_)
        intro r hr
        have hwrite := hanswers r hr
        cases r with
        | error err => exact hwrite
        | ok value => exact hwrite

include hP in
/-- A stage is kept by the listeners around it. -/
theorem Sound.wp_seq_listeners {γ : Type} {stage : Stage α} {key : ListenerKey}
    {args : ListenerArgs α} {f : Unit → ChunkCode α γ} {next : γ → Stage α}
    (hf : ∀ calls', P.holds fuel stage l calls' →
      Scoped.wp (logged rules loops) (f ()) (P.Leaves fuel next) l calls')
    (h : P.holds fuel stage l calls) :
    Scoped.wp (logged rules loops) (Scoped.lift (invokeMatching key args S.listeners) >>= f)
      (P.Leaves fuel next) l calls :=
  wp_seq_hook (hP.wp_quiet (uses_invokeMatching (by decide) _ _ _)
    (throwsOnly_invokeMatching _ _ _)) h (fun _ calls' h' => hf calls' h')
    fun _ _ h' => h'

include hP in
/-- **The checkpoint** follows the states of the loop. -/
theorem Sound.wp_checkpoint (h : P.holds fuel (.committing k) l calls) :
    Scoped.wp (logged rules loops) (S.checkpoint : ChunkCode α Unit)
      (P.Leaves fuel fun _ => .committing k) l calls := by
  have hsame : ∀ (l : Locals) (ctx : ExecutionContext),
      SameCounters l { l with streamContext := ctx } := fun _ _ => ⟨rfl, rfl, rfl, rfl, rfl⟩
  unfold Setting.checkpoint
  rw [Scoped.wp_bind, Scoped.wp_modify, Scoped.afterwards_ok, Scoped.wp_bind, Scoped.wp_get,
    Scoped.afterwards_ok]
  have h₁ := hP.counters fuel _ _ _ calls
    (hsame l (withLastChunkIndex l.streamContext l.chunkIndex)) h
  refine wp_seq_hook (hP.wp_quiet (uses_updateStreams (by decide) _ _)
    (throwsOnly_updateStreams _ _)) h₁ ?_ fun _ _ h' => h'
  intro next calls₂ h₂
  rw [Scoped.wp_bind, Scoped.wp_modify, Scoped.afterwards_ok]
  have h₃ := hP.counters fuel _ _ _ calls₂ (hsame _ next) h₂
  have hsave : (Op.saveExecutionContext (.stepExecutionId S.context.stepExecutionId) next :
      Op α).kind ∈ quietKinds := (by decide : OpKind.saveContext ∈ quietKinds)
  have hload : (Op.getExecutionContext (.stepExecutionId S.context.stepExecutionId) :
      Op α).kind ∈ quietKinds := (by decide : OpKind.loadContext ∈ quietKinds)
  refine wp_seq_hook (hP.wp_quiet (uses_request hsave) (throwsOnly_request _)) h₃ ?_
    fun _ _ h' => h'
  intro _ calls₄ h₄
  refine wp_seq_hook (hP.wp_quiet (uses_request hload) (throwsOnly_request _)) h₄ ?_
    fun _ _ h' => h'
  intro reloaded calls₅ h₅
  exact hP.counters fuel _ _ _ calls₅ (hsame _ reloaded) h₅

include hP in
/-- **Committing a chunk** follows the states of the loop. -/
theorem Sound.wp_commitChunk {items : List α} (hitems : items ≠ [])
    (h : P.holds fuel (.reading k 0 items) l calls) :
    Scoped.wp (logged rules loops) (S.commitChunk k items) (P.Leaves fuel fun _ => .head)
      l calls := by
  refine Scoped.wp_seq (hP.wp_processPhase (hP.silent _ _ _ _ _ _ _ (.process hitems) h)) ?_
    fun _ _ _ h' => h'
  intro processed l₁ calls₁ h₁
  refine Scoped.wp_seq (hP.wp_writePhase h₁) ?_ fun _ _ _ h' => h'
  intro ending l₂ calls₂ h₂
  have hpassed : (Op.passed S.context.stepExecutionId k items ending).kind ∈ quietKinds :=
    (by decide : OpKind.passed ∈ quietKinds)
  refine wp_seq_hook (hP.wp_quiet (uses_request hpassed) (throwsOnly_request _)) h₂ ?_
    fun _ _ h' => h'
  intro _ calls₃ h₃
  refine Scoped.wp_seq (hP.wp_checkpoint h₃) ?_ fun _ _ _ h' => h'
  intro _ l₄ calls₄ h₄
  rw [Scoped.wp_bind, Scoped.wp_get, Scoped.afterwards_ok]
  refine hP.wp_seq_listeners ?_ h₄
  intro calls₅ h₅
  exact hP.silent _ _ _ _ _ _ _ .commit h₅

/-- Where an iteration leaves the loop. -/
def again : Bool → Stage α
  | true => .head
  | false => .ended

include hP in
/-- **Running a chunk** follows the states of the loop. -/
theorem Sound.wp_runChunk (hdrain : S.mustDrain l.chunkIndex = false)
    (h : P.holds (fuel + 1) .head l calls) :
    Scoped.wp (logged rules loops) (S.runChunk : ChunkCode α Bool) (P.Leaves fuel again)
      l calls := by
  unfold Setting.runChunk
  rw [Scoped.wp_bind, Scoped.wp_get, Scoped.afterwards_ok]
  split
  · next hcap => exact hP.silent _ _ _ _ _ _ _ (.full hcap) h
  · next hcap =>
      refine hP.wp_seq_listeners ?_ (hP.silent _ _ _ _ _ _ _ (.start hdrain hcap) h)
      intro calls₁ h₁
      refine Scoped.wp_seq (hP.wp_readPhase h₁) ?_ fun _ _ _ h' => h'
      intro items l₂ calls₂ h₂
      split
      · next hempty =>
          rw [Scoped.wp_bind, Scoped.wp_get, Scoped.afterwards_ok]
          have hblank : P.holds fuel (.reading l.chunkIndex 0 []) l₂ calls₂ := by
            rw [List.isEmpty_iff.mp hempty] at h₂
            exact h₂
          refine hP.wp_seq_listeners ?_ hblank
          intro calls₃ h₃
          exact hP.silent _ _ _ _ _ _ _ .blank h₃
      · next hempty =>
          have hitems : items ≠ [] := fun hnil => hempty (List.isEmpty_iff.mpr hnil)
          refine Scoped.wp_seq (hP.wp_commitChunk hitems h₂) ?_ fun _ _ _ h' => h'
          intro _ l₃ calls₃ h₃
          exact h₃

include hP in
/-- Draining the items of a chunk follows the states of the loop. -/
theorem Sound.wp_drainItems {left drained : Nat}
    (h : P.holds fuel (.draining k left drained) l calls) :
    (S.drainItems k left drained : Code α Nat).wp (logged rules loops)
      (fun out calls' => P.Leaves fuel (fun drained => .draining k 0 drained) out l calls')
      calls := by
  induction left generalizing drained calls with
  | zero => exact h
  | succ left ih =>
      obtain ⟨hdemands, hanswers⟩ := hP.drain fuel k left drained l calls h
      refine Prog.wp_bind.mpr (wp_orThrow.mpr (wp_call hdemands ?_))
      intro r hr
      have hread := hanswers r hr
      cases r with
      | error err => exact hread
      | ok item =>
          cases item with
          | none => exact hread
          | some item => exact ih hread

include hP in
/-- **Draining a chunk** follows the states of the loop. -/
theorem Sound.wp_drainChunk (hdrain : S.mustDrain l.chunkIndex = true)
    (h : P.holds (fuel + 1) .head l calls) :
    Scoped.wp (logged rules loops) (S.drainChunk : ChunkCode α Bool) (P.Leaves fuel again)
      l calls := by
  unfold Setting.drainChunk
  rw [Scoped.wp_bind, Scoped.wp_get, Scoped.afterwards_ok]
  split
  · next hcap => exact hP.silent _ _ _ _ _ _ _ (.full hcap) h
  · next hcap =>
      rw [Scoped.wp_bind, Scoped.wp_lift]
      refine Prog.wp_mono (hP.wp_drainItems (hP.silent _ _ _ _ _ _ _ (.drain hdrain hcap) h)) ?_
      intro out calls' hout
      cases out with
      | error err => exact hout
      | ok drained =>
          rw [Scoped.afterwards_ok]
          split
          · next hzero =>
              rw [hzero] at hout
              exact hP.silent _ _ _ _ _ _ _ .dry hout
          · next hsome => exact hP.silent _ _ _ _ _ _ _ (.drained hsome) hout

include hP in
/-- **The run lemma.** -/
theorem Sound.wp_chunkLoop (fuel : Nat) (h : P.holds fuel .head l calls) :
    Scoped.wp (logged rules loops) (S.chunkLoop fuel : ChunkCode α Unit)
      (fun out l' calls' => match out with
        | .ok () => ∃ fuel', P.holds fuel' .ended l' calls'
        | .error err => P.threw err calls') l calls := by
  induction fuel generalizing l calls with
  | zero => exact hP.spin l calls h
  | succ fuel ih =>
      have hiteration : Scoped.wp (logged rules loops) (S.iteration : ChunkCode α Bool)
          (P.Leaves fuel again) l calls := by
        unfold Setting.iteration
        rw [Scoped.wp_bind, Scoped.wp_get, Scoped.afterwards_ok]
        split
        · next hdrain => exact hP.wp_drainChunk hdrain h
        · next hdrain => exact hP.wp_runChunk (Bool.eq_false_iff.mpr hdrain) h
      refine Scoped.wp_seq hiteration ?_ fun _ _ _ h' => h'
      intro again l' calls' h'
      cases again with
      | true => exact ih h'
      | false => exact ⟨fuel, h'⟩

end Phases

end LoopStates

section Body

variable {β : Type} {rules : CallRules α} {loops : Prop} {T : Thrown → Prop}
  {J E : Calls α → Prop} {A : Thrown → Calls α → Prop}
  (hthrowing : ∀ calls o r, rules.allowed calls o r → Throwing T o r)

/-- How code may end: in `E` if it returns, in `A` if it throws. -/
def Ends (E : Calls α → Prop) (A : Thrown → Calls α → Prop) :
    Except Thrown β → Calls α → Prop
  | .ok _, calls => E calls
  | .error err, calls => A err calls

include hthrowing in
/-- Code that keeps `E` ends there, or throws. -/
theorem wp_ends {p : Code α β} {K : List OpKind} (hp : p.Uses (On K))
    (hthrows : ThrowsOnly T p) (hframe : (logged rules loops).Frame (On K) E)
    (hA : ∀ err calls, E calls → T err → A err calls) :
    KeepsOrThrows (logged rules loops) E A p := by
  intro calls h
  refine Prog.wp_mono (Prog.wp_and_answering hthrows
    (fun o calls r _ ht => hthrowing calls o r ht.2) (Prog.wp_of_uses hp hframe h)) ?_
  intro out calls' hout
  cases out with
  | ok b => exact hout.2
  | error err => exact hA err calls' hout.2 (hout.1 err rfl)

variable {step : ChunkStepDefinition} {context : ChunkExecutionContext} {policies : Policies}
  {partition : Option (Int × Int)} {fuel : Nat} {calls : Calls α}

include hthrowing in
/-- **The rule of the `try` block**: how its loop ends is how it ends. -/
theorem wp_body_ends (hT : CoversErrors T)
    (hpreparing : (logged rules loops).Frame (On prepareKinds) J)
    (hclosing : (logged rules loops).Frame (On closingKinds) E)
    (hJ : ∀ err calls, J calls → T err → A err calls)
    (hE : ∀ err calls, E calls → T err → A err calls)
    (hloop : ∀ (S : Setting) l calls, S.For step context policies partition →
      SameCounters { chunkIndex := S.firstChunk } l → J calls →
        Scoped.wp (logged rules loops) (S.chunkLoop fuel) (fun out _ => Ends E A out) l calls)
    (h : J calls) :
    Scoped.wp (logged rules loops) (body fuel step context policies partition)
      (fun out _ => Ends E A out) {} calls := by
  have hreader : (resolveReader step.reader context step : Code α ItemHandler).wp
      (logged rules loops) (fun out s' => J s' ∧ ∀ reader, out = .ok reader → True) calls :=
    Prog.wp_mono (Prog.wp_of_uses (uses_resolveReader (by decide) (by decide) _ _ _) hpreparing h)
      fun _ _ h => ⟨h, fun _ _ => trivial⟩
  have htrans : ∀ o calls r calls', (logged rules loops).trans o calls r calls' → Throwing T o r :=
    fun o calls r _ ht => hthrowing calls o r ht.2
  have hprepare := Scoped.wp_and_answering
    (throwsOnly_prepare hT step context policies partition {}) htrans
    (wp_prepare hpreparing hreader)
  refine Scoped.wp_seq hprepare ?_ fun err _ calls' h' => hJ err calls' h'.2.1 (h'.1 err rfl)
  intro S l₁ calls₁ h₁
  obtain ⟨hS, -, hl⟩ := h₁.2.2 S rfl
  refine Scoped.wp_seq (hloop S l₁ calls₁ hS hl h₁.2.1) ?_ fun _ _ _ h' => h'
  intro _ l₂ calls₂ h₂
  rw [Scoped.wp_bind, Scoped.wp_get, Scoped.afterwards_ok, Scoped.wp_bind, Scoped.wp_modify,
    Scoped.afterwards_ok]
  refine wp_seq_hook (wp_ends hthrowing (uses_closeStreams (by decide) _)
    (throwsOnly_closeStreams _) hclosing hE) h₂ ?_ fun _ _ h' => h'
  intro _ calls₃ h₃
  rw [Scoped.wp_lift]
  refine Prog.wp_mono (wp_ends hthrowing (uses_invokeAfterStep (by decide) _ _ _)
    (throwsOnly_invokeAfterStep _ _ _) hclosing hE calls₃ h₃) ?_
  intro out calls' hout
  cases out with
  | ok result => exact hout
  | error err => exact hout

end Body

section TryBlock

variable {υ : Type} {env : Environment α υ} {fuel : Nat} {step : ChunkStepDefinition}
  {context : ChunkExecutionContext} {w : World υ} {out : Except Thrown StepResult}
  {calls : Calls α}

/-- The executor, started in `w`, comes to the end of its `try` block with `out`; `calls` are all it
has made until then. -/
def TryEnds (env : Environment α υ) (fuel : Nat) (step : ChunkStepDefinition)
    (context : ChunkExecutionContext) (w : World υ) (out : Except Thrown StepResult)
    (calls : Calls α) : Prop :=
  ∃ policies partition before w₁ l w₂, Policies.compile step = .ok policies ∧
    resolveRange step context = .ok partition ∧
    Prog.run (handle env).traced (invokeBefore context.listenerResolvers .step
      (buildListenerContext step context)) (w, []) = (.returned (), (w₁, before)) ∧
    Prog.run (handle env).traced (body fuel step context policies partition {}) (w₁, before) =
      (.returned (out, l), (w₂, calls))

/-- What is left of the run then is the `catch` block. -/
theorem TryEnds.run_execute (h : TryEnds env fuel step context w out calls) :
    ∃ l w', Prog.run (handle env).traced (execute fuel step context) (w, []) =
      Prog.run (handle env).traced (recover step context (out, l)) (w', calls) := by
  obtain ⟨policies, partition, before, w₁, l, w₂, hpolicies, hpartition, hbefore, hbody⟩ := h
  refine ⟨l, w₂, ?_⟩
  unfold execute
  rw [hpolicies, hpartition]
  change Prog.run (handle env).traced (invokeBefore context.listenerResolvers .step
    (buildListenerContext step context) >>= fun _ =>
      body fuel step context policies partition {} >>= recover step context) (w, []) = _
  rw [Prog.run_bind, hbefore]
  dsimp only
  rw [Prog.run_bind, hbody]

/-- How the log lets the `try` block end is how it ends. -/
theorem TryEnds.of_logged {rules : CallRules α} {R : World υ → Calls α → Prop}
    {J E : Calls α → Prop} {A : Thrown → Calls α → Prop}
    (htry : TryEnds env fuel step context w out calls) (henv : AnswersAs env rules R)
    (hR : R w []) (hbefore : (logged rules True).Frame (On [.listener]) J) (hstart : J [])
    (hbody : ∀ policies partition calls, Policies.compile step = .ok policies →
      resolveRange step context = .ok partition → J calls →
        Scoped.wp (logged rules True) (body fuel step context policies partition)
          (fun out _ => Ends E A out) {} calls) : Ends E A out calls := by
  obtain ⟨policies, partition, before, w₁, l, w₂, hpolicies, hpartition, hlisteners, hrun⟩ := htry
  have hfirst := Prog.wp_run (wp_of_logged henv (w := w) (Prog.wp_of_uses
    (uses_invokeMatching (by decide) (.lifecycle .before .step)
      (.ctx (buildListenerContext step context)) context.listenerResolvers) hbefore hstart) hR)
  unfold invokeBefore at hlisteners
  rw [hlisteners] at hfirst
  have hsecond := Prog.wp_run (wp_of_logged henv (w := w₁)
    (hbody policies partition before hpolicies hpartition hfirst.1) hfirst.2)
  rw [hrun] at hsecond
  exact hsecond.1

end TryBlock

end ChunkStepExecutor

end NestBatch
