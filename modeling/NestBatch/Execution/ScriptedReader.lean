import NestBatch.Execution.Replay
import NestBatch.Lib.CallScript

/-!
# A plain reader that may fail

What the chunk loop reads when the calls of its reader answer as a script says,
failures included: chunk `k` makes the calls of the `k`-th batch of the script,
one batch a chunk, and the drain makes the same calls as long as none of them
fails.  The state of this logic is the number of calls made and the chunk that
is passed next.
-/

namespace NestBatch

variable {α : Type}

/-- Where a step over a scripted reader stands. -/
structure ReadPlace where
  /-- Reads made since the reader was made. -/
  reads : Nat
  /-- The chunk that is passed next. -/
  next : Nat

/-- A read is answered as the script says. -/
def YieldsCall (script : CallScript Thrown α) : (o : Op α) → Nat → o.Resp → Prop
  | .user (.read _ _), n, r => r = script n
  | _, _, _ => True

/-- The reader of the step is no item stream, and nobody takes back that the step failed. -/
def PlainAnswer (step : ChunkStepDefinition) : (o : Op α) → o.Resp → Prop
  | .user (.invoke fn), r => step.reader.fn = some fn → ∀ c, r = .ok c → c.isStream = false
  | .user (.factory _ _), r => ∀ c, r = .ok c → c.isStream = false
  | .user (.afterStep _ _ result), r => result.status = .FAILED → r.2.status = .FAILED
  | _, _ => True

/-- Passing a chunk makes the one behind it the next. -/
def nextAfter : Op α → Nat → Nat
  | .passed _ _ _ _, k => k + 1
  | _, k => k

/-- A reader is made before anything is read, every read of a chunk is a call of its
batch, and a chunk is passed as its batch has been read. -/
def ReadsInPlace (script : CallScript Thrown α) (size : Nat) (g : ReadPlace) : Op α → Prop
  | .user (.invoke _) => g.reads = 0
  | .user (.factory _ _) => g.reads = 0
  | .user (.read _ ctx) => 0 ≤ ctx.chunkIndex ∧ script.start size ctx.chunkIndex.toNat ≤ g.reads ∧
      g.reads < script.start size (ctx.chunkIndex.toNat + 1)
  | .passed _ chunkIndex items _ => chunkIndex = g.next ∧
      g.reads = script.start size (g.next + 1) ∧ items = script.chunk size g.next ∧
      ∀ j ≤ g.next, script.chunk size j ≠ []
  | _ => True

/-- The logic of a step whose reader answers as `script` says. -/
def scripted (script : CallScript Thrown α) (step : ChunkStepDefinition) :
    Prog.Logic (Op α) Op.Resp ReadPlace where
  trans o g r g' := Reads o g.reads g'.reads ∧ YieldsCall script o g.reads r ∧
    g'.next = nextAfter o g.next ∧ PlainAnswer step o r
  guard o g := ReadsInPlace script step.chunkSize g o
  loops := True

/-- The operations that move the reader or pass a chunk. -/
def scriptKinds : List OpKind := [.read, .invoke, .factory, .passed]

section Frame

variable {script : CallScript Thrown α} {step : ChunkStepDefinition} {K : List OpKind}

theorem nextAfter_of_kind {o : Op α} (h : o.kind ≠ .passed) (k : Nat) : nextAfter o k = k := by
  cases o with
  | passed => exact absurd rfl h
  | _ => rfl

theorem readsInPlace_of_kind {o : Op α} (h : o.kind ∉ scriptKinds) (size : Nat) (g : ReadPlace) :
    ReadsInPlace script size g o := by
  cases o with
  | user call =>
      cases call with
      | read => exact absurd (by simp [scriptKinds, Op.kind, UserCall.kind]) h
      | invoke => exact absurd (by simp [scriptKinds, Op.kind, UserCall.kind]) h
      | factory => exact absurd (by simp [scriptKinds, Op.kind, UserCall.kind]) h
      | _ => trivial
  | passed => exact absurd (by simp [scriptKinds, Op.kind]) h
  | _ => trivial

/-- Operations that make no reader, read nothing and pass no chunk. -/
theorem scripted_frame (h : ∀ k ∈ K, k ∉ scriptKinds) {loops : Prop} (J : ReadPlace → Prop) :
    (scripted script step).Frame (On K loops) J where
  guard o g ho _ := readsInPlace_of_kind (h _ ho) _ g
  keep o g r g' ho hg ht := by
    have hkind := h _ ho
    simp only [scriptKinds, List.mem_cons, List.not_mem_nil, or_false, not_or] at hkind
    obtain ⟨hread, hinvoke, hfactory, hpassed⟩ := hkind
    have hreads : g'.reads = g.reads := by
      refine reads_of_kind ?_ ht.1
      simp only [List.mem_cons, List.not_mem_nil, or_false, not_or]
      exact ⟨hread, hinvoke, hfactory⟩
    have hnext : g'.next = g.next := ht.2.2.1.trans (nextAfter_of_kind hpassed g.next)
    have hsame : g' = g := by
      cases g
      cases g'
      cases hreads
      cases hnext
      rfl
    exact hsame ▸ hg
  loops _ := trivial

/-- Making the reader of a step that has not read anything yet. -/
theorem scripted_frame_start (h : ∀ k ∈ K, k ∉ [OpKind.read, .passed]) (first : Nat) :
    (scripted script step).Frame (On K) (fun g => g = { reads := 0, next := first }) where
  guard o g ho hg := by
    subst hg
    have hkind := h _ ho
    cases o with
    | user call =>
        cases call with
        | read => exact absurd (by simp [Op.kind, UserCall.kind]) hkind
        | invoke => exact rfl
        | factory => exact rfl
        | _ => trivial
    | passed => exact absurd (by simp [Op.kind]) hkind
    | _ => trivial
  keep o g r g' ho hg ht := by
    subst hg
    have hkind := h _ ho
    have hreads : g'.reads = 0 := by
      have hmoves := ht.1
      cases o with
      | user call =>
          cases call with
          | read => exact absurd (by simp [Op.kind, UserCall.kind]) hkind
          | invoke fn => exact hmoves.elim id id
          | factory fn ctx => exact hmoves.elim id id
          | _ => exact hmoves
      | _ => exact hmoves
    have hnext : g'.next = first := ht.2.2.1.trans (nextAfter_of_kind (by
      intro heq
      exact hkind (by simp [heq])) first)
    cases g'
    cases hreads
    cases hnext
    rfl
  loops h := h.elim

end Frame

/-- The policies skip whatever the reader throws, as far as their limit goes. -/
def SkipsFailures (script : CallScript Thrown α) (policies : Policies) : Prop :=
  ∀ n err, script n = .error err → policies.skips err = true

namespace ChunkStepExecutor

open ListenerInvoker

/-- What is skipped is never retried. -/
theorem consult_ne_retry {policies : Policies} {err : Thrown}
    (h : policies.skips err = true) (skipCount attempt : Nat) :
    consult policies err skipCount attempt ≠ .retry := by
  intro hretry
  rw [(consult_retry hretry).1] at h
  cases h

namespace Setting

variable (S : Setting) {script : CallScript Thrown α}

/-- One read of the script. -/
theorem wp_read_script {chunkIndex : Int} {g : ReadPlace}
    (hplace : ReadsInPlace script S.step.chunkSize g
      (.user (.read S.reader.target (S.itemContext chunkIndex)))) :
    (S.read chunkIndex : Code α (Option α)).wp (scripted script S.step)
      (fun out g' => out = script g.reads ∧ g' = { g with reads := g.reads + 1 }) g := by
  refine wp_orThrow.mpr (Prog.wp_perform.mpr ⟨hplace, ?_⟩)
  intro r g' ht
  obtain ⟨hreads, hr, hnext, -⟩ := ht
  have hsame : g' = { g with reads := g.reads + 1 } := by
    cases g'
    cases hreads
    cases hnext
    rfl
  have hanswer : r = script g.reads := hr
  subst hsame hanswer
  cases script g.reads with
  | error err => exact ⟨rfl, rfl⟩
  | ok item => exact ⟨rfl, rfl⟩

/-- The states of a read at call `g.reads`. -/
def callStates (script : CallScript Thrown α) (g : ReadPlace) :
    PhaseStates ReadPlace (Option α) where
  I g' := g' = g
  V value g' := script g.reads = .ok value ∧ g' = { g with reads := g.reads + 1 }
  E err g' := script g.reads = .error err ∧ g' = { g with reads := g.reads + 1 }
  A g' := g.reads ≤ g'.reads

/-- The hooks of a read step through the places of the script. -/
theorem callStates_steps {chunkIndex : Int} {g : ReadPlace}
    (hplace : ReadsInPlace script S.step.chunkSize g
      (.user (.read S.reader.target (S.itemContext chunkIndex)))) :
    (callStates script g).Steps (scripted script S.step) (S.read chunkIndex)
      (S.readHooks chunkIndex) := by
  have hwithin := S.readHooks_within (α := α) (K := [.listener]) (by decide) chunkIndex
  have hkeep : ∀ {p : Code α Unit} {J : ReadPlace → Prop}, p.Uses (On [.listener]) →
      (∀ g', J g' → g.reads ≤ g'.reads) →
      KeepsOr (scripted script S.step) J (callStates script g).A p :=
    fun hp hJ => keepsOr_of_uses hp (scripted_frame (by decide) _) hJ
  have hmoved : ∀ (P : Prop) (g' : ReadPlace), P ∧ g' = { g with reads := g.reads + 1 } →
      g.reads ≤ g'.reads := by
    intro P g' h
    rw [h.2]
    exact Nat.le_succ g.reads
  refine ⟨hkeep hwithin.before ?_, ?_, fun value => hkeep (hwithin.after value) (hmoved _),
    fun err => hkeep (hwithin.onError err) (hmoved _),
    fun err => hkeep (hwithin.onSkip err) (hmoved _), fun err g' => hmoved _ g'⟩
  · intro g' hg'
    have hsame : g' = g := hg'
    rw [hsame]
  · intro g' hg'
    have hsame : g' = g := hg'
    subst hsame
    refine Prog.wp_mono (S.wp_read_script hplace) ?_
    intro out g'' hout
    obtain ⟨hread, hg''⟩ := hout
    cases out with
    | error err => exact ⟨hread.symm, hg''⟩
    | ok value => exact ⟨hread.symm, hg''⟩

/-- A call of the batch of a chunk is in its place. -/
theorem readsInPlace_batch {k : Nat} {m : Nat} {g : ReadPlace} (size : Nat) (S : Setting)
    (hlow : script.start size k ≤ g.reads)
    (hend : (script.batch (m + 1) g.reads).1 = script.start size (k + 1)) :
    ReadsInPlace script size g (.user (.read S.reader.target (S.itemContext k))) := by
  have hlt := script.lt_batch (Nat.succ_pos m) g.reads
  rw [hend] at hlt
  refine ⟨Int.natCast_nonneg k, ?_, ?_⟩
  · exact hlow
  · exact hlt

/-- The read phase makes the rest of the calls of a batch. -/
theorem wp_readPhase_script (hskips : SkipsFailures script S.policies) {k : Nat} (m : Nat)
    (taken : List α) {l : Locals} {g : ReadPlace}
    (hlow : script.start S.step.chunkSize k ≤ g.reads)
    (hend : (script.batch m g.reads).1 = script.start S.step.chunkSize (k + 1)) :
    Scoped.wp (scripted script S.step) (S.readPhase k m taken) (fun out l' g' => SameChunk l l' ∧
      match out with
      | .ok chunk => chunk = taken ++ (script.batch m g.reads).2 ∧
          g' = { g with reads := script.start S.step.chunkSize (k + 1) }
      | .error _ => g.reads ≤ g'.reads) l g := by
  induction m generalizing taken l g with
  | zero =>
      refine ⟨.refl l, (List.append_nil taken).symm, ?_⟩
      have hreads : g.reads = script.start S.step.chunkSize (k + 1) := hend
      rw [← hreads]
  | succ m ih =>
      have hplace := readsInPlace_batch S.step.chunkSize S hlow hend
      have honce : ∀ err g' skipCount attempt, (callStates script g).E err g' →
          consult S.policies err skipCount attempt ≠ .retry := by
        intro err g' skipCount attempt h
        exact consult_ne_retry (hskips _ err h.1) skipCount attempt
      have hphase := wp_runPhase_once (l := l) (s := g) (S.callStates_steps hplace) honce rfl
      refine Scoped.wp_seq hphase ?_ fun err l' g' h => ⟨h.1, h.2⟩
      have hlow' : script.start S.step.chunkSize k ≤ g.reads + 1 := by omega
      intro r l' g' h
      match r with
      | .skipped =>
          obtain ⟨hl, err, _, _, ⟨herr, hg'⟩, _⟩ := h
          subst hg'
          have hbatch : script.batch (m + 1) g.reads = script.batch m (g.reads + 1) := by
            rw [CallScript.batch, herr]
          rw [hbatch] at hend ⊢
          refine Scoped.wp_mono (ih taken hlow' hend) ?_
          intro out l'' g'' hout
          refine ⟨.trans _ _ _ hl hout.1, ?_⟩
          cases out with
          | ok chunk => exact hout.2
          | error err' => exact Nat.le_of_succ_le hout.2
      | .ok none =>
          obtain ⟨hl, hread, hg'⟩ := h
          subst hg'
          have hbatch : script.batch (m + 1) g.reads = (g.reads + 1, []) := by
            rw [CallScript.batch, hread]
          rw [hbatch] at hend ⊢
          refine ⟨hl, (List.append_nil taken).symm, ?_⟩
          rw [← hend]
      | .ok (some item) =>
          obtain ⟨hl, hread, hg'⟩ := h
          subst hg'
          have hbatch : script.batch (m + 1) g.reads =
              ((script.batch m (g.reads + 1)).1, item :: (script.batch m (g.reads + 1)).2) := by
            rw [CallScript.batch, hread]
          rw [hbatch] at hend ⊢
          rw [Scoped.wp_bind, Scoped.wp_modify, Scoped.afterwards_ok]
          refine Scoped.wp_mono (ih (taken ++ [item]) hlow' hend) ?_
          intro out l'' g'' hout
          have hcount : SameChunk l' { l' with readCount := l'.readCount + 1 } :=
            ⟨rfl, rfl, rfl, rfl⟩
          refine ⟨.trans _ _ _ hl (.trans _ _ _ hcount hout.1), ?_⟩
          cases out with
          | ok chunk =>
              refine ⟨?_, hout.2.2⟩
              rw [hout.2.1, List.append_assoc, List.singleton_append]
          | error err' => exact Nat.le_of_succ_le hout.2

/-- The drain makes the same calls, unless one of them fails. -/
theorem wp_drainItems_script {k : Nat} (m drained : Nat) {g : ReadPlace}
    (hlow : script.start S.step.chunkSize k ≤ g.reads)
    (hend : (script.batch m g.reads).1 = script.start S.step.chunkSize (k + 1)) :
    (S.drainItems k m drained : Code α Nat).wp (scripted script S.step) (fun out g' =>
      match out with
      | .ok d => d = drained + (script.batch m g.reads).2.length ∧
          g' = { g with reads := script.start S.step.chunkSize (k + 1) }
      | .error _ => ∃ n < script.start S.step.chunkSize (k + 1), ¬ script.Answers n) g := by
  induction m generalizing drained g with
  | zero =>
      refine ⟨rfl, ?_⟩
      have hreads : g.reads = script.start S.step.chunkSize (k + 1) := hend
      rw [← hreads]
  | succ m ih =>
      have hplace := readsInPlace_batch S.step.chunkSize S hlow hend
      have hlow' : script.start S.step.chunkSize k ≤ g.reads + 1 := by omega
      refine Prog.wp_seq (S.wp_read_script hplace) ?_ ?_
      · intro item g' h
        obtain ⟨hread, hg'⟩ := h
        subst hg'
        cases item with
        | none =>
            have hbatch : script.batch (m + 1) g.reads = (g.reads + 1, []) := by
              rw [CallScript.batch, ← hread]
            rw [hbatch] at hend ⊢
            refine ⟨rfl, ?_⟩
            rw [← hend]
        | some item =>
            have hbatch : script.batch (m + 1) g.reads =
                ((script.batch m (g.reads + 1)).1, item :: (script.batch m (g.reads + 1)).2) := by
              rw [CallScript.batch, ← hread]
            rw [hbatch] at hend ⊢
            refine Prog.wp_mono (ih (drained + 1) hlow' hend) ?_
            intro out g'' hout
            cases out with
            | error err => exact hout
            | ok d =>
                have hcount : d = drained + 1 + (script.batch m (g.reads + 1)).2.length := hout.1
                refine ⟨?_, hout.2⟩
                rw [hcount, List.length_cons]
                omega
      · intro err g' h
        have hlt := script.lt_batch (Nat.succ_pos m) g.reads
        rw [hend] at hlt
        refine ⟨g.reads, hlt, ?_⟩
        intro hanswers
        obtain ⟨answer, hanswer⟩ := hanswers
        rw [← h.1] at hanswer
        cases hanswer

/-- Committing a chunk reads nothing, and passes the chunk that it was given. -/
theorem wp_commitChunk_script {k : Nat} {l : Locals} {g : ReadPlace} (hnext : g.next = k)
    (hreads : g.reads = script.start S.step.chunkSize (k + 1)) {items : List α}
    (hitems : items = script.chunk S.step.chunkSize k)
    (hyielded : ∀ j ≤ k, script.chunk S.step.chunkSize j ≠ []) (hindex : l.chunkIndex = k) :
    Scoped.wp (scripted script S.step) (S.commitChunk k items) (fun out l' g' =>
      g'.reads = g.reads ∧
        (out = .ok () → l'.chunkIndex = (k + 1 : Nat) ∧ g'.next = k + 1)) l g := by
  unfold commitChunk
  have hfail : ∀ {e : Thrown} {l' : Locals} {g' : ReadPlace}, g'.reads = g.reads →
      g'.reads = g.reads ∧ ((Except.error e : Except Thrown Unit) = .ok () →
        l'.chunkIndex = (k + 1 : Nat) ∧ g'.next = k + 1) :=
    fun h => ⟨h, fun h => by cases h⟩
  refine wp_seq_quiet (S.quiet_processPhase (K := [.process, .listener]) (by decide) (by decide)
    _ _ _) (scripted_frame (by decide) (g = ·)) rfl ?_ ?_
  · intro processed l₁ g₁ hl₁ hg₁
    subst hg₁
    refine wp_seq_quiet (S.quiet_writePhase (K := [.write, .lengthOf, .listener]) (by decide)
      (by decide) (by decide) _ _) (scripted_frame (by decide) (g = ·)) rfl ?_ ?_
    · intro ending l₂ g₂ hl₂ hg₂
      subst hg₂
      have hplace : ReadsInPlace script S.step.chunkSize g
          (.passed S.context.stepExecutionId k items ending : Op α) := by
        rw [← hnext] at hreads hitems hyielded
        exact ⟨congrArg Nat.cast hnext.symm, hreads, hitems, hyielded⟩
      refine Scoped.wp_bind.mpr (Scoped.wp_lift.mpr (Prog.wp_perform.mpr ⟨hplace, ?_⟩))
      intro _ g₃ ht
      have hreads₃ : g₃.reads = g.reads := ht.1
      have hnext₃ : g₃.next = k + 1 := ht.2.2.1.trans (congrArg (· + 1) hnext)
      refine Scoped.wp_seq (Scoped.wp_of_keeps S.keeps_checkpoint
        (scripted_frame (by decide) (g₃ = ·)) rfl) ?_ ?_
      · intro _ l₄ g₄ h₄
        obtain ⟨hl₄, hg₄⟩ := h₄
        subst hg₄
        rw [Scoped.wp_bind, Scoped.wp_get, Scoped.afterwards_ok]
        refine wp_seq_quiet (K := [.listener]) (quiet_lift (uses_invokeMatching (by decide) _ _ _))
          (scripted_frame (by decide) (g₃ = ·)) rfl ?_ ?_
        · intro _ l₅ g₅ hl₅ hg₅
          subst hg₅
          rw [Scoped.wp_modify]
          refine ⟨hreads₃, ?_⟩
          intro _
          refine ⟨?_, hnext₃⟩
          have hlast : l₅.chunkIndex = k := by
            rw [hl₅.chunkIndex, hl₄.chunkIndex, hl₂.chunkIndex, hl₁.chunkIndex, hindex]
          change l₅.chunkIndex + 1 = _
          omega
        · intro err l₅ g₅ _ hg₅
          subst hg₅
          exact hfail hreads₃
      · intro err l₄ g₄ h₄
        obtain ⟨-, hg₄⟩ := h₄
        subst hg₄
        exact hfail hreads₃
    · intro err l₂ g₂ _ hg₂
      subst hg₂
      exact hfail rfl
  · intro err l₁ g₁ _ hg₁
    subst hg₁
    exact hfail rfl

/-- The chunk from which on a run processes. -/
def firstProcessed (S : Setting) : Nat := (nextChunk S.context.resumeFromChunkIndex).toNat

/-- Where the reader stands at the head of the loop, at chunk `k`: in front of its batch,
every chunk before it having had an item. -/
structure AtBatch (script : CallScript Thrown α) (S : Setting) (l : Locals) (g : ReadPlace)
    (k : Nat) : Prop where
  index : l.chunkIndex = k
  reads : g.reads = script.start S.step.chunkSize k
  yielded : ∀ j < k, script.chunk S.step.chunkSize j ≠ []
  next : g.next = max k S.firstProcessed

/-- The reader has come behind the chunks before `lo`, or a call of them fails. -/
def PastDrain (script : CallScript Thrown α) (size lo : Nat) (g : ReadPlace) : Prop :=
  script.start size lo ≤ g.reads ∨ ∃ n < script.start size lo, ¬ script.Answers n

/-- The loop, processing from chunk `lo` on, has ended at a chunk without an item. -/
structure AtEnd (script : CallScript Thrown α) (size lo : Nat) (g : ReadPlace) : Prop where
  processed : lo ≤ g.next
  reads : script.start size g.next ≤ g.reads
  yielded : ∀ j < g.next, script.chunk size j ≠ []
  empty : script.chunk size g.next = []

/-- What an iteration at a chunk leaves. -/
def BatchState (script : CallScript Thrown α) (S : Setting) (k : Nat) :
    Except Thrown Bool → Locals → ReadPlace → Prop
  | .ok true, l, g => S.AtBatch script l g (k + 1)
  | .ok false, _, g => AtEnd script S.step.chunkSize S.firstProcessed g
  | .error _, _, g => PastDrain script S.step.chunkSize S.firstProcessed g

variable {S} (hpartition : S.partition = none) (hsize : 0 < S.step.chunkSize)
  (hskips : SkipsFailures script S.policies)

include hpartition hsize in
/-- Without a partition the cap is the chunk size. -/
theorem cap_of_whole (readCount : Nat) : S.cap readCount = S.step.chunkSize ∧
    ¬ S.cap readCount = 0 := by
  have hcap : S.cap readCount = S.step.chunkSize := by
    unfold cap
    rw [hpartition]
  exact ⟨hcap, by omega⟩

include hpartition hsize hskips in
/-- Reading and committing one chunk. -/
theorem wp_runChunk_script {k : Nat} {l : Locals} {g : ReadPlace} (h : S.AtBatch script l g k)
    (hprocessed : S.firstProcessed ≤ k) :
    Scoped.wp (scripted script S.step) (S.runChunk : ChunkCode α Bool) (S.BatchState script k)
      l g := by
  have hnext : g.next = k := h.next.trans (Nat.max_eq_left hprocessed)
  have hpast : ∀ {g' : ReadPlace}, g.reads ≤ g'.reads →
      PastDrain script S.step.chunkSize S.firstProcessed g' := by
    intro g' hle
    have hstart := script.start_le S.step.chunkSize hprocessed
    have hreads := h.reads
    exact Or.inl (by omega)
  unfold runChunk
  rw [Scoped.wp_bind, Scoped.wp_get, Scoped.afterwards_ok]
  obtain ⟨hcap, hmore⟩ := cap_of_whole hpartition hsize l.readCount
  rw [if_neg hmore, hcap, h.index]
  refine wp_seq_quiet (quiet_listeners _ _ _) (scripted_frame (by decide) (g = ·)) rfl ?_ ?_
  · intro _ l₁ g₁ hl₁ hg₁
    subst hg₁
    have hlow := Nat.le_of_eq h.reads.symm
    have hend : (script.batch S.step.chunkSize g.reads).1 =
        script.start S.step.chunkSize (k + 1) := by rw [h.reads, CallScript.start]
    refine Scoped.wp_seq (S.wp_readPhase_script hskips S.step.chunkSize [] hlow hend) ?_
      fun _ _ _ h' => hpast h'.2
    intro chunk l₂ g₂ h₂
    obtain ⟨hl₂, hchunk, hg₂⟩ := h₂
    subst hg₂
    have hitems : chunk = script.chunk S.step.chunkSize k := by
      rw [hchunk, List.nil_append, h.reads, CallScript.chunk]
    have hreads := script.start_le S.step.chunkSize (Nat.le_succ k)
    split
    · next hempty =>
        rw [Scoped.wp_bind, Scoped.wp_get, Scoped.afterwards_ok]
        have hnone : script.chunk S.step.chunkSize k = [] := by
          rw [← hitems]
          exact List.isEmpty_iff.mp hempty
        refine wp_seq_quiet (quiet_listeners _ _ _) (scripted_frame (by decide)
          ({ g with reads := script.start S.step.chunkSize (k + 1) } = ·)) rfl ?_ ?_
        · intro _ l₃ g₃ _ hg₃
          subst hg₃
          rw [← hnext] at hprocessed hnone hreads ⊢
          exact ⟨hprocessed, hreads, fun j hj => h.yielded j (hnext ▸ hj), hnone⟩
        · intro err l₃ g₃ _ hg₃
          subst hg₃
          apply hpast
          rw [h.reads]
          exact hreads
    · next hempty =>
        have hsome : script.chunk S.step.chunkSize k ≠ [] := by
          intro hnone
          rw [← hitems] at hnone
          exact hempty (List.isEmpty_iff.mpr hnone)
        have hyielded : ∀ j ≤ k, script.chunk S.step.chunkSize j ≠ [] := by
          intro j hj
          by_cases hlast : j = k
          · rw [hlast]
            exact hsome
          · exact h.yielded j (by omega)
        have hindex : l₂.chunkIndex = k :=
          hl₂.chunkIndex.trans (hl₁.chunkIndex.trans h.index)
        have hcommit := S.wp_commitChunk_script (l := l₂)
          (g := { g with reads := script.start S.step.chunkSize (k + 1) }) hnext rfl hitems
          hyielded hindex
        refine Scoped.wp_seq hcommit ?_ ?_
        · intro _ l₃ g₃ h₃
          obtain ⟨hreads₃, hcommitted⟩ := h₃
          obtain ⟨hindex₃, hnext₃⟩ := hcommitted rfl
          refine ⟨hindex₃, hreads₃, fun j hj => hyielded j (Nat.le_of_lt_succ hj), ?_⟩
          rw [hnext₃]
          exact (Nat.max_eq_left (Nat.le_succ_of_le hprocessed)).symm
        · intro err l₃ g₃ h₃
          apply hpast
          rw [h₃.1, h.reads]
          exact hreads
  · intro err l₁ g₁ _ hg₁
    subst hg₁
    exact hpast (Nat.le_refl _)

/-- A plain reader is drained up to the chunk from which on the run processes. -/
theorem mustDrain_iff (hplain : S.reader.isStream = false) (k : Nat) :
    S.mustDrain k = true ↔ k < S.firstProcessed := by
  unfold mustDrain firstProcessed
  cases hresume : S.context.resumeFromChunkIndex with
  | none => simp [nextChunk]
  | some resume =>
      simp only [hplain, Bool.not_false, Bool.true_and, decide_eq_true_eq, nextChunk]
      omega

variable (hplain : S.reader.isStream = false)
  (hcommitted : ∀ j < S.firstProcessed, script.chunk S.step.chunkSize j ≠ [])

include hpartition hsize hskips hplain hcommitted

/-- **The step lemma**: every iteration makes the calls of one batch. -/
theorem wp_iteration_script {k : Nat} {l : Locals} {g : ReadPlace} (h : S.AtBatch script l g k) :
    Scoped.wp (scripted script S.step) (S.iteration : ChunkCode α Bool) (S.BatchState script k)
      l g := by
  unfold iteration
  rw [Scoped.wp_bind, Scoped.wp_get, Scoped.afterwards_ok, h.index]
  by_cases hdrain : k < S.firstProcessed
  · rw [if_pos ((mustDrain_iff hplain k).mpr hdrain)]
    unfold drainChunk
    rw [Scoped.wp_bind, Scoped.wp_get, Scoped.afterwards_ok]
    obtain ⟨hcap, hmore⟩ := cap_of_whole hpartition hsize l.readCount
    rw [if_neg hmore, hcap, h.index, Scoped.wp_bind, Scoped.wp_lift]
    have hlow := Nat.le_of_eq h.reads.symm
    have hend : (script.batch S.step.chunkSize g.reads).1 =
        script.start S.step.chunkSize (k + 1) := by rw [h.reads, CallScript.start]
    refine Prog.wp_mono (S.wp_drainItems_script S.step.chunkSize 0 hlow hend) ?_
    intro out g' hout
    cases out with
    | error err =>
        obtain ⟨n, hn, hfails⟩ := hout
        have hstart := script.start_le S.step.chunkSize (Nat.succ_le_of_lt hdrain)
        exact Or.inr ⟨n, Nat.lt_of_lt_of_le hn hstart, hfails⟩
    | ok drained =>
        obtain ⟨hcount, hg'⟩ := hout
        subst hg'
        rw [Scoped.afterwards_ok]
        have hsome := hcommitted k hdrain
        have hdrained : ¬ drained = 0 := by
          intro hzero
          rw [hzero, Nat.zero_add, h.reads] at hcount
          exact hsome (List.length_eq_zero_iff.mp hcount.symm)
        rw [if_neg hdrained, Scoped.wp_bind, Scoped.wp_modify, Scoped.afterwards_ok]
        refine ⟨?_, rfl, ?_, ?_⟩
        · change l.chunkIndex + 1 = _
          rw [h.index]
          rfl
        · intro j hj
          exact hcommitted j (by omega)
        · have hnext := h.next
          change g.next = _
          omega
  · rw [if_neg (fun hmust => hdrain ((mustDrain_iff hplain k).mp hmust))]
    exact wp_runChunk_script hpartition hsize hskips h (Nat.not_lt.mp hdrain)

/-- **The run lemma** of the chunk loop. -/
theorem wp_chunkLoop_script (fuel : Nat) {k : Nat} {l : Locals} {g : ReadPlace}
    (h : S.AtBatch script l g k) :
    Scoped.wp (scripted script S.step) (S.chunkLoop fuel : ChunkCode α Unit) (fun out _ g' =>
      match out with
      | .ok () => AtEnd script S.step.chunkSize S.firstProcessed g'
      | .error _ => PastDrain script S.step.chunkSize S.firstProcessed g') l g := by
  induction fuel generalizing k l g with
  | zero => trivial
  | succ fuel ih =>
      refine Scoped.wp_seq (wp_iteration_script hpartition hsize hskips hplain hcommitted h) ?_
        fun _ _ _ h' => h'
      intro again l' g' hagain
      cases again with
      | true => exact ih hagain
      | false => exact hagain

end Setting

end ChunkStepExecutor

end NestBatch
