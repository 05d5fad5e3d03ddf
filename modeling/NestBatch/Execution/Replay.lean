import NestBatch.Execution.Checkpoint

/-!
# A plain reader over a list

What the chunk loop reads when its reader yields the items of a list in order
and then the end of input, forever: chunk `k` is built from the items at
positions `k * size` up to `(k + 1) * size`, whether the chunks before it were
processed in this run or drained.  The state of this logic is the number of
reads made; what else the user code does is left open.
-/

namespace NestBatch

variable {α : Type}

/-- The items of chunk `k`. -/
def chunkOf (items : List α) (size : Nat) (k : Int) : List α :=
  (items.drop (k.toNat * size)).take size

/-- Where a step over a list stands. -/
structure Reading where
  /-- Reads made since the reader was made. -/
  reads : Nat
  /-- A chunk is written or passed, and its checkpoint is not yet saved. -/
  pending : Bool := false

/-- What the user code of such a step promises: its reader is no item stream, it
does not fail between the write of a chunk and its checkpoint, it does not turn a
failed step into another one, and its deciders do not fail. -/
def Promises (step : ChunkStepDefinition) : (o : Op α) → o.Resp → Prop
  | .user (.invoke fn), r => step.reader.fn = some fn → ∀ c, r = .ok c → c.isStream = false
  | .user (.factory _ _), r => ∀ c, r = .ok c → c.isStream = false
  | .user (.updateStream _ _), r => ∃ ctx, r = .ok ctx
  | .user (.listener _ key _), r => key = .lifecycle .after .itemWrite → r = .ok ()
  | .user (.afterStep _ _ result), r => result.status = .FAILED → r.2.status = .FAILED
  | .user (.decide _ _), r => ∃ status, r = .ok status
  | _, _ => True

/-- How many reads have been made after an operation; making a reader may start over. -/
def Reads : Op α → Nat → Nat → Prop
  | .user (.read _ _), n, n' => n' = n + 1
  | .user (.invoke _), n, n' => n' = n ∨ n' = 0
  | .user (.factory _ _), n, n' => n' = n ∨ n' = 0
  | _, n, n' => n' = n

/-- A read yields the item at the position of the reader. -/
def YieldsItem (items : List α) : (o : Op α) → Nat → o.Resp → Prop
  | .user (.read _ _), n, r => r = .ok items[n]?
  | _, _, _ => True

/-- Whether a chunk is pending after an operation. -/
def pendingAfter : (o : Op α) → o.Resp → Bool → Bool
  | .user (.write _ _ _), r, pending =>
      match (r : Except Thrown (Option WriterResult)) with
      | .ok _ => true
      | .error _ => pending
  | .passed _ _ _ _, _, _ => true
  | .saveExecutionContext _ _, _, _ => false
  | _, _, pending => pending

/-- A chunk is written only when none is pending, and passed as it was read. -/
def TakesChunk (items : List α) (size : Nat) (pending : Bool) : Op α → Prop
  | .user (.write _ _ _) => pending = false
  | .passed _ chunkIndex chunk _ => 0 ≤ chunkIndex ∧ chunk = chunkOf items size chunkIndex
  | _ => True

/-- The logic of a step whose reader replays `items`; its loops come to an end. -/
def replay (items : List α) (step : ChunkStepDefinition) :
    Prog.Logic (Op α) Op.Resp Reading where
  trans o s r s' := Reads o s.reads s'.reads ∧ YieldsItem items o s.reads r ∧
    s'.pending = pendingAfter o r s.pending ∧ Promises step o r
  guard o s := TakesChunk items step.chunkSize s.pending o
  loops := False

/-- The operations that move the reader or a chunk. -/
def replayKinds : List OpKind := [.read, .invoke, .factory, .write, .passed, .saveContext]

section Frame

variable {items : List α} {step : ChunkStepDefinition} {K : List OpKind}

theorem reads_of_kind {o : Op α} {n n' : Nat} (h : o.kind ∉ [.read, .invoke, .factory])
    (hreads : Reads o n n') : n' = n := by
  cases o with
  | user call =>
      cases call with
      | read => exact absurd (by simp [Op.kind, UserCall.kind]) h
      | invoke => exact absurd (by simp [Op.kind, UserCall.kind]) h
      | factory => exact absurd (by simp [Op.kind, UserCall.kind]) h
      | _ => exact hreads
  | _ => exact hreads

theorem pendingAfter_of_kind {o : Op α} (h : o.kind ∉ [.write, .passed, .saveContext])
    (r : o.Resp) (pending : Bool) : pendingAfter o r pending = pending := by
  cases o with
  | user call =>
      cases call with
      | write => exact absurd (by simp [Op.kind, UserCall.kind]) h
      | _ => rfl
  | passed => exact absurd (by simp [Op.kind]) h
  | saveExecutionContext => exact absurd (by simp [Op.kind]) h
  | _ => rfl

theorem takesChunk_of_kind {o : Op α} (h : o.kind ∉ [.write, .passed]) (size : Nat)
    (pending : Bool) : TakesChunk items size pending o := by
  cases o with
  | user call =>
      cases call with
      | write => exact absurd (by simp [Op.kind, UserCall.kind]) h
      | _ => trivial
  | passed => exact absurd (by simp [Op.kind]) h
  | _ => trivial

/-- Operations that make no reader, read nothing and move no chunk. -/
theorem replay_frame (h : ∀ k ∈ K, k ∉ replayKinds) (J : Reading → Prop) :
    (replay items step).Frame (On K) J where
  guard o _ ho _ := takesChunk_of_kind (fun hk => h _ ho (by
    simp only [replayKinds, List.mem_cons] at hk ⊢
    tauto)) _ _
  keep o s r s' ho hs ht := by
    have hreads : s'.reads = s.reads := reads_of_kind (fun hk => h _ ho (by
      simp only [replayKinds, List.mem_cons] at hk ⊢
      tauto)) ht.1
    have hpending : s'.pending = s.pending :=
      ht.2.2.1.trans (pendingAfter_of_kind (fun hk => h _ ho (by
        simp only [replayKinds, List.mem_cons] at hk ⊢
        tauto)) r s.pending)
    have hsame : s' = s := by
      cases s
      cases s'
      cases hreads
      cases hpending
      rfl
    exact hsame ▸ hs
  loops h := h.elim

/-- Making the reader of a step that has not read anything yet. -/
theorem replay_frame_start (h : ∀ k ∈ K, k ∉ [OpKind.read, .write, .passed, .saveContext]) :
    (replay items step).Frame (On K) (fun s => s.reads = 0 ∧ s.pending = false) where
  guard o _ ho _ := takesChunk_of_kind (fun hk => h _ ho (by
    simp only [List.mem_cons] at hk ⊢
    tauto)) _ _
  keep o s r s' ho hs ht := by
    have hreads := ht.1
    have hkind : o.kind ≠ .read := fun hk => h _ ho (by simp [hk])
    refine ⟨?_, ?_⟩
    · cases o with
      | user call =>
          cases call with
          | read => exact absurd rfl hkind
          | invoke fn => exact hreads.elim (·.trans hs.1) id
          | factory fn ctx => exact hreads.elim (·.trans hs.1) id
          | _ => exact Eq.trans hreads hs.1
      | _ => exact Eq.trans hreads hs.1
    · exact ht.2.2.1.trans ((pendingAfter_of_kind (fun hk => h _ ho (by
        simp only [List.mem_cons] at hk ⊢
        tauto)) r s.pending).trans hs.2)
  loops h := h.elim

end Frame

/-- After `n` reads the reader stands at position `p`, or both are past the end. -/
def ReaderAt (items : List α) (n p : Nat) : Prop := min n items.length = min p items.length

section ReaderAt

variable {items : List α} {n p : Nat}

/-- A read past the end leaves the reader at the end. -/
theorem ReaderAt.ended (h : ReaderAt items n p) (hread : items[n]? = none) (m : Nat) :
    items.drop p = [] ∧ ReaderAt items (n + 1) (p + m) := by
  have hn : items.length ≤ n := List.getElem?_eq_none_iff.mp hread
  unfold ReaderAt at h ⊢
  exact ⟨List.drop_eq_nil_of_le (by omega), by omega⟩

/-- A read of an item moves the reader on by one. -/
theorem ReaderAt.advanced (h : ReaderAt items n p) {x : α} (hread : items[n]? = some x) :
    items.drop p = x :: items.drop (p + 1) ∧ ReaderAt items (n + 1) (p + 1) := by
  obtain ⟨hn, hx⟩ := List.getElem?_eq_some_iff.mp hread
  unfold ReaderAt at h ⊢
  have hp : p = n := by omega
  subst hp
  refine ⟨?_, rfl⟩
  rw [List.drop_eq_getElem_cons hn, hx]

end ReaderAt

namespace ChunkStepExecutor

open ListenerInvoker

namespace Setting

variable (S : Setting) {items : List α}

/-- One read of the list. -/
theorem wp_read_replay (chunkIndex : Int) {s : Reading} :
    (S.read chunkIndex : Code α (Option α)).wp (replay items S.step)
      (fun out s' => out = .ok items[s.reads]? ∧ s' = { s with reads := s.reads + 1 }) s := by
  refine wp_orThrow.mpr (Prog.wp_perform.mpr ⟨trivial, ?_⟩)
  intro r s' ht
  obtain ⟨hreads, hr, hpending, -⟩ := ht
  subst hr
  refine ⟨rfl, ?_⟩
  cases s'
  cases hreads
  cases hpending
  rfl

/-- The states of a read: nothing fails. -/
def readStates (items : List α) (s : Reading) : PhaseStates Reading (Option α) where
  I s' := s' = s
  V value s' := value = items[s.reads]? ∧ s' = { s with reads := s.reads + 1 }
  E _ _ := False
  A s' := s'.pending = s.pending

/-- A read of the replay is one of the list. -/
theorem readStates_sound (items : List α) (chunkIndex : Int) (s : Reading) :
    (readStates items s).Sound (replay items S.step) (S.read chunkIndex)
      (S.readHooks chunkIndex) := by
  refine .of_frame (S.readHooks_within (K := [.listener]) (by decide) chunkIndex)
    (replay_frame (by decide)) ?_ (fun _ _ h => h.elim) ?_ ?_
  · intro s' hs'
    cases hs'
    refine Prog.wp_mono (S.wp_read_replay chunkIndex) ?_
    intro out s' h
    obtain ⟨rfl, h⟩ := h
    exact ⟨rfl, h⟩
  · intro s' h
    exact congrArg Reading.pending h
  · intro value s' h
    obtain ⟨-, rfl⟩ := h
    rfl

/-- The read phase takes the next `m` items, as far as there are any. -/
theorem wp_readPhase_replay (chunkIndex : Int) (m : Nat) (taken : List α) {l : Locals}
    {s : Reading} {p : Nat} (hat : ReaderAt items s.reads p) :
    Scoped.wp (replay items S.step) (S.readPhase chunkIndex m taken) (fun out l' s' =>
      SameChunk l l' ∧ s'.pending = s.pending ∧ ∀ chunk, out = .ok chunk →
        chunk = taken ++ (items.drop p).take m ∧ ReaderAt items s'.reads (p + m)) l s := by
  induction m generalizing taken l s p with
  | zero =>
      refine ⟨.refl l, rfl, ?_⟩
      intro chunk h
      cases h
      exact ⟨by simp, hat⟩
  | succ m ih =>
      have hphase := wp_runPhase (l := l) S.policies
        (S.readStates_sound items chunkIndex s) rfl
      refine Scoped.wp_seq hphase ?_ fun _ _ _ h => ⟨h.1, h.2, fun _ h => by cases h⟩
      intro r l' s' h
      match r with
      | .skipped =>
          obtain ⟨_, _, _, hfalse, _⟩ := h.2
          exact hfalse.elim
      | .ok none =>
          obtain ⟨hread, rfl⟩ := h.2
          obtain ⟨hdrop, hat'⟩ := hat.ended hread.symm (m + 1)
          refine ⟨h.1, rfl, ?_⟩
          intro chunk hchunk
          cases hchunk
          exact ⟨by simp [hdrop], hat'⟩
      | .ok (some item) =>
          obtain ⟨hread, rfl⟩ := h.2
          obtain ⟨hdrop, hat'⟩ := hat.advanced hread.symm
          rw [Scoped.wp_bind, Scoped.wp_modify, Scoped.afterwards_ok]
          refine Scoped.wp_mono (ih (taken ++ [item]) hat') ?_
          intro out l'' s'' h'
          have hcount : SameChunk l' { l' with readCount := l'.readCount + 1 } :=
            ⟨rfl, rfl, rfl, rfl⟩
          refine ⟨.trans _ _ _ h.1 (.trans _ _ _ hcount h'.1), h'.2.1, ?_⟩
          intro chunk hchunk
          obtain ⟨hchunk', hat''⟩ := h'.2.2 chunk hchunk
          refine ⟨?_, by rwa [Nat.add_assoc, Nat.add_comm 1] at hat''⟩
          rw [hchunk', hdrop, List.take_succ_cons, List.append_assoc, List.singleton_append]

/-- Draining drops the next `m` items, as far as there are any. -/
theorem wp_drainItems_replay (chunkIndex : Int) (m drained : Nat) {s : Reading} {p : Nat}
    (hat : ReaderAt items s.reads p) :
    (S.drainItems chunkIndex m drained : Code α Nat).wp (replay items S.step) (fun out s' =>
      s'.pending = s.pending ∧ ∀ d, out = .ok d →
        d = drained + ((items.drop p).take m).length ∧ ReaderAt items s'.reads (p + m)) s := by
  induction m generalizing drained s p with
  | zero =>
      refine ⟨rfl, ?_⟩
      intro d h
      cases h
      exact ⟨by simp, hat⟩
  | succ m ih =>
      refine Prog.wp_seq (S.wp_read_replay chunkIndex) ?_ fun _ _ h => by cases h.1
      intro item s' h
      obtain ⟨hread, rfl⟩ := h
      cases item with
      | none =>
          obtain ⟨hdrop, hat'⟩ := hat.ended (Except.ok.inj hread).symm (m + 1)
          refine ⟨rfl, ?_⟩
          intro d hd
          cases hd
          exact ⟨by simp [hdrop], hat'⟩
      | some item =>
          obtain ⟨hdrop, hat'⟩ := hat.advanced (Except.ok.inj hread).symm
          refine Prog.wp_mono (ih (drained + 1) hat') ?_
          intro out s'' h'
          refine ⟨h'.1, ?_⟩
          intro d hd
          obtain ⟨hd', hat''⟩ := h'.2 d hd
          refine ⟨?_, by rwa [Nat.add_assoc, Nat.add_comm 1] at hat''⟩
          rw [hd', hdrop, List.take_succ_cons, List.length_cons]
          omega

/-- The states of a write: a chunk is pending once the writer has returned. -/
def pendingStates (s : Reading) : PhaseStates Reading (Option WriterResult) where
  I s' := s' = s
  V _ s' := s' = { s with pending := true }
  E _ s' := s' = s
  A s' := s' = s

/-- A write of the replay is pending until it is settled. -/
theorem pendingStates_sound (items : List α) (chunkIndex : Int) (processed : List α) {s : Reading}
    (hs : s.pending = false) :
    (pendingStates s).Sound (replay items S.step) (S.write chunkIndex processed)
      (S.writeHooks chunkIndex processed) := by
  have hwithin := S.writeHooks_within (K := [.listener]) (by decide) chunkIndex processed
  have hkeep {p : Code α Unit} (hp : p.Uses (On [.listener])) :
      KeepsOr (replay items S.step) (· = s) (· = s) p :=
    keepsOr_of_uses hp (replay_frame (by decide) _) fun _ h => h
  refine ⟨⟨hkeep hwithin.before, ?_, ?_, fun _ => hkeep (hwithin.onError _),
    fun _ => hkeep (hwithin.onSkip _), fun _ _ h => h⟩, fun _ _ h => h⟩
  · intro s' hs'
    cases hs'
    refine wp_orThrow.mpr (Prog.wp_perform.mpr ⟨hs, ?_⟩)
    intro r s' ht
    obtain ⟨hreads, -, hpending, -⟩ := ht
    cases s'
    cases hreads
    cases r with
    | error err =>
        cases hpending
        rfl
    | ok value =>
        cases hpending
        rfl
  · intro value
    refine wp_invokeMatching_ok ?_ (replay_frame (by decide) _) _
    intro fn s₁ r s₂ ht
    exact ht.2.2.2 rfl

/-- A write phase leaves a chunk pending only if it returns. -/
theorem wp_writePhase_replay (chunkIndex : Int) (processed : List α) {l : Locals} {s : Reading}
    (hs : s.pending = false) :
    Scoped.wp (replay items S.step) (S.writePhase chunkIndex processed) (fun out l' s' =>
      SameChunk l l' ∧ s'.reads = s.reads ∧ ∀ err, out = .error err → s'.pending = false) l s := by
  unfold writePhase
  split
  · exact ⟨.refl l, rfl, fun _ h => by cases h⟩
  · have hphase := wp_runPhase (l := l) S.policies
      (S.pendingStates_sound items chunkIndex processed hs) rfl
    refine Scoped.wp_seq hphase ?_ ?_
    · intro r l' s' h
      match r with
      | .ok value =>
          obtain ⟨hl, rfl⟩ := h
          refine wp_seq_countWrite (replay_frame (by decide) (·.reads = s.reads)) rfl ?_
          intro l'' s'' hcounted hreads
          exact ⟨.trans _ _ _ hl hcounted, hreads, fun _ h => by cases h⟩
      | .skipped =>
          obtain ⟨_, _, _, hs', _⟩ := h.2
          exact ⟨h.1, congrArg Reading.reads hs', fun _ h => by cases h⟩
    · intro err l' s' h
      exact ⟨h.1, congrArg Reading.reads h.2, fun _ _ => (congrArg Reading.pending h.2).trans hs⟩

/-- Nothing fails between the write of a chunk and its checkpoint. -/
theorem wp_checkpoint_replay {l : Locals} {s : Reading} :
    Scoped.wp (replay items S.step) (S.checkpoint : ChunkCode α Unit) (fun out l' s' =>
      out = .ok () ∧ l'.chunkIndex = l.chunkIndex ∧ s' = { s with pending := false }) l s := by
  have hstreams (streams : List Handle) (ctx : ExecutionContext) :
      (updateStreams streams ctx : Code α ExecutionContext).wp (replay items S.step)
        (fun out s' => (∃ ctx', out = .ok ctx') ∧ s' = s) s := by
    induction streams generalizing ctx with
    | nil => exact ⟨⟨ctx, rfl⟩, rfl⟩
    | cons stream rest ih =>
        refine Prog.wp_bind.mpr (wp_orThrow.mpr (Prog.wp_perform.mpr ⟨trivial, ?_⟩))
        intro r s' ht
        have hsame : s = s' := (replay_frame (K := [.updateStream]) (by decide) (s = ·)).keep
          (.user (.updateStream stream ctx)) s r s'
          (by decide : OpKind.updateStream ∈ [OpKind.updateStream]) rfl ht
        obtain ⟨ctx', hr⟩ := ht.2.2.2
        subst hr hsame
        exact ih ctx'
  unfold checkpoint
  rw [Scoped.wp_bind, Scoped.wp_modify, Scoped.afterwards_ok, Scoped.wp_bind, Scoped.wp_get,
    Scoped.afterwards_ok, Scoped.wp_bind, Scoped.wp_lift]
  refine Prog.wp_mono (hstreams _ _) ?_
  intro out s₁ h₁
  obtain ⟨⟨ctx', rfl⟩, rfl⟩ := h₁
  rw [Scoped.afterwards_ok, Scoped.wp_bind, Scoped.wp_modify, Scoped.afterwards_ok,
    Scoped.wp_bind, Scoped.wp_lift]
  refine Prog.wp_perform.mpr ⟨trivial, ?_⟩
  intro _ s₂ ht₂
  have hs₂ : s₂ = { s₁ with pending := false } := by
    cases s₂
    cases ht₂.1
    cases ht₂.2.2.1
    rfl
  subst hs₂
  refine Scoped.wp_bind.mpr (Scoped.wp_lift.mpr (Prog.wp_perform.mpr ⟨trivial, ?_⟩))
  intro reloaded s₃ ht₃
  refine ⟨rfl, rfl, ?_⟩
  cases s₃
  cases ht₃.1
  cases ht₃.2.2.1
  rfl

/-- Committing a chunk reads nothing, passes the chunk it was given, and leaves
nothing pending however it ends. -/
theorem wp_commitChunk_replay {l : Locals} {s : Reading} (hindex : 0 ≤ l.chunkIndex)
    (hs : s.pending = false) {chunk : List α}
    (hchunk : chunk = chunkOf items S.step.chunkSize l.chunkIndex) :
    Scoped.wp (replay items S.step) (S.commitChunk l.chunkIndex chunk) (fun out l' s' =>
      s'.pending = false ∧ (out = .ok () → l'.chunkIndex = l.chunkIndex + 1 ∧
        s'.reads = s.reads)) l s := by
  unfold commitChunk
  refine wp_seq_quiet (S.quiet_processPhase (K := [.process, .listener]) (by decide) (by decide)
    _ _ _) (replay_frame (by decide) (s = ·)) rfl ?_ ?_
  · intro processed l₁ s₁ hl₁ hs₁
    subst hs₁
    refine Scoped.wp_seq (S.wp_writePhase_replay l.chunkIndex processed hs) ?_ ?_
    · intro ending l₂ s₂ h₂
      refine Scoped.wp_bind.mpr (Scoped.wp_lift.mpr (Prog.wp_perform.mpr ⟨⟨hindex, hchunk⟩, ?_⟩))
      intro _ s₃ ht
      have hreads : s₃.reads = s₂.reads := ht.1
      refine Scoped.wp_seq S.wp_checkpoint_replay ?_ fun _ _ _ h => by cases h.1
      intro _ l₄ s₄ h₄
      obtain ⟨-, hl₄, rfl⟩ := h₄
      rw [Scoped.wp_bind, Scoped.wp_get, Scoped.afterwards_ok]
      refine wp_seq_quiet (K := [.listener]) (quiet_lift (uses_invokeMatching (by decide) _ _ _))
        (replay_frame (by decide) ({ s₃ with pending := false } = ·)) rfl ?_ ?_
      · intro _ l₅ s₅ hl₅ hs₅
        subst hs₅
        rw [Scoped.wp_modify]
        refine ⟨rfl, ?_⟩
        intro _
        have hlast : l₅.chunkIndex = l.chunkIndex := by
          rw [hl₅.chunkIndex, hl₄, h₂.1.chunkIndex, hl₁.chunkIndex]
        exact ⟨congrArg (· + 1) hlast, hreads.trans h₂.2.1⟩
      · intro err l₅ s₅ _ hs₅
        subst hs₅
        exact ⟨rfl, fun h => by cases h⟩
    · intro err l₂ s₂ h₂
      exact ⟨h₂.2.2 err rfl, fun h => by cases h⟩
  · intro err l₁ s₁ _ hs₁
    subst hs₁
    exact ⟨hs, fun h => by cases h⟩

/-- Where the reader stands at the head of the loop: behind all chunks before the
one at hand, none of which was empty. -/
structure ReadUpTo (items : List α) (size : Nat) (l : Locals) (s : Reading) : Prop where
  nonneg : 0 ≤ l.chunkIndex
  settled : s.pending = false
  place : ReaderAt items s.reads (l.chunkIndex.toNat * size)
  bounded : l.chunkIndex.toNat * size < items.length + size

/-- What an iteration at chunk `k` leaves of that, and what it means for the loop to end. -/
def ReplayState (items : List α) (size : Nat) (k : Int) :
    Except Thrown Bool → Locals → Reading → Prop
  | .ok true, l, s => ReadUpTo items size l s ∧ l.chunkIndex = k + 1
  | .ok false, l, s => s.pending = false ∧ 0 ≤ l.chunkIndex ∧
      items.length ≤ l.chunkIndex.toNat * size
  | .error _, _, s => s.pending = false

/-- The next chunk starts where this one ends. -/
theorem readUpTo_succ {size : Nat} {l l' : Locals} {s : Reading} (hindex : 0 ≤ l.chunkIndex)
    (hl' : l'.chunkIndex = l.chunkIndex + 1) (hs : s.pending = false)
    (hat : ReaderAt items s.reads (l.chunkIndex.toNat * size + size))
    (hmore : (items.drop (l.chunkIndex.toNat * size)).take size ≠ []) :
    ReadUpTo items size l' s := by
  have hnat : l'.chunkIndex.toNat * size = l.chunkIndex.toNat * size + size := by
    rw [hl', Int.toNat_add hindex (by decide)]
    exact Nat.succ_mul _ _
  have hlt : l.chunkIndex.toNat * size < items.length := by
    by_cases hle : items.length ≤ l.chunkIndex.toNat * size
    · rw [List.drop_eq_nil_of_le hle, List.take_nil] at hmore
      exact absurd rfl hmore
    · omega
  exact ⟨by omega, hs, hnat ▸ hat, by omega⟩

/-- An empty chunk means the end of the list. -/
theorem length_le_of_empty {size : Nat} (hsize : 0 < size) {p : Nat}
    (hempty : (items.drop p).take size = []) : items.length ≤ p := by
  have hdrop : items.drop p = [] := by
    cases hcase : items.drop p with
    | nil => rfl
    | cons x xs =>
        obtain ⟨m, rfl⟩ : ∃ m, size = m + 1 := ⟨size - 1, by omega⟩
        rw [hcase, List.take_succ_cons] at hempty
        cases hempty
  exact List.drop_eq_nil_iff.mp hdrop

/-- A hook of the loop leaves nothing pending. -/
theorem quiet_listeners (key : ListenerKey) (args : ListenerArgs α) (resolvers : ResolverMap) :
    Quiet [.listener] (Scoped.lift (invokeMatching key args resolvers) : ChunkCode α Unit) :=
  quiet_lift (uses_invokeMatching (by decide) _ _ _)

variable {S} (hpartition : S.partition = none) (hsize : 0 < S.step.chunkSize)
include hpartition hsize

/-- Reading and committing one chunk of the list. -/
theorem wp_runChunk_replay {l : Locals} {s : Reading} (h : ReadUpTo items S.step.chunkSize l s) :
    Scoped.wp (replay items S.step) (S.runChunk : ChunkCode α Bool)
      (ReplayState items S.step.chunkSize l.chunkIndex) l s := by
  unfold runChunk
  rw [Scoped.wp_bind, Scoped.wp_get, Scoped.afterwards_ok]
  have hcap : S.cap l.readCount = S.step.chunkSize := by
    unfold cap
    rw [hpartition]
  rw [if_neg (by omega : ¬ S.cap l.readCount = 0), hcap]
  refine wp_seq_quiet (quiet_listeners _ _ _) (replay_frame (by decide) (s = ·)) rfl ?_ ?_
  · intro _ l₁ s₁ hl₁ hs₁
    subst hs₁
    refine Scoped.wp_seq (S.wp_readPhase_replay l.chunkIndex S.step.chunkSize [] h.place) ?_
      fun _ _ _ h' => h'.2.1.trans h.settled
    intro chunk l₂ s₂ h₂
    have hsettled : s₂.pending = false := h₂.2.1.trans h.settled
    obtain ⟨hchunk, hat⟩ := h₂.2.2 chunk rfl
    rw [List.nil_append] at hchunk
    have hindex : l₂.chunkIndex = l.chunkIndex := h₂.1.chunkIndex.trans hl₁.chunkIndex
    split
    · next hempty =>
        rw [Scoped.wp_bind, Scoped.wp_get, Scoped.afterwards_ok]
        refine wp_seq_quiet (quiet_listeners _ _ _)
          (replay_frame (by decide) (fun s' => s'.pending = false)) hsettled ?_
          fun _ _ _ _ h => h
        intro _ l₃ s₃ hl₃ hs₃
        have hend := length_le_of_empty hsize (hchunk ▸ List.isEmpty_iff.mp hempty)
        have hlast : l₃.chunkIndex = l.chunkIndex := hl₃.chunkIndex.trans hindex
        exact ⟨hs₃, hlast ▸ h.nonneg, hlast ▸ hend⟩
    · next hempty =>
        have hmore : chunk ≠ [] := fun h => hempty (List.isEmpty_iff.mpr h)
        rw [← hindex] at hchunk hat ⊢
        refine Scoped.wp_seq (S.wp_commitChunk_replay (hindex ▸ h.nonneg) hsettled hchunk) ?_
          fun _ _ _ h => h.1
        intro _ l₃ s₃ h₃
        obtain ⟨hl₃, hs₃⟩ := h₃.2 rfl
        exact ⟨readUpTo_succ (hindex ▸ h.nonneg) hl₃ h₃.1 (hs₃ ▸ hat) (hchunk ▸ hmore), hl₃⟩
  · intro err l₁ s₁ _ hs₁
    exact hs₁ ▸ h.settled

/-- **The step lemma**: every iteration moves one chunk on in the list, be it
drained or processed, and the loop ends only at the end of the list. -/
theorem wp_iteration_replay {l : Locals} {s : Reading} (h : ReadUpTo items S.step.chunkSize l s) :
    Scoped.wp (replay items S.step) (S.iteration : ChunkCode α Bool)
      (ReplayState items S.step.chunkSize l.chunkIndex) l s := by
  unfold iteration
  rw [Scoped.wp_bind, Scoped.wp_get, Scoped.afterwards_ok]
  split
  · unfold drainChunk
    rw [Scoped.wp_bind, Scoped.wp_get, Scoped.afterwards_ok]
    have hcap : S.cap l.readCount = S.step.chunkSize := by
      unfold cap
      rw [hpartition]
    rw [if_neg (by omega : ¬ S.cap l.readCount = 0), hcap]
    rw [Scoped.wp_bind, Scoped.wp_lift]
    refine Prog.wp_mono (S.wp_drainItems_replay l.chunkIndex S.step.chunkSize 0 h.place) ?_
    intro out s' hdrained
    have hsettled : s'.pending = false := hdrained.1.trans h.settled
    cases out with
    | error err => exact hsettled
    | ok drained =>
        obtain ⟨hcount, hat⟩ := hdrained.2 drained rfl
        rw [Nat.zero_add] at hcount
        rw [Scoped.afterwards_ok]
        split
        · next hzero =>
            rw [hzero] at hcount
            exact ⟨hsettled, h.nonneg,
              length_le_of_empty hsize (List.length_eq_zero_iff.mp hcount.symm)⟩
        · next hsome =>
            have hmore : (items.drop (l.chunkIndex.toNat * S.step.chunkSize)).take
                S.step.chunkSize ≠ [] := by
              intro hempty
              rw [hempty] at hcount
              exact hsome hcount
            rw [Scoped.wp_bind, Scoped.wp_modify, Scoped.afterwards_ok]
            exact ⟨readUpTo_succ h.nonneg rfl hsettled hat hmore, rfl⟩
  · exact wp_runChunk_replay hpartition hsize h

/-- **The run lemma**: the loop comes to the end of the list, unless something
throws, and whichever way it is left no chunk is pending. -/
theorem wp_chunkLoop_replay (fuel : Nat) {l : Locals} {s : Reading}
    (h : ReadUpTo items S.step.chunkSize l s)
    (hfuel : items.length + S.step.chunkSize ≤ (l.chunkIndex.toNat + fuel) * S.step.chunkSize) :
    Scoped.wp (replay items S.step) (S.chunkLoop fuel : ChunkCode α Unit) (fun out l' s' =>
      s'.pending = false ∧ (out = .ok () → 0 ≤ l'.chunkIndex ∧
        items.length ≤ l'.chunkIndex.toNat * S.step.chunkSize)) l s := by
  induction fuel generalizing l s with
  | zero => exact absurd h.bounded (Nat.not_lt.mpr hfuel)
  | succ fuel ih =>
      refine Scoped.wp_seq (wp_iteration_replay hpartition hsize h) ?_
        fun _ _ _ h => ⟨h, fun h => by cases h⟩
      intro again l' s' hagain
      cases again with
      | true =>
          have hindex : l'.chunkIndex.toNat + fuel = l.chunkIndex.toNat + (fuel + 1) := by
            have hnonneg := h.nonneg
            have hnext := hagain.2
            omega
          exact ih hagain.1 (hindex ▸ hfuel)
      | false => exact ⟨hagain.1, fun _ => hagain.2⟩

end Setting

end ChunkStepExecutor

end NestBatch
