import NestBatch.Execution.CheckpointSafety
import NestBatch.Execution.ChunkTrail
import NestBatch.Execution.Replay
import NestBatch.Execution.SingleStep
import NestBatch.Execution.ThrownTexts

/-!
# One resumed step over a list

The checkpoint protocol and the list reader side by side: a step that resumes
behind `m` chunks passes chunk `m`, `m + 1`, ... of the list, each built from the
items at its place and each written at most once, and comes to the end of its
loop only behind the last item.  `Tracks` ties this to the repository and to the
calls made so far, which may go back over any number of earlier runs.
-/

namespace NestBatch

open ListenerInvoker

variable {α υ : Type}

/-! ### What the calls show -/

/-- The chunks passed, with their items and endings, oldest first. -/
def passedChunks (calls : Calls α) : List (Int × List α × ChunkEnd) :=
  calls.filterMap fun c =>
    match c.1 with
    | .passed _ k items ending => some (k, items, ending)
    | _ => none

/-- The chunk a call has successfully written. -/
def Op.writtenChunk : (o : Op α) → o.Resp → Option Int
  | .user (.write _ _ ctx), r =>
      match (r : Except Thrown (Option WriterResult)) with
      | .ok _ => some ctx.chunkIndex
      | .error _ => none
  | _, _ => none

/-- The chunks a writer returned for, oldest first. -/
def writtenChunks (calls : Calls α) : List Int :=
  calls.filterMap fun c => c.1.writtenChunk c.2

/-- The first `k` chunks of the list. -/
def chunksUpTo (items : List α) (size k : Nat) : List (Int × List α) :=
  (List.range k).map fun (i : Nat) => ((i : Int), chunkOf items size i)

/-- The calls pass the first `k` chunks of the list, one after the other, and
write those that ended written; besides, the chunks in `extra` are written. -/
structure Covers (items : List α) (size : Nat) (calls : Calls α) (k : Nat) (extra : List Int) :
    Prop where
  passed : (passedChunks calls).map (fun p => (p.1, p.2.1)) = chunksUpTo items size k
  written : writtenChunks calls =
    ((passedChunks calls).filter fun p => p.2.2 = .written).map (·.1) ++ extra

section Covers

variable {items : List α} {size : Nat} {calls : Calls α} {k : Nat} {extra : List Int} {o : Op α}

theorem passedChunks_append (ho : o.kind ≠ .passed) (r : o.Resp) :
    passedChunks (calls ++ [⟨o, r⟩]) = passedChunks calls := by
  unfold passedChunks
  rw [List.filterMap_append]
  cases o with
  | passed => exact absurd rfl ho
  | _ => exact List.append_nil _

theorem writtenChunks_append (r : o.Resp) :
    writtenChunks (calls ++ [⟨o, r⟩]) = writtenChunks calls ++ (o.writtenChunk r).toList := by
  unfold writtenChunks
  rw [List.filterMap_append]
  cases h : o.writtenChunk r with
  | none => simp [h]
  | some k => simp [h]

theorem writtenChunk_of_kind (ho : o.kind ≠ .write) (r : o.Resp) : o.writtenChunk r = none := by
  cases o with
  | user call =>
      cases call with
      | write => exact absurd rfl ho
      | _ => rfl
  | _ => rfl

/-- A call that is no pass shows what its own writing adds. -/
theorem Covers.append (h : Covers items size calls k extra) (ho : o.kind ≠ .passed) (r : o.Resp) :
    Covers items size (calls ++ [⟨o, r⟩]) k (extra ++ (o.writtenChunk r).toList) where
  passed := by rw [passedChunks_append ho, h.passed]
  written := by rw [writtenChunks_append, passedChunks_append ho, h.written, List.append_assoc]

/-- Other calls leave what is covered as it is. -/
theorem Covers.keep (h : Covers items size calls k extra) (hpassed : o.kind ≠ .passed)
    (hwrite : o.kind ≠ .write) (r : o.Resp) : Covers items size (calls ++ [⟨o, r⟩]) k extra := by
  have hkeep := h.append hpassed r
  rwa [writtenChunk_of_kind hwrite, Option.toList_none, List.append_nil] at hkeep

theorem chunksUpTo_succ (items : List α) (size k : Nat) :
    chunksUpTo items size (k + 1) = chunksUpTo items size k ++
      [((k : Int), chunkOf items size k)] := by
  unfold chunksUpTo
  rw [List.range_succ, List.map_append]
  rfl

/-- Passing the next chunk; if it is written, the writing was still unaccounted for. -/
theorem Covers.pass (h : Covers items size calls k extra) (sid : String) (ending : ChunkEnd)
    (hextra : extra = if ending = .written then [(k : Int)] else []) :
    Covers items size
      (calls ++ [⟨.passed sid k (chunkOf items size k) ending, ()⟩]) (k + 1) [] := by
  have hpassed : passedChunks (calls ++ [⟨.passed sid k (chunkOf items size k) ending, ()⟩]) =
      passedChunks calls ++ [((k : Int), chunkOf items size k, ending)] := by
    unfold passedChunks
    rw [List.filterMap_append]
    rfl
  have hwritten : writtenChunks (calls ++ [⟨.passed sid k (chunkOf items size k) ending, ()⟩]) =
      writtenChunks calls := by
    unfold writtenChunks
    rw [List.filterMap_append]
    exact List.append_nil _
  constructor
  · rw [hpassed, List.map_append, h.passed, chunksUpTo_succ]
    rfl
  · rw [hwritten, hpassed, h.written, hextra, List.filter_append, List.map_append, List.append_nil]
    by_cases hending : ending = .written
    · simp [hending]
    · simp [hending]

/-- The calls pass the first `m` chunks of the list, each as what came before it shows. -/
structure PassesUpTo (items : List α) (step : ChunkStepDefinition) (calls : Calls α) (m : Nat) :
    Prop where
  covers : Covers items step.chunkSize calls m []
  met : (passRules step).Met calls

/-- A run that has done nothing has passed nothing. -/
theorem PassesUpTo.nil (items : List α) (step : ChunkStepDefinition) :
    PassesUpTo items step [] 0 :=
  ⟨⟨rfl, rfl⟩, throughout_nil⟩

/-- A call that neither passes a chunk nor writes one. -/
theorem PassesUpTo.keep {step : ChunkStepDefinition} {m : Nat} (h : PassesUpTo items step calls m)
    (hpassed : o.kind ≠ .passed) (hwrite : o.kind ≠ .write) (r : o.Resp) :
    PassesUpTo items step (calls ++ [⟨o, r⟩]) m :=
  ⟨h.covers.keep hpassed hwrite r, h.met.snoc (Trail.allows_of_kind hpassed _)⟩

end Covers

/-! ### The environment of such a step -/

/-- User code around a reader that replays `items`; `pos` is where the reader stands. -/
structure Environment.Replays (env : Environment α υ) (items : List α)
    (step : ChunkStepDefinition) (pos : υ → Nat) : Prop where
  yields : ∀ (call : UserCall α) (user : υ) ctx,
    YieldsItem items (.user call) (pos user) (env.user call user ctx).1
  moves : ∀ (call : UserCall α) (user : υ) ctx,
    Reads (.user call) (pos user) (pos (env.user call user ctx).2.1)
  promises : ∀ (call : UserCall α) (user : υ) ctx,
    Promises step (.user call) (env.user call user ctx).1
  broker : ∀ payload user, pos (env.broker payload user).2 = pos user

/-- What the operations do is what the logic of the list reader allows. -/
theorem Environment.Replays.trans {env : Environment α υ} {items : List α}
    {step : ChunkStepDefinition} {pos : υ → Nat} (henv : env.Replays items step pos) (o : Op α)
    (w : World υ) (pending : Bool) :
    (replay items step).trans o { reads := pos w.user, pending := pending } (handle env o w).1
      { reads := pos (handle env o w).2.user
        pending := pendingAfter o (handle env o w).1 pending } := by
  cases o with
  | user call =>
      obtain ⟨ctx, hanswer, huser⟩ := handleUser_env env call w
      have hyields := henv.yields call w.user ctx
      have hmoves := henv.moves call w.user ctx
      have hpromises := henv.promises call w.user ctx
      rw [← hanswer] at hyields hpromises
      rw [← huser] at hmoves
      exact ⟨hmoves, hyields, rfl, hpromises⟩
  | enqueue payload =>
      refine ⟨?_, trivial, rfl, trivial⟩
      change pos (handle env (.enqueue payload : Op α) w).2.user = pos w.user
      have hbroker := henv.broker payload w.user
      simp only [handle]
      split
      · exact hbroker
      · exact hbroker
  | _ => exact ⟨rfl, trivial, rfl, trivial⟩

/-! ### The repository and the calls follow the protocol -/

/-- The chunk that is written and not yet passed. -/
def Progress.unpassed (g : Progress) : List Int :=
  match g.lastWrite, g.passed with
  | some (.ok _), false => [g.next]
  | _, _ => []

/-- A world with its calls stands where the protocol and the reader say. -/
structure Tracks (items : List α) (size : Nat) (sid : String) (pos : υ → Nat)
    (s : World υ × Calls α) (g : Progress × Reading) : Prop where
  checkpoint : s.1.checkpoint sid = g.1.checkpoint
  honest : g.1.honest = true
  position : g.2.reads = pos s.1.user
  covers : ∃ k : Nat, (k : Int) = g.1.next + (if g.1.passed then 1 else 0) ∧
    Covers items size s.2 k g.1.unpassed
  settled : g.2.pending = false → g.1.passed = false ∧ ∀ value, g.1.lastWrite ≠ some (.ok value)

section Tracks

variable {items : List α} {size : Nat} {sid : String} {pos : υ → Nat} {w w' : World υ}
  {calls : Calls α} {g : Progress} {t : Reading}

/-- An operation neither logic looks at. -/
theorem Tracks.keep (h : Tracks items size sid pos (w, calls) (g, t)) {o : Op α}
    (hkind : o.kind ∉ [.write, .passed]) (hcheckpoint : w'.checkpoint sid = w.checkpoint sid)
    (r : o.Resp) : Tracks items size sid pos (w', calls ++ [⟨o, r⟩])
      (g, { reads := pos w'.user, pending := t.pending }) := by
  simp only [List.mem_cons, List.not_mem_nil, or_false, not_or] at hkind
  obtain ⟨k, hk, hcovers⟩ := h.covers
  exact ⟨hcheckpoint.trans h.checkpoint, h.honest, rfl,
    ⟨k, hk, hcovers.keep hkind.2 hkind.1 r⟩, h.settled⟩

/-- A write is tracked. -/
theorem Tracks.write (h : Tracks items size sid pos (w, calls) (g, t)) {writer : Handle}
    {chunk : List α} {ctx : ItemExecutionContext} (hindex : ctx.chunkIndex = g.next)
    (hsettled : t.pending = false) (hcheckpoint : w'.checkpoint sid = w.checkpoint sid)
    (r : Except Thrown (Option WriterResult)) :
    Tracks items size sid pos (w', calls ++ [⟨.user (.write writer chunk ctx), r⟩])
      ({ g with lastWrite := some r },
        ⟨pos w'.user, pendingAfter (.user (.write writer chunk ctx) : Op α) r t.pending⟩) := by
  obtain ⟨k, hk, hcovers⟩ := h.covers
  have hpassed : g.passed = false := (h.settled hsettled).1
  have hlast : ∀ value, g.lastWrite ≠ some (.ok value) := (h.settled hsettled).2
  have hnone : g.unpassed = [] := by
    unfold Progress.unpassed
    split
    · next value hwrite _ => exact absurd hwrite (hlast value)
    · rfl
  rw [hnone] at hcovers
  have happend := hcovers.append (o := .user (.write writer chunk ctx)) (fun h => by cases h) r
  rw [List.nil_append] at happend
  cases r with
  | error err =>
      refine ⟨hcheckpoint.trans h.checkpoint, h.honest, rfl, ⟨k, hk, happend⟩, ?_⟩
      intro _
      exact ⟨hpassed, fun value h => by cases h⟩
  | ok value =>
      refine ⟨hcheckpoint.trans h.checkpoint, h.honest, rfl, ⟨k, hk, ?_⟩, fun h => by cases h⟩
      have hunpassed : Progress.unpassed { g with lastWrite := some (.ok value) } = [g.next] := by
        unfold Progress.unpassed
        dsimp only
        rw [hpassed]
      rw [hunpassed, ← hindex]
      exact happend

/-- Passing a chunk is tracked. -/
theorem Tracks.pass {policies : Policies} (h : Tracks items size sid pos (w, calls) (g, t))
    {chunk : List α} {ending : ChunkEnd} (hpassed : g.passed = false)
    (hbacked : ending.BackedBy policies g.lastWrite) (hchunk : chunk = chunkOf items size g.next) :
    Tracks items size sid pos (w, calls ++ [⟨.passed sid g.next chunk ending, ()⟩])
      ({ g with passed := true }, { reads := pos w.user, pending := true }) := by
  obtain ⟨k, hk, hcovers⟩ := h.covers
  replace hk : (k : Int) = g.next := by simpa [hpassed] using hk
  have hextra : g.unpassed = if ending = .written then [(k : Int)] else [] := by
    unfold Progress.unpassed
    rw [hpassed]
    cases ending with
    | written =>
        obtain ⟨value, hvalue⟩ := hbacked
        simp [hvalue, hk]
    | writeSkipped =>
        obtain ⟨err, _, _, herr, _⟩ := hbacked
        simp [herr]
    | nothingToWrite =>
        have hnone : g.lastWrite = none := hbacked
        simp [hnone]
  have hpass := hcovers.pass sid ending hextra
  rw [hk, ← hchunk] at hpass
  refine ⟨h.checkpoint, h.honest, rfl, ⟨k + 1, ?_, ?_⟩, fun h => by cases h⟩
  · change ((k + 1 : Nat) : Int) = g.next + 1
    omega
  · have hunpassed : Progress.unpassed { g with passed := true } = [] := by
      unfold Progress.unpassed
      split
      · next h => cases h
      · rfl
    rw [hunpassed]
    exact hpass

/-- Saving a checkpoint is tracked. -/
theorem Tracks.save (h : Tracks items size sid pos (w, calls) (g, t)) {o : Op α}
    (hkind : o.kind ∉ [.write, .passed]) (hpassed : g.passed = true)
    (hcheckpoint : w'.checkpoint sid = some g.next) (r : o.Resp) :
    Tracks items size sid pos (w', calls ++ [⟨o, r⟩])
      ({ checkpoint := some g.next, honest := g.honest, kept := g.kept },
        { reads := pos w'.user, pending := false }) := by
  simp only [List.mem_cons, List.not_mem_nil, or_false, not_or] at hkind
  obtain ⟨k, hk, hcovers⟩ := h.covers
  replace hk : (k : Int) = g.next + 1 := by simpa [hpassed] using hk
  have hnone : g.unpassed = [] := by
    unfold Progress.unpassed
    rw [hpassed]
    split
    · next h => cases h
    · rfl
  rw [hnone] at hcovers
  refine ⟨hcheckpoint, h.honest, rfl, ⟨k, ?_, hcovers.keep hkind.2 hkind.1 r⟩,
    fun _ => ⟨rfl, fun _ h => by cases h⟩⟩
  change (k : Int) = g.next + 1 + 0
  omega

end Tracks

/-- **Refinement.**  What the operations do, both logics can follow. -/
theorem tracks_follows {env : Environment α υ} (henv : env.KeepsCheckpoint) {items : List α}
    {step : ChunkStepDefinition} {pos : υ → Nat} (hreplays : env.Replays items step pos)
    (policies : Policies) (sid : String) :
    Prog.Follows ((protocol policies sid).prod (replay items step)) (handle env).traced.trans
      (Tracks items step.chunkSize sid pos) := by
  intro o s r s' g hrel hallowed ht
  obtain ⟨w, calls⟩ := s
  obtain ⟨g, t⟩ := g
  cases ht
  have hposition : t.reads = pos w.user := hrel.position
  have htrans := hreplays.trans o w t.pending
  refine ⟨(g.advance o (handle env o w).1, _), ⟨rfl, hposition ▸ htrans⟩, ?_⟩
  obtain ⟨hprotocol, htakes⟩ := hallowed
  cases o with
  | user call =>
      have hkept := checkpoint_handle henv (o := .user call)
        (by cases call <;> simp [Op.kind, UserCall.kind]) w sid
      cases call with
      | write writer chunk ctx => exact hrel.write hprotocol.2.1 htakes hkept _
      | updateStream stream ctx =>
          have hhonest : Progress.handedOn ctx (handle env (.user (.updateStream stream ctx)) w).1 =
              true := by
            cases hanswer : (handle env (.user (.updateStream stream ctx)) w).1 with
            | error err => rfl
            | ok ctx' =>
                simpa [Progress.handedOn] using henv.streams stream w.user ctx _ ctx' hanswer
          rw [Progress.advance_updateStream hhonest]
          exact hrel.keep (by simp [Op.kind, UserCall.kind]) hkept _
      | _ => exact hrel.keep (by simp [Op.kind, UserCall.kind]) hkept _
  | passed id chunkIndex chunk ending =>
      obtain ⟨rfl, rfl, hpassed, hbacked⟩ := hprotocol
      exact hrel.pass hpassed hbacked htakes.2
  | saveExecutionContext scope ctx =>
      obtain ⟨rfl, hsaved, -, hpassed⟩ := hprotocol
      refine hrel.save (by simp [Op.kind]) hpassed ?_ _
      exact (checkpoint_save_self _ _ _).trans (hsaved hrel.honest)
  | _ => exact hrel.keep (by simp [Op.kind]) (checkpoint_handle henv (by simp [Op.kind]) w sid) _

/-! ### The step -/

namespace ChunkStepExecutor

variable {items : List α} {step : ChunkStepDefinition} {context : ChunkExecutionContext}

/-- The logics of the protocol and of the reader, side by side. -/
abbrev resumption (items : List α) (step : ChunkStepDefinition) (sid : String) :
    Prog.Logic (Op α) Op.Resp (Progress × Reading) :=
  (protocol (Policies.of step) sid).prod (replay items step)

/-- Operations neither logic looks at keep whatever is said of both. -/
theorem resumption_frame {sid : String} {K : List OpKind}
    (h : ∀ k ∈ K, k ∉ protocolKinds ∧ k ∉ replayKinds) (J : Progress × Reading → Prop) :
    (resumption items step sid).Frame (On K) J where
  guard o g ho _ := ⟨(protocol_frame (fun k hk => (h k hk).1) fun _ => True).guard o g.1 ho trivial,
    (replay_frame (fun k hk => (h k hk).2) fun _ => True).guard o g.2 ho trivial⟩
  keep o g r g' ho hg ht := by
    have hleft : g.1 = g'.1 :=
      (protocol_frame (fun k hk => (h k hk).1) (g.1 = ·)).keep o g.1 r g'.1 ho rfl ht.1
    have hright : g.2 = g'.2 :=
      (replay_frame (fun k hk => (h k hk).2) (g.2 = ·)).keep o g.2 r g'.2 ho rfl ht.2
    have hsame : g = g' := Prod.ext hleft hright
    exact hsame ▸ hg
  loops h := h.elim

/-- The states of a step that resumes in `g`: nothing is pending when it is left,
and a loop that ends is behind the last item. -/
def resumptionStates (items : List α) (size : Nat) (g : Progress) :
    StepStates (Progress × Reading) where
  J s := g = s.1 ∧ s.2.reads = 0 ∧ s.2.pending = false
  A s := s.2.pending = false
  C s := s.2.pending = false ∧ items.length ≤ s.1.next.toNat * size
  R reader := reader.isStream = false

/-- A step that is resumed keeps to its resumption. -/
theorem resumptionStates_sound (hproviders : context.providerResolvers = none) {sid : String}
    (size : Nat) (g : Progress) :
    (resumptionStates items size g).Sound (resumption items step sid) step context where
  before := resumption_frame (by decide) _
  preparing := Prog.Logic.Frame.prod (protocol_frame (by decide) (g = ·))
    (replay_frame_start (K := prepareKinds) (by decide))
  closing := resumption_frame (by decide) _
  closingC := resumption_frame (by decide) _
  reader s hs := by
    have huses : (resolveReader step.reader context step : Code α ItemHandler).Uses
        (On prepareKinds) := uses_resolveReader (by decide) (by decide) _ _ _
    have hreader : (replay items step).Frame (On [.invoke, .factory])
        (fun t => t.reads = 0 ∧ t.pending = false) := replay_frame_start (by decide)
    have hplain := wp_resolveReader_plain hreader (fun _ _ _ _ _ ht => ht.2.2.2)
      (plainProvider_of_none hproviders) (fun _ _ _ _ ht => ht.2.2.2) hs.2
    have hprotocol : (protocol (α := α) (Policies.of step) sid).Frame (On prepareKinds) (g = ·) :=
      protocol_frame (by decide) _
    refine Prog.wp_mono (Prog.wp_prod (Prog.wp_of_uses huses hprotocol hs.1) hplain) ?_
    intro out s' h
    exact ⟨⟨h.1, h.2.1⟩, h.2.2⟩
  weaken _ h := h.2.2
  ended _ h := h.1

/-- The chunk loop passes the chunks that follow the checkpoint, to the end of the list. -/
theorem wp_loop_resumption (hpartition : context.partitionIndex = none)
    (hsize : 0 < step.chunkSize) {g : Progress} (hfresh : Setting.Fresh g)
    (hcheckpoint : g.checkpoint = context.resumeFromChunkIndex) (hnonneg : 0 ≤ g.next)
    {fuel : Nat} (hfuel : items.length < fuel) :
    (resumptionStates items step.chunkSize g).Loop (α := α)
      (resumption items step context.stepExecutionId) step context fuel := by
  intro policies partition S l s hpolicies hresolved hS hplain hl hs
  obtain ⟨hg, hreads, hpending⟩ := hs
  obtain ⟨g', t⟩ := s
  obtain rfl : g = g' := hg
  have hnone : S.partition = none := by
    unfold resolveRange at hresolved
    rw [hpartition] at hresolved
    cases hresolved
    exact hS.partition
  have hindex : l.chunkIndex = 0 := by
    refine hl.chunkIndex.trans ?_
    have hreader : S.reader.isStream = false := hplain
    change S.firstChunk = 0
    unfold Setting.firstChunk
    split
    · simp [hreader]
    · rfl
  have hof : ∀ compiled, Policies.compile step = .ok compiled → compiled = Policies.of step := by
    intro compiled h
    simp [Policies.of, h]
  have hread : Setting.ReadUpTo items step.chunkSize l t := by
    change t.reads = 0 at hreads
    refine ⟨by omega, hpending, ?_, ?_⟩
    · unfold ReaderAt
      simp [hindex, hreads]
    · simp only [hindex, Int.toNat_zero, Nat.zero_mul]
      omega
  have hbound : items.length + step.chunkSize ≤ (l.chunkIndex.toNat + fuel) * step.chunkSize := by
    have hturns : (items.length + 1) * step.chunkSize ≤ fuel * step.chunkSize :=
      Nat.mul_le_mul_right _ hfuel
    have hlength : items.length ≤ items.length * step.chunkSize := Nat.le_mul_of_pos_right _ hsize
    rw [Nat.succ_mul] at hturns
    simp only [hindex, Int.toNat_zero, Nat.zero_add]
    omega
  rw [← hS.step] at hread hsize hbound
  have hloop := Scoped.wp_prod
    (wp_loop_protocol hof hfresh hcheckpoint hnonneg fuel hpolicies hS hl)
    (Setting.wp_chunkLoop_replay hnone hsize fuel hread hbound)
  rw [hS.step] at hloop
  refine Scoped.wp_mono hloop ?_
  intro out l' s' h
  refine ⟨h.2.1, ?_⟩
  intro hout
  have hle := h.1 hout
  obtain ⟨hlow, hlength⟩ := h.2.2 hout
  have htoNat : l'.chunkIndex.toNat ≤ s'.1.next.toNat := Int.toNat_le_toNat hle
  exact ⟨h.2.1, Nat.le_trans hlength (Nat.mul_le_mul_right _ htoNat)⟩

/-- **A resumed step**, in the two logics: it comes to an end, whichever way it is
left nothing is pending, and if it reports anything but FAILED it is behind the
last item. -/
theorem execute_resumption (items : List α) (hproviders : context.providerResolvers = none)
    (hpartition : context.partitionIndex = none) (hsize : 0 < step.chunkSize) {g : Progress}
    (hfresh : Setting.Fresh g) (hcheckpoint : g.checkpoint = context.resumeFromChunkIndex)
    (hnonneg : 0 ≤ g.next) {fuel : Nat} (hfuel : items.length < fuel) :
    (execute fuel step context : Code α StepResult).wp
      (resumption items step context.stepExecutionId)
      (fun out s => s.2.pending = false ∧ ∀ result, out = .ok result →
        items.length ≤ s.1.next.toNat * step.chunkSize ∨ result.status = .FAILED)
      (g, { reads := 0 }) := by
  have hkeep : KeepsResult (resumption items step context.stepExecutionId)
      (fun result => result.status = .FAILED) := by
    intro fn ctx result s r s' ht hfailed
    exact ht.2.2.2.2 hfailed
  refine Prog.wp_mono (StepStates.wp_execute
    (resumptionStates_sound hproviders step.chunkSize g)
    (wp_loop_resumption hpartition hsize hfresh hcheckpoint hnonneg hfuel) hkeep
    (fun _ h => h) ⟨rfl, rfl, rfl⟩) ?_
  intro out s h
  exact ⟨h.1, fun result hresult => (h.2 result hresult).imp_left (·.2)⟩

/-- **A resumed step**, in the world: it comes to an end, from `m` chunks passed it
goes on to `m'`, its checkpoint is behind them, and no row is touched. -/
theorem execute_resumes {env : Environment α υ} (hkeeps : env.KeepsCheckpoint)
    {pos : υ → Nat} (hreplays : env.Replays items step pos)
    (hproviders : context.providerResolvers = none) (hpartition : context.partitionIndex = none)
    (hsize : 0 < step.chunkSize) {fuel : Nat} (hfuel : items.length < fuel) {w : World υ}
    {calls : Calls α} {m : Nat}
    (hcheckpoint : w.checkpoint context.stepExecutionId = context.resumeFromChunkIndex)
    (hnext : nextChunk context.resumeFromChunkIndex = m) (hpos : pos w.user = 0)
    (hpasses : PassesUpTo items step calls m) :
    (execute fuel step context : Code α StepResult).wp (worldLogic env).total (fun out s =>
      w.repo.SameRows s.1.repo ∧ ∃ m' : Nat,
        nextChunk (s.1.checkpoint context.stepExecutionId) = m' ∧
        PassesUpTo items step s.2 m' ∧ ∀ result, out = .ok result →
          items.length ≤ m' * step.chunkSize ∨ result.status = .FAILED) (w, calls) := by
  let g : Progress := { checkpoint := context.resumeFromChunkIndex }
  have hnonneg : 0 ≤ g.next := by
    change 0 ≤ nextChunk context.resumeFromChunkIndex
    omega
  have htracks : Tracks items step.chunkSize context.stepExecutionId pos (w, calls)
      (g, { reads := 0 }) := by
    refine ⟨hcheckpoint, rfl, hpos.symm, ⟨m, ?_, hpasses.covers⟩,
      fun _ => ⟨rfl, fun _ h => by cases h⟩⟩
    change (m : Int) = nextChunk context.resumeFromChunkIndex + 0
    omega
  have hlogic := execute_resumption (g := g) items hproviders hpartition hsize ⟨rfl, rfl⟩ rfl
    hnonneg hfuel
  have hfollow : Prog.Follows (resumption items step context.stepExecutionId)
      (worldLogic env).total.trans (Tracks items step.chunkSize context.stepExecutionId pos) :=
    tracks_follows hkeeps hreplays _ _
  have hworld := Prog.wp_simulate (fun _ _ _ _ _ => trivial) hfollow (fun h => h.2) hlogic htracks
  have hrows := Prog.wp_of_uses (uses_execute (α := α) fuel step context)
    (world_frame env (by decide) w.repo) (s := (w, calls)) (.refl _)
  have hmet : (execute fuel step context : Code α StepResult).wp (worldLogic env)
      (fun _ s' => (passRules step).Met s'.2) (w, calls) := execute_met fuel context hpasses.met
  refine Prog.wp_mono (Prog.wp_total_and (Prog.wp_total_and hworld hrows) hmet) ?_
  intro out s h
  obtain ⟨⟨⟨g', htracks', hpending, hresult⟩, hrows⟩, hmet⟩ := h
  obtain ⟨k, hk, hcovers'⟩ := htracks'.covers
  obtain ⟨hpassed, hlast⟩ := htracks'.settled hpending
  replace hk : (k : Int) = g'.1.next := by simpa [hpassed] using hk
  have hunpassed : g'.1.unpassed = [] := by
    unfold Progress.unpassed
    split
    · next value hwrite _ => exact absurd hwrite (hlast value)
    · rfl
  refine ⟨hrows, k, ?_, ⟨hunpassed ▸ hcovers', hmet⟩, ?_⟩
  · rw [htracks'.checkpoint]
    exact hk.symm
  · intro result hout
    refine (hresult result hout).imp_left fun h => ?_
    rwa [← hk, Int.toNat_natCast] at h

end ChunkStepExecutor

end NestBatch
