import NestBatch.Execution.ListEnvironment
import NestBatch.Execution.LoopRules

/-!
# Where the items of a chunk step go

Between any two operations of the chunk loop, what has been read is what has been
counted as written or skipped, what the chunk at hand still holds, and what a
skipped write took with it: a chunk that cannot be written counts as one skip,
however many items it has.  A chunk whose writer reports nothing counts with the
length that its array has by then, and the array has been in the hands of the
writer and of the write listeners.
-/

namespace NestBatch

variable {α υ : Type}

/-- A read that fails with an error of the kind. -/
def skippedReads (kind : Thrown → Bool) : (o : Op α) → o.Resp → Nat
  | .user (.read _ _), r => failures (β := Option α) kind r
  | _, _ => 0

/-- The items of a write that fails with an error of the kind, but for one. -/
def lostInWrites (kind : Thrown → Bool) : (o : Op α) → o.Resp → Nat
  | .user (.write _ items _), r => failures (β := Option WriterResult) kind r * (items.length - 1)
  | _, _ => 0

/-- The items that the array of a chunk has lost by the time it is counted. -/
def removedItems : (o : Op α) → o.Resp → Nat
  | .user (.lengthOf items), length => Nat.sub items.length length
  | _, _ => 0

/-- The items that it has gained. -/
def addedItems : (o : Op α) → o.Resp → Nat
  | .user (.lengthOf items), length => Nat.sub length items.length
  | _, _ => 0

theorem skippedReads_of_kind {kind : Thrown → Bool} {o : Op α} (h : o.kind ≠ .read) (r : o.Resp) :
    skippedReads kind o r = 0 := by
  cases o with
  | user call =>
      cases call with
      | read => exact absurd rfl h
      | _ => rfl
  | _ => rfl

theorem lostInWrites_of_kind {kind : Thrown → Bool} {o : Op α} (h : o.kind ≠ .write)
    (r : o.Resp) : lostInWrites kind o r = 0 := by
  cases o with
  | user call =>
      cases call with
      | write => exact absurd rfl h
      | _ => rfl
  | _ => rfl

theorem removedItems_of_kind {o : Op α} (h : o.kind ≠ .lengthOf) (r : o.Resp) :
    removedItems o r = 0 := by
  cases o with
  | user call =>
      cases call with
      | lengthOf => exact absurd rfl h
      | _ => rfl
  | _ => rfl

theorem addedItems_of_kind {o : Op α} (h : o.kind ≠ .lengthOf) (r : o.Resp) :
    addedItems o r = 0 := by
  cases o with
  | user call =>
      cases call with
      | lengthOf => exact absurd rfl h
      | _ => rfl
  | _ => rfl

/-- What a result says of the items of its step. -/
structure StepResult.SameAccounts (result result' : StepResult) : Prop where
  status : result'.status = result.status
  readCount : result'.readCount = result.readCount
  writeCount : result'.writeCount = result.writeCount
  skipCount : result'.skipCount = result.skipCount

/-- A writer that reports counts accounts for the items it was given, and listeners leave the
accounts of the step alone. -/
def Accounts : (o : Op α) → o.Resp → Prop
  | .user (.write _ items _), r =>
      ∀ value, r = .ok (some value) → value.written + value.skipped = items.length
  | .user (.afterStep _ _ result), r => result.SameAccounts r.2
  | _, _ => True

/-- What the accounts ask of the calls. -/
def accountRules : CallRules α := { allowed := fun _ => Accounts }

/-- User code of which all answers do. -/
def Environment.Accounts (env : Environment α υ) : Prop :=
  ∀ (call : UserCall α) (user : υ) ctx, NestBatch.Accounts (.user call) (env.user call user ctx).1

namespace ChunkStepExecutor

open ListenerInvoker

/-- What has been read, and what has come into the arrays of the chunks, is accounted for, up to
`pending` items of the chunk at hand. -/
def Balanced (kind : Thrown → Bool) (l : Locals) (pending : Nat) (calls : Calls α) : Prop :=
  l.readCount + tally (skippedReads kind) calls + tally addedItems calls =
    l.writeCount + l.skipCount + tally (lostInWrites kind) calls + tally removedItems calls +
      pending

section Balance

variable {kind : Thrown → Bool} {l : Locals} {pending : Nat} {calls : Calls α} {o : Op α}

/-- A call that adds to neither side. -/
theorem Balanced.snoc (h : Balanced kind l pending calls) {r : o.Resp}
    (hread : skippedReads kind o r = 0) (hwrite : lostInWrites kind o r = 0)
    (hlength : o.kind ≠ .lengthOf) : Balanced kind l pending (calls ++ [⟨o, r⟩]) := by
  unfold Balanced
  rw [tally_snoc_zero hread, tally_snoc_zero hwrite, tally_snoc_zero (addedItems_of_kind hlength r),
    tally_snoc_zero (removedItems_of_kind hlength r)]
  exact h

theorem balanced_frame {loops : Prop} {K : List OpKind} (hread : .read ∉ K) (hwrite : .write ∉ K)
    (hlength : .lengthOf ∉ K) (l : Locals) (pending : Nat) :
    (logged accountRules loops).Frame (On K) (Balanced (α := α) kind l pending) :=
  logged_frame (fun _ _ _ _ => trivial) fun _ _ r ho _ h => h.snoc
    (skippedReads_of_kind (fun heq => hread (heq ▸ ho)) r)
    (lostInWrites_of_kind (fun heq => hwrite (heq ▸ ho)) r) fun heq => hlength (heq ▸ ho)

theorem Balanced.same {l' : Locals} (h : Balanced kind l pending calls)
    (hread : l'.readCount = l.readCount) (hwrite : l'.writeCount = l.writeCount)
    (hskip : l'.skipCount = l.skipCount) : Balanced kind l' pending calls := by
  unfold Balanced at h ⊢
  rw [hread, hwrite, hskip]
  exact h

/-- One item less, and one skip more. -/
theorem Balanced.counted (h : Balanced kind l (pending + 1) calls) :
    Balanced kind l.counted pending calls := by
  unfold Balanced at h ⊢
  change l.readCount + _ + _ = l.writeCount + (l.skipCount + 1) + _ + _ + _
  omega

/-- What the writer reports settles the chunk it accounts for. -/
theorem Balanced.wrote {written skipped : Nat} (h : Balanced kind l (written + skipped) calls) :
    Balanced kind (l.wrote written skipped) 0 calls := by
  unfold Balanced at h ⊢
  change l.readCount + _ + _ = (l.writeCount + written) + (l.skipCount + skipped) + _ + _ + _
  omega

/-- The length of its array settles a chunk, up to what the array has gained or lost. -/
theorem Balanced.measured {items : List α} (h : Balanced kind l items.length calls)
    (length : Nat) : Balanced kind (l.wrote length 0) 0
      (calls ++ [⟨.user (.lengthOf items), length⟩]) := by
  have hread : tally (skippedReads kind) (calls ++ [⟨.user (.lengthOf items), length⟩]) =
      tally (skippedReads kind) calls := tally_snoc_zero rfl
  have hwrite : tally (lostInWrites kind) (calls ++ [⟨.user (.lengthOf items), length⟩]) =
      tally (lostInWrites kind) calls := tally_snoc_zero rfl
  have hadded : tally addedItems (calls ++ [⟨.user (.lengthOf items), length⟩]) =
      tally addedItems calls + (length - items.length) :=
    tally_snoc addedItems calls (.user (.lengthOf items)) length
  have hremoved : tally removedItems (calls ++ [⟨.user (.lengthOf items), length⟩]) =
      tally removedItems calls + (items.length - length) :=
    tally_snoc removedItems calls (.user (.lengthOf items)) length
  unfold Balanced at h ⊢
  rw [hread, hwrite, hadded, hremoved]
  change l.readCount + _ + _ = (l.writeCount + length) + (l.skipCount + 0) + _ + _ + _
  omega

end Balance

/-- The items of the chunk at hand. -/
def Stage.pending : Stage α → Nat
  | .reading _ _ items => items.length
  | .processing _ rest processed => rest.length + processed.length
  | .written _ _ (some report) => report.written + report.skipped
  | .written _ processed none => processed.length
  | _ => 0

/-- The accounts, at every stage. -/
def accounts (kind : Thrown → Bool) : LoopStates α where
  holds _ stage l calls := Balanced kind l stage.pending calls
  threw _ _ := True

section Calls

variable {policies : Policies} {fuel : Nat} {stage skipped : Stage α} {l : Locals}
  {calls : Calls α} {err : Thrown}

/-- A failed attempt settles its accounts if it does so for an error that is skipped. -/
theorem judged_accounts
    (hskip : policies.skips err = true → Balanced policies.skips l.counted skipped.pending calls)
    (hsame : policies.skips err = false → Balanced policies.skips l stage.pending calls) :
    (accounts policies.skips).Judged policies fuel stage skipped l err calls := by
  intro attempt
  cases hc : consult policies err l.skipCount attempt with
  | skip => exact hskip (consult_skip hc).1
  | retry => exact hsame (consult_retry hc).1
  | fail err' => trivial

/-- A read that ends in no error that is skipped. -/
theorem balanced_read {kind : Thrown → Bool} {pending : Nat} (h : Balanced kind l pending calls)
    {reader : Handle} {ctx : ItemExecutionContext} {r : Except Thrown (Option α)}
    (hzero : failures kind r = 0) :
    Balanced kind l pending (calls ++ [⟨.user (.read reader ctx), r⟩]) :=
  h.snoc (o := .user (.read reader ctx)) hzero rfl fun heq => by cases heq

/-- A read that fails counts where its error is skipped. -/
theorem accounts_read {S : Setting} {k : Int} {left : Nat} {items : List α}
    (h : (accounts S.policies.skips).holds fuel (.reading k (left + 1) items) l calls)
    (r : Except Thrown (Option α)) :
    (accounts S.policies.skips).AfterRead S.policies fuel k left items l r
      (calls ++ [⟨.user (.read S.reader.target (S.itemContext k)), r⟩]) := by
  have hbalanced : Balanced S.policies.skips l items.length calls := h
  match r with
  | .ok none => exact balanced_read hbalanced rfl
  | .ok (some item) =>
      have hkept : Balanced S.policies.skips l items.length
          (calls ++ [⟨.user (.read S.reader.target (S.itemContext k)), .ok (some item)⟩]) :=
        balanced_read hbalanced rfl
      unfold Balanced at hkept
      change Balanced _ _ (items ++ [item]).length _
      unfold Balanced
      rw [List.length_append, List.length_singleton]
      dsimp only
      omega
  | .error err =>
      refine judged_accounts ?_ fun hkind => balanced_read hbalanced (failures_neg hkind)
      intro hkind
      have hread : tally (skippedReads S.policies.skips)
          (calls ++ [⟨.user (.read S.reader.target (S.itemContext k)), .error err⟩]) =
            tally (skippedReads S.policies.skips) calls +
              failures (β := Option α) S.policies.skips (.error err) := tally_snoc _ _ _ _
      have hwrite : tally (lostInWrites S.policies.skips)
          (calls ++ [⟨.user (.read S.reader.target (S.itemContext k)), .error err⟩]) =
            tally (lostInWrites S.policies.skips) calls := tally_snoc_zero rfl
      have hadded : tally addedItems
          (calls ++ [⟨.user (.read S.reader.target (S.itemContext k)), .error err⟩]) =
            tally addedItems calls := tally_snoc_zero rfl
      have hremoved : tally removedItems
          (calls ++ [⟨.user (.read S.reader.target (S.itemContext k)), .error err⟩]) =
            tally removedItems calls := tally_snoc_zero rfl
      change Balanced _ l.counted items.length _
      unfold Balanced at hbalanced ⊢
      rw [hread, hwrite, hadded, hremoved, failures_pos hkind]
      change l.readCount + _ + _ = l.writeCount + (l.skipCount + 1) + _ + _ + _
      omega

/-- After an item is processed its account is open on the processed side. -/
theorem accounts_process {S : Setting} {k : Int} {item : α} {rest processed : List α}
    (h : (accounts S.policies.skips).holds fuel (.processing k (item :: rest) processed) l calls)
    (processor : Handle) (r : Except Thrown (Option α)) :
    (accounts S.policies.skips).AfterProcess S.policies fuel k item rest processed l r
      (calls ++ [⟨.user (.process processor item (S.itemContext k)), r⟩]) := by
  have hbalanced : Balanced S.policies.skips l (rest.length + 1 + processed.length) calls := h
  have hlength : rest.length + 1 + processed.length = rest.length + processed.length + 1 := by omega
  rw [hlength] at hbalanced
  have hsame : Balanced S.policies.skips l (rest.length + processed.length + 1)
      (calls ++ [⟨.user (.process processor item (S.itemContext k)), r⟩]) :=
    hbalanced.snoc rfl rfl fun heq => by cases heq
  match r with
  | .ok none => exact hsame.counted
  | .ok (some value) =>
      change Balanced _ l (rest.length + (processed ++ [value]).length) _
      rw [List.length_append, List.length_singleton, ← Nat.add_assoc]
      exact hsame
  | .error err =>
      refine judged_accounts (fun _ => hsame.counted) ?_
      intro _
      change Balanced _ l (rest.length + 1 + processed.length) _
      rw [hlength]
      exact hsame

/-- A write that fails takes its chunk along where its error is skipped. -/
theorem accounts_write {S : Setting} {k : Int} {processed : List α} (hprocessed : processed ≠ [])
    (h : (accounts S.policies.skips).holds fuel (.processing k [] processed) l calls)
    {r : Except Thrown (Option WriterResult)}
    (hr : Accounts (.user (.write S.writer.target processed (S.itemContext k))) r) :
    (accounts S.policies.skips).AfterWrite S.policies fuel k processed l r
      (calls ++ [⟨.user (.write S.writer.target processed (S.itemContext k)), r⟩]) := by
  have hbalanced : Balanced S.policies.skips l (0 + processed.length) calls := h
  rw [Nat.zero_add] at hbalanced
  have hsome := List.length_pos_of_ne_nil hprocessed
  have hread : tally (skippedReads S.policies.skips)
      (calls ++ [⟨.user (.write S.writer.target processed (S.itemContext k)), r⟩]) =
        tally (skippedReads S.policies.skips) calls := tally_snoc_zero rfl
  have hwrite : tally (lostInWrites S.policies.skips)
      (calls ++ [⟨.user (.write S.writer.target processed (S.itemContext k)), r⟩]) =
        tally (lostInWrites S.policies.skips) calls +
          failures S.policies.skips r * (processed.length - 1) := tally_snoc _ _ _ _
  have hadded : tally addedItems
      (calls ++ [⟨.user (.write S.writer.target processed (S.itemContext k)), r⟩]) =
        tally addedItems calls := tally_snoc_zero rfl
  have hremoved : tally removedItems
      (calls ++ [⟨.user (.write S.writer.target processed (S.itemContext k)), r⟩]) =
        tally removedItems calls := tally_snoc_zero rfl
  have hsame : failures S.policies.skips r = 0 → Balanced S.policies.skips l processed.length
      (calls ++ [⟨.user (.write S.writer.target processed (S.itemContext k)), r⟩]) := by
    intro hzero
    unfold Balanced at hbalanced ⊢
    rw [hread, hwrite, hadded, hremoved, hzero, Nat.zero_mul]
    exact hbalanced
  match r with
  | .ok none => exact hsame rfl
  | .ok (some report) =>
      change Balanced _ l (report.written + report.skipped) _
      rw [hr report rfl]
      exact hsame rfl
  | .error err =>
      refine judged_accounts ?_ ?_
      · intro hkind
        unfold Balanced at hbalanced
        change Balanced _ l.counted 0 _
        unfold Balanced
        rw [hread, hwrite, hadded, hremoved, failures_pos hkind, Nat.one_mul]
        change l.readCount + _ + _ = l.writeCount + (l.skipCount + 1) + _ + _ + _
        omega
      · intro hkind
        change Balanced _ l (0 + processed.length) _
        rw [Nat.zero_add]
        exact hsame (failures_neg hkind)

end Calls

/-- Every call of the chunk loop keeps the accounts balanced. -/
theorem accounts_advances (S : Setting) :
    (accounts (α := α) S.policies.skips).Advances S accountRules True where
  quiet _ stage l := balanced_frame (by decide) (by decide) (by decide) l stage.pending
  counters _ _ _ _ _ hl h := h.same hl.readCount hl.writeCount hl.skipCount
  silent _ _ _ _ _ _ calls hmove h := by
    cases hmove with
    | copy _ =>
        unfold accounts Stage.pending at h ⊢
        dsimp only at h ⊢
        rw [List.length_cons, Nat.add_right_comm] at h
        rw [List.length_append, List.length_singleton, ← Nat.add_assoc]
        exact h
    | reported => exact Balanced.wrote h
    | _ => exact h
  read _ _ _ _ _ _ h := ⟨trivial, fun r _ => accounts_read h r⟩
  process _ _ _ _ _ _ _ _ _ h := ⟨trivial, fun r _ => accounts_process h _ r⟩
  write _ _ _ _ _ hprocessed h := ⟨trivial, fun _ hr => accounts_write hprocessed h hr⟩
  length _ _ _ _ _ h := ⟨trivial, fun length _ => h.measured length⟩
  drain _ _ _ _ _ _ h := by
    refine ⟨trivial, ?_⟩
    intro r _
    cases r with
    | error err => trivial
    | ok item =>
        cases item with
        | none => exact balanced_read h rfl
        | some item => exact balanced_read h rfl

variable {fuel : Nat} {step : ChunkStepDefinition} {context : ChunkExecutionContext}

/-- What a completed step says of its items. -/
def CompletesBalanced (step : ChunkStepDefinition) (result : StepResult) (calls : Calls α) : Prop :=
  result.status = .COMPLETED →
    result.readCount + tally (skippedReads step.skips) calls + tally addedItems calls =
      result.writeCount + result.skipCount + tally (lostInWrites step.skips) calls +
        tally removedItems calls

/-- **The accounts of a step**: what is missing in them is what skipped writes took along, and what
the arrays of the chunks lost before they were counted. -/
theorem execute_accounts :
    (execute fuel step context : Code α StepResult).wp (logged accountRules True)
      (EndsWith (CompletesBalanced step)) [] := by
  have hframe : ∀ {K : List OpKind}, .read ∉ K → .write ∉ K → .lengthOf ∉ K → ∀ result,
      (logged (accountRules (α := α)) True).Frame (On K) (CompletesBalanced step result) := by
    intro K hread hwrite hlength result
    refine logged_frame (fun _ _ _ _ => trivial) ?_
    intro calls o r ho _ h hcompleted
    rw [tally_snoc_zero (skippedReads_of_kind (fun heq => hread (heq ▸ ho)) r),
      tally_snoc_zero (lostInWrites_of_kind (fun heq => hwrite (heq ▸ ho)) r),
      tally_snoc_zero (addedItems_of_kind (fun heq => hlength (heq ▸ ho)) r),
      tally_snoc_zero (removedItems_of_kind (fun heq => hlength (heq ▸ ho)) r)]
    exact h hcompleted
  have hstart : ∀ {K : List OpKind}, .read ∉ K → .write ∉ K → .lengthOf ∉ K →
      (logged (accountRules (α := α)) True).Frame (On K) (Balanced step.skips {} 0) :=
    fun hread hwrite hlength => balanced_frame hread hwrite hlength {} 0
  refine wp_execute_result (hframe (by decide) (by decide) (by decide)) ?_
    (hstart (by decide) (by decide) (by decide)) (hstart (by decide) (by decide) (by decide)) ?_ ?_
    rfl
  · intro fn ctx result calls r calls' ht h hcompleted
    have hsame : result.SameAccounts (Prod.snd (r : Except Thrown Unit × StepResult)) := ht.2
    rw [hsame.status] at hcompleted
    rw [hsame.readCount, hsame.writeCount, hsame.skipCount]
    exact h hcompleted
  · intro l exitMessage calls hcompleted
    cases hcompleted
  · intro policies partition S l calls hcompiled _ hS hl h
    have hskips : S.policies.skips = step.skips := by
      rw [hS.policies]
      exact funext (Policies.compile_skips hcompiled)
    have hbalanced : Balanced S.policies.skips l 0 calls := by
      rw [hskips]
      unfold Balanced at h ⊢
      rw [hl.readCount, hl.writeCount, hl.skipCount]
      exact h
    have hsound := (accounts_advances (α := α) S).sound (fun _ _ => trivial) fun _ _ _ => trivial
    refine Scoped.wp_mono (hsound.wp_chunkLoop fuel hbalanced) ?_
    intro out l' calls' hout hok _
    subst hok
    obtain ⟨_, hended⟩ := hout
    rw [hskips] at hended
    exact hended

end ChunkStepExecutor

/-- No write of more than one item failed with an error of the kind. -/
def SkipsSingleWrites (kind : Thrown → Bool) (calls : Calls α) : Prop :=
  ∀ (writer : Handle) (items : List α) (ctx : ItemExecutionContext)
    (r : Except Thrown (Option WriterResult)) (err : Thrown),
    (⟨.user (.write writer items ctx), r⟩ : Prog.Call (Op α) Op.Resp) ∈ calls → r = .error err →
      kind err = true → items.length ≤ 1

/-- Nothing is lost exactly when skipped writes have one item. -/
theorem lostInWrites_eq_zero_iff {kind : Thrown → Bool} {calls : Calls α} :
    tally (lostInWrites kind) calls = 0 ↔ SkipsSingleWrites kind calls := by
  unfold tally
  rw [List.sum_eq_zero_iff_forall_eq_nat]
  constructor
  · intro h writer items ctx r err hmem hr hkind
    have hzero := h _ (List.mem_map_of_mem hmem)
    have hlost : failures kind r * (items.length - 1) = 0 := hzero
    rw [hr, failures_pos hkind, Nat.one_mul] at hlost
    omega
  · intro h n hn
    obtain ⟨call, hmem, hcall⟩ := List.mem_map.mp hn
    subst hcall
    cases call with
    | mk o r =>
        by_cases hwrite : o.kind = .write
        · cases o with
          | user call =>
              cases call with
              | write writer items ctx =>
                  change failures (β := Option WriterResult) kind r * (items.length - 1) = 0
                  cases hr : (r : Except Thrown (Option WriterResult)) with
                  | ok value => exact Nat.zero_mul _
                  | error err =>
                      cases hkind : kind err with
                      | false => rw [failures_neg hkind, Nat.zero_mul]
                      | true =>
                          have hlength := h writer items ctx r err hmem hr hkind
                          rw [Nat.sub_eq_zero_of_le hlength, Nat.mul_zero]
              | _ => cases hwrite
          | _ => cases hwrite
        · exact lostInWrites_of_kind hwrite r

/-- Nobody changes the length of the array of a chunk. -/
def KeepsArrays (calls : Calls α) : Prop :=
  ∀ (items : List α) (length : Nat),
    (⟨.user (.lengthOf items), length⟩ : Prog.Call (Op α) Op.Resp) ∈ calls → length = items.length

/-- An array that keeps its length gains and loses nothing. -/
theorem KeepsArrays.tallies {calls : Calls α} (h : KeepsArrays calls) :
    tally addedItems calls = 0 ∧ tally removedItems calls = 0 := by
  unfold tally
  rw [List.sum_eq_zero_iff_forall_eq_nat, List.sum_eq_zero_iff_forall_eq_nat]
  have hcall : ∀ call ∈ calls, addedItems call.1 call.2 = 0 ∧ removedItems call.1 call.2 = 0 := by
    intro call hmem
    cases call with
    | mk o r =>
        by_cases hlength : o.kind = .lengthOf
        · cases o with
          | user call =>
              cases call with
              | lengthOf items =>
                  have hkept : r = items.length := h items r hmem
                  subst hkept
                  exact ⟨Nat.sub_self _, Nat.sub_self _⟩
              | _ => cases hlength
          | _ => cases hlength
        · exact ⟨addedItems_of_kind hlength r, removedItems_of_kind hlength r⟩
  constructor
  · intro n hn
    obtain ⟨call, hmem, heq⟩ := List.mem_map.mp hn
    rw [← heq]
    exact (hcall call hmem).1
  · intro n hn
    obtain ⟨call, hmem, heq⟩ := List.mem_map.mp hn
    rw [← heq]
    exact (hcall call hmem).2

section Balance

variable {env : Environment α υ} {fuel : Nat} {step : ChunkStepDefinition}
  {context : ChunkExecutionContext} {w : World υ} {result : StepResult} {calls : Calls α}

/-- The accounts of a step that user code has brought to its end. -/
theorem ChunkStepExecutor.Returns.accounts (henv : env.Accounts)
    (hrun : ChunkStepExecutor.Returns env fuel step context w result calls) :
    ChunkStepExecutor.CompletesBalanced step result calls := by
  have hanswers : AnswersAs env accountRules (fun _ _ => True) := by
    refine answersAs_of_user henv ?_ rfl
    intro o r hother
    cases o with
    | user call => exact absurd rfl (hother call)
    | _ => trivial
  exact hrun.of_logged hanswers ChunkStepExecutor.execute_accounts trivial

/-- Where nobody changes the length of an array, it is a matter of the skipped writes alone. -/
theorem accounts_balance_of_kept (henv : env.Accounts)
    (hrun : ChunkStepExecutor.Returns env fuel step context w result calls)
    (hcompleted : result.status = .COMPLETED) (hkept : KeepsArrays calls) :
    result.readCount + tally (skippedReads step.skips) calls =
        result.writeCount + result.skipCount ↔
      SkipsSingleWrites step.skips calls := by
  have hbalance := hrun.accounts henv hcompleted
  obtain ⟨hadded, hremoved⟩ := hkept.tallies
  rw [← lostInWrites_eq_zero_iff]
  omega

end Balance

end NestBatch
