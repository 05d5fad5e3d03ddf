import Mathlib.Data.List.Chain
import NestBatch.Execution.PlainStep
import NestBatch.Execution.StepFootprint
import NestBatch.Execution.ThrownTexts

/-!
# Who is told that a chunk step is over

The `after:step` listeners of a step are told in one round, each handed the result
as the one before left it.  The round of a completed step is within the `try` block
whose `catch` block holds the round of a failed one, so a listener that throws while
a completed step is announced has the others told again.
-/

namespace NestBatch

variable {α υ : Type}

/-- A call of an `after:step` listener: the result it was told, how it ended, the result it left. -/
structure Notice where
  fn : Handle
  told : StepResult
  out : Except Thrown Unit
  left : StepResult

def Notice.of : Prog.Call (Op α) Op.Resp → Option Notice
  | ⟨.user (.afterStep fn _ result), r⟩ =>
      some { fn := fn, told := result, out := Prod.fst r, left := Prod.snd r }
  | _ => none

/-- The calls of `after:step` listeners in a log. -/
def notices (calls : Calls α) : List Notice := calls.filterMap Notice.of

theorem notices_snoc (calls : Calls α) (c : Prog.Call (Op α) Op.Resp) :
    notices (calls ++ [c]) = notices calls ++ (Notice.of c).toList :=
  filterMap_snoc Notice.of calls c

/-- Nobody is told anything by code without such a call. -/
theorem notices_frame {K : List OpKind} (hK : .afterStep ∉ K) (loops : Prop) (ns : List Notice) :
    (anyCalls : Prog.Logic (Op α) Op.Resp (Calls α)).Frame (On K loops)
      (fun calls => notices calls = ns) := by
  refine selected_frame ?_ ns
  intro o r ho
  cases o with
  | user call =>
      cases call with
      | afterStep => exact absurd ho hK
      | _ => rfl
  | _ => rfl

namespace ListenerInvoker

/-- The `after:step` listeners of a resolver map. -/
def afterStepEntries (resolvers : ResolverMap) : List ListenerEntry :=
  (resolvers.filter fun e => e.1 = .lifecycle .after .step).map Prod.snd

/-- One round: the listeners are told the result one after the other, until one answers what its
entry does not bear with. -/
inductive Round : List ListenerEntry → StepResult → List Notice → Except Thrown StepResult → Prop
  | done (result : StepResult) : Round [] result [] (.ok result)
  | next {entry : ListenerEntry} {rest : List ListenerEntry} {ns : List Notice}
      {final : Except Thrown StepResult} (result left : StepResult) (out : Except Thrown Unit)
      (hout : BearsWith entry out) (hrest : Round rest left ns final) :
      Round (entry :: rest) result (⟨entry.fn, result, out, left⟩ :: ns) final
  | refused {entry : ListenerEntry} (rest : List ListenerEntry) (result left : StepResult)
      (out : Except Thrown Unit) (err : Thrown) (hout : ¬ BearsWith entry out) :
      Round (entry :: rest) result [⟨entry.fn, result, out, left⟩] (.error err)

/-- **Telling the listeners is one round.** -/
theorem wp_invokeAfterStep_round (ctx : ListenerContext) (resolvers : ResolverMap)
    (result : StepResult) (calls : Calls α) :
    (invokeAfterStep ctx resolvers result).wp anyCalls (fun out calls' => ∃ ns,
      notices calls' = notices calls ++ ns ∧ Round (afterStepEntries resolvers) result ns out)
      calls := by
  induction resolvers generalizing result calls with
  | nil => exact ⟨[], (List.append_nil _).symm, .done result⟩
  | cons e rest ih =>
      obtain ⟨k, entry⟩ := e
      unfold invokeAfterStep
      by_cases hk : k = .lifecycle .after .step
      · have hentries : afterStepEntries ((k, entry) :: rest) = entry :: afterStepEntries rest := by
          simp [afterStepEntries, hk]
        rw [if_pos hk, hentries]
        refine Prog.wp_bind.mpr (wp_call trivial ?_)
        intro h hcase
        obtain ⟨out, left⟩ := h
        obtain - := hcase
        have hsnoc := notices_snoc calls ⟨.user (.afterStep entry.fn ctx result), (out, left)⟩
        change (settle entry out >>= fun _ => invokeAfterStep ctx rest left).wp _ _ _
        by_cases hout : BearsWith entry out
        · rw [settle_of_bearsWith hout]
          refine Prog.wp_mono (ih left _) ?_
          intro final calls' hrest
          obtain ⟨ns, hns, hround⟩ := hrest
          refine ⟨⟨entry.fn, result, out, left⟩ :: ns, ?_, .next result left out hout hround⟩
          rw [hns, hsnoc, List.append_assoc]
          rfl
        · obtain ⟨err, hsettle⟩ := settle_of_not_bearsWith (α := α) hout
          rw [hsettle]
          exact ⟨_, hsnoc, .refused _ result left out err hout⟩
      · have hentries : afterStepEntries ((k, entry) :: rest) = afterStepEntries rest := by
          simp [afterStepEntries, hk]
        rw [if_neg hk, hentries]
        exact ih result calls

section Round

variable {entries : List ListenerEntry} {result : StepResult} {ns : List Notice}
  {final : Except Thrown StepResult}

/-- A round asks each listener at most once, and in their order. -/
theorem Round.listed (h : Round entries result ns final) :
    ns.map Notice.fn <+: entries.map ListenerEntry.fn := by
  induction h with
  | done result => exact List.prefix_rfl
  | next result left out hout hrest ih => exact (List.prefix_cons_inj _).mpr ih
  | refused rest result left out err hout =>
      exact (List.prefix_cons_inj _).mpr ⟨_, rfl⟩

/-- A round begins with the result that it was given. -/
theorem Round.head (h : Round entries result ns final) : ∀ n ∈ ns.head?, n.told = result := by
  cases h with
  | done =>
      intro n hn
      cases hn
  | next left out hout hrest =>
      intro n hn
      cases hn
      rfl
  | refused rest left out err hout =>
      intro n hn
      cases hn
      rfl

/-- A round hands on one result. -/
theorem Round.chain (h : Round entries result ns final) :
    ns.IsChain fun n n' => n'.told = n.left := by
  induction h with
  | done result => exact .nil
  | next result left out hout hrest ih => exact ih.cons hrest.head
  | refused rest result left out err hout => exact .singleton _

/-- A round that is not refused comes to the last listener, and none of them refuses. -/
theorem Round.of_ok {last : StepResult} (h : Round entries result ns (.ok last)) :
    ns.length = entries.length ∧ (∀ n ∈ ns.getLast?, n.left = last) ∧
      (ns = [] → result = last) ∧
      ∀ p ∈ entries.zip ns, BearsWith p.1 p.2.out := by
  generalize hfinal : Except.ok last = final at h
  induction h with
  | done result =>
      cases hfinal
      refine ⟨rfl, ?_, fun _ => rfl, fun p hp => absurd hp List.not_mem_nil⟩
      intro n hn
      cases hn
  | @next entry rest ns final result left out hout hrest ih =>
      obtain ⟨hlength, hlast, hnil, hzip⟩ := ih hfinal
      refine ⟨congrArg (· + 1) hlength, ?_, fun h => absurd h (List.cons_ne_nil _ _), ?_⟩
      · intro n hn
        cases ns with
        | nil =>
            cases hn
            exact hnil rfl
        | cons n' ns' => exact hlast n hn
      · intro p hp
        rcases List.mem_cons.mp hp with rfl | hp
        · exact hout
        · exact hzip p hp
  | refused => cases hfinal

/-- A round that is refused has been told to somebody, and the entry does not bear with the
answer. -/
theorem Round.of_error {err : Thrown} (h : Round entries result ns (.error err)) :
    ns ≠ [] ∧ ∃ p ∈ entries.zip ns, ¬ BearsWith p.1 p.2.out := by
  generalize hfinal : Except.error err = final at h
  induction h with
  | done => cases hfinal
  | next result left out hout hrest ih =>
      obtain ⟨-, p, hp, hrefused⟩ := ih hfinal
      exact ⟨List.cons_ne_nil _ _, p, List.mem_cons_of_mem _ hp, hrefused⟩
  | refused rest result left out err' hout =>
      cases hfinal
      exact ⟨List.cons_ne_nil _ _, _, List.mem_cons_self, hout⟩

end Round

end ListenerInvoker

namespace ChunkStepExecutor

open ListenerInvoker

/-- How the `after:step` listeners of a step are told of its end. -/
inductive Announced (entries : List ListenerEntry) :
    List Notice → Except Thrown StepResult → Prop
  | silent (err : Thrown) : Announced entries [] (.error err)
  | completed {result : StepResult} {ns : List Notice} (final : StepResult)
      (hstatus : result.status = .COMPLETED) (hround : Round entries result ns (.ok final)) :
      Announced entries ns (.ok final)
  | failed {result : StepResult} {ns : List Notice} (out : Except Thrown StepResult)
      (hstatus : result.status = .FAILED) (hround : Round entries result ns out) :
      Announced entries ns out
  | givenUp {result : StepResult} {ns : List Notice} (err err' : Thrown)
      (hstatus : result.status = .COMPLETED) (hround : Round entries result ns (.error err)) :
      Announced entries ns (.error err')
  | again {result result' : StepResult} {ns ns' : List Notice} (err : Thrown)
      (out : Except Thrown StepResult) (hstatus : result.status = .COMPLETED)
      (hround : Round entries result ns (.error err)) (hstatus' : result'.status = .FAILED)
      (hround' : Round entries result' ns' out) : Announced entries (ns ++ ns') out

section Rules

variable {step : ChunkStepDefinition} {context : ChunkExecutionContext}

/-- What is told behind some notices, by code that may fail before telling anything. -/
def Tells (entries : List ListenerEntry) (status : StepStatus) (before : List Notice)
    (out : Except Thrown StepResult) (calls : Calls α) : Prop :=
  (notices calls = before ∧ ∃ err, out = .error err) ∨
  ∃ result ns, result.status = status ∧ notices calls = before ++ ns ∧ Round entries result ns out

/-- The failure handler tells the listeners of FAILED. -/
theorem wp_onFailure_tells (err : Thrown) (l : Locals) (calls : Calls α) :
    (onFailure step context err l).wp anyCalls
      (Tells (afterStepEntries context.listenerResolvers) .FAILED (notices calls)) calls := by
  have hsilent {β : Type} {p : Code α β} (K : List OpKind) (hK : .afterStep ∉ K)
      (hp : p.Uses (On K)) {calls' : Calls α} (h : notices calls' = notices calls) :
      p.wp anyCalls (fun _ calls' => notices calls' = notices calls) calls' :=
    Prog.wp_of_uses hp (notices_frame hK False _) h
  refine Prog.wp_seq (hsilent [.closeStream] (by decide)
    (Prog.Uses.attempt (uses_closeStreams (by decide) _)) rfl) ?_ fun e _ h => Or.inl ⟨h, e, rfl⟩
  intro closed calls₁ h₁
  refine Prog.wp_seq (hsilent [.listener] (by decide) (uses_invokeMatching (by decide) _ _ _) h₁) ?_
    fun e _ h => Or.inl ⟨h, e, rfl⟩
  intro _ calls₂ h₂
  refine Prog.wp_seq (hsilent [] (by decide) (Prog.uses_ofExcept _) h₂) ?_
    fun e _ h => Or.inl ⟨h, e, rfl⟩
  intro exitMessage calls₃ h₃
  refine Prog.wp_seq (hsilent [.listener] (by decide) (uses_invokeMatching (by decide) _ _ _) h₃) ?_
    fun e _ h => Or.inl ⟨h, e, rfl⟩
  intro _ calls₄ h₄
  refine Prog.wp_mono (wp_invokeAfterStep_round _ _ _ _) ?_
  intro out calls₅ hcase
  obtain ⟨ns, hns, hround⟩ := hcase
  rw [h₄] at hns
  exact Or.inr ⟨_, ns, rfl, hns, hround⟩

/-- The body tells the listeners of COMPLETED, and of nothing before. -/
theorem wp_body_tells (fuel : Nat) (policies : Policies) (partition : Option (Int × Int))
    {calls : Calls α} (h : notices calls = []) :
    Scoped.wp anyCalls (body fuel step context policies partition)
      (fun out _ => Tells (afterStepEntries context.listenerResolvers) .COMPLETED [] out)
      {} calls := by
  have hreader : (resolveReader step.reader context step : Code α ItemHandler).wp anyCalls
      (fun out calls' => notices calls' = [] ∧ ∀ reader, out = .ok reader → True) calls :=
    Prog.wp_mono (Prog.wp_of_uses (uses_resolveReader (K := [.invoke, .factory]) (by decide)
      (by decide) _ _ _) (notices_frame (by decide) False _) h) fun _ _ h => ⟨h, fun _ _ => trivial⟩
  unfold body
  refine Scoped.wp_seq (wp_prepare (notices_frame (by decide) False _) hreader) ?_
    fun e _ _ h => Or.inl ⟨h.1, e, rfl⟩
  intro S l₁ calls₁ h₁
  refine Scoped.wp_seq (Scoped.wp_of_keeps (S.stays_chunkLoop fuel)
    (notices_frame (by decide) True _) h₁.1) ?_ fun e _ _ h => Or.inl ⟨h.2, e, rfl⟩
  intro _ l₂ calls₂ h₂
  rw [Scoped.wp_bind, Scoped.wp_get, Scoped.afterwards_ok, Scoped.wp_bind, Scoped.wp_modify,
    Scoped.afterwards_ok]
  refine Scoped.wp_seq (Scoped.wp_lift_of_uses
    (uses_closeStreams (K := [.closeStream]) (by decide) _)
    (notices_frame (by decide) False _) h₂.2) ?_ fun e _ _ h => Or.inl ⟨h.2, e, rfl⟩
  intro _ l₃ calls₃ h₃
  rw [Scoped.wp_lift]
  refine Prog.wp_mono (wp_invokeAfterStep_round _ _ _ _) ?_
  intro out calls₄ hcase
  obtain ⟨ns, hns, hround⟩ := hcase
  rw [h₃.2] at hns
  exact Or.inr ⟨_, ns, rfl, hns, hround⟩

/-- **How the end of a step is announced.** -/
theorem wp_execute_announced (fuel : Nat) :
    (execute fuel step context : Code α StepResult).wp anyCalls (fun out calls =>
      Announced (afterStepEntries context.listenerResolvers) (notices calls) out) [] := by
  unfold execute
  refine Prog.wp_bind.mpr ((Prog.wp_ofExcept _).mpr ?_)
  cases Policies.compile step with
  | error err => exact .silent err
  | ok policies =>
      refine Prog.wp_bind.mpr ((Prog.wp_ofExcept _).mpr ?_)
      cases resolveRange step context with
      | error err => exact .silent err
      | ok partition =>
          have hbefore : (invokeBefore context.listenerResolvers .step
              (buildListenerContext step context) : Code α Unit).Uses (On [.listener]) :=
            uses_invokeMatching (by decide) _ _ _
          refine Prog.wp_seq (Prog.wp_of_uses hbefore
            (notices_frame (by decide) False []) rfl) ?_ ?_
          · intro _ calls₁ h₁
            refine Prog.wp_seq (wp_body_tells fuel policies partition h₁) ?_ fun _ _ h => h.elim
            intro hcase calls₂ htold
            obtain ⟨out, l⟩ := hcase
            cases out with
            | ok final =>
                rcases htold with ⟨-, err, herr⟩ | ⟨result, ns, hstatus, hns, hround⟩
                · cases herr
                · change Announced _ (notices calls₂) (.ok final)
                  rw [hns]
                  exact .completed final hstatus hround
            | error err =>
                refine Prog.wp_mono (wp_onFailure_tells err l calls₂) ?_
                intro out calls₃ hfailed
                rcases htold with ⟨hnone, -⟩ | ⟨result, ns, hstatus, hns, hround⟩
                · rw [hnone] at hfailed
                  rcases hfailed with ⟨h, e, rfl⟩ | ⟨result, ns, hstatus, hns, hround⟩
                  · rw [h]
                    exact .silent e
                  · rw [hns]
                    exact .failed out hstatus hround
                · rw [List.nil_append] at hns
                  rw [hns] at hfailed
                  rcases hfailed with ⟨h, e, rfl⟩ | ⟨result', ns', hstatus', hns', hround'⟩
                  · rw [h]
                    exact .givenUp err e hstatus hround
                  · rw [hns']
                    exact .again err out hstatus hround hstatus' hround'
          · intro e calls₁ h₁
            rw [h₁]
            exact .silent e

end Rules

/-- **The listeners are told once** of the end of a step: no listener twice, all of them the one
result, which is the one that the step returns; of a step that throws, that it failed. -/
structure ToldOnce (entries : List ListenerEntry) (ns : List Notice)
    (out : Except Thrown StepResult) : Prop where
  once : ns.map Notice.fn <+: entries.map ListenerEntry.fn
  live : ns.IsChain fun n n' => n'.told = n.left
  reported : ∀ final, out = .ok final → ns.length = entries.length ∧
    ∀ n ∈ ns.getLast?, n.left = final
  failed : ∀ err, out = .error err → ∀ n ∈ ns.head?, n.told.status = .FAILED

/-- While they are told that the step completed, no critical listener throws, and no other one what
has no string form. -/
def Accepted (entries : List ListenerEntry) (ns : List Notice) : Prop :=
  (∃ first ∈ ns.head?, first.told.status = .COMPLETED) →
    ∀ p ∈ entries.zip ns, BearsWith p.1 p.2.out

/-- A round that a listener broke off is not accepted. -/
theorem not_accepted {entries : List ListenerEntry} {result : StepResult} {ns ns' : List Notice}
    {err : Thrown} (hstatus : result.status = .COMPLETED)
    (hround : Round entries result ns (.error err)) : ¬ Accepted entries (ns ++ ns') := by
  intro haccepted
  obtain ⟨hne, p, hp, hout⟩ := hround.of_error
  have hfirst : ∃ first ∈ (ns ++ ns').head?, first.told.status = .COMPLETED := by
    refine ⟨ns.head hne, ?_, ?_⟩
    · rw [List.head?_append_of_ne_nil _ hne]
      exact List.head?_eq_some_head hne
    · rw [hround.head _ (List.head?_eq_some_head hne)]
      exact hstatus
  have hmem : p ∈ entries.zip (ns ++ ns') := by
    obtain ⟨i, hi⟩ := List.mem_iff_getElem?.mp hp
    obtain ⟨hentry, hnotice⟩ := List.getElem?_zip_eq_some.mp hi
    have hlt : i < ns.length := (List.getElem?_eq_some_iff.mp hnotice).1
    refine List.mem_iff_getElem?.mpr ⟨i, List.getElem?_zip_eq_some.mpr ⟨hentry, ?_⟩⟩
    rw [List.getElem?_append_left hlt]
    exact hnotice
  exact hout (haccepted hfirst p hmem)

/-- Where a result is announced it is told once exactly when the listeners accept it. -/
theorem Announced.tells_iff {entries : List ListenerEntry} {ns : List Notice}
    {out : Except Thrown StepResult} (h : Announced entries ns out) :
    ToldOnce entries ns out ↔ Accepted entries ns := by
  cases h with
  | silent err =>
      refine iff_of_true ⟨List.nil_prefix, .nil, ?_, ?_⟩ ?_
      · intro final hfinal
        cases hfinal
      · intro _ _ n hn
        cases hn
      · intro hcase
        obtain ⟨first, hfirst, -⟩ := hcase
        cases hfirst
  | completed final hstatus hround =>
      obtain ⟨hlength, hlast, -, hzip⟩ := hround.of_ok
      refine iff_of_true ⟨hround.listed, hround.chain, ?_, ?_⟩ fun _ => hzip
      · intro final' hfinal
        cases hfinal
        exact ⟨hlength, hlast⟩
      · intro err hfinal
        cases hfinal
  | failed out hstatus hround =>
      have hfailed : ∀ n ∈ ns.head?, n.told.status = .FAILED := by
        intro n hn
        rw [hround.head n hn]
        exact hstatus
      refine iff_of_true ⟨hround.listed, hround.chain, ?_, fun _ _ => hfailed⟩ ?_
      · intro final hfinal
        subst hfinal
        exact ⟨hround.of_ok.1, hround.of_ok.2.1⟩
      · intro hcase
        obtain ⟨first, hfirst, hcompleted⟩ := hcase
        rw [hfailed first hfirst] at hcompleted
        cases hcompleted
  | givenUp err err' hstatus hround =>
      have hbad : ¬ Accepted entries ns := by
        have hunder : ¬ Accepted entries (ns ++ []) := not_accepted hstatus hround
        rwa [List.append_nil] at hunder
      refine iff_of_false ?_ hbad
      intro honce
      have hne := hround.of_error.1
      have hfailed := honce.failed err' rfl _ (List.head?_eq_some_head hne)
      rw [hround.head _ (List.head?_eq_some_head hne), hstatus] at hfailed
      cases hfailed
  | @again result result' ns ns' err out hstatus hround hstatus' hround' =>
      refine iff_of_false ?_ (not_accepted hstatus hround)
      intro honce
      have hne := hround.of_error.1
      cases out with
      | ok final =>
          have hlength := (honce.reported final rfl).1
          rw [List.length_append, hround'.of_ok.1] at hlength
          have hpos := List.length_pos_iff.mpr hne
          omega
      | error err' =>
          have hhead : ns.head hne ∈ (ns ++ ns').head? := by
            rw [List.head?_append_of_ne_nil _ hne]
            exact List.head?_eq_some_head hne
          have hfailed := honce.failed err' rfl _ hhead
          rw [hround.head _ (List.head?_eq_some_head hne), hstatus] at hfailed
          cases hfailed

/-- The executor, started in `w`, comes to an end with `out`, having made `calls`. -/
def Finishes (env : Environment α υ) (fuel : Nat) (step : ChunkStepDefinition)
    (context : ChunkExecutionContext) (w : World υ) (out : Except Thrown StepResult)
    (calls : Calls α) : Prop :=
  ∃ w', Prog.run (handle env).traced (execute fuel step context) (w, []) =
    (Prog.Outcome.ended out, (w', calls))

/-- What is proved of the log is true of a run that ends. -/
theorem Finishes.of_logged {env : Environment α υ} {fuel : Nat} {step : ChunkStepDefinition}
    {context : ChunkExecutionContext} {w : World υ} {out : Except Thrown StepResult}
    {calls : Calls α} {Q : Except Thrown StepResult → Calls α → Prop}
    (h : Finishes env fuel step context w out calls)
    (hp : (execute fuel step context).wp anyCalls Q []) : Q out calls := by
  obtain ⟨w', hrun⟩ := h
  have hended := Prog.wp_run (wp_of_logged (anyCalls_answers env) hp (w := w) trivial)
  rw [hrun] at hended
  cases out with
  | ok result => exact hended.1
  | error err => exact hended.1

/-- **The `after:step` listeners of a chunk step are told once of its end if and only if**, while
they are told that the step completed, no critical one throws and no other one throws what has no
string form: whatever the streams, the item handlers and the other listeners do. -/
theorem toldOnce_iff (env : Environment α υ) (fuel : Nat) (step : ChunkStepDefinition)
    (context : ChunkExecutionContext) (w : World υ) (out : Except Thrown StepResult)
    (calls : Calls α) (hrun : Finishes env fuel step context w out calls) :
    ToldOnce (afterStepEntries context.listenerResolvers) (notices calls) out ↔
      Accepted (afterStepEntries context.listenerResolvers) (notices calls) :=
  (hrun.of_logged (wp_execute_announced fuel)).tells_iff

/-- An empty input, and listeners that throw when they are told of a completed step. -/
def objecting (err : Thrown) : Environment Nat Nat where
  user
    | .afterStep _ _ result, n, _ =>
        ((if result.status = .COMPLETED then .error err else .ok (), result), n, [])
    | call, n, ctx => (willing []).user call n ctx
  broker _ n := (.ok "queued", n)

/-- A step with one `after:step` listener. -/
def listenedContext (nonCritical : Bool) : ChunkExecutionContext :=
  { plainContext with
    listenerResolvers := [(.lifecycle .after .step, { fn := 7, nonCritical := nonCritical })] }

/-- The run of a plain step in front of such a listener. -/
def objectedRun (nonCritical : Bool) (err : Thrown) :
    Prog.Outcome Thrown StepResult × World Nat × Calls Nat :=
  Prog.run (handle (objecting err)).traced
    (execute 2 (plainStep 10 none none) (listenedContext nonCritical))
    (World.initial (unaryIds 'i') (unaryIds 'u') 0, [])

/-- A listener that is not critical may throw an error. -/
theorem toldOnce_nonCritical :
    ToldOnce [{ fn := 7, nonCritical := true }] (notices (objectedRun true (.error "boom")).2.2)
      (.ok ⟨.COMPLETED, "COMPLETED", "", 0, 0, 0, some 0⟩) := by
  have hrun : Finishes (objecting (.error "boom")) 2 (plainStep 10 none none) (listenedContext true)
      (World.initial (unaryIds 'i') (unaryIds 'u') 0)
      (.ok ⟨.COMPLETED, "COMPLETED", "", 0, 0, 0, some 0⟩)
      (objectedRun true (.error "boom")).2.2 :=
    ⟨(objectedRun true (.error "boom")).2.1, rfl⟩
  refine (toldOnce_iff _ _ _ _ _ _ _ hrun).mpr ?_
  intro _ p hp
  have hentry : p.1 ∈ [({ fn := 7, nonCritical := true } : ListenerEntry)] := (List.of_mem_zip hp).1
  have hout : p.2.out = .error (.error "boom") := by
    have hnotice := (List.of_mem_zip hp).2
    have hnotices : (notices (objectedRun true (.error "boom")).2.2).map Notice.out =
        [.error (.error "boom")] := rfl
    have hmem := List.mem_map_of_mem (f := Notice.out) hnotice
    rw [hnotices] at hmem
    exact List.mem_singleton.mp hmem
  rw [List.mem_singleton.mp hentry, hout]
  intro err herr
  cases herr
  exact ⟨rfl, _, rfl⟩

/-- **A critical listener that throws is told again**, of a failure that is its own; and so is one
that is not critical and throws what has no string form. -/
theorem told_twice :
    ((objectedRun false (.error "boom")).1 =
        .returned ⟨.FAILED, "FAILED", "boom", 0, 0, 0, some 0⟩ ∧
      (notices (objectedRun false (.error "boom")).2.2).map (·.told.status) =
        [.COMPLETED, .FAILED] ∧
      ¬ ToldOnce [{ fn := 7 }] (notices (objectedRun false (.error "boom")).2.2)
        (.ok ⟨.FAILED, "FAILED", "boom", 0, 0, 0, some 0⟩)) ∧
    (notices (objectedRun true .bareObject).2.2).map (·.told.status) = [.COMPLETED, .FAILED] := by
  refine ⟨⟨rfl, rfl, ?_⟩, rfl⟩
  intro honce
  have hlength := (honce.reported _ rfl).1
  cases hlength

end ChunkStepExecutor

end NestBatch
