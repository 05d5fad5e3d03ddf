import NestBatch.Execution.JobFootprint
import NestBatch.Execution.WorldRules
import NestBatch.Lib.Congruence

/-!
# States that user code cannot tell apart

The broker and the service that starts tasks may change the outside world, as long as
user code does not see it (`Ignores`, `Overlooks`).  Two states are `Alike` when they differ in
that only, and in lookups of executions and messages that have been sent: code that
sends no messages comes to the same end in both.
-/

namespace NestBatch

variable {α β υ : Type}

/-- User code cannot tell apart what `R` relates. -/
structure Environment.Ignores (env : Environment α υ) (R : υ → υ → Prop) : Prop where
  equivalence : Equivalence R
  answers : ∀ call u u' ctx, R u u' → (env.user call u' ctx).1 = (env.user call u ctx).1
  saves : ∀ call u u' ctx, R u u' → (env.user call u' ctx).2.2 = (env.user call u ctx).2.2
  keeps : ∀ call u u' ctx, R u u' → R (env.user call u ctx).2.1 (env.user call u' ctx).2.1

/-- Nor does a message that the broker takes make any other difference. -/
structure Environment.Overlooks (env : Environment α υ) (R : υ → υ → Prop) : Prop
    extends env.Ignores R where
  takes : ∀ payload u, ∃ id, (env.broker payload u).1 = .ok id
  unseen : ∀ payload u u', R u u' → R u (env.broker payload u').2

/-- The calls, but for lookups of executions and messages to the broker. -/
def told (calls : Calls α) : Calls α :=
  calls.filter fun c => decide (c.1.kind ≠ .getJob ∧ c.1.kind ≠ .enqueue)

theorem told_append (calls calls' : Calls α) : told (calls ++ calls') = told calls ++ told calls' :=
  List.filter_append ..

/-- A look-up tells nothing. -/
theorem told_lookup (calls : Calls α) (id : String) (row : Option JobExecution) :
    told (calls ++ [⟨.getJobExecution id, row⟩]) = told calls :=
  (told_append _ _).trans (List.append_nil _)

/-- A message tells nothing. -/
theorem told_message (calls : Calls α) (payload : JobPayload) (answer : Except Thrown String) :
    told (calls ++ [⟨.enqueue payload, answer⟩]) = told calls :=
  (told_append _ _).trans (List.append_nil _)

/-- The second state differs from the first only in what user code does not see, in lookups and in
messages. -/
structure Alike (R : υ → υ → Prop) (s s' : World υ × Calls α) : Prop where
  world : s'.1 = { s.1 with user := s'.1.user }
  user : R s.1.user s'.1.user
  told : told s'.2 = told s.2

/-- The same end, in states that are alike. -/
def SameEnd (R : υ → υ → Prop) (run run' : β × World υ × Calls α) : Prop :=
  run'.1 = run.1 ∧ Alike R run.2 run'.2

section Alike

variable {env : Environment α υ} {R : υ → υ → Prop} {s s' : World υ × Calls α}

theorem Alike.refl (hR : env.Ignores R) (s : World υ × Calls α) : Alike R s s :=
  ⟨rfl, hR.equivalence.refl _, rfl⟩

theorem Alike.symm (hR : env.Ignores R) (h : Alike R s s') : Alike R s' s where
  world := by rw [h.world]
  user := hR.equivalence.symm h.user
  told := h.told.symm

theorem Alike.trans (hR : env.Ignores R) {s'' : World υ × Calls α} (h : Alike R s s')
    (h' : Alike R s' s'') : Alike R s s'' where
  world := by
    rw [h'.world, h.world]
  user := hR.equivalence.trans h.user h'.user
  told := h'.told.trans h.told

theorem SameEnd.symm (hR : env.Ignores R) {run run' : β × World υ × Calls α}
    (h : SameEnd R run run') : SameEnd R run' run := ⟨h.1.symm, h.2.symm hR⟩

theorem SameEnd.trans (hR : env.Ignores R) {run run' run'' : β × World υ × Calls α}
    (h : SameEnd R run run') (h' : SameEnd R run' run'') : SameEnd R run run'' :=
  ⟨h'.1.trans h.1, h.2.trans hR h'.2⟩

/-- A lookup makes no difference. -/
theorem Alike.lookup (h : Alike R s s') (id : String) (row : Option JobExecution) :
    Alike R s (s'.1, s'.2 ++ [⟨.getJobExecution id, row⟩]) where
  world := h.world
  user := h.user
  told := (told_lookup _ _ _).trans h.told

/-- Every operation but a message to the broker is answered alike. -/
theorem Environment.Ignores.handle_alike (hR : env.Ignores R) {o : Op α}
    (ho : o.kind ≠ .enqueue) {w : World υ} {u : υ} (hu : R w.user u) :
    (handle env o { w with user := u }).1 = (handle env o w).1 ∧
      (handle env o { w with user := u }).2 =
        { (handle env o w).2 with user := (handle env o { w with user := u }).2.user } ∧
      R (handle env o w).2.user (handle env o { w with user := u }).2.user := by
  cases o with
  | user call =>
      change (handleUser env call { w with user := u }).1 = (handleUser env call w).1 ∧
        (handleUser env call { w with user := u }).2 = { (handleUser env call w).2 with
          user := (handleUser env call { w with user := u }).2.user } ∧
        R (handleUser env call w).2.user (handleUser env call { w with user := u }).2.user
      unfold handleUser
      cases call.stepScope with
      | none =>
          exact ⟨hR.answers call _ _ _ hu, rfl, hR.keeps call _ _ _ hu⟩
      | some id =>
          refine ⟨hR.answers call _ _ _ hu, ?_, hR.keeps call _ _ _ hu⟩
          dsimp only
          rw [hR.saves call _ _ _ hu]
  | enqueue payload => exact absurd rfl ho
  | _ => exact ⟨rfl, rfl, hu⟩

/-- Alike states answer a call alike, unless it sends a message. -/
theorem Alike.handle (hR : env.Ignores R) (h : Alike R s s') {o : Op α}
    (ho : o.kind ≠ .enqueue) :
    ((handle env).traced o s').1 = ((handle env).traced o s).1 ∧
      Alike R ((handle env).traced o s).2 ((handle env).traced o s').2 := by
  obtain ⟨hanswer, hworld, huser⟩ := hR.handle_alike ho h.user
  rw [← h.world] at hanswer hworld huser
  refine ⟨hanswer, hworld, huser, ?_⟩
  have hcall : (⟨o, (NestBatch.handle env o s'.1).1⟩ : Prog.Call (Op α) Op.Resp) =
      ⟨o, (NestBatch.handle env o s.1).1⟩ := by rw [hanswer]
  change NestBatch.told (s'.2 ++ [⟨o, (NestBatch.handle env o s'.1).1⟩]) =
    NestBatch.told (s.2 ++ [⟨o, (NestBatch.handle env o s.1).1⟩])
  rw [told_append, told_append, h.told, hcall]

/-- **Code that sends no messages comes to the same end in states that are alike.** -/
theorem Alike.run (hR : env.Ignores R) (h : Alike R s s') {p : Code α β} {K : List OpKind}
    (hp : p.Uses (Looping K)) (hK : .enqueue ∉ K) :
    SameEnd R (p.run (NestBatch.handle env).traced s)
      (p.run (NestBatch.handle env).traced s') := by
  refine hp.run_alike ?_ h
  intro o t t' ho ht
  exact ht.handle hR fun hkind => hK (hkind ▸ ho)

/-- Alike states are driven to the same end. -/
theorem Alike.execute (hR : env.Ignores R) (h : Alike R s s') (fuel : Nat)
    (execution : JobExecution) (job : JobDefinition) (partition : PartitionArgs) :
    SameEnd R
      ((JobExecutor.execute fuel execution job partition).run (NestBatch.handle env).traced s)
      ((JobExecutor.execute fuel execution job partition).run (NestBatch.handle env).traced s') :=
  h.run hR (JobExecutor.uses_execute fuel execution job partition) (by decide)

/-- The same with something behind it that makes no difference. -/
theorem SameEnd.bind {γ : Type} {p p' : Code α β} {t t' : World υ × Calls α}
    (h : SameEnd R (p.run (NestBatch.handle env).traced t)
      (p'.run (NestBatch.handle env).traced t')) {f f' : β → Code α γ}
    (hf : ∀ b r r', Alike R r r' → SameEnd R ((f b).run (NestBatch.handle env).traced r)
      ((f' b).run (NestBatch.handle env).traced r')) :
    SameEnd R ((p >>= f).run (NestBatch.handle env).traced t)
      ((p' >>= f').run (NestBatch.handle env).traced t') := by
  obtain ⟨hend, halike⟩ := h
  rw [Prog.run_bind, Prog.run_bind]
  generalize p.run (NestBatch.handle env).traced t = first at hend halike ⊢
  generalize p'.run (NestBatch.handle env).traced t' = second at hend halike ⊢
  obtain ⟨out, r⟩ := first
  obtain ⟨out', r'⟩ := second
  change out' = out at hend
  subst hend
  cases out' with
  | returned b => exact hf b r r' halike
  | threw err => exact ⟨rfl, halike⟩
  | stuck => exact ⟨rfl, halike⟩

theorem Alike.pure (h : Alike R s s') (b : β) :
    SameEnd R ((.pure b : Code α β).run (NestBatch.handle env).traced s)
      ((.pure b : Code α β).run (NestBatch.handle env).traced s') := ⟨rfl, h⟩

end Alike

end NestBatch
