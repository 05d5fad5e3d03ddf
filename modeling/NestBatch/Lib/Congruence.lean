import NestBatch.Lib.Scoped

/-!
# Congruences between programs

A relation between programs is a congruence when the constructs of programs preserve
it.  Two programs that are built in the same way from related parts are then related,
whatever the relation is about: the answers a program ignores, the operations it
performs, or the ones that have been put into it.

`Prog.Inserted` is such a relation.  The second program performs the operations of the
first and some more, whose answers are settled beforehand and leave the state alone: it
comes to the same end in the same state.

Where it is the states that are related, and not the programs, `Prog.Uses.run_alike`
runs one program in both.
-/

namespace Prog

variable {ω : Type} {ρ : ω → Type} {ε α β σ : Type}

/-- A relation between programs that every construct preserves. -/
structure Congruence (Rel : (α : Type) → Prog ω ρ ε α → Prog ω ρ ε α → Prop) : Prop where
  pure : ∀ {α : Type} (a : α), Rel α (.pure a) (.pure a)
  throw : ∀ {α : Type} (e : ε), Rel α (.throw e) (.throw e)
  spin : ∀ {α : Type}, Rel α .spin .spin
  bind : ∀ {α β : Type} {p p' : Prog ω ρ ε α} {g g' : α → Prog ω ρ ε β},
    Rel α p p' → (∀ a, Rel β (g a) (g' a)) → Rel β (p >>= g) (p' >>= g')
  tryCatch : ∀ {α : Type} {p p' : Prog ω ρ ε α} {g g' : ε → Prog ω ρ ε α},
    Rel α p p' → (∀ e, Rel α (g e) (g' e)) → Rel α (p.tryCatch g) (p'.tryCatch g')
  attempt : ∀ {α : Type} {p p' : Prog ω ρ ε α}, Rel α p p' → Rel (Except ε α) p.attempt p'.attempt

/-- A property of programs that every construct preserves. -/
structure Closed (P : (α : Type) → Prog ω ρ ε α → Prop) : Prop where
  pure : ∀ {α : Type} (a : α), P α (.pure a)
  throw : ∀ {α : Type} (e : ε), P α (.throw e)
  spin : ∀ {α : Type}, P α .spin
  bind : ∀ {α β : Type} {p : Prog ω ρ ε α} {g : α → Prog ω ρ ε β},
    P α p → (∀ a, P β (g a)) → P β (p >>= g)
  tryCatch : ∀ {α : Type} {p : Prog ω ρ ε α} {g : ε → Prog ω ρ ε α},
    P α p → (∀ e, P α (g e)) → P α (p.tryCatch g)
  attempt : ∀ {α : Type} {p : Prog ω ρ ε α}, P α p → P (Except ε α) p.attempt

/-- A closed property, as a relation of every program that has it to itself. -/
def Diagonal (P : (α : Type) → Prog ω ρ ε α → Prop) (α : Type) (p p' : Prog ω ρ ε α) : Prop :=
  p = p' ∧ P α p

/-- What is closed under the program's forms gives a congruence on the diagonal. -/
theorem Closed.congruence {P : (α : Type) → Prog ω ρ ε α → Prop} (hP : Closed P) :
    Congruence (Diagonal P) where
  pure a := ⟨rfl, hP.pure a⟩
  throw e := ⟨rfl, hP.throw e⟩
  spin := ⟨rfl, hP.spin⟩
  bind hp hg := by
    obtain ⟨rfl, hp⟩ := hp
    exact ⟨congrArg _ (funext fun a => (hg a).1), hP.bind hp fun a => (hg a).2⟩
  tryCatch hp hg := by
    obtain ⟨rfl, hp⟩ := hp
    exact ⟨congrArg _ (funext fun e => (hg e).1), hP.tryCatch hp fun e => (hg e).2⟩
  attempt hp := by
    obtain ⟨rfl, hp⟩ := hp
    exact ⟨rfl, hP.attempt hp⟩

/-- Keeping to a footprint that allows for loops is closed. -/
theorem closed_uses {F : Footprint ω} (hF : F.loops) :
    Closed fun α (p : Prog ω ρ ε α) => p.Uses F where
  pure _ := trivial
  throw _ := trivial
  spin := hF
  bind := Uses.bind
  tryCatch := Uses.tryCatch
  attempt := Uses.attempt

namespace Congruence

variable {Rel : (α : Type) → Prog ω ρ ε α → Prog ω ρ ε α → Prop} (hRel : Congruence Rel)
include hRel

/-- A result in hand is related to itself. -/
theorem ofExcept (x : Except ε α) : Rel α (.ofExcept x) (.ofExcept x) := by
  cases x with
  | ok a => exact hRel.pure a
  | error e => exact hRel.throw e

/-- A program all of whose operations are related to themselves is related to itself. -/
theorem of_uses {F : Footprint ω} {p : Prog ω ρ ε α} (hp : p.Uses F)
    (hops : ∀ o, F.ops o → Rel (ρ o) (perform o) (perform o)) : Rel α p p := by
  induction p with
  | pure a => exact hRel.pure a
  | throw e => exact hRel.throw e
  | spin => exact hRel.spin
  | op o k ih => exact hRel.bind (hops o hp.1) fun r => ih r (hp.2 r)

end Congruence

/-- The calls a program makes in a run keep to its footprint. -/
theorem calls_of_uses {F : Footprint ω} {p : Prog ω ρ ε α} (hp : p.Uses F) (h : Handler ω ρ σ)
    (s : σ) {calls : List (Call ω ρ)} (hcalls : ∀ c ∈ calls, F.ops c.1) :
    ∀ c ∈ (p.run h.traced (s, calls)).2.2, F.ops c.1 := by
  induction p generalizing s calls with
  | pure a => exact hcalls
  | throw e => exact hcalls
  | spin => exact hcalls
  | op o k ih =>
      refine ih (h o s).1 (hp.2 _) (h o s).2 fun c hc => ?_
      rcases List.mem_append.mp hc with hc | hc
      · exact hcalls c hc
      · rw [List.mem_singleton.mp hc]
        exact hp.1

/-! ### Operations put into a program -/

/-- The second program performs the operations of the first, and operations that have their answer
in `f`. -/
inductive Inserted (f : (o : ω) → Option (ρ o)) : {α : Type} → Prog ω ρ ε α → Prog ω ρ ε α → Prop
  | pure {α : Type} (a : α) : Inserted f (.pure a) (.pure a)
  | throw {α : Type} (e : ε) : Inserted f (.throw e : Prog ω ρ ε α) (.throw e)
  | spin {α : Type} : Inserted f (.spin : Prog ω ρ ε α) .spin
  | op {α : Type} {o : ω} {k k' : ρ o → Prog ω ρ ε α} (ho : f o = none)
      (hk : ∀ r, Inserted f (k r) (k' r)) : Inserted f (.op o k) (.op o k')
  | extra {α : Type} {o : ω} {r : ρ o} {p : Prog ω ρ ε α} {k' : ρ o → Prog ω ρ ε α}
      (ho : f o = some r) (hp : Inserted f p (k' r)) : Inserted f p (.op o k')

/-- The handler that gives these answers and leaves its state alone. -/
def Handler.answering (h : Handler ω ρ σ) (f : (o : ω) → Option (ρ o)) : Handler ω ρ σ :=
  fun o s =>
    match f o with
    | some r => (r, s)
    | none => h o s

variable {f : (o : ω) → Option (ρ o)}

/-- A call that is not answered goes to the handler. -/
theorem Handler.answering_none {o : ω} (ho : f o = none) (h : Handler ω ρ σ) (s : σ) :
    h.answering f o s = h o s := by
  rw [answering, ho]

/-- An answered call leaves the handler's state alone. -/
theorem Handler.answering_some {o : ω} {r : ρ o} (ho : f o = some r) (h : Handler ω ρ σ) (s : σ) :
    h.answering f o s = (r, s) := by
  rw [answering, ho]

/-- The calls of operations that have not been put in. -/
def ownCalls (f : (o : ω) → Option (ρ o)) (calls : List (Call ω ρ)) : List (Call ω ρ) :=
  calls.filter fun c => (f c.1).isNone

/-- **What has been put in makes no difference**: the same end, the same state, the same calls
besides. -/
theorem Inserted.run {p p' : Prog ω ρ ε α} (hp : Inserted f p p') (h : Handler ω ρ σ) (s : σ)
    {calls calls' : List (Call ω ρ)} (hcalls : ownCalls f calls' = calls) :
    (p'.run (h.answering f).traced (s, calls')).1 = (p.run h.traced (s, calls)).1 ∧
      (p'.run (h.answering f).traced (s, calls')).2.1 = (p.run h.traced (s, calls)).2.1 ∧
      ownCalls f (p'.run (h.answering f).traced (s, calls')).2.2 =
        (p.run h.traced (s, calls)).2.2 := by
  induction hp generalizing s calls calls' with
  | pure a => exact ⟨rfl, rfl, hcalls⟩
  | throw e => exact ⟨rfl, rfl, hcalls⟩
  | spin => exact ⟨rfl, rfl, hcalls⟩
  | @op o k k' ho _ ih =>
      have hstep : (h.answering f).traced o (s, calls') =
          ((h o s).1, (h o s).2, calls' ++ [⟨o, (h o s).1⟩]) := by
        unfold Handler.traced
        rw [Handler.answering_none ho]
      have hcall : ownCalls f [⟨o, (h o s).1⟩] = [⟨o, (h o s).1⟩] := by
        simp [ownCalls, ho]
      simp only [Prog.run, hstep]
      refine ih _ (h o s).2 ?_
      rw [ownCalls, List.filter_append]
      change ownCalls f calls' ++ ownCalls f [⟨o, (h o s).1⟩] = _
      rw [hcalls, hcall]
  | @extra o r p k' ho _ ih =>
      have hstep : (h.answering f).traced o (s, calls') = (r, s, calls' ++ [⟨o, r⟩]) := by
        unfold Handler.traced
        rw [Handler.answering_some ho]
      have hcall : ownCalls f [(⟨o, r⟩ : Call ω ρ)] = [] := by
        simp [ownCalls, ho]
      simp only [Prog.run, hstep]
      refine ih s ?_
      rw [ownCalls, List.filter_append]
      change ownCalls f calls' ++ ownCalls f [⟨o, r⟩] = _
      rw [hcalls, hcall, List.append_nil]

/-- Inserting calls is a congruence. -/
theorem inserted_congruence (f : (o : ω) → Option (ρ o)) :
    Congruence fun α (p p' : Prog ω ρ ε α) => Inserted f p p' where
  pure := .pure
  throw := .throw
  spin := .spin
  bind hp hg := by
    induction hp with
    | pure a => exact hg a
    | throw e => exact .throw e
    | spin => exact .spin
    | op ho _ ih => exact .op ho fun r => ih r
    | extra ho _ ih => exact .extra ho ih
  tryCatch hp hg := by
    induction hp with
    | pure a => exact .pure a
    | throw e => exact hg e
    | spin => exact .spin
    | op ho _ ih => exact .op ho fun r => ih r
    | extra ho _ ih => exact .extra ho ih
  attempt hp := by
    induction hp with
    | pure a => exact .pure (Except.ok a)
    | throw e => exact .pure (Except.error e)
    | spin => exact .spin
    | op ho _ ih => exact .op ho ih
    | extra ho _ ih => exact .extra ho ih

/-! ### States that answer alike -/

section Alike

variable {F : Footprint ω} {h : Handler ω ρ σ} {R : σ → σ → Prop}

/-- **A program cannot tell two states apart that answer its operations alike.** -/
theorem Uses.run_alike {p : Prog ω ρ ε α} (hp : p.Uses F)
    (hstep : ∀ o s s', F.ops o → R s s' → (h o s').1 = (h o s).1 ∧ R (h o s).2 (h o s').2)
    {s s' : σ} (hR : R s s') :
    (p.run h s').1 = (p.run h s).1 ∧ R (p.run h s).2 (p.run h s').2 := by
  induction p generalizing s s' with
  | pure a => exact ⟨rfl, hR⟩
  | throw e => exact ⟨rfl, hR⟩
  | spin => exact ⟨rfl, hR⟩
  | op o k ih =>
      obtain ⟨hanswer, hnext⟩ := hstep o s s' hp.1 hR
      simp only [run]
      rw [hanswer]
      exact ih (h o s).1 (hp.2 _) hnext

/-- What the operations of a program keep, its run keeps. -/
theorem Uses.run_keeps {p : Prog ω ρ ε α} (hp : p.Uses F) {P : σ → Prop}
    (hstep : ∀ o s, F.ops o → P s → P (h o s).2) {s : σ} (hs : P s) : P (p.run h s).2 := by
  induction p generalizing s with
  | pure a => exact hs
  | throw e => exact hs
  | spin => exact hs
  | op o k ih => exact ih (h o s).1 (hp.2 _) (hstep o s hp.1 hs)

end Alike

end Prog

namespace Scoped

variable {ω : Type} {ρ : ω → Type} {ε lam α β : Type}

/-- Code with locals is related when it is related whatever they are. -/
def Related (Rel : (α : Type) → Prog ω ρ ε α → Prog ω ρ ε α → Prop)
    (c c' : Scoped ω ρ ε lam α) : Prop := ∀ l, Rel (Except ε α × lam) (c l) (c' l)

variable {Rel : (α : Type) → Prog ω ρ ε α → Prog ω ρ ε α → Prop} (hRel : Prog.Congruence Rel)
include hRel

theorem related_pure (a : α) : Related Rel (pure a : Scoped ω ρ ε lam α) (pure a) :=
  fun _ => hRel.pure _

theorem related_throw (e : ε) : Related Rel (throw e : Scoped ω ρ ε lam α) (throw e) :=
  fun _ => hRel.pure _

theorem related_get : Related Rel (get : Scoped ω ρ ε lam lam) get := fun _ => hRel.pure _

theorem related_modify (g : lam → lam) :
    Related Rel (modify g : Scoped ω ρ ε lam Unit) (modify g) := fun _ => hRel.pure _

theorem related_spin : Related Rel (spin : Scoped ω ρ ε lam α) spin := fun _ => hRel.spin

/-- Related code in related contexts is related. -/
theorem Related.bind {c c' : Scoped ω ρ ε lam α} {g g' : α → Scoped ω ρ ε lam β}
    (hc : Related Rel c c') (hg : ∀ a, Related Rel (g a) (g' a)) :
    Related Rel (c >>= g) (c' >>= g') := by
  intro l
  refine hRel.bind (hc l) ?_
  intro h
  obtain ⟨out, l'⟩ := h
  cases out with
  | ok a => exact hg a l'
  | error e => exact hRel.pure _

/-- Related programs are related as scoped code. -/
theorem related_lift {p p' : Prog ω ρ ε α} (hp : Rel α p p') :
    Related Rel (lift p : Scoped ω ρ ε lam α) (lift p') :=
  fun _ => hRel.bind (hRel.attempt hp) fun _ => hRel.pure _

/-- Related code is related as an attempt. -/
theorem Related.attempt {c c' : Scoped ω ρ ε lam α} (hc : Related Rel c c') :
    Related Rel c.attempt c'.attempt :=
  fun l => hRel.bind (hc l) fun _ => hRel.pure _

/-- The same of code with locals. -/
theorem related_of_keeps {F : Prog.Footprint ω} {R : lam → lam → Prop} {c : Scoped ω ρ ε lam α}
    (hc : c.Keeps F R) (hops : ∀ o, F.ops o → Rel (ρ o) (.perform o) (.perform o)) :
    Related Rel c c :=
  fun l => hRel.of_uses (hc l).1 hops

end Scoped
