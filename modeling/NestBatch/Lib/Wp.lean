import Mathlib.Logic.Relation
import NestBatch.Lib.Prog

/-!
# Weakest preconditions for operation trees

The meaning of the operations is a relation: `trans o s r s'` says that `o`,
performed in `s`, may answer `r` and leave `s'`.  A deterministic handler, an
arbitrary user function, a ghost automaton that only remembers where a program
stands, and a state under interference from others are all such relations, so
one calculus serves them all.

`wp L p Q s` says that every operation is performed in a state allowed by
`L.guard`, and that every run from `s` which ends does so in `Q`.  `L.loops`
decides what a loop out of fuel means: `True` gives partial correctness and
`False` total correctness.

The soundness theorems say what a reader wants to know: `wp_run` for the run
of a deterministic handler and `reaches_simulate` for every state in which a
program can be interrupted.
-/

namespace Prog

/-- Meaning of the operations and what is asked of each of them. -/
structure Logic (ω : Type) (ρ : ω → Type) (σ : Type) where
  /-- `trans o s r s'`: in `s`, the operation `o` may answer `r` and leave `s'`. -/
  trans : (o : ω) → σ → ρ o → σ → Prop
  /-- What must hold where an operation is performed. -/
  guard : ω → σ → Prop
  /-- What a loop out of fuel counts as. -/
  loops : Prop

variable {ω : Type} {ρ : ω → Type} {ε α β σ : Type}

/-- Weakest precondition of `p` for the postcondition `Q`. -/
def wp (L : Logic ω ρ σ) : Prog ω ρ ε α → (Except ε α → σ → Prop) → σ → Prop
  | .pure a, Q, s => Q (.ok a) s
  | .throw e, Q, s => Q (.error e) s
  | .spin, _, _ => L.loops
  | .op o k, Q, s => L.guard o s ∧ ∀ r s', L.trans o s r s' → wp L (k r) Q s'

section Rules

variable {L : Logic ω ρ σ} {Q Q' : Except ε α → σ → Prop} {s : σ}

@[simp] theorem wp_pure (a : α) : wp L (Prog.pure a : Prog ω ρ ε α) Q s ↔ Q (.ok a) s := Iff.rfl

@[simp] theorem wp_throw (e : ε) : wp L (Prog.throw e : Prog ω ρ ε α) Q s ↔ Q (.error e) s :=
  Iff.rfl

@[simp] theorem wp_spin : wp L (Prog.spin : Prog ω ρ ε α) Q s ↔ L.loops := Iff.rfl

/-- The rule for an operation: it is allowed, and what follows holds after every answer. -/
theorem wp_op {o : ω} {k : ρ o → Prog ω ρ ε α} :
    wp L (.op o k) Q s ↔ L.guard o s ∧ ∀ r s', L.trans o s r s' → wp L (k r) Q s' := Iff.rfl

@[simp] theorem wp_perform {o : ω} {Q : Except ε (ρ o) → σ → Prop} :
    wp L (perform o) Q s ↔ L.guard o s ∧ ∀ r s', L.trans o s r s' → Q (.ok r) s' := Iff.rfl

/-- The rule for a value or an error. -/
@[simp] theorem wp_ofExcept (x : Except ε α) : wp L (ofExcept x) Q s ↔ Q x s := by
  cases x <;> rfl

/-- What sequencing asks of the first part. -/
def afterwards (L : Logic ω ρ σ) (f : α → Prog ω ρ ε β) (Q : Except ε β → σ → Prop) :
    Except ε α → σ → Prop
  | .ok a, s => wp L (f a) Q s
  | .error e, s => Q (.error e) s

@[simp] theorem afterwards_ok {f : α → Prog ω ρ ε β} {Q : Except ε β → σ → Prop} {a : α} :
    afterwards L f Q (.ok a) s ↔ wp L (f a) Q s := Iff.rfl

@[simp] theorem afterwards_error {f : α → Prog ω ρ ε β} {Q : Except ε β → σ → Prop} {e : ε} :
    afterwards L f Q (.error e) s ↔ Q (.error e) s := Iff.rfl

/-- **The rule of sequences**: what follows is asked of the outcome of the first part. -/
theorem wp_bind {p : Prog ω ρ ε α} {f : α → Prog ω ρ ε β} {Q : Except ε β → σ → Prop} :
    wp L (p >>= f) Q s ↔ wp L p (afterwards L f Q) s := by
  induction p generalizing s with
  | pure a => rfl
  | throw e => rfl
  | spin => rfl
  | op o k ih =>
      simp only [op_bind, wp_op]
      exact and_congr_right fun _ => forall_congr' fun r => forall_congr' fun s' =>
        imp_congr_right fun _ => ih r

/-- What `try`/`catch` asks of the guarded part. -/
def recovering (L : Logic ω ρ σ) (h : ε → Prog ω ρ ε α) (Q : Except ε α → σ → Prop) :
    Except ε α → σ → Prop
  | .ok a, s => Q (.ok a) s
  | .error e, s => wp L (h e) Q s

@[simp] theorem recovering_ok {h : ε → Prog ω ρ ε α} {a : α} :
    recovering L h Q (.ok a) s ↔ Q (.ok a) s := Iff.rfl

@[simp] theorem recovering_error {h : ε → Prog ω ρ ε α} {e : ε} :
    recovering L h Q (.error e) s ↔ wp L (h e) Q s := Iff.rfl

/-- **The rule of handlers**: the handler answers for the error. -/
theorem wp_tryCatch {p : Prog ω ρ ε α} {h : ε → Prog ω ρ ε α} :
    wp L (p.tryCatch h) Q s ↔ wp L p (recovering L h Q) s := by
  induction p generalizing s with
  | pure a => rfl
  | throw e => rfl
  | spin => rfl
  | op o k ih =>
      exact and_congr_right fun _ => forall_congr' fun r => forall_congr' fun s' =>
        imp_congr_right fun _ => ih r

/-- The rule for a caught outcome. -/
theorem wp_attempt {p : Prog ω ρ ε α} {Q : Except ε (Except ε α) → σ → Prop} :
    wp L p.attempt Q s ↔ wp L p (fun out s' => Q (.ok out) s') s := by
  induction p generalizing s with
  | pure a => rfl
  | throw e => rfl
  | spin => rfl
  | op o k ih =>
      exact and_congr_right fun _ => forall_congr' fun r => forall_congr' fun s' =>
        imp_congr_right fun _ => ih r

/-- **Consequence.** -/
theorem wp_mono {p : Prog ω ρ ε α} (h : wp L p Q s) (hQ : ∀ out s', Q out s' → Q' out s') :
    wp L p Q' s := by
  induction p generalizing s with
  | pure a => exact hQ _ _ h
  | throw e => exact hQ _ _ h
  | spin => exact h
  | op o k ih => exact ⟨h.1, fun r s' ht => ih r (h.2 r s' ht)⟩

/-- Sequencing, forwards: a specification of the first part and one of the rest. -/
theorem wp_seq {p : Prog ω ρ ε α} {f : α → Prog ω ρ ε β} {Q : Except ε β → σ → Prop}
    {R : Except ε α → σ → Prop} (hp : wp L p R s)
    (hok : ∀ a s', R (.ok a) s' → wp L (f a) Q s')
    (herr : ∀ e s', R (.error e) s' → Q (.error e) s') : wp L (p >>= f) Q s := by
  refine wp_bind.mpr (wp_mono hp ?_)
  intro out s' hR
  cases out with
  | ok a => exact hok a s' hR
  | error e => exact herr e s' hR

/-- Two specifications of one program hold together. -/
theorem wp_and {p : Prog ω ρ ε α} (h : wp L p Q s) (h' : wp L p Q' s) :
    wp L p (fun out s' => Q out s' ∧ Q' out s') s := by
  induction p generalizing s with
  | pure a => exact ⟨h, h'⟩
  | throw e => exact ⟨h, h'⟩
  | spin => exact h
  | op o k ih => exact ⟨h.1, fun r s' ht => ih r (h.2 r s' ht) (h'.2 r s' ht)⟩

/-- The operations of `F` are allowed wherever `J` holds, and they keep `J`. -/
structure Logic.Frame (L : Logic ω ρ σ) (F : Footprint ω) (J : σ → Prop) : Prop where
  guard : ∀ o s, F.ops o → J s → L.guard o s
  keep : ∀ o s r s', F.ops o → J s → L.trans o s r s' → J s'
  loops : F.loops → L.loops

/-- What is kept of two kinds is kept of both together. -/
theorem Logic.Frame.and {F : Footprint ω} {J J' : σ → Prop} (h : L.Frame F J) (h' : L.Frame F J') :
    L.Frame F fun s => J s ∧ J' s where
  guard o s ho hs := h.guard o s ho hs.1
  keep o s r s' ho hs ht := ⟨h.keep o s r s' ho hs.1 ht, h'.keep o s r s' ho hs.2 ht⟩
  loops := h.loops

/-- What is said of no state in particular can be added. -/
theorem Logic.Frame.and_left {F : Footprint ω} {J : σ → Prop} (h : L.Frame F J) (c : Prop) :
    L.Frame F fun s => c ∧ J s where
  guard o s ho hs := h.guard o s ho hs.2
  keep o s r s' ho hs ht := ⟨hs.1, h.keep o s r s' ho hs.2 ht⟩
  loops := h.loops

/-- **The frame rule.**  A program that performs only operations which are
allowed wherever `J` holds and which keep `J` keeps `J`. -/
theorem wp_of_uses {F : Footprint ω} {J : σ → Prop} {p : Prog ω ρ ε α} (hp : Uses F p)
    (hframe : L.Frame F J) (hs : J s) : wp L p (fun _ s' => J s') s := by
  induction p generalizing s with
  | pure a => exact hs
  | throw e => exact hs
  | spin => exact hframe.loops hp
  | op o k ih =>
      refine ⟨hframe.guard o s hp.1 hs, ?_⟩
      intro r s' ht
      exact ih r (hp.2 r) (hframe.keep o s r s' hp.1 hs ht)

/-- The logic for the operations of a footprint alone. -/
def Logic.within (L : Logic ω ρ σ) (F : Footprint ω) : Logic ω ρ σ :=
  { L with guard := fun o s => F.ops o ∧ L.guard o s }

/-- A program that keeps to a footprint meets its specification within it. -/
theorem wp_within {F : Footprint ω} {p : Prog ω ρ ε α} (hp : Uses F p) (h : wp L p Q s) :
    wp (L.within F) p Q s := by
  induction p generalizing s with
  | pure a => exact h
  | throw e => exact h
  | spin => exact h
  | op o k ih => exact ⟨⟨hp.1, h.1⟩, fun r s' ht => ih r (hp.2 r) (h.2 r s' ht)⟩

/-- A program that never throws ends in a value, wherever its frame lets it run. -/
theorem wp_of_returns {F : Footprint ω} {J : σ → Prop} {R : α → Prop} {p : Prog ω ρ ε α}
    (hp : Uses F p) (hret : Returns R p) (hframe : L.Frame F J) (hs : J s) :
    wp L p (fun out _ => ∃ a, out = .ok a ∧ R a) s := by
  induction p generalizing s with
  | pure a => exact ⟨a, rfl, hret⟩
  | throw e => exact hret.elim
  | spin => exact hframe.loops hp
  | op o k ih =>
      refine ⟨hframe.guard o s hp.1 hs, ?_⟩
      intro r s' ht
      exact ih r (hp.2 r) (hret r) (hframe.keep o s r s' hp.1 hs ht)

end Rules

/-! ### What an outcome owes to the answers alone -/

section Answering

variable {L : Logic ω ρ σ} {answers : (o : ω) → ρ o → Prop} {Q : Except ε α → Unit → Prop}
  {R : Except ε α → σ → Prop} {s : σ}

/-- The logic without a state: operations may answer as `answers` says. -/
def answering (answers : (o : ω) → ρ o → Prop) : Logic ω ρ Unit where
  trans o _ r _ := answers o r
  guard _ _ := True
  loops := True

/-- What follows from the answers alone can be added in a logic that answers so. -/
theorem wp_and_answering {p : Prog ω ρ ε α} (h : wp (answering answers) p Q ())
    (hanswers : ∀ o s r s', L.trans o s r s' → answers o r) (h' : wp L p R s) :
    wp L p (fun out s' => Q out () ∧ R out s') s := by
  induction p generalizing s with
  | pure a => exact ⟨h, h'⟩
  | throw e => exact ⟨h, h'⟩
  | spin => exact h'
  | op o k ih =>
      refine ⟨h'.1, ?_⟩
      intro r s' ht
      exact ih r (h.2 r () (hanswers o s r s' ht)) (h'.2 r s' ht)

end Answering

/-! ### Total correctness -/

section Total

variable {L : Logic ω ρ σ} {Q Q' : Except ε α → σ → Prop} {s : σ}

/-- The logic in which a loop out of fuel is a failure. -/
def Logic.total (L : Logic ω ρ σ) : Logic ω ρ σ := { L with loops := False }

/-- A frame of code that has no loops. -/
theorem Logic.Frame.total {F : Footprint ω} {J : σ → Prop} (h : L.Frame F J) (hF : ¬ F.loops) :
    L.total.Frame F J where
  guard := h.guard
  keep := h.keep
  loops hloops := hF hloops

/-- What a program does if it ends, and that it ends. -/
theorem wp_total_and {p : Prog ω ρ ε α} (h : wp L.total p Q s) (h' : wp L p Q' s) :
    wp L.total p (fun out s' => Q out s' ∧ Q' out s') s := by
  induction p generalizing s with
  | pure a => exact ⟨h, h'⟩
  | throw e => exact ⟨h, h'⟩
  | spin => exact h
  | op o k ih => exact ⟨h.1, fun r s' ht => ih r (h.2 r s' ht) (h'.2 r s' ht)⟩

end Total

/-! ### Two logics side by side -/

section Prod

variable {γ : Type}

/-- Both logics at once, each on its own half of the state. -/
def Logic.prod (L : Logic ω ρ σ) (M : Logic ω ρ γ) : Logic ω ρ (σ × γ) where
  trans o s r s' := L.trans o s.1 r s'.1 ∧ M.trans o s.2 r s'.2
  guard o s := L.guard o s.1 ∧ M.guard o s.2
  loops := L.loops ∧ M.loops

/-- Specifications in two logics make one in their product. -/
theorem wp_prod {L : Logic ω ρ σ} {M : Logic ω ρ γ} {p : Prog ω ρ ε α}
    {Q : Except ε α → σ → Prop} {R : Except ε α → γ → Prop} {s : σ} {t : γ}
    (hL : wp L p Q s) (hM : wp M p R t) :
    wp (L.prod M) p (fun out st => Q out st.1 ∧ R out st.2) (s, t) := by
  induction p generalizing s t with
  | pure a => exact ⟨hL, hM⟩
  | throw e => exact ⟨hL, hM⟩
  | spin => exact ⟨hL, hM⟩
  | op o k ih =>
      refine ⟨⟨hL.1, hM.1⟩, ?_⟩
      intro r st' ht
      exact ih r (hL.2 r st'.1 ht.1) (hM.2 r st'.2 ht.2)

/-- Frames of two logics are one of both side by side. -/
theorem Logic.Frame.prod {L : Logic ω ρ σ} {M : Logic ω ρ γ} {F : Footprint ω} {J : σ → Prop}
    {K : γ → Prop} (hL : L.Frame F J) (hM : M.Frame F K) :
    (L.prod M).Frame F (fun st => J st.1 ∧ K st.2) where
  guard o st ho h := ⟨hL.guard o st.1 ho h.1, hM.guard o st.2 ho h.2⟩
  keep o st r st' ho h ht := ⟨hL.keep o st.1 r st'.1 ho h.1 ht.1,
    hM.keep o st.2 r st'.2 ho h.2 ht.2⟩
  loops h := ⟨hL.loops h, hM.loops h⟩

end Prod

/-- The relation of a deterministic handler. -/
def Handler.trans (h : Handler ω ρ σ) (o : ω) (s : σ) (r : ρ o) (s' : σ) : Prop :=
  h o s = (r, s')

/-- The logic of a deterministic handler, partial correctness. -/
def Handler.logic (h : Handler ω ρ σ) (guard : ω → σ → Prop) : Logic ω ρ σ :=
  { trans := h.trans, guard := guard, loops := True }

/-- **Soundness for runs.**  A run that ends does so in the postcondition. -/
theorem wp_run {h : Handler ω ρ σ} {guard : ω → σ → Prop} {p : Prog ω ρ ε α}
    {Q : Except ε α → σ → Prop} {s : σ} (hp : wp (h.logic guard) p Q s) :
    match (p.run h s).1 with
    | .returned a => Q (.ok a) (p.run h s).2
    | .threw e => Q (.error e) (p.run h s).2
    | .stuck => True := by
  induction p generalizing s with
  | pure a => exact hp
  | throw e => exact hp
  | spin => trivial
  | op o k ih => exact ih (h o s).1 (hp.2 _ _ rfl)

/-- The outcome of a run that ended. -/
def Outcome.ended : Except ε α → Outcome ε α
  | .ok a => .returned a
  | .error e => .threw e

/-- A program does what its run does. -/
theorem wp_self {h : Handler ω ρ σ} {guard : ω → σ → Prop} (hguard : ∀ o s, guard o s)
    (p : Prog ω ρ ε α) (s : σ) :
    wp (h.logic guard) p (fun out s' => p.run h s = (.ended out, s')) s := by
  induction p generalizing s with
  | pure a => rfl
  | throw e => rfl
  | spin => trivial
  | op o k ih =>
      refine ⟨hguard o s, ?_⟩
      intro r s' ht
      have hr : (h o s).1 = r := congrArg Prod.fst ht
      have hs' : (h o s).2 = s' := congrArg Prod.snd ht
      subst hr hs'
      exact ih (h o s).1 (h o s).2

/-- What a program does to the state it does with its calls written down. -/
theorem wp_traced {h : Handler ω ρ σ} {guard : ω → σ → Prop}
    {guard' : ω → σ × List (Call ω ρ) → Prop} (hguard : ∀ o s, guard' o s) {p : Prog ω ρ ε α}
    {Q : Except ε α → σ → Prop} {s : σ × List (Call ω ρ)} (hp : wp (h.logic guard) p Q s.1) :
    wp (h.traced.logic guard') p (fun out s' => Q out s'.1) s := by
  induction p generalizing s with
  | pure a => exact hp
  | throw e => exact hp
  | spin => trivial
  | op o k ih =>
      refine ⟨hguard o s, ?_⟩
      intro r s' ht
      have hr : (h o s.1).1 = r := congrArg Prod.fst ht
      have hs' : ((h o s.1).2, s.2 ++ [⟨o, (h o s.1).1⟩]) = s' := congrArg Prod.snd ht
      subst hr hs'
      exact ih (h o s.1).1 (hp.2 _ _ rfl)

/-- **Soundness for runs**, total correctness: the run ends, in the postcondition. -/
theorem wp_run_total {h : Handler ω ρ σ} {guard : ω → σ → Prop} {p : Prog ω ρ ε α}
    {Q : Except ε α → σ → Prop} {s : σ} (hp : wp (h.logic guard).total p Q s) :
    ∃ out, (p.run h s).1 = .ended out ∧ Q out (p.run h s).2 := by
  induction p generalizing s with
  | pure a => exact ⟨.ok a, rfl, hp⟩
  | throw e => exact ⟨.error e, rfl, hp⟩
  | spin => exact hp.elim
  | op o k ih => exact ih (h o s).1 (hp.2 _ _ rfl)

/-- One operation of a program. -/
inductive Step (trans : (o : ω) → σ → ρ o → σ → Prop) :
    Prog ω ρ ε α × σ → Prog ω ρ ε α × σ → Prop
  | act {o : ω} {k : ρ o → Prog ω ρ ε α} {s s' : σ} {r : ρ o} (ht : trans o s r s') :
      Step trans (.op o k, s) (k r, s')

/-- What a program and its state can come to, operation by operation. -/
def Reaches (trans : (o : ω) → σ → ρ o → σ → Prop) :
    Prog ω ρ ε α × σ → Prog ω ρ ε α × σ → Prop :=
  Relation.ReflTransGen (Step trans)

theorem Reaches.mono {trans trans' : (o : ω) → σ → ρ o → σ → Prop} {c c' : Prog ω ρ ε α × σ}
    (h : Reaches trans c c') (hle : ∀ o s r s', trans o s r s' → trans' o s r s') :
    Reaches trans' c c' := by
  induction h with
  | refl => exact .refl
  | tail _ hstep ih =>
      cases hstep with
      | act ht => exact ih.tail (.act (hle _ _ _ _ ht))

/-- **The frame rule for interrupted runs.** -/
theorem reaches_of_uses {L : Logic ω ρ σ} {F : Footprint ω} {J : σ → Prop}
    {c c' : Prog ω ρ ε α × σ} (h : Reaches L.trans c c') (hframe : L.Frame F J)
    (hp : Uses F c.1) (hs : J c.2) : Uses F c'.1 ∧ J c'.2 := by
  induction h with
  | refl => exact ⟨hp, hs⟩
  | tail _ hstep ih =>
      obtain ⟨hp₁, hs₁⟩ := ih
      cases hstep with
      | act ht => exact ⟨hp₁.2 _, hframe.keep _ _ _ _ hp₁.1 hs₁ ht⟩

/-- One side condition of a simulation: whatever the concrete operation does
where the abstract one is allowed, the abstract one can follow. -/
def Follows {γ : Type} (L : Logic ω ρ γ) (trans : (o : ω) → σ → ρ o → σ → Prop)
    (Rel : σ → γ → Prop) : Prop :=
  ∀ o s r s' g, Rel s g → L.guard o g → trans o s r s' → ∃ g', L.trans o g r g' ∧ Rel s' g'

/-- **Simulation, interrupted runs.**  A program specified over an abstract state
keeps concrete and abstract state related wherever it is interrupted, and the
specification still holds of what is left of it. -/
theorem reaches_simulate {γ : Type} {L : Logic ω ρ γ} {Q : Except ε α → γ → Prop}
    {trans : (o : ω) → σ → ρ o → σ → Prop} {Rel : σ → γ → Prop} (hfollow : Follows L trans Rel)
    {c c' : Prog ω ρ ε α × σ} (h : Reaches trans c c') {g : γ} (hp : wp L c.1 Q g)
    (hrel : Rel c.2 g) : ∃ g', Rel c'.2 g' ∧ wp L c'.1 Q g' := by
  induction h with
  | refl => exact ⟨g, hrel, hp⟩
  | tail _ hstep ih =>
      obtain ⟨g₁, hrel₁, hp₁⟩ := ih
      cases hstep with
      | act ht =>
          obtain ⟨g', ht', hrel'⟩ := hfollow _ _ _ _ _ hrel₁ hp₁.1 ht
          exact ⟨g', hrel', hp₁.2 _ _ ht'⟩

/-- **Simulation.**  A specification over an abstract state carries over to
every concrete state it is related to. -/
theorem wp_simulate {γ : Type} {L : Logic ω ρ γ} {L' : Logic ω ρ σ} {Q : Except ε α → γ → Prop}
    {Rel : σ → γ → Prop} {p : Prog ω ρ ε α} {s : σ} {g : γ}
    (hguard : ∀ o s g, Rel s g → L.guard o g → L'.guard o s)
    (hfollow : Follows L L'.trans Rel) (hloops : L.loops → L'.loops)
    (hp : wp L p Q g) (hrel : Rel s g) :
    wp L' p (fun out s' => ∃ g', Rel s' g' ∧ Q out g') s := by
  induction p generalizing s g with
  | pure a => exact ⟨g, hrel, hp⟩
  | throw e => exact ⟨g, hrel, hp⟩
  | spin => exact hloops hp
  | op o k ih =>
      refine ⟨hguard o s g hrel hp.1, ?_⟩
      intro r s' ht
      obtain ⟨g', ht', hrel'⟩ := hfollow o s r s' g hrel hp.1 ht
      exact ih r (hp.2 r g' ht') hrel'

/-- A run is a way to reach its end. -/
theorem reaches_run {h : Handler ω ρ σ} {p : Prog ω ρ ε α} {s : σ} :
    ∃ p', Reaches h.trans (p, s) (p', (p.run h s).2) := by
  induction p generalizing s with
  | pure a => exact ⟨_, .refl⟩
  | throw e => exact ⟨_, .refl⟩
  | spin => exact ⟨_, .refl⟩
  | op o k ih =>
      obtain ⟨p', hp'⟩ := ih (h o s).1 (s := (h o s).2)
      exact ⟨p', .head (.act rfl) hp'⟩

/-- An operation that is to be performed next, what follows it, and the state by then. -/
structure Pending (ω : Type) (ρ : ω → Type) (ε α σ : Type) where
  op : ω
  rest : ρ op → Prog ω ρ ε α
  state : σ

/-- What a run goes on with once the operation has been performed. -/
def Pending.resume (h : Handler ω ρ σ) (c : Pending ω ρ ε α σ) : Prog ω ρ ε α × σ :=
  (c.rest (h c.op c.state).1, (h c.op c.state).2)

/-- A run up to the first operation of some kind. -/
def upTo (h : Handler ω ρ σ) (P : ω → Bool) : Prog ω ρ ε α → σ → Option (Pending ω ρ ε α σ)
  | .op o k, s => if P o then some ⟨o, k, s⟩ else upTo h P (k (h o s).1) (h o s).2
  | _, _ => none

/-- A run up to an operation has reached it. -/
theorem reaches_upTo {h : Handler ω ρ σ} {P : ω → Bool} {p : Prog ω ρ ε α} {s : σ}
    {c : Pending ω ρ ε α σ} (hup : upTo h P p s = some c) :
    Reaches h.trans (p, s) (.op c.op c.rest, c.state) ∧ P c.op = true := by
  induction p generalizing s with
  | op o k ih =>
      unfold upTo at hup
      split at hup
      · next hhere =>
          obtain rfl := Option.some.inj hup
          exact ⟨.refl, hhere⟩
      · obtain ⟨hreach, hop⟩ := ih _ hup
        exact ⟨.head (.act rfl) hreach, hop⟩
  | _ => cases hup

/-- Whether each operation of a run meets a condition, in the state where it is performed. -/
def runMeets (h : Handler ω ρ σ) (P : (o : ω) → σ → Prop) [∀ o s, Decidable (P o s)] :
    Prog ω ρ ε α → σ → Bool
  | .op o k, s => decide (P o s) && runMeets h P (k (h o s).1) (h o s).2
  | _, _ => true

/-- A run that meets a condition comes to its end by steps that do. -/
theorem reaches_of_runMeets {h : Handler ω ρ σ} {P : (o : ω) → σ → Prop}
    [∀ o s, Decidable (P o s)] {p : Prog ω ρ ε α} {s : σ} {out : Except ε α}
    (hmeets : runMeets h P p s = true) (hended : (p.run h s).1 = .ended out) :
    Reaches (fun o s r s' => h o s = (r, s') ∧ P o s) (p, s) (.ofExcept out, (p.run h s).2) := by
  induction p generalizing s with
  | pure a =>
      cases out with
      | error => cases hended
      | ok b =>
          cases hended
          exact .refl
  | throw e =>
      cases out with
      | ok => cases hended
      | error b =>
          cases hended
          exact .refl
  | spin => cases out <;> cases hended
  | op o k ih =>
      rw [runMeets, Bool.and_eq_true, decide_eq_true_iff] at hmeets
      exact .head (.act ⟨rfl, hmeets.1⟩) (ih (h o s).1 hmeets.2 hended)

end Prog
