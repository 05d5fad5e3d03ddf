import NestBatch.Lib.Wp

/-!
# Mutable locals that survive an exception

A function that catches its own exceptions sees its local variables as they
were when the exception was thrown.  `Scoped lam` is the monad of such code: it
carries the locals `lam` beside the outcome, so that an exception does not
throw them away.  Programs without locals enter it by `lift`.

`Scoped.wp` is the weakest precondition of scoped code; its rules mirror those
of `Prog.wp`.
-/

/-- Code with mutable locals of type `lam`; exceptions are part of the result. -/
def Scoped (ω : Type) (ρ : ω → Type) (ε lam α : Type) : Type :=
  lam → Prog ω ρ ε (Except ε α × lam)

namespace Scoped

variable {ω : Type} {ρ : ω → Type} {ε lam α β σ : Type}

/-- What follows a step: the next one, or the exception passed on. -/
def andThen (f : α → Scoped ω ρ ε lam β) : Except ε α × lam → Prog ω ρ ε (Except ε β × lam)
  | (.ok a, l) => f a l
  | (.error e, l) => .pure (.error e, l)

instance : Monad (Scoped ω ρ ε lam) where
  pure a := fun l => .pure (.ok a, l)
  bind c f := fun l => c l >>= andThen f

/-- Throw, keeping the locals. -/
def throw (e : ε) : Scoped ω ρ ε lam α := fun l => .pure (.error e, l)

/-- Code without locals. -/
def lift (p : Prog ω ρ ε α) : Scoped ω ρ ε lam α :=
  fun l => p.attempt >>= fun out => .pure (out, l)

/-- Read the locals. -/
def get : Scoped ω ρ ε lam lam := fun l => .pure (.ok l, l)

/-- Change the locals. -/
def modify (f : lam → lam) : Scoped ω ρ ε lam Unit := fun l => .pure (.ok (), f l)

/-- Run scoped code and hand back its exception, if any, as a value. -/
def attempt (c : Scoped ω ρ ε lam α) : Scoped ω ρ ε lam (Except ε α) :=
  fun l => c l >>= fun out => .pure (.ok out.1, out.2)

/-- A loop whose fuel ran out. -/
def spin : Scoped ω ρ ε lam α := fun _ => .spin

/-- Sequencing is associative, with local variables too. -/
theorem bind_assoc {γ : Type} (c : Scoped ω ρ ε lam α) (f : α → Scoped ω ρ ε lam β)
    (g : β → Scoped ω ρ ε lam γ) : (c >>= f) >>= g = c >>= fun a => f a >>= g := by
  funext l
  change (c l >>= andThen f) >>= andThen g = c l >>= _
  rw [Prog.bind_assoc]
  congr 1
  funext out
  obtain ⟨out, l'⟩ := out
  cases out with
  | ok a => rfl
  | error e => rfl

/-- Code without locals in sequence. -/
theorem lift_bind (p : Prog ω ρ ε α) (f : α → Prog ω ρ ε β) :
    (lift (p >>= f) : Scoped ω ρ ε lam β) = lift p >>= fun a => lift (f a) := by
  funext l
  change (p >>= f).attempt >>= _ = (p.attempt >>= _) >>= _
  rw [Prog.bind_assoc]
  induction p with
  | pure a => rfl
  | throw e => rfl
  | spin => rfl
  | op o k ih =>
      change Prog.op o _ = Prog.op o _
      congr 1
      funext r
      exact ih r

/-- Catching the outcome of lifted code. -/
theorem attempt_lift (p : Prog ω ρ ε α) :
    (attempt (lift p) : Scoped ω ρ ε lam (Except ε α)) = lift p.attempt := by
  funext l
  change (p.attempt >>= _) >>= _ = p.attempt.attempt >>= _
  rw [Prog.bind_assoc]
  induction p with
  | pure a => rfl
  | throw e => rfl
  | spin => rfl
  | op o k ih =>
      change Prog.op o _ = Prog.op o _
      congr 1
      funext r
      exact ih r

/-- The postcondition of scoped code, seen from the program below it. -/
def post (Q : Except ε α → lam → σ → Prop) : Except ε (Except ε α × lam) → σ → Prop
  | .ok (out, l), s => Q out l s
  | .error _, _ => False

/-- Weakest precondition of scoped code. -/
def wp (L : Prog.Logic ω ρ σ) (c : Scoped ω ρ ε lam α) (Q : Except ε α → lam → σ → Prop)
    (l : lam) (s : σ) : Prop :=
  (c l).wp L (post Q) s

section Rules

variable {L : Prog.Logic ω ρ σ} {Q Q' : Except ε α → lam → σ → Prop} {l : lam} {s : σ}

@[simp] theorem wp_pure (a : α) :
    wp L (Pure.pure a : Scoped ω ρ ε lam α) Q l s ↔ Q (.ok a) l s := Iff.rfl

@[simp] theorem wp_throw (e : ε) :
    wp L (throw e : Scoped ω ρ ε lam α) Q l s ↔ Q (.error e) l s := Iff.rfl

@[simp] theorem wp_get {Q : Except ε lam → lam → σ → Prop} :
    wp L (get : Scoped ω ρ ε lam lam) Q l s ↔ Q (.ok l) l s := Iff.rfl

@[simp] theorem wp_modify (f : lam → lam) {Q : Except ε Unit → lam → σ → Prop} :
    wp L (modify f : Scoped ω ρ ε lam Unit) Q l s ↔ Q (.ok ()) (f l) s := Iff.rfl

@[simp] theorem wp_spin : wp L (spin : Scoped ω ρ ε lam α) Q l s ↔ L.loops := Iff.rfl

/-- What sequencing asks of the first part. -/
def afterwards (L : Prog.Logic ω ρ σ) (f : α → Scoped ω ρ ε lam β)
    (Q : Except ε β → lam → σ → Prop) : Except ε α → lam → σ → Prop
  | .ok a, l, s => wp L (f a) Q l s
  | .error e, l, s => Q (.error e) l s

@[simp] theorem afterwards_ok {f : α → Scoped ω ρ ε lam β} {Q : Except ε β → lam → σ → Prop}
    {a : α} : afterwards L f Q (.ok a) l s ↔ wp L (f a) Q l s := Iff.rfl

@[simp] theorem afterwards_error {f : α → Scoped ω ρ ε lam β} {Q : Except ε β → lam → σ → Prop}
    {e : ε} : afterwards L f Q (.error e) l s ↔ Q (.error e) l s := Iff.rfl

/-- A weaker postcondition is met as well. -/
theorem wp_mono {c : Scoped ω ρ ε lam α} (h : wp L c Q l s)
    (hQ : ∀ out l' s', Q out l' s' → Q' out l' s') : wp L c Q' l s := by
  refine Prog.wp_mono h ?_
  intro out s' hout
  cases out with
  | ok r => exact hQ _ _ _ hout
  | error e => exact hout

/-- **The rule of sequences**, with local variables. -/
theorem wp_bind {c : Scoped ω ρ ε lam α} {f : α → Scoped ω ρ ε lam β}
    {Q : Except ε β → lam → σ → Prop} :
    wp L (c >>= f) Q l s ↔ wp L c (afterwards L f Q) l s := by
  have h : wp L (c >>= f) Q l s ↔ (c l).wp L (Prog.afterwards L (andThen f) (post Q)) s :=
    Prog.wp_bind
  rw [h]
  constructor
  · intro hc
    refine Prog.wp_mono hc ?_
    intro out s' hout
    rcases out with e | ⟨e | a, l'⟩
    · exact hout
    · exact hout
    · exact hout
  · intro hc
    refine Prog.wp_mono hc ?_
    intro out s' hout
    rcases out with e | ⟨e | a, l'⟩
    · exact hout
    · exact hout
    · exact hout

/-- Sequencing, forwards. -/
theorem wp_seq {c : Scoped ω ρ ε lam α} {f : α → Scoped ω ρ ε lam β}
    {Q : Except ε β → lam → σ → Prop} {R : Except ε α → lam → σ → Prop} (hc : wp L c R l s)
    (hok : ∀ a l' s', R (.ok a) l' s' → wp L (f a) Q l' s')
    (herr : ∀ e l' s', R (.error e) l' s' → Q (.error e) l' s') : wp L (c >>= f) Q l s := by
  refine wp_bind.mpr (wp_mono hc ?_)
  intro out l' s' hR
  cases out with
  | ok a => exact hok a l' s' hR
  | error e => exact herr e l' s' hR

/-- What follows from the answers alone can be added in a logic that answers so. -/
theorem wp_and_answering {answers : (o : ω) → ρ o → Prop} {c : Scoped ω ρ ε lam α}
    {Q : Except ε α → lam → Unit → Prop} {Q' : Except ε α → lam → σ → Prop}
    (h : wp (Prog.answering answers) c Q l ())
    (hanswers : ∀ o s r s', L.trans o s r s' → answers o r) (h' : wp L c Q' l s) :
    wp L c (fun out l' s' => Q out l' () ∧ Q' out l' s') l s := by
  refine Prog.wp_mono (Prog.wp_and_answering h hanswers h') ?_
  intro out s' hout
  cases out with
  | error e => exact hout.1.elim
  | ok outcome => exact hout

/-- Code without locals leaves them alone. -/
theorem wp_lift {p : Prog ω ρ ε α} : wp L (lift p) Q l s ↔ p.wp L (fun out s' => Q out l s') s := by
  unfold wp lift
  rw [Prog.wp_bind, Prog.wp_attempt]
  rfl

/-- The rule for a caught outcome, with local variables. -/
theorem wp_attempt {c : Scoped ω ρ ε lam α} {Q : Except ε (Except ε α) → lam → σ → Prop} :
    wp L c.attempt Q l s ↔ wp L c (fun out l' s' => Q (.ok out) l' s') l s := by
  unfold wp attempt
  rw [Prog.wp_bind]
  constructor
  · intro hc
    refine Prog.wp_mono hc ?_
    intro outcome s' hout
    rcases outcome with e | ⟨out, l'⟩
    · exact hout
    · exact hout
  · intro hc
    refine Prog.wp_mono hc ?_
    intro outcome s' hout
    rcases outcome with e | ⟨out, l'⟩
    · exact hout.elim
    · exact hout

/-- Specifications in two logics make one in their product. -/
theorem wp_prod {γ : Type} {M : Prog.Logic ω ρ γ} {c : Scoped ω ρ ε lam α}
    {R : Except ε α → lam → γ → Prop} {t : γ} (hL : wp L c Q l s) (hM : wp M c R l t) :
    wp (L.prod M) c (fun out l' st => Q out l' st.1 ∧ R out l' st.2) l (s, t) := by
  refine Prog.wp_mono (Prog.wp_prod hL hM) ?_
  intro out st h
  cases out with
  | ok a => exact h
  | error e => exact h.1

end Rules

/-- `c` keeps to the footprint `F`, and its locals move along `R`. -/
def Keeps (F : Prog.Footprint ω) (R : lam → lam → Prop) (c : Scoped ω ρ ε lam α) : Prop :=
  ∀ l, (c l).Uses F ∧ (c l).Returns fun out => R l out.2

section Keeps

variable {F F' : Prog.Footprint ω} {R : lam → lam → Prop}

theorem keeps_pure (hR : ∀ l, R l l) (a : α) :
    Keeps F R (Pure.pure a : Scoped ω ρ ε lam α) := fun l => ⟨trivial, hR l⟩

theorem keeps_throw (hR : ∀ l, R l l) (e : ε) :
    Keeps F R (throw e : Scoped ω ρ ε lam α) := fun l => ⟨trivial, hR l⟩

theorem keeps_get (hR : ∀ l, R l l) : Keeps F R (get : Scoped ω ρ ε lam lam) :=
  fun l => ⟨trivial, hR l⟩

theorem keeps_modify {f : lam → lam} (hf : ∀ l, R l (f l)) :
    Keeps F R (modify f : Scoped ω ρ ε lam Unit) := fun l => ⟨trivial, hf l⟩

theorem keeps_spin (hF : F.loops) : Keeps F R (spin : Scoped ω ρ ε lam α) :=
  fun _ => ⟨hF, trivial⟩

/-- What both parts keep of the local variables, the sequence keeps. -/
theorem Keeps.bind {c : Scoped ω ρ ε lam α} {f : α → Scoped ω ρ ε lam β}
    (hR : ∀ l l' l'', R l l' → R l' l'' → R l l'')
    (hc : Keeps F R c) (hf : ∀ a, Keeps F R (f a)) : Keeps F R (c >>= f) := by
  intro l
  constructor
  · refine (hc l).1.bind ?_
    intro h
    obtain ⟨e | a, l'⟩ := h
    · trivial
    · exact (hf a l').1
  · refine (hc l).2.bind ?_
    intro h hl
    obtain ⟨e | a, l'⟩ := h
    · exact hl
    · exact ((hf a l').2).mono fun out hout => hR _ _ _ hl hout

/-- Lifted code leaves the local variables alone. -/
theorem Keeps.lift (hR : ∀ l, R l l) {p : Prog ω ρ ε α} (hp : p.Uses F) :
    Keeps F R (Scoped.lift p : Scoped ω ρ ε lam α) := by
  intro l
  refine ⟨hp.attempt.bind fun _ => trivial, ?_⟩
  exact (Prog.returns_attempt p).bind fun _ _ => hR l

theorem Keeps.attempt {c : Scoped ω ρ ε lam α} (hc : Keeps F R c) : Keeps F R c.attempt :=
  fun l => ⟨(hc l).1.bind fun _ => trivial, (hc l).2.bind fun _ hout => hout⟩

/-- A larger footprint and a larger relation. -/
theorem Keeps.mono {R' : lam → lam → Prop} {c : Scoped ω ρ ε lam α} (hc : Keeps F R c)
    (h : F ≤ F') (hR : ∀ l l', R l l' → R' l l') : Keeps F' R' c :=
  fun l => ⟨(hc l).1.mono h, (hc l).2.mono fun _ hout => hR _ _ hout⟩

/-- The frame rule of code without locals. -/
theorem wp_lift_of_uses {L : Prog.Logic ω ρ σ} {J : σ → Prop} {p : Prog ω ρ ε α} {l : lam}
    {s : σ} (hp : p.Uses F) (hframe : L.Frame F J) (hs : J s) :
    wp L (lift p) (fun _ l' s' => l' = l ∧ J s') l s := by
  refine wp_lift.mpr (Prog.wp_mono (Prog.wp_of_uses hp hframe hs) ?_)
  intro out s' h
  exact ⟨rfl, h⟩

/-- **The frame rule of scoped code.** -/
theorem wp_of_keeps {L : Prog.Logic ω ρ σ} {J : σ → Prop} {c : Scoped ω ρ ε lam α} {l : lam}
    {s : σ} (hc : Keeps F R c) (hframe : L.Frame F J) (hs : J s) :
    wp L c (fun _ l' s' => R l l' ∧ J s') l s := by
  have hreturns := (hc l).2
  have huses := (hc l).1
  refine Prog.wp_mono (Prog.wp_and (Prog.wp_of_uses huses hframe hs)
    (Prog.wp_of_returns huses hreturns hframe hs)) ?_
  intro out s' h
  obtain ⟨hJ, ⟨a, l'⟩, rfl, hR⟩ := h
  exact ⟨hR, hJ⟩

end Keeps

end Scoped
