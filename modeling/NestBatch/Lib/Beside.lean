import NestBatch.Lib.Sessions

/-!
# A reader beside a running site

A program of its own reads the shared state of a site, and between two of its reads
anything may happen there.  All that it can count on is what every happening keeps
to: an invariant of the site, and a relation from any state to every later one.  Its
specification is written in a logic that knows no more than that (`relying`), and
holds of it wherever it is interrupted (`beside_keeps`).
-/

namespace Prog

/-- A site, and what is left of a program beside it. -/
structure Beside (κ ω : Type) (ρ : ω → Type) (ε α β σ : Type) where
  site : Site κ ω ρ ε α σ
  rest : Prog ω ρ ε β

/-- The program takes its next step, or something happens at the site. -/
inductive Move (κ : Type)
  | acts
  | happens (happening : Happening κ)
  deriving DecidableEq, Repr

variable {κ ω : Type} {ρ : ω → Type} {ε α β σ : Type}

/-- The logic of a reader: each answer is read off some state `R` away from the last one. -/
def relying (h : Handler ω ρ σ) (J : σ → Prop) (R : σ → σ → Prop) : Logic ω ρ σ where
  trans o s r s' := R s s' ∧ J s' ∧ r = (h o s').1
  guard o _ := ∀ s, (h o s).2 = s
  loops := True

namespace Service

variable (S : Service κ ω ρ ε α σ)

def besideStep (b : Beside κ ω ρ ε α β σ) : Move κ → Option (Beside κ ω ρ ε α β σ)
  | .acts =>
      match b.rest with
      | .op o k => some
          { site := { b.site with shared := (S.handler o b.site.shared).2 }
            rest := k (S.handler o b.site.shared).1 }
      | _ => none
  | .happens happening => (S.step b.site happening).map fun site => { b with site := site }

/-- The site and the program as one machine. -/
def beside : Machine (Beside κ ω ρ ε α β σ) (Move κ) := ⟨S.besideStep⟩

/-- What every happening at a site keeps to. -/
structure Evolves (I : Site κ ω ρ ε α σ → Prop) (J : σ → Prop) (R : σ → σ → Prop) : Prop where
  refl : ∀ s, R s s
  trans : ∀ s s' s'', R s s' → R s' s'' → R s s''
  shared : ∀ site, I site → J site.shared
  step : ∀ site happening site', I site → S.step site happening = some site' →
    I site' ∧ R site.shared site'.shared

variable {S} {I : Site κ ω ρ ε α σ → Prop} {J : σ → Prop} {R : σ → σ → Prop}
  {site site' : Site κ ω ρ ε α σ}

/-- Along every run the invariant is kept and the shared states are related. -/
theorem Evolves.run (h : S.Evolves I J R) (hI : I site) {happenings : List (Happening κ)}
    (hrun : S.machine.run site happenings = some site') :
    I site' ∧ R site.shared site'.shared :=
  Machine.run_keeps (P := fun t => I t ∧ R site.shared t.shared)
    (fun t happening t' ht hstep => ⟨(h.step t happening t' ht.1 hstep).1,
      h.trans _ _ _ ht.2 (h.step t happening t' ht.1 hstep).2⟩) ⟨hI, h.refl _⟩ hrun

/-- A reader, at some time: what is left of it meets its specification from where it has read. -/
def Reading (S : Service κ ω ρ ε α σ) (I : Site κ ω ρ ε α σ → Prop) (J : σ → Prop)
    (R : σ → σ → Prop) (Q : Except ε β → σ → Prop) (s₀ : σ) (b : Beside κ ω ρ ε α β σ) : Prop :=
  I b.site ∧ ∃ s, J s ∧ R s₀ s ∧ R s b.site.shared ∧ b.rest.wp (relying S.handler J R) Q s

variable {Q : Except ε β → σ → Prop} {s₀ : σ} {b b' : Beside κ ω ρ ε α β σ}

/-- A reading beside the site stays one by every move. -/
theorem Evolves.besideStep (h : S.Evolves I J R) {move : Move κ} (hb : Reading S I J R Q s₀ b)
    (hstep : S.beside.step b move = some b') : Reading S I J R Q s₀ b' := by
  obtain ⟨hI, s, hJ, hs₀, hs, hwp⟩ := hb
  cases move with
  | acts =>
      obtain ⟨site, rest⟩ := b
      cases rest with
      | op o k =>
          obtain ⟨hreads, hrest⟩ := hwp
          have hsame : (S.handler o site.shared).2 = site.shared := hreads site.shared
          cases hstep
          refine ⟨?_, site.shared, h.shared site hI, h.trans _ _ _ hs₀ hs, ?_, ?_⟩
          · simp only [hsame]
            exact hI
          · simp only [hsame]
            exact h.refl _
          · exact hrest _ _ ⟨hs, h.shared site hI, rfl⟩
      | pure a => cases hstep
      | throw e => cases hstep
      | spin => cases hstep
  | happens happening =>
      obtain ⟨site, hsite, rfl⟩ := Option.map_eq_some_iff.mp hstep
      obtain ⟨hI', hR⟩ := h.step b.site happening site hI hsite
      exact ⟨hI', s, hJ, hs₀, h.trans _ _ _ hs hR, hwp⟩

/-- **The rule of readers**: wherever a reader is interrupted, what is left of it meets its
specification, and when it has ended, so does its outcome. -/
theorem Evolves.beside_keeps (h : S.Evolves I J R) {moves : List (Move κ)} (hI : I b.site)
    (hwp : b.rest.wp (relying S.handler J R) Q b.site.shared)
    (hrun : S.beside.run b moves = some b') : Reading S I J R Q b.site.shared b' :=
  Machine.run_keeps (fun _ _ _ hb hstep => h.besideStep hb hstep)
    ⟨hI, b.site.shared, h.shared _ hI, h.refl _, h.refl _, hwp⟩ hrun

end Service

end Prog
