import NestBatch.Lib.Machine
import NestBatch.Lib.Wp

/-!
# Programs that come in over time

A service answers requests by programs over one shared state.  A request can come
in at any time, and the programs that are under way perform their operations one
at a time and in any order; one that is never given another turn has died.  Every
session keeps the log of its calls, so that what its program will still do can be
told from what it has been told.

Two rules go with it.  What the operations and the arrivals keep of the shared
state, a run keeps; and what a logic over logs says of every program that can come
in, holds of every session at any time (`Service.run_keeps`).
-/

namespace Prog

/-- A program that has come in: what it is for, the calls it has made, and what is left of it. -/
structure Session (κ ω : Type) (ρ : ω → Type) (ε α : Type) where
  request : κ
  calls : List (Call ω ρ)
  rest : Prog ω ρ ε α

/-- A shared state, and the sessions in the order in which they have come in. -/
structure Site (κ ω : Type) (ρ : ω → Type) (ε α σ : Type) where
  shared : σ
  sessions : List (Session κ ω ρ ε α)

/-- What can happen at a site. -/
inductive Happening (κ : Type)
  | come (request : κ)
  | act (n : Nat)
  deriving DecidableEq, Repr

/-- The program for each request, which requests can come in, and the meaning of the operations. -/
structure Service (κ ω : Type) (ρ : ω → Type) (ε α σ : Type) where
  code : κ → Prog ω ρ ε α
  arrive : κ → σ → Option σ
  handler : Handler ω ρ σ

variable {κ ω : Type} {ρ : ω → Type} {ε α σ : Type}

namespace Session

/-- The next operation of a session, with its answer; none when its program is over. -/
def advance (h : Handler ω ρ σ) (s : σ) :
    Session κ ω ρ ε α → Option (Session κ ω ρ ε α × σ)
  | ⟨request, calls, .op o k⟩ =>
      some (⟨request, calls ++ [⟨o, (h o s).1⟩], k (h o s).1⟩, (h o s).2)
  | _ => none

/-- The program has returned or thrown. -/
def ended (session : Session κ ω ρ ε α) : Bool :=
  match session.rest with
  | .pure _ => true
  | .throw _ => true
  | _ => false

theorem advance_eq_some {h : Handler ω ρ σ} {s : σ} {session : Session κ ω ρ ε α}
    {next : Session κ ω ρ ε α × σ} (hnext : session.advance h s = some next) :
    ∃ o k, session.rest = .op o k ∧ next = (⟨session.request,
      session.calls ++ [⟨o, (h o s).1⟩], k (h o s).1⟩, (h o s).2) := by
  obtain ⟨request, calls, rest⟩ := session
  cases rest with
  | op o k =>
      cases hnext
      exact ⟨o, k, rfl, rfl⟩
  | _ => cases hnext

end Session

namespace Service

variable (S : Service κ ω ρ ε α σ)

/-- A session that has just come in. -/
def opened (request : κ) : Session κ ω ρ ε α := ⟨request, [], S.code request⟩

/-- What a happening makes of a site. -/
def step (site : Site κ ω ρ ε α σ) : Happening κ → Option (Site κ ω ρ ε α σ)
  | .come request => (S.arrive request site.shared).map fun shared =>
      { shared := shared, sessions := site.sessions ++ [S.opened request] }
  | .act n => (site.sessions[n]?).bind fun session =>
      (session.advance S.handler site.shared).map fun next =>
        { shared := next.2, sessions := site.sessions.set n next.1 }

/-- The site as a machine. -/
def machine : Machine (Site κ ω ρ ε α σ) (Happening κ) := ⟨S.step⟩

/-- A site that nobody has come to. -/
def started (shared : σ) : Site κ ω ρ ε α σ := { shared := shared, sessions := [] }

variable {S} {site site' : Site κ ω ρ ε α σ} {request : κ} {n : Nat}

/-- A request that comes is opened as a new session. -/
theorem step_come (h : S.step site (.come request) = some site') :
    ∃ shared, S.arrive request site.shared = some shared ∧
      site' = { shared := shared, sessions := site.sessions ++ [S.opened request] } := by
  obtain ⟨shared, hshared, heq⟩ := Option.map_eq_some_iff.mp h
  exact ⟨shared, hshared, heq.symm⟩

/-- The site after the operation `o` of the session `n`. -/
def after (S : Service κ ω ρ ε α σ) (site : Site κ ω ρ ε α σ) (n : Nat)
    (session : Session κ ω ρ ε α) (o : ω) (k : ρ o → Prog ω ρ ε α) : Site κ ω ρ ε α σ :=
  { shared := (S.handler o site.shared).2
    sessions := site.sessions.set n ⟨session.request,
      session.calls ++ [⟨o, (S.handler o site.shared).1⟩], k (S.handler o site.shared).1⟩ }

/-- An act is the next call of one session. -/
theorem step_act (h : S.step site (.act n) = some site') :
    ∃ session o k, site.sessions[n]? = some session ∧ session.rest = .op o k ∧
      site' = S.after site n session o k := by
  obtain ⟨session, hsession, hrest⟩ := Option.bind_eq_some_iff.mp h
  obtain ⟨next, hnext, heq⟩ := Option.map_eq_some_iff.mp hrest
  obtain ⟨o, k, hop, rfl⟩ := Session.advance_eq_some hnext
  exact ⟨session, o, k, hsession, hop, heq.symm⟩

/-- A session that still has an operation to perform can be given a turn. -/
theorem act_eq {session : Session κ ω ρ ε α} {o : ω} {k : ρ o → Prog ω ρ ε α}
    (hsession : site.sessions[n]? = some session) (hop : session.rest = .op o k) :
    S.step site (.act n) = some (S.after site n session o k) := by
  have hadvance : session.advance S.handler site.shared = some (⟨session.request,
      session.calls ++ [⟨o, (S.handler o site.shared).1⟩], k (S.handler o site.shared).1⟩,
      (S.handler o site.shared).2) := by
    obtain ⟨request, calls, rest⟩ := session
    cases hop
    rfl
  change (site.sessions[n]?).bind _ = _
  rw [hsession, Option.bind_some, hadvance]
  rfl

section Positions

variable {session t : Session κ ω ρ ε α} {o : ω} {k : ρ o → Prog ω ρ ε α} {m : Nat}

/-- The session that has acted. -/
theorem after_self (hsession : site.sessions[n]? = some session) :
    (S.after site n session o k).sessions[n]? = some ⟨session.request,
      session.calls ++ [⟨o, (S.handler o site.shared).1⟩], k (S.handler o site.shared).1⟩ := by
  obtain ⟨hlt, -⟩ := List.getElem?_eq_some_iff.mp hsession
  exact List.getElem?_set_self hlt

/-- The others. -/
theorem after_other (hne : m ≠ n) :
    (S.after site n session o k).sessions[m]? = site.sessions[m]? :=
  List.getElem?_set_ne (Ne.symm hne)

/-- After an act one session has moved on and the others stand. -/
theorem after_cases (hsession : site.sessions[n]? = some session)
    (h : (S.after site n session o k).sessions[m]? = some t) :
    (m = n ∧ t = ⟨session.request, session.calls ++ [⟨o, (S.handler o site.shared).1⟩],
      k (S.handler o site.shared).1⟩) ∨ (m ≠ n ∧ site.sessions[m]? = some t) := by
  by_cases hm : m = n
  · subst hm
    rw [after_self hsession] at h
    exact .inl ⟨rfl, (Option.some.inj h).symm⟩
  · rw [after_other hm] at h
    exact .inr ⟨hm, h⟩

/-- The sessions behind an arrival. -/
theorem come_cases (h : (site.sessions ++ [S.opened request])[m]? = some t) :
    site.sessions[m]? = some t ∨ (m = site.sessions.length ∧ t = S.opened request) := by
  rcases Nat.lt_or_ge m site.sessions.length with hlt | hge
  · rw [List.getElem?_append_left hlt] at h
    exact .inl h
  · rw [List.getElem?_append_right hge] at h
    obtain ⟨hzero, heq⟩ := List.getElem?_eq_some_iff.mp h
    have hm : m = site.sessions.length := by
      rw [List.length_singleton] at hzero
      omega
    subst hm
    refine .inr ⟨rfl, ?_⟩
    rw [← heq]
    simp

end Positions

section Rules

variable {L : κ → Logic ω ρ (List (Call ω ρ))} {post : κ → Except ε α → List (Call ω ρ) → Prop}
  {J : σ → Prop} {happening : Happening κ} {happenings : List (Happening κ)}

/-- The shared state answers as the logics of the sessions allow, and stays as it should be. -/
structure Serves (S : Service κ ω ρ ε α σ) (L : κ → Logic ω ρ (List (Call ω ρ)))
    (post : κ → Except ε α → List (Call ω ρ) → Prop) (J : σ → Prop) : Prop where
  code : ∀ request, (S.code request).wp (L request) (post request) []
  arrive : ∀ request shared shared', J shared → S.arrive request shared = some shared' → J shared'
  answer : ∀ request o shared calls, J shared → (L request).guard o calls →
    (L request).trans o calls (S.handler o shared).1 (calls ++ [⟨o, (S.handler o shared).1⟩])
  keep : ∀ request o shared calls, J shared → (L request).guard o calls → J (S.handler o shared).2

/-- What is left of every session meets its specification. -/
def Specified (L : κ → Logic ω ρ (List (Call ω ρ)))
    (post : κ → Except ε α → List (Call ω ρ) → Prop) (J : σ → Prop)
    (site : Site κ ω ρ ε α σ) : Prop :=
  J site.shared ∧ ∀ (n : Nat) (session : Session κ ω ρ ε α), site.sessions[n]? = some session →
    session.rest.wp (L session.request) (post session.request) session.calls

theorem specified_started {shared : σ} (h : J shared) :
    Specified L post J (started shared : Site κ ω ρ ε α σ) :=
  ⟨h, fun _ _ hsession => by cases hsession⟩

/-- The next operation of a session is one that its logic allows. -/
theorem Specified.guard (h : Specified L post J site) {session : Session κ ω ρ ε α} {o : ω}
    {k : ρ o → Prog ω ρ ε α} (hsession : site.sessions[n]? = some session)
    (hop : session.rest = .op o k) : (L session.request).guard o session.calls := by
  have hrest := h.2 n session hsession
  rw [hop] at hrest
  exact hrest.1

/-- Every happening keeps a site specified that serves. -/
theorem Serves.step_keeps (hserves : S.Serves L post J) (h : Specified L post J site)
    (hstep : S.step site happening = some site') : Specified L post J site' := by
  cases happening with
  | come request =>
      obtain ⟨shared, hshared, rfl⟩ := step_come hstep
      refine ⟨hserves.arrive request _ _ h.1 hshared, ?_⟩
      intro m t ht
      rcases come_cases ht with hold | ⟨-, rfl⟩
      · exact h.2 m t hold
      · exact hserves.code request
  | act n =>
      obtain ⟨session, o, k, hsession, hop, rfl⟩ := step_act hstep
      have hguard := h.guard hsession hop
      refine ⟨hserves.keep _ o _ _ h.1 hguard, ?_⟩
      intro m t ht
      rcases after_cases hsession ht with ⟨-, rfl⟩ | ⟨-, hold⟩
      · have hrest := h.2 n session hsession
        rw [hop] at hrest
        exact hrest.2 _ _ (hserves.answer _ o _ _ h.1 hguard)
      · exact h.2 m t hold

/-- **The rule of a service**: at any time every session is as its logic says. -/
theorem Serves.run_keeps (hserves : S.Serves L post J) (h : Specified L post J site)
    (hrun : S.machine.run site happenings = some site') : Specified L post J site' :=
  Machine.run_keeps (fun _ _ _ hsite hstep => hserves.step_keeps hsite hstep) h hrun

end Rules

end Service

end Prog
