import Mathlib.Data.List.Basic

/-!
# Brackets in a list of events

Some events open a key and some close one.  A list is closed once when every
event that opens a key is followed by exactly one event that closes it.  For a
list that is made of pairs this comes down to the pairs themselves, and to what
is left open behind them.
-/

namespace Brackets

variable {ε κ : Type} [DecidableEq κ]

/-- Which key an event opens, and which it closes. -/
structure Shape (ε κ : Type) where
  opens : ε → Option κ
  closes : ε → Option κ

variable (S : Shape ε κ)

/-- The events that close `k`. -/
def Shape.closing (k : κ) (events : List ε) : List ε := events.filter fun e => S.closes e = some k

/-- Every event that opens a key is followed by exactly one that closes it, and
that one is good. -/
def ClosedOnce (good : κ → ε → Prop) (events : List ε) : Prop :=
  ∀ before opened after k, events = before ++ opened :: after → S.opens opened = some k →
    ∃ closed, S.closing k after = [closed] ∧ good k closed

variable {S} {good : κ → ε → Prop}

/-- The events of a list one by one, from the first. -/
theorem closedOnce_cons_iff {e : ε} {events : List ε} :
    ClosedOnce S good (e :: events) ↔
      (∀ k, S.opens e = some k → ∃ closed, S.closing k events = [closed] ∧ good k closed) ∧
        ClosedOnce S good events := by
  constructor
  · intro h
    refine ⟨fun k hk => h [] e events k rfl hk, ?_⟩
    intro before opened after k hsplit hk
    exact h (e :: before) opened after k (congrArg (e :: ·) hsplit) hk
  · intro h before opened after k hsplit hk
    cases before with
    | nil =>
        obtain ⟨he, hrest⟩ := List.cons.inj hsplit
        subst he
        subst hrest
        exact h.1 k hk
    | cons b before =>
        obtain ⟨he, hrest⟩ := List.cons.inj hsplit
        exact h.2 before opened after k hrest hk

theorem closedOnce_nil : ClosedOnce S good [] := by
  intro before opened after k hsplit
  cases before <;> cases hsplit

/-- An event that opens nothing. -/
theorem closedOnce_cons_of_none {e : ε} {events : List ε} (h : S.opens e = none) :
    ClosedOnce S good (e :: events) ↔ ClosedOnce S good events := by
  rw [closedOnce_cons_iff]
  constructor
  · intro hboth
    exact hboth.2
  · intro hrest
    refine ⟨?_, hrest⟩
    intro k hk
    rw [h] at hk
    cases hk

/-- Two events around one key. -/
structure Pair (ε κ : Type) where
  key : κ
  opened : ε
  closed : ε

namespace Pair

def events (p : Pair ε κ) : List ε := [p.opened, p.closed]

/-- The first event opens the key and nothing else, the second closes it and nothing else. -/
structure Fits (S : Shape ε κ) (p : Pair ε κ) : Prop where
  opens : S.opens p.opened = some p.key
  opened_closes : S.closes p.opened = none
  closes : S.closes p.closed = some p.key
  closed_opens : S.opens p.closed = none

end Pair

/-- Pairs around other keys do not close `k`. -/
theorem closing_pairs {k : κ} {pairs : List (Pair ε κ)} (hfits : ∀ p ∈ pairs, p.Fits S)
    (hkey : k ∉ pairs.map Pair.key) (rest : List ε) :
    S.closing k (pairs.flatMap Pair.events ++ rest) = S.closing k rest := by
  induction pairs with
  | nil => rfl
  | cons p pairs ih =>
      rw [List.map_cons, List.mem_cons, not_or] at hkey
      have hp := hfits p List.mem_cons_self
      have hne : ¬ (some p.key = some k) := fun h => hkey.1 (Option.some.inj h).symm
      have hrest := ih (fun q hq => hfits q (List.mem_cons_of_mem _ hq)) hkey.2
      unfold Shape.closing at hrest ⊢
      simp [Pair.events, hp.opened_closes, hp.closes, hne, hrest]

/-- Pairs with keys of their own are closed once when their second events are
good, whatever comes behind them. -/
theorem closedOnce_pairs_iff {pairs : List (Pair ε κ)} {rest : List ε}
    (hfits : ∀ p ∈ pairs, p.Fits S) (hkeys : (pairs.map Pair.key).Nodup)
    (hrest : ∀ p ∈ pairs, S.closing p.key rest = []) :
    ClosedOnce S good (pairs.flatMap Pair.events ++ rest) ↔
      (∀ p ∈ pairs, good p.key p.closed) ∧ ClosedOnce S good rest := by
  induction pairs with
  | nil => simp
  | cons p pairs ih =>
      obtain ⟨hkey, hkeys⟩ := List.nodup_cons.mp hkeys
      have hp := hfits p List.mem_cons_self
      have hfits' : ∀ q ∈ pairs, q.Fits S := fun q hq => hfits q (List.mem_cons_of_mem _ hq)
      have hclosing : S.closing p.key (p.closed :: (pairs.flatMap Pair.events ++ rest)) =
          [p.closed] := by
        have htail := closing_pairs hfits' hkey rest
        rw [hrest p List.mem_cons_self] at htail
        unfold Shape.closing at htail ⊢
        rw [List.filter_cons_of_pos (by simp [hp.closes]), htail]
      have hevents : (p :: pairs).flatMap Pair.events ++ rest =
          p.opened :: p.closed :: (pairs.flatMap Pair.events ++ rest) := rfl
      rw [hevents, closedOnce_cons_iff, closedOnce_cons_of_none hp.closed_opens,
        ih hfits' hkeys fun q hq => hrest q (List.mem_cons_of_mem _ hq)]
      constructor
      · intro h
        obtain ⟨hopen, hgood, hend⟩ := h
        obtain ⟨closed, hone, hclosed⟩ := hopen p.key hp.opens
        rw [hclosing] at hone
        obtain ⟨rfl, -⟩ := List.cons.inj hone
        refine ⟨?_, hend⟩
        intro q hq
        rcases List.mem_cons.mp hq with h | h
        · subst h
          exact hclosed
        · exact hgood q h
      · intro h
        obtain ⟨hgood, hend⟩ := h
        refine ⟨?_, fun q hq => hgood q (List.mem_cons_of_mem _ hq), hend⟩
        intro k hk
        rw [hp.opens] at hk
        obtain rfl := Option.some.inj hk
        exact ⟨p.closed, hclosing, hgood p List.mem_cons_self⟩

/-- Events that open nothing are closed. -/
theorem closedOnce_of_none {events : List ε} (h : ∀ e ∈ events, S.opens e = none) :
    ClosedOnce S good events := by
  induction events with
  | nil => exact closedOnce_nil
  | cons e events ih =>
      rw [closedOnce_cons_of_none (h e List.mem_cons_self)]
      exact ih fun e' he' => h e' (List.mem_cons_of_mem _ he')

/-- A key that is opened and then left open. -/
theorem not_closedOnce_cons {e : ε} {events : List ε} {k : κ} (hopen : S.opens e = some k)
    (h : S.closing k events = []) : ¬ ClosedOnce S good (e :: events) := by
  intro hclosed
  obtain ⟨closed, hone, -⟩ := (closedOnce_cons_iff.mp hclosed).1 k hopen
  rw [h] at hone
  cases hone

end Brackets
