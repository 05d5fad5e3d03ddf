import Mathlib.Data.List.Nodup
import Mathlib.Logic.Relation

/-!
# Searching a graph

A queue loop that collects what can be reached, and a depth-first search that
looks for a cycle, as relations between where they start and what they end
with.  A derivation is a run that ends.  The graph is given by the successors of
its nodes, of which one may be listed more than once.
-/

namespace GraphSearch

variable {α : Type} (succ : α → List α)

def Edge (a b : α) : Prop := b ∈ succ a

/-- `b` can be reached from `a`, which is reached from itself. -/
abbrev Reaches : α → α → Prop := Relation.ReflTransGen (Edge succ)

/-- The node lies on a cycle. -/
def OnCycle (a : α) : Prop := Relation.TransGen (Edge succ) a a

/-- A set that no edge leaves. -/
def Closed (s : α → Prop) : Prop := ∀ a, s a → ∀ b, Edge succ a b → s b

variable {succ}

/-- A closed set holds all that its members reach. -/
theorem Closed.of_reaches {s : α → Prop} (h : Closed succ s) {a b : α} (ha : s a)
    (hab : Reaches succ a b) : s b := by
  induction hab with
  | refl => exact ha
  | tail _ hedge ih => exact h _ ih _ hedge

section Queue

variable [DecidableEq α] (succ)

/-- A run of the queue loop: what is in the queue, what has been reached, and what is reached
in the end. -/
inductive Collects : List α → List α → List α → Prop
  | done (reached : List α) : Collects [] reached reached
  | seen {cur : α} {queue reached result : List α} (hcur : cur ∈ reached)
      (hrest : Collects queue reached result) : Collects (cur :: queue) reached result
  | expand {cur : α} {queue reached result : List α} (hcur : cur ∉ reached)
      (hrest : Collects (queue ++ (succ cur).filter fun t => !(reached ++ [cur]).contains t)
        (reached ++ [cur]) result) : Collects (cur :: queue) reached result

variable {succ}

/-- **What is collected** is what was reached or queued and what can be reached from there, if
every edge from what was reached leads to what was reached or queued. -/
theorem Collects.mem_iff {queue reached result : List α} (h : Collects succ queue reached result)
    (hopen : ∀ a ∈ reached, ∀ b ∈ succ a, b ∈ reached ∨ b ∈ queue) {b : α} :
    b ∈ result ↔ ∃ a, (a ∈ reached ∨ a ∈ queue) ∧ Reaches succ a b := by
  induction h with
  | done reached =>
      constructor
      · intro hb
        exact ⟨b, .inl hb, .refl⟩
      · intro hcase
        obtain ⟨a, ha, hreach⟩ := hcase
        have hclosed : Closed succ (· ∈ reached) := fun a ha b hb =>
          (hopen a ha b hb).resolve_right List.not_mem_nil
        exact hclosed.of_reaches (ha.resolve_right List.not_mem_nil) hreach
  | @seen cur queue reached result hcur hrest ih =>
      have hiff : ∀ a, a ∈ reached ∨ a ∈ cur :: queue ↔ a ∈ reached ∨ a ∈ queue := by
        intro a
        rw [List.mem_cons]
        constructor
        · intro heither
          rcases heither with ha | rfl | ha
          · exact .inl ha
          · exact .inl hcur
          · exact .inr ha
        · exact Or.imp_right .inr
      rw [ih fun a ha b hb => (hiff b).mp (hopen a ha b hb)]
      simp only [hiff]
  | @expand cur queue reached result hcur hrest ih =>
      have hopen' : ∀ a ∈ reached ++ [cur], ∀ b ∈ succ a, b ∈ reached ++ [cur] ∨
          b ∈ queue ++ (succ cur).filter fun t => !(reached ++ [cur]).contains t := by
        intro a ha b hb
        by_cases hmem : b ∈ reached ++ [cur]
        · exact .inl hmem
        · right
          rw [List.mem_append]
          rcases List.mem_append.mp ha with ha | ha
          · have hqueue := (hopen a ha b hb).resolve_left fun hb =>
              hmem (List.mem_append_left _ hb)
            rcases List.mem_cons.mp hqueue with rfl | hqueue
            · exact absurd (List.mem_append_right _ (List.mem_singleton_self b)) hmem
            · exact .inl hqueue
          · rw [List.mem_singleton.mp ha] at hb
            exact .inr (List.mem_filter.mpr ⟨hb, by simpa using hmem⟩)
      rw [ih hopen']
      constructor
      · intro hcase
        obtain ⟨a, ha, hreach⟩ := hcase
        simp only [List.mem_append, List.mem_singleton, List.mem_filter] at ha
        rcases ha with (ha | rfl) | ha | ⟨ha, -⟩
        · exact ⟨a, .inl ha, hreach⟩
        · exact ⟨a, .inr List.mem_cons_self, hreach⟩
        · exact ⟨a, .inr (List.mem_cons_of_mem _ ha), hreach⟩
        · exact ⟨cur, .inr List.mem_cons_self, .head ha hreach⟩
      · intro hcase
        obtain ⟨a, ha, hreach⟩ := hcase
        refine ⟨a, ?_, hreach⟩
        simp only [List.mem_append, List.mem_singleton]
        rcases ha with ha | ha
        · exact .inl (.inl ha)
        · rcases List.mem_cons.mp ha with rfl | ha
          · exact .inl (.inr rfl)
          · exact .inr (.inl ha)

/-- From one node, what can be reached is collected. -/
theorem Collects.mem_iff_reaches {start b : α} {result : List α}
    (h : Collects succ [start] [] result) : b ∈ result ↔ Reaches succ start b := by
  rw [h.mem_iff fun a ha => absurd ha List.not_mem_nil]
  simp

end Queue

section Depth

/-- Nodes visited and nodes on the current path, the latest first. -/
structure Marks (α : Type) where
  visited : List α
  inStack : List α

namespace Marks

def enter (marks : Marks α) (a : α) : Marks α :=
  { visited := a :: marks.visited, inStack := a :: marks.inStack }

def leave [DecidableEq α] (marks : Marks α) (a : α) : Marks α :=
  { marks with inStack := marks.inStack.erase a }

/-- Visited, and no longer on the path. -/
def Finished (marks : Marks α) (a : α) : Prop := a ∈ marks.visited ∧ a ∉ marks.inStack

end Marks

variable [DecidableEq α] (succ)

/-- A search from some nodes in turn, behind a path; it ends with new marks or with a path that
runs into itself. -/
inductive Explores : List α → List α → Marks α → Except (List α) (Marks α) → Prop
  | nil {path : List α} {marks : Marks α} : Explores path [] marks (.ok marks)
  | cycle {path rest : List α} {a : α} {marks : Marks α} (hstack : a ∈ marks.inStack) :
      Explores path (a :: rest) marks (.error (path ++ [a]))
  | seen {path rest : List α} {a : α} {marks : Marks α} {result : Except (List α) (Marks α)}
      (hstack : a ∉ marks.inStack) (hvisited : a ∈ marks.visited)
      (hrest : Explores path rest marks result) : Explores path (a :: rest) marks result
  | fail {path rest found : List α} {a : α} {marks : Marks α} (hstack : a ∉ marks.inStack)
      (hvisited : a ∉ marks.visited)
      (hinner : Explores (path ++ [a]) (succ a) (marks.enter a) (.error found)) :
      Explores path (a :: rest) marks (.error found)
  | expand {path rest : List α} {a : α} {marks marks' : Marks α}
      {result : Except (List α) (Marks α)} (hstack : a ∉ marks.inStack)
      (hvisited : a ∉ marks.visited)
      (hinner : Explores (path ++ [a]) (succ a) (marks.enter a) (.ok marks'))
      (hrest : Explores path rest (marks'.leave a) result) : Explores path (a :: rest) marks result

/-- What is finished leads to finished nodes only, and none of them lies on a cycle. -/
structure Marks.Settled (marks : Marks α) : Prop where
  closed : Closed succ marks.Finished
  acyclic : ∀ a, marks.Finished a → ¬ OnCycle succ a

/-- What a search that ends well does to the marks: the path is as before, what was visited and
what was finished stays so, and the nodes it started from are finished too. -/
structure Marks.Grows (marks marks' : Marks α) (sources : List α) : Prop where
  stack : marks'.inStack = marks.inStack
  visited : ∀ a ∈ marks.visited, a ∈ marks'.visited
  finished : ∀ a ∈ sources, marks'.Finished a
  settled : marks'.Settled succ

variable {succ} {marks marks' marks'' : Marks α} {a : α} {path sources : List α}

omit [DecidableEq α] in
/-- Entering a node that was not visited finishes nothing. -/
theorem Marks.finished_enter (ha : a ∉ marks.visited) (b : α) :
    (marks.enter a).Finished b ↔ marks.Finished b := by
  simp only [Finished, enter, List.mem_cons, not_or]
  constructor
  · intro h
    obtain ⟨hvisited, hne, hstack⟩ := h
    exact ⟨hvisited.resolve_left hne, hstack⟩
  · intro h
    obtain ⟨hvisited, hstack⟩ := h
    exact ⟨.inr hvisited, fun heq => ha (heq ▸ hvisited), hstack⟩

omit [DecidableEq α] in
/-- Entering a node that is not visited keeps the marks settled. -/
theorem Marks.Settled.enter (h : marks.Settled succ) (ha : a ∉ marks.visited) :
    (marks.enter a).Settled succ := by
  have hiff := finished_enter ha
  constructor
  · intro b hb c hc
    exact (hiff c).mpr (h.closed b ((hiff b).mp hb) c hc)
  · intro b hb
    exact h.acyclic b ((hiff b).mp hb)

/-- Leaving a node finishes it, once its successors are finished. -/
theorem Marks.Grows.leave (hstack : a ∉ marks.inStack)
    (h : (marks.enter a).Grows succ marks' (succ a)) :
    marks.Grows succ (marks'.leave a) [a] := by
  have hback : (marks'.leave a).inStack = marks.inStack := by
    rw [Marks.leave, h.stack, Marks.enter]
    exact List.erase_cons_head a marks.inStack
  have hvisited : a ∈ marks'.visited := h.visited a List.mem_cons_self
  have hiff : ∀ b, (marks'.leave a).Finished b ↔ marks'.Finished b ∨ b = a := by
    intro b
    have hsame : b ∈ (marks'.leave a).visited ↔ b ∈ marks'.visited := Iff.rfl
    rw [Finished, Finished, hback, h.stack, hsame, Marks.enter, List.mem_cons]
    by_cases heq : b = a
    · rw [heq]
      simp [hvisited, hstack]
    · simp [heq]
  have hopen : ¬ marks'.Finished a := by
    intro hfinished
    rw [Finished, h.stack] at hfinished
    exact hfinished.2 List.mem_cons_self
  constructor
  · exact hback
  · intro b hb
    exact h.visited b (List.mem_cons_of_mem a hb)
  · intro b hb
    exact (hiff b).mpr (.inr (List.mem_singleton.mp hb))
  · constructor
    · intro b hb c hc
      rcases (hiff b).mp hb with hb | rfl
      · exact (hiff c).mpr (.inl (h.settled.closed b hb c hc))
      · exact (hiff c).mpr (.inl (h.finished c hc))
    · intro b hb hcycle
      rcases (hiff b).mp hb with hb | rfl
      · exact h.settled.acyclic b hb hcycle
      · -- a cycle through the node passes a successor, which is finished, and comes back
        obtain ⟨c, hc, hback⟩ := Relation.TransGen.head'_iff.mp hcycle
        exact hopen (h.settled.closed.of_reaches (h.finished c hc) hback)

omit [DecidableEq α] in
theorem Marks.Grows.trans {more : List α} (h : marks.Grows succ marks' sources)
    (h' : marks'.Grows succ marks'' more) : marks.Grows succ marks'' (sources ++ more) := by
  constructor
  · rw [h'.stack, h.stack]
  · intro b hb
    exact h'.visited b (h.visited b hb)
  · intro b hb
    rcases List.mem_append.mp hb with hb | hb
    · obtain ⟨hvisited, hstack⟩ := h.finished b hb
      exact ⟨h'.visited b hvisited, h'.stack ▸ hstack⟩
    · exact h'.finished b hb
  · exact h'.settled

/-- A search that ends well leaves the path as it was. -/
theorem Explores.stack (h : Explores succ path sources marks (.ok marks')) :
    marks'.inStack = marks.inStack := by
  generalize hresult : Except.ok marks' = result at h
  induction h generalizing marks' with
  | nil =>
      cases hresult
      rfl
  | cycle hstack => cases hresult
  | seen hstack hvisited hrest ih => exact ih hresult
  | fail hstack hvisited hinner ih => cases hresult
  | @expand path rest a marks middle result hstack hvisited hinner hrest ihinner ihrest =>
      rw [ihrest hresult, Marks.leave, ihinner rfl, Marks.enter]
      exact List.erase_cons_head a marks.inStack

/-- An exploration that succeeds settles its sources. -/
theorem Explores.grows (h : Explores succ path sources marks (.ok marks'))
    (hmarks : marks.Settled succ) : marks.Grows succ marks' sources := by
  generalize hresult : Except.ok marks' = result at h
  induction h generalizing marks' with
  | nil =>
      cases hresult
      exact ⟨rfl, fun _ h => h, fun _ h => absurd h List.not_mem_nil, hmarks⟩
  | cycle hstack => cases hresult
  | @seen path rest a marks result hstack hvisited hrest ih =>
      have hfirst : marks.Grows succ marks [a] := by
        refine ⟨rfl, fun _ h => h, ?_, hmarks⟩
        intro b hb
        rw [List.mem_singleton.mp hb]
        exact ⟨hvisited, hstack⟩
      exact hfirst.trans (ih hmarks hresult)
  | fail hstack hvisited hinner ih => cases hresult
  | @expand path rest a marks middle result hstack hvisited hinner hrest ihinner ihrest =>
      have hfirst := (ihinner (hmarks.enter hvisited) rfl).leave hstack
      exact hfirst.trans (ihrest hfirst.settled hresult)

/-- A search that fails has found a node on a cycle, if the path leads to where it starts. -/
theorem Explores.onCycle {found : List α} (h : Explores succ path sources marks (.error found))
    {start : α} (hpath : ∀ p ∈ marks.inStack, ∀ a ∈ sources, Relation.TransGen (Edge succ) p a)
    (hstart : ∀ a ∈ sources, Reaches succ start a) :
    ∃ c, Reaches succ start c ∧ OnCycle succ c := by
  generalize hresult : Except.error found = result at h
  induction h with
  | nil => cases hresult
  | @cycle path rest a marks hstack =>
      exact ⟨a, hstart a List.mem_cons_self, hpath a hstack a List.mem_cons_self⟩
  | seen hstack hvisited hrest ih =>
      exact ih (fun p hp a ha => hpath p hp a (List.mem_cons_of_mem _ ha))
        (fun a ha => hstart a (List.mem_cons_of_mem _ ha)) hresult
  | @fail path rest found' a marks hstack hvisited hinner ih =>
      apply ih _ _ hresult
      · intro p hp b hb
        rcases List.mem_cons.mp hp with rfl | hp
        · exact .single hb
        · exact (hpath p hp a List.mem_cons_self).tail hb
      · intro b hb
        exact (hstart a List.mem_cons_self).tail hb
  | @expand path rest a marks middle result hstack hvisited hinner hrest ihinner ihrest =>
      have hback : (middle.leave a).inStack = marks.inStack := by
        rw [Marks.leave, hinner.stack, Marks.enter]
        exact List.erase_cons_head a marks.inStack
      apply ihrest _ _ hresult
      · intro p hp b hb
        rw [hback] at hp
        exact hpath p hp b (List.mem_cons_of_mem _ hb)
      · intro b hb
        exact hstart b (List.mem_cons_of_mem _ hb)

/-- **A search from one node** fails exactly when a cycle can be reached from it. -/
theorem Explores.error_iff {start : α} {result : Except (List α) (Marks α)}
    (h : Explores succ [] [start] ⟨[], []⟩ result) :
    (∃ found, result = .error found) ↔ ∃ c, Reaches succ start c ∧ OnCycle succ c := by
  constructor
  · intro hcase
    obtain ⟨found, rfl⟩ := hcase
    apply h.onCycle
    · intro p hp
      exact absurd hp List.not_mem_nil
    · intro a ha
      rw [List.mem_singleton.mp ha]
  · intro hcase
    obtain ⟨c, hreach, hcycle⟩ := hcase
    cases result with
    | error found => exact ⟨found, rfl⟩
    | ok marks =>
        have hempty : (⟨[], []⟩ : Marks α).Settled succ := by
          constructor
          · intro a ha
            exact absurd ha.1 List.not_mem_nil
          · intro a ha
            exact absurd ha.1 List.not_mem_nil
        have hgrows := h.grows hempty
        have hstart := hgrows.finished start List.mem_cons_self
        exact absurd hcycle
          (hgrows.settled.acyclic c (hgrows.settled.closed.of_reaches hstart hreach))

end Depth

end GraphSearch
