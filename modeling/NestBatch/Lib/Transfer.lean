import Mathlib.Data.List.Basic
import Mathlib.Logic.Function.Basic

/-!
# Restartable transfers

A source is read from a position on and hands over parcels; a sink files the
parcels under numbers of its own.  The two are checkpointed together: a position
and a number are in step when what is still to come from the position are the
parcels from that number on.  A transfer that falls back to an earlier pair
which is in step files the same parcels under the same numbers again.

* `InStep.advance` — moving on keeps position and number in step;
* `Faithful.file` — filing the next parcel keeps the sink free of wrong parcels;
* `Faithful.complete` — at the end of the source the sink holds the parcels, and
  nothing else.
-/

/-- A source: at its end, or moving on with at most one parcel.  It moves on only
finitely often. -/
structure Transfer (ι β : Type) where
  advance : ι → Option (Option β × ι)
  remaining : ι → Nat
  shrinks : ∀ p parcel q, advance p = some (parcel, q) → remaining q < remaining p

namespace Transfer

variable {ι β γ : Type} (T : Transfer ι β)

/-- The parcels of the first `fuel` moves. -/
def parcelsIn : Nat → ι → List β
  | 0, _ => []
  | fuel + 1, p =>
      match T.advance p with
      | none => []
      | some (parcel, q) => parcel.toList ++ parcelsIn fuel q

/-- Everything still to come from a position. -/
def parcels (p : ι) : List β := T.parcelsIn (T.remaining p) p

variable {T} {p q start : ι} {handed : Option β} {n : Nat}

/-- With nothing remaining the transfer is over. -/
theorem advance_of_remaining (h : T.remaining p = 0) : T.advance p = none := by
  cases hadvance : T.advance p with
  | none => rfl
  | some moved =>
      have hlt := T.shrinks p moved.1 moved.2 hadvance
      omega

/-- A transfer that is over hands out no more, with any fuel. -/
theorem parcelsIn_ended (h : T.advance p = none) (fuel : Nat) : T.parcelsIn fuel p = [] := by
  cases fuel with
  | zero => rfl
  | succ fuel => rw [parcelsIn, h]

/-- More moves than there are make no difference. -/
theorem parcelsIn_congr {fuel fuel' : Nat} (h : T.remaining p ≤ fuel) (h' : T.remaining p ≤ fuel') :
    T.parcelsIn fuel p = T.parcelsIn fuel' p := by
  induction fuel generalizing p fuel' with
  | zero =>
      have hended : T.advance p = none := advance_of_remaining (by omega)
      rw [parcelsIn_ended hended, parcelsIn_ended hended]
  | succ fuel ih =>
      cases fuel' with
      | zero =>
          have hended : T.advance p = none := advance_of_remaining (by omega)
          rw [parcelsIn_ended hended, parcelsIn_ended hended]
      | succ fuel' =>
          rw [parcelsIn, parcelsIn]
          cases hadvance : T.advance p with
          | none => rfl
          | some moved =>
              have hlt := T.shrinks p moved.1 moved.2 hadvance
              exact congrArg (moved.1.toList ++ ·) (ih (by omega) (by omega))

/-- A transfer that is over hands out no more. -/
theorem parcels_ended (h : T.advance p = none) : T.parcels p = [] := parcelsIn_ended h _

/-- The parcels of a transfer are the one it hands out now and those after it. -/
theorem parcels_advance (h : T.advance p = some (handed, q)) :
    T.parcels p = handed.toList ++ T.parcels q := by
  have hlt := T.shrinks p handed q h
  obtain ⟨fuel, hfuel⟩ : ∃ fuel, T.remaining p = fuel + 1 := ⟨T.remaining p - 1, by omega⟩
  unfold parcels
  rw [hfuel, parcelsIn, h]
  exact congrArg (handed.toList ++ ·) (parcelsIn_congr (by omega) (Nat.le_refl _))

/-- What is to come from `p` are the parcels of the whole transfer from number `n` on. -/
structure InStep (T : Transfer ι β) (start p : ι) (n : Nat) : Prop where
  le : n ≤ (T.parcels start).length
  rest : T.parcels p = (T.parcels start).drop n

/-- The parcel handed over next is the one with the next number. -/
theorem InStep.parcel {b : β} (h : T.InStep start p n) (hadvance : T.advance p = some (some b, q)) :
    (T.parcels start)[n]? = some b := by
  have hrest : (T.parcels start).drop n = b :: T.parcels q := by
    rw [← h.rest, parcels_advance hadvance]
    rfl
  rw [← List.head?_drop, hrest]
  rfl

/-- An advance keeps the count in step with the parcels handed out. -/
theorem InStep.advance (h : T.InStep start p n) (hadvance : T.advance p = some (handed, q)) :
    T.InStep start q (n + handed.toList.length) := by
  have hrest : (T.parcels start).drop n = handed.toList ++ T.parcels q := by
    rw [← h.rest, parcels_advance hadvance]
  refine ⟨?_, ?_⟩
  · have hlength := congrArg List.length hrest
    rw [List.length_drop, List.length_append] at hlength
    have hle := h.le
    omega
  · rw [← List.drop_drop, hrest, List.drop_left]

/-- At the end the count is the number of parcels. -/
theorem InStep.ended (h : T.InStep start p n) (hended : T.advance p = none) :
    n = (T.parcels start).length := by
  have hrest := h.rest
  rw [parcels_ended hended] at hrest
  have hle : (T.parcels start).length ≤ n := List.drop_eq_nil_iff.mp hrest.symm
  exact Nat.le_antisymm h.le hle

/-! ### The sink -/

/-- Whatever is filed under a number is the parcel of that number, as `render` puts it. -/
def Faithful (render : β → Option γ) (parcels : List β) (sink : Nat → Option γ) : Prop :=
  ∀ n filed, sink n = some filed → ∃ b, parcels[n]? = some b ∧ render b = some filed

/-- Something is filed under each of the first `n` numbers. -/
def Holds (sink : Nat → Option γ) (n : Nat) : Prop := ∀ i < n, (sink i).isSome = true

variable {render : β → Option γ} {parcels : List β} {sink : Nat → Option γ} {b : β} {filed : γ}

/-- Filing a parcel under its own number, for the first time or again. -/
theorem Faithful.file (h : Faithful render parcels sink) (hparcel : parcels[n]? = some b)
    (hrender : render b = some filed) :
    Faithful render parcels (Function.update sink n (some filed)) := by
  intro i filed' hfiled
  by_cases hi : i = n
  · subst hi
    rw [Function.update_self] at hfiled
    obtain rfl := Option.some.inj hfiled
    exact ⟨b, hparcel, hrender⟩
  · rw [Function.update_of_ne hi] at hfiled
    exact h i filed' hfiled

/-- Filing one more parcel keeps those that are held. -/
theorem Holds.file {k : Nat} (h : Holds sink k) :
    Holds (Function.update sink n (some filed)) k := by
  intro i hi
  by_cases hin : i = n
  · rw [hin, Function.update_self]
    rfl
  · rw [Function.update_of_ne hin]
    exact h i hi

/-- Filing the next parcel holds one more. -/
theorem Holds.succ (h : Holds sink n) : Holds (Function.update sink n (some filed)) (n + 1) := by
  intro i hi
  by_cases hin : i = n
  · rw [hin, Function.update_self]
    rfl
  · exact h.file i (by omega)

/-- A sink that holds as many parcels as there are holds the parcels, and no others. -/
theorem Faithful.complete (h : Faithful render parcels sink) (hholds : Holds sink parcels.length)
    (n : Nat) : sink n = parcels[n]?.bind render := by
  cases hfiled : sink n with
  | some filed =>
      obtain ⟨b, hparcel, hrender⟩ := h n filed hfiled
      rw [hparcel]
      exact hrender.symm
  | none =>
      have hle : parcels.length ≤ n := by
        by_contra hlt
        have hsome := hholds n (by omega)
        rw [hfiled] at hsome
        cases hsome
      rw [List.getElem?_eq_none hle]
      rfl

end Transfer
