import NestBatch.Execution.Policies

/-!
# How the two policies tell classes from predicates

A `Skippable` is an error class or a predicate, and at run time both are
functions.  The skip policy takes for a class what has an `Error` for its
prototype, the retry policy what does not declare exactly one parameter; so they
may ask a class by calling it and a predicate by `instanceof`.
-/

namespace NestBatch

/-- What a `Skippable` is meant as. -/
inductive SkippableSpec (ν : Type)
  | errorClass (f : FunctionValue ν) (hinstance : ∀ v, (f.hasInstance v).isSome = true)
  | predicate (f : FunctionValue ν)

namespace SkippableSpec

variable {ν : Type}

/-- The function the policies are given. -/
def function : SkippableSpec ν → FunctionValue ν
  | .errorClass f _ => f
  | .predicate f => f

/-- Membership as it is meant: `instanceof` for a class, the result of a predicate. -/
def matching (s : SkippableSpec ν) (v : ν) : Bool :=
  match s with
  | .errorClass f _ => (f.hasInstance v).getD false
  | .predicate f => f.called v

end SkippableSpec

namespace SkippableSpec

variable {ν : Type}

/-- **Both policies classify alike**: within budget and limit they answer what is meant. -/
structure ClassifiesAlike (s : SkippableSpec ν) (v : ν) : Prop where
  skip : ∀ skipCount skipLimit : Int, skipCount < skipLimit →
    SkipPolicy.shouldSkip [s.function] v skipCount skipLimit = some (s.matching v)
  retry : ∀ (attempt : Nat) (retryLimit : Int), attempt ≤ retryLimit →
    RetryPolicy.canRetry [s.function] v attempt retryLimit = some (s.matching v)

/-- The function is told for what it is, or asking it as the other kind comes to the same: a class
is called where its prototype is no `Error` or it declares one parameter, and a predicate is tested
by `instanceof` where its prototype is an `Error` or it does not declare one parameter. -/
def ToldApart (s : SkippableSpec ν) (v : ν) : Prop :=
  match s with
  | .errorClass f _ =>
      f.prototypeInstanceofError = false ∨ f.length = 1 → f.hasInstance v = some (f.called v)
  | .predicate f =>
      f.prototypeInstanceofError = true ∨ f.length ≠ 1 → f.hasInstance v = some (f.called v)

variable {s : SkippableSpec ν} {v : ν}

theorem anyM_singleton (asks : FunctionValue ν → Option Bool) (f : FunctionValue ν) :
    [f].anyM asks = asks f := by
  cases h : asks f with
  | none => simp [List.anyM, h]
  | some b => cases b <;> simp [List.anyM, h]

theorem shouldSkip_singleton (f : FunctionValue ν) {skipCount skipLimit : Int}
    (h : skipCount < skipLimit) :
    SkipPolicy.shouldSkip [f] v skipCount skipLimit = SkipPolicy.matchesSkippable v f := by
  rw [SkipPolicy.shouldSkip, if_neg (by omega), anyM_singleton]

theorem canRetry_singleton (f : FunctionValue ν) {attempt : Nat} {retryLimit : Int}
    (h : attempt ≤ retryLimit) :
    RetryPolicy.canRetry [f] v attempt retryLimit = RetryPolicy.matchesSkippable v f := by
  rw [RetryPolicy.canRetry, if_neg (by omega), anyM_singleton]

/-- Alike is what both tests answer. -/
theorem classifiesAlike_iff_asks : s.ClassifiesAlike v ↔
    SkipPolicy.matchesSkippable v s.function = some (s.matching v) ∧
      RetryPolicy.matchesSkippable v s.function = some (s.matching v) := by
  constructor
  · intro h
    rw [← shouldSkip_singleton s.function (show (0 : Int) < 1 by omega),
      ← canRetry_singleton s.function (show ((0 : Nat) : Int) ≤ 1 by omega)]
    exact ⟨h.skip 0 1 (by omega), h.retry 0 1 (by omega)⟩
  · intro hcase
    obtain ⟨hskip, hretry⟩ := hcase
    constructor
    · intro skipCount skipLimit hlt
      rw [shouldSkip_singleton s.function hlt, hskip]
    · intro attempt retryLimit hle
      rw [canRetry_singleton s.function hle, hretry]

/-- Both policies answer by the spec exactly when its function is told apart. -/
theorem asks_iff_toldApart : SkipPolicy.matchesSkippable v s.function = some (s.matching v) ∧
      RetryPolicy.matchesSkippable v s.function = some (s.matching v) ↔ s.ToldApart v := by
  cases s with
  | errorClass f hinstance =>
      obtain ⟨b, hb⟩ := Option.isSome_iff_exists.mp (hinstance v)
      simp only [function, matching, ToldApart, SkipPolicy.matchesSkippable,
        RetryPolicy.matchesSkippable, hb, Option.getD_some]
      by_cases hproto : f.prototypeInstanceofError = true
      · by_cases hlength : f.length = 1
        · simp [hproto, hlength, eq_comm]
        · simp [hproto, hlength]
      · by_cases hlength : f.length = 1
        · simp [hproto, hlength, eq_comm]
        · simp [hproto, hlength, eq_comm]
  | predicate f =>
      simp only [function, matching, ToldApart, SkipPolicy.matchesSkippable,
        RetryPolicy.matchesSkippable]
      by_cases hproto : f.prototypeInstanceofError = true
      · by_cases hlength : f.length = 1
        · simp [hproto, hlength]
        · simp [hproto, hlength]
      · by_cases hlength : f.length = 1
        · simp [hproto, hlength]
        · simp [hproto, hlength]

/-- **When both policies classify alike**: exactly where the function is told for what it is, or
asking it as the other kind comes to the same. -/
theorem classifies_alike_iff (s : SkippableSpec ν) (v : ν) :
    s.ClassifiesAlike v ↔ s.ToldApart v :=
  classifiesAlike_iff_asks.trans asks_iff_toldApart

/-! ### Lists of specifications -/

/-- Specifications that are all told apart are told apart together. -/
theorem anyM_asks {asks : ν → FunctionValue ν → Option Bool} {specs : List (SkippableSpec ν)}
    (h : ∀ s ∈ specs, asks v s.function = some (s.matching v)) :
    (specs.map function).anyM (asks v) = some (specs.any fun s => s.matching v) := by
  induction specs with
  | nil => rfl
  | cons first rest ih =>
      have hfirst := h first List.mem_cons_self
      have hrest := ih fun s hs => h s (List.mem_cons_of_mem _ hs)
      rw [List.map_cons, List.any_cons, List.anyM_cons, hfirst]
      cases hmatch : first.matching v with
      | true => rfl
      | false => exact hrest

/-- Within the budget the skip policy answers by the specs. -/
theorem shouldSkip_specs {specs : List (SkippableSpec ν)} (h : ∀ s ∈ specs, s.ToldApart v)
    {skipCount skipLimit : Int} (hbudget : skipCount < skipLimit) :
    SkipPolicy.shouldSkip (specs.map function) v skipCount skipLimit =
      some (specs.any fun s => s.matching v) := by
  rw [SkipPolicy.shouldSkip, if_neg (by omega)]
  apply anyM_asks
  intro s hs
  exact (asks_iff_toldApart.mpr (h s hs)).1

/-- Within the limit the retry policy answers by the specs. -/
theorem canRetry_specs {specs : List (SkippableSpec ν)} (h : ∀ s ∈ specs, s.ToldApart v)
    {attempt : Nat} {retryLimit : Int} (hlimit : attempt ≤ retryLimit) :
    RetryPolicy.canRetry (specs.map function) v attempt retryLimit =
      some (specs.any fun s => s.matching v) := by
  rw [RetryPolicy.canRetry, if_neg (by omega)]
  apply anyM_asks
  intro s hs
  exact (asks_iff_toldApart.mpr (h s hs)).2

/-! ### The kinds of functions -/

/-- `class E extends Error`: no such class can be called without `new`. -/
def userClass (arity : Nat) (isInstance : ν → Bool) : SkippableSpec ν :=
  .errorClass
    { length := arity
      prototypeInstanceofError := true
      hasInstance := fun v => some (isInstance v)
      call := fun _ => none }
    fun _ => rfl

/-- A class of the language's own: called without `new` it makes an error all the same, unless the
value has no string. -/
def builtinClass (arity : Nat) (isInstance hasString : ν → Bool) : SkippableSpec ν :=
  .errorClass
    { length := arity
      prototypeInstanceofError := true
      hasInstance := fun v => some (isInstance v)
      call := fun v => if hasString v then some true else none }
    fun _ => rfl

/-- `Error` itself, whose prototype is no `Error`. -/
def errorItself (isInstance hasString : ν → Bool) : SkippableSpec ν :=
  .errorClass
    { length := 1
      prototypeInstanceofError := false
      hasInstance := fun v => some (isInstance v)
      call := fun v => if hasString v then some true else none }
    fun _ => rfl

/-- An arrow function, which has no prototype: `instanceof` throws for it, and is false of what is
no object. -/
def arrow (parameters : Nat) (isObject : ν → Bool) (call : ν → Option Bool) : SkippableSpec ν :=
  .predicate
    { length := parameters
      prototypeInstanceofError := false
      hasInstance := fun v => if isObject v then none else some false
      call := call }

/-- A user's class is told apart unless it declares one parameter: then its instances are not
retried. -/
theorem toldApart_userClass (arity : Nat) (isInstance : ν → Bool) :
    (userClass arity isInstance).ToldApart v ↔ arity = 1 → isInstance v = false := by
  simp [userClass, ToldApart, FunctionValue.called]

/-- A built-in class that declares one parameter retries whatever can be made a string. -/
theorem toldApart_builtinClass (arity : Nat) (isInstance hasString : ν → Bool) :
    (builtinClass arity isInstance hasString).ToldApart v ↔
      (arity = 1 → isInstance v = hasString v) := by
  cases h : hasString v <;> simp [builtinClass, ToldApart, FunctionValue.called, h]

/-- `Error` matches for both policies whatever can be made a string. -/
theorem toldApart_errorItself (isInstance hasString : ν → Bool) :
    (errorItself isInstance hasString).ToldApart v ↔ isInstance v = hasString v := by
  cases h : hasString v <;> simp [errorItself, ToldApart, FunctionValue.called, h]

/-- An arrow function is told apart unless it leaves its parameter away or takes more: then retrying
throws for objects and does not match others. -/
theorem toldApart_arrow (parameters : Nat) (isObject : ν → Bool) (call : ν → Option Bool) :
    (arrow parameters isObject call).ToldApart v ↔
      (parameters ≠ 1 → isObject v = false ∧ call v ≠ some true) := by
  have hcalled : (call v).getD false = false ↔ call v ≠ some true := by
    match call v with
    | none => simp
    | some true => simp
    | some false => simp
  cases h : isObject v with
  | true => simp [arrow, ToldApart, h]
  | false => simp [arrow, ToldApart, FunctionValue.called, h, hcalled]

/-! ### A class with one parameter -/

/-- Whether a value is an instance of `class HttpError extends Error { constructor(response) }`. -/
def isHttpError (err : Thrown) : Bool := err.name = .user "HttpError"

/-- **A class whose constructor declares one parameter is skipped but not retried.** -/
theorem http_error_not_retried :
    ¬ (userClass 1 isHttpError).ClassifiesAlike ⟨.user "HttpError", "502"⟩ := by
  intro h
  have hretry := h.retry 1 3 (by decide)
  exact absurd hretry (by decide)

end SkippableSpec

/-! ### The policies of the chunk executor -/

/-- The executor's policies answer as it is meant where every entry is told apart: no test
throws. -/
theorem policies_answer_as_meant {specs : List (SkippableSpec Thrown)} {err : Thrown}
    (h : ∀ s ∈ specs, s.ToldApart err) (limit : Int) :
    (∀ skipCount : Int, skipCount < limit →
      shouldSkip { limit := limit, skippable := specs.map SkippableSpec.function } err skipCount
        limit = .ok (specs.any fun s => s.matching err)) ∧
    ∀ attempt : Nat, attempt ≤ limit →
      canRetry { limit := limit, retryable := specs.map SkippableSpec.function } err attempt
        limit = .ok (specs.any fun s => s.matching err) := by
  constructor
  · intro skipCount hbudget
    unfold shouldSkip
    rw [SkippableSpec.shouldSkip_specs h hbudget]
    rfl
  · intro attempt hlimit
    unfold canRetry
    rw [SkippableSpec.canRetry_specs h hlimit]
    rfl

end NestBatch
