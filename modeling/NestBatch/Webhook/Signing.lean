import NestBatch.Lib.JsInteger
import NestBatch.Lib.JsonText

/-!
# The signature header of a webhook

A request is signed over its time and its body, and the header gives both the time and the
signature, `t=<unix>,v1=<hex>`.  What is built is read back and verifies.  The parser itself asks
for less than that form: it reads the digits in front of a time, the last one of repeated fields,
any text as a signature, and passes over the fields it does not know.

`hmac` gives the digest of a message under a secret in hexadecimal.
-/

namespace NestBatch

open JsString

/-- The `Error` of a helper. -/
structure SigningError where
  message : JsString

section Signing

variable (hmac : JsString → JsString → JsString)

def signV1 (secret : JsString) (timestamp : JsNumber) (rawBody : JsString) :
    Except SigningError JsString :=
  if secret.length = 0 then
    .error ⟨units "[webhook-signing] secret must be a non-empty string"⟩
  else if !timestamp.isFinite || timestamp.isNegative then
    .error ⟨units "[webhook-signing] timestamp must be a non-negative number"⟩
  else .ok (hmac secret (timestamp.text ++ units "." ++ rawBody))

def buildSignatureHeader (secret : JsString) (timestamp : JsNumber) (rawBody : JsString) :
    Except SigningError JsString :=
  (signV1 hmac secret timestamp rawBody).map fun v1 =>
    units "t=" ++ timestamp.text ++ units "," ++ units "v1=" ++ v1

/-- `Buffer.from(text, 'hex')`, as far as there are pairs of digits. -/
def fromHex : JsString → List Nat
  | a :: b :: rest =>
      match Json.hexValue a, Json.hexValue b with
      | some high, some low => (16 * high + low) :: fromHex rest
      | _, _ => []
  | _ => []

/-- `timingSafeEqual`, which throws on buffers of different lengths, and the `catch` around it. -/
def timingSafeEqual (expected candidate : List Nat) : Bool :=
  expected.length = candidate.length && expected = candidate

def verifyV1 (secret : JsString) (timestamp : JsNumber) (rawBody candidateV1 : JsString) :
    Except SigningError Bool :=
  (signV1 hmac secret timestamp rawBody).map fun expected =>
    if candidateV1.length ≠ expected.length then false
    else timingSafeEqual (fromHex expected) (fromHex candidateV1)

end Signing

structure ParsedSignature where
  timestamp : JsInteger
  v1 : JsString

/-- `,`. -/
def commaUnit : UInt16 := 0x2c

/-- The fields of a header, trimmed. -/
def headerParts (header : JsString) : List JsString := (header.splitOn commaUnit).map trim

/-- One field; other ones than `t=` and `v1=` are passed over. -/
def readPart (fields : Option JsInteger × Option JsString) (part : JsString) :
    Except SigningError (Option JsInteger × Option JsString) :=
  if (units "t=").isPrefixOf part then
    let raw := part.drop 2
    let timestamp := JsInteger.parseInt raw
    if !timestamp.isFinite || timestamp.isNegative then
      .error ⟨units "[webhook-signing] invalid t= value: " ++ raw⟩
    else .ok (some timestamp, fields.2)
  else if (units "v1=").isPrefixOf part then
    let v1 := part.drop 3
    if v1.length = 0 then .error ⟨units "[webhook-signing] empty v1= value"⟩
    else .ok (fields.1, some v1)
  else .ok fields

/-- What the fields make, where none is missing. -/
def parsedFields (header : JsString) :
    Option JsInteger × Option JsString → Except SigningError ParsedSignature
  | (some timestamp, some v1) => .ok ⟨timestamp, v1⟩
  | _ => .error ⟨units "[webhook-signing] header missing t= or v1= field: " ++ header⟩

def parseSignatureHeader (header : JsString) : Except SigningError ParsedSignature :=
  if header.length = 0 then .error ⟨units "[webhook-signing] header is empty"⟩
  else do
    let fields ← (headerParts header).foldlM readPart (none, none)
    parsedFields header fields

/-- The documented form, up to blanks around the fields: a time in digits, then a signature in
hexadecimal digits, and nothing else. -/
def DocumentedForm (header : JsString) : Prop :=
  ∃ digits hex, headerParts header = [units "t=" ++ digits, units "v1=" ++ hex] ∧
    (digits ≠ [] ∧ ∀ u ∈ digits, isDigit u = true) ∧
    hex ≠ [] ∧ ∀ u ∈ hex, (Json.hexValue u).isSome

/-- A time has a number ahead that is finite and not below zero. -/
def ReadableTime (raw : JsString) : Prop := ∃ ahead : NumberAhead raw, ahead.Counts

/-- What the checks of the parser catch: a field is missing, a signature is empty, or a time does
not begin with a number that is finite and not below zero. -/
def Caught (header : JsString) : Prop :=
  (∀ raw, units "t=" ++ raw ∉ headerParts header) ∨
  (∀ v1, units "v1=" ++ v1 ∉ headerParts header) ∨
  units "v1=" ∈ headerParts header ∨
  ∃ raw, units "t=" ++ raw ∈ headerParts header ∧ ¬ ReadableTime raw

/-! ### What the parser accepts -/

section Accepted

variable {fields fields' : Option JsInteger × Option JsString} {part raw v1 header : JsString}
variable {parts : List JsString}

theorem isPrefixOf_append (s rest : JsString) : s.isPrefixOf (s ++ rest) = true :=
  List.isPrefixOf_iff_prefix.mpr (List.prefix_append s rest)

/-- No field is both. -/
theorem not_time_of_v1 (v1 : JsString) : (units "t=").isPrefixOf (units "v1=" ++ v1) = false := rfl

/-- A signature part is no time part. -/
theorem v1_ne_time : units "v1=" ++ v1 ≠ units "t=" ++ raw := by
  intro heq
  have hprefix := not_time_of_v1 v1
  rw [heq, isPrefixOf_append] at hprefix
  cases hprefix

/-- A readable time is a finite integer that is not negative. -/
theorem readableTime_iff : ReadableTime raw ↔
    (!(JsInteger.parseInt raw).isFinite || (JsInteger.parseInt raw).isNegative) = false := by
  rw [ReadableTime, NumberAhead.exists_counts_iff, Bool.or_eq_false_iff, Bool.not_eq_false']

/-- A readable time part sets the time. -/
theorem readPart_time (fields : Option JsInteger × Option JsString) (h : ReadableTime raw) :
    readPart fields (units "t=" ++ raw) = .ok (some (JsInteger.parseInt raw), fields.2) := by
  have hdrop : (units "t=" ++ raw).drop 2 = raw := rfl
  rw [readPart, if_pos (isPrefixOf_append _ _)]
  simp only [hdrop, readableTime_iff.mp h, Bool.false_eq_true, if_false]

/-- A time part that is not readable is refused. -/
theorem readPart_time_error (h : ¬ ReadableTime raw) :
    readPart fields (units "t=" ++ raw) =
      .error ⟨units "[webhook-signing] invalid t= value: " ++ raw⟩ := by
  have hdrop : (units "t=" ++ raw).drop 2 = raw := rfl
  have hthrows := Bool.not_eq_false _ ▸ (readableTime_iff.not.mp h)
  rw [readPart, if_pos (isPrefixOf_append _ _)]
  simp only [hdrop, hthrows, if_true]

/-- A signature part sets the signature. -/
theorem readPart_v1 (fields : Option JsInteger × Option JsString) (h : v1 ≠ []) :
    readPart fields (units "v1=" ++ v1) = .ok (fields.1, some v1) := by
  have hdrop : (units "v1=" ++ v1).drop 3 = v1 := rfl
  rw [readPart, not_time_of_v1, if_neg Bool.false_ne_true, if_pos (isPrefixOf_append _ _)]
  simp only [hdrop, List.length_eq_zero_iff, h, if_false]

/-- An empty signature part is refused. -/
theorem readPart_v1_error :
    readPart fields (units "v1=") = .error ⟨units "[webhook-signing] empty v1= value"⟩ := rfl

theorem readPart_other (ht : ∀ raw, part ≠ units "t=" ++ raw)
    (hv1 : ∀ v1, part ≠ units "v1=" ++ v1) : readPart fields part = .ok fields := by
  have hnone : ∀ s : JsString, (∀ rest, part ≠ s ++ rest) → ¬ s.isPrefixOf part = true := by
    intro s hs hprefix
    obtain ⟨rest, hrest⟩ := List.isPrefixOf_iff_prefix.mp hprefix
    exact hs rest hrest.symm
  rw [readPart, if_neg (hnone _ ht), if_neg (hnone _ hv1)]

/-- A field that passes the checks. -/
def Passes (part : JsString) : Prop :=
  (∀ raw, part = units "t=" ++ raw → ReadableTime raw) ∧ part ≠ units "v1="

/-- What a field adds to what has been found. -/
structure Adds (fields fields' : Option JsInteger × Option JsString) (parts : List JsString) :
    Prop where
  time : fields'.1.isSome ↔ fields.1.isSome ∨ ∃ raw, units "t=" ++ raw ∈ parts
  v1 : fields'.2.isSome ↔ fields.2.isSome ∨ ∃ v1, units "v1=" ++ v1 ∈ parts

/-- A part that passes adds its own field. -/
theorem readPart_eq_ok (fields : Option JsInteger × Option JsString) (h : Passes part) :
    ∃ fields', readPart fields part = .ok fields' ∧ Adds fields fields' [part] := by
  by_cases ht : ∃ raw, part = units "t=" ++ raw
  · obtain ⟨raw, rfl⟩ := ht
    refine ⟨_, readPart_time fields (h.1 raw rfl), ?_, ?_⟩
    · exact iff_of_true rfl (Or.inr ⟨raw, List.mem_singleton_self _⟩)
    · refine (or_iff_left fun hv1 => ?_).symm
      obtain ⟨v1, hmem⟩ := hv1
      exact v1_ne_time (List.mem_singleton.mp hmem)
  · by_cases hv1 : ∃ v1, part = units "v1=" ++ v1
    · obtain ⟨v1, rfl⟩ := hv1
      have hne : v1 ≠ [] := fun hnil => h.2 (by rw [hnil, List.append_nil])
      refine ⟨_, readPart_v1 fields hne, ?_, ?_⟩
      · refine (or_iff_left fun hraw => ?_).symm
        obtain ⟨raw, hmem⟩ := hraw
        exact v1_ne_time (List.mem_singleton.mp hmem).symm
      · exact iff_of_true rfl (Or.inr ⟨v1, List.mem_singleton_self _⟩)
    · rw [not_exists] at ht hv1
      refine ⟨_, readPart_other ht hv1, ?_, ?_⟩
      · refine (or_iff_left fun hraw => ?_).symm
        obtain ⟨raw, hmem⟩ := hraw
        exact ht raw (List.mem_singleton.mp hmem).symm
      · refine (or_iff_left fun hfound => ?_).symm
        obtain ⟨v1, hmem⟩ := hfound
        exact hv1 v1 (List.mem_singleton.mp hmem).symm

/-- A part that does not pass is refused. -/
theorem readPart_eq_error (h : ¬ Passes part) : ∃ error, readPart fields part = .error error := by
  rw [Passes, not_and_or, not_forall, not_not] at h
  rcases h with hraw | hv1
  · obtain ⟨raw, hraw⟩ := hraw
    rw [Classical.not_imp] at hraw
    obtain ⟨rfl, htime⟩ := hraw
    exact ⟨_, readPart_time_error htime⟩
  · rw [hv1]
    exact ⟨_, readPart_v1_error⟩

theorem Adds.trans {fields'' : Option JsInteger × Option JsString}
    (hpart : Adds fields fields' [part]) (hrest : Adds fields' fields'' parts) :
    Adds fields fields'' (part :: parts) := by
  refine ⟨?_, ?_⟩
  · rw [hrest.time, hpart.time, or_assoc, ← exists_or]
    simp only [List.mem_cons, List.not_mem_nil, or_false]
  · rw [hrest.v1, hpart.v1, or_assoc, ← exists_or]
    simp only [List.mem_cons, List.not_mem_nil, or_false]

/-- All fields are read if all of them pass. -/
theorem foldlM_readPart_eq_ok (h : ∀ part ∈ parts, Passes part) :
    ∃ fields', parts.foldlM readPart fields = .ok fields' ∧ Adds fields fields' parts := by
  induction parts generalizing fields with
  | nil => exact ⟨fields, rfl, by simp, by simp⟩
  | cons part parts ih =>
      obtain ⟨fields', hread, hpart⟩ := readPart_eq_ok fields (h part List.mem_cons_self)
      obtain ⟨fields'', hrun, hrest⟩ :=
        @ih fields' fun part hmem => h part (List.mem_cons_of_mem _ hmem)
      refine ⟨fields'', ?_, hpart.trans hrest⟩
      rw [List.foldlM_cons, hread]
      exact hrun

/-- One part that does not pass refuses them all. -/
theorem foldlM_readPart_eq_error (h : ∃ part ∈ parts, ¬ Passes part) :
    ∃ error, parts.foldlM readPart fields = .error error := by
  induction parts generalizing fields with
  | nil => simp at h
  | cons part parts ih =>
      rw [List.foldlM_cons]
      cases hread : readPart fields part with
      | error error => exact ⟨error, rfl⟩
      | ok fields' =>
          refine @ih fields' ?_
          obtain ⟨bad, hmem, hbad⟩ := h
          rcases List.mem_cons.mp hmem with rfl | hmem
          · obtain ⟨error, herror⟩ := @readPart_eq_error fields bad hbad
            rw [hread] at herror
            cases herror
          · exact ⟨bad, hmem, hbad⟩

/-- All parts pass exactly when no signature is empty and every time is readable. -/
theorem passes_iff : (∀ part ∈ parts, Passes part) ↔
    units "v1=" ∉ parts ∧ ∀ raw, units "t=" ++ raw ∈ parts → ReadableTime raw := by
  constructor
  · intro h
    exact ⟨fun hmem => (h _ hmem).2 rfl, fun raw hmem => (h _ hmem).1 raw rfl⟩
  · intro h part hmem
    exact ⟨fun raw hraw => h.2 raw (hraw ▸ hmem), fun hv1 => h.1 (hv1 ▸ hmem)⟩

theorem parse_of_ne_nil (hheader : header ≠ []) : parseSignatureHeader header =
    (headerParts header).foldlM readPart (none, none) >>= parsedFields header :=
  if_neg fun h => hheader (List.length_eq_zero_iff.mp h)

/-- A header is accepted exactly when it has a time and a signature. -/
theorem parsedFields_isOk_iff (fields : Option JsInteger × Option JsString) :
    (∃ parsed, parsedFields header fields = .ok parsed) ↔ fields.1.isSome ∧ fields.2.isSome := by
  obtain ⟨timestamp, v1⟩ := fields
  cases timestamp <;> cases v1 <;> simp [parsedFields]

theorem caught_nil : Caught [] := by
  refine Or.inl fun raw hmem => ?_
  exact absurd (List.mem_singleton.mp hmem) (List.cons_ne_nil _ _)

/-- **What the parser accepts** is what its checks do not catch. -/
theorem parse_isOk_iff (header : JsString) :
    (∃ parsed, parseSignatureHeader header = .ok parsed) ↔ ¬ Caught header := by
  by_cases hheader : header = []
  · rw [hheader]
    refine iff_of_false (fun h => ?_) (not_not.mpr caught_nil)
    obtain ⟨parsed, hparsed⟩ := h
    cases hparsed
  · by_cases hpass : ∀ part ∈ headerParts header, Passes part
    · obtain ⟨fields, hread, hadds⟩ := @foldlM_readPart_eq_ok (none, none) _ hpass
      have htime : fields.1.isSome ↔ ∃ raw, units "t=" ++ raw ∈ headerParts header := by
        rw [hadds.time]
        exact or_iff_right Bool.false_ne_true
      have hv1 : fields.2.isSome ↔ ∃ v1, units "v1=" ++ v1 ∈ headerParts header := by
        rw [hadds.v1]
        exact or_iff_right Bool.false_ne_true
      rw [passes_iff] at hpass
      have hparse : parseSignatureHeader header = parsedFields header fields := by
        rw [parse_of_ne_nil hheader, hread]
        rfl
      rw [hparse, parsedFields_isOk_iff, htime, hv1]
      constructor
      · intro h hcaught
        rcases hcaught with hnone | hnone | hempty | hbad
        · obtain ⟨⟨raw, hmem⟩, -⟩ := h
          exact hnone raw hmem
        · obtain ⟨-, ⟨v1, hmem⟩⟩ := h
          exact hnone v1 hmem
        · exact hpass.1 hempty
        · obtain ⟨raw, hmem, htime⟩ := hbad
          exact htime (hpass.2 raw hmem)
      · intro h
        rw [Caught, not_or, not_or] at h
        obtain ⟨hsome, hsome', -⟩ := h
        exact ⟨by simpa using hsome, by simpa using hsome'⟩
    · refine iff_of_false (fun h => ?_) (not_not.mpr ?_)
      · obtain ⟨parsed, hparsed⟩ := h
        simp only [not_forall] at hpass
        obtain ⟨part, hmem, hbad⟩ := hpass
        obtain ⟨error, herror⟩ := @foldlM_readPart_eq_error (none, none) _ ⟨part, hmem, hbad⟩
        rw [parse_of_ne_nil hheader, herror] at hparsed
        cases hparsed
      · rw [passes_iff, not_and_or, not_not, not_forall] at hpass
        rcases hpass with hempty | htime
        · exact Or.inr (Or.inr (Or.inl hempty))
        · obtain ⟨raw, hraw⟩ := htime
          exact Or.inr (Or.inr (Or.inr ⟨raw, Classical.not_imp.mp hraw⟩))

/-- A time and a signature, and nothing else. -/
theorem parse_of_parts {raw v1 : JsString}
    (hparts : headerParts header = [units "t=" ++ raw, units "v1=" ++ v1])
    (htime : ReadableTime raw) (hv1 : v1 ≠ []) :
    parseSignatureHeader header = .ok ⟨JsInteger.parseInt raw, v1⟩ := by
  have hheader : header ≠ [] := by
    intro hnil
    rw [hnil] at hparts
    have hlength : 1 = 2 := congrArg List.length hparts
    cases hlength
  rw [parse_of_ne_nil hheader, hparts, List.foldlM_cons, readPart_time _ htime]
  change ([units "v1=" ++ v1].foldlM readPart (some (JsInteger.parseInt raw), none) >>=
    parsedFields header) = _
  rw [List.foldlM_cons, readPart_v1 _ hv1]
  rfl

end Accepted

/-! ### What is built -/

section Built

variable {hmac : JsString → JsString → JsString} {secret body : JsString} {t : Nat}

/-- 64 digits in lower case. -/
structure HexDigest (digest : JsString) : Prop where
  length_eq : digest.length = 64
  lower : ∀ u ∈ digest, (48 ≤ u ∧ u ≤ 57) ∨ (97 ≤ u ∧ u ≤ 102)

/-- A natural number is not negative. -/
theorem isNegative_ofNat (t : Nat) : (JsNumber.ofNat t).isNegative = false := by
  obtain ⟨u, digits, hdigits⟩ := List.exists_cons_of_ne_nil (decimal_ne_nil t)
  have hu : isDigit u = true := isDigit_of_mem_decimal (hdigits ▸ List.mem_cons_self)
  change decide ((decimal t).head? = some 45) = false
  rw [hdigits, List.head?_cons, decide_eq_false_iff_not, Option.some.injEq]
  exact (ne_sign_of_isDigit hu).2

/-- With a secret the signature is over the time, a dot and the body. -/
theorem signV1_ofNat (hsecret : secret ≠ []) : signV1 hmac secret (.ofNat t) body =
    .ok (hmac secret (decimal t ++ units "." ++ body)) := by
  have hfinite : (JsNumber.ofNat t).isFinite = true := rfl
  rw [signV1, if_neg fun h => hsecret (List.length_eq_zero_iff.mp h), hfinite, isNegative_ofNat]
  rfl

/-- A unit of a hex digest is neither white space nor the comma. -/
theorem not_isTrimmable_of_lower {u : UInt16} (h : (48 ≤ u ∧ u ≤ 57) ∨ (97 ≤ u ∧ u ≤ 102)) :
    JsString.isTrimmable u = false ∧ u ≠ commaUnit ∧ (Json.hexValue u).isSome := by
  have hall : ∀ n < 103, (48 ≤ n ∧ n ≤ 57) ∨ (97 ≤ n ∧ n ≤ 102) →
      JsString.isTrimmable n.toUInt16 = false ∧ n.toUInt16 ≠ commaUnit ∧
        (Json.hexValue n.toUInt16).isSome := by decide
  simp only [UInt16.le_iff_toNat_le] at h
  change (48 ≤ u.toNat ∧ u.toNat ≤ 57) ∨ (97 ≤ u.toNat ∧ u.toNat ≤ 102) at h
  have hu := hall u.toNat (by omega) h
  rwa [Nat.toUInt16, UInt16.ofNat_toNat] at hu

theorem HexDigest.ne_nil {v1 : JsString} (h : HexDigest v1) : v1 ≠ [] := by
  intro hnil
  have hlength := h.length_eq
  rw [hnil] at hlength
  cases hlength

/-- A field without blanks at its end. -/
theorem trim_field {name value : JsString}
    (hname : (name.head?.all fun u => !JsString.isTrimmable u) = true) (hne : name ≠ [])
    (hvalue : value ≠ []) (hplain : ∀ u ∈ value, JsString.isTrimmable u = false) :
    trim (name ++ value) = name ++ value := by
  refine trim_of_ends (fun u hu => ?_) fun u hu => ?_
  · rw [List.head?_append_of_ne_nil name hne] at hu
    rw [hu] at hname
    rwa [Option.all_some, Bool.not_eq_true'] at hname
  · rw [List.getLast?_append_of_ne_nil name hvalue] at hu
    exact hplain u (List.mem_of_getLast? hu)

/-- A built header has its two parts. -/
theorem headerParts_build {v1 : JsString} (h : HexDigest v1) :
    headerParts (units "t=" ++ decimal t ++ units "," ++ units "v1=" ++ v1) =
      [units "t=" ++ decimal t, units "v1=" ++ v1] := by
  have hcomma : units "," = [commaUnit] := rfl
  have hshape : units "t=" ++ decimal t ++ units "," ++ units "v1=" ++ v1 =
      (units "t=" ++ decimal t) ++ commaUnit :: (units "v1=" ++ v1) := by
    rw [hcomma]
    simp only [List.append_assoc, List.cons_append, List.nil_append]
  have htime : commaUnit ∉ units "t=" ++ decimal t := by
    rw [List.mem_append, not_or]
    refine ⟨by decide, fun hmem => ?_⟩
    exact absurd (isDigit_of_mem_decimal hmem) (by decide)
  have hv1 : commaUnit ∉ units "v1=" ++ v1 := by
    rw [List.mem_append, not_or]
    refine ⟨by decide, fun hmem => ?_⟩
    exact (not_isTrimmable_of_lower (h.lower _ hmem)).2.1 rfl
  rw [headerParts, hshape, List.splitOn_append_cons_self_of_not_mem htime,
    List.splitOn_eq_singleton hv1, List.map_cons, List.map_singleton,
    trim_field (by decide) (by decide) (decimal_ne_nil t) fun u hu =>
      isTrimmable_of_isDigit (isDigit_of_mem_decimal hu),
    trim_field (by decide) (by decide) h.ne_nil fun u hu =>
      (not_isTrimmable_of_lower (h.lower u hu)).1]

/-- What is built is read back. -/
theorem parse_signed {v1 : JsString} (h : HexDigest v1) (ht : t ≤ maxSafeInteger) :
    parseSignatureHeader (units "t=" ++ decimal t ++ units "," ++ units "v1=" ++ v1) =
      .ok ⟨.whole false t, v1⟩ := by
  have hread := JsInteger.parseInt_decimal ht
  have htime : ReadableTime (decimal t) := by
    rw [readableTime_iff, hread]
    rfl
  rw [parse_of_parts (headerParts_build h) htime h.ne_nil, hread]

/-- What is signed verifies. -/
theorem verifyV1_self {timestamp : JsNumber} {v1 : JsString}
    (h : signV1 hmac secret timestamp body = .ok v1) :
    verifyV1 hmac secret timestamp body v1 = .ok true := by
  have hequal : timingSafeEqual (fromHex v1) (fromHex v1) = true := by
    simp [timingSafeEqual]
  rw [verifyV1, h, Except.map, if_neg (fun hne => hne rfl), hequal]

end Built

/-- **Headers that are built are read back and verify.  A header that the parser accepts is of the
documented form if and only if** it is of that form or one of the checks catches it. -/
theorem signature_headers_iff (hmac : JsString → JsString → JsString)
    (hhex : ∀ secret message, HexDigest (hmac secret message)) :
    (∀ secret t body, secret ≠ [] → t ≤ maxSafeInteger → ∃ header v1,
      buildSignatureHeader hmac secret (.ofNat t) body = .ok header ∧
      signV1 hmac secret (.ofNat t) body = .ok v1 ∧
      parseSignatureHeader header = .ok ⟨.whole false t, v1⟩ ∧
      verifyV1 hmac secret (.ofNat t) body v1 = .ok true) ∧
    ∀ header, ((∃ parsed, parseSignatureHeader header = .ok parsed) → DocumentedForm header) ↔
      DocumentedForm header ∨ Caught header := by
  refine ⟨fun secret t body hsecret ht => ?_, fun header => ?_⟩
  · have hsigned := @signV1_ofNat hmac secret body t hsecret
    have hdigest := hhex secret (decimal t ++ units "." ++ body)
    refine ⟨_, _, ?_, hsigned, parse_signed hdigest ht, verifyV1_self hsigned⟩
    rw [buildSignatureHeader, hsigned]
    rfl
  · rw [parse_isOk_iff]
    exact or_iff_not_imp_right.symm

/-- The digest of `1717941612.{}` under `secret`. -/
def sampleDigest : JsString :=
  units "ea4239f3faa79d4baee0aed33f67aba9e4fff5405ef22438dbf0114df5f13f5b"

/-- The sample digest is one. -/
theorem hexDigest_sample : HexDigest sampleDigest where
  length_eq := rfl
  lower := by
    have hall : (sampleDigest.all fun u =>
        decide ((48 ≤ u ∧ u ≤ 57) ∨ (97 ≤ u ∧ u ≤ 102))) = true := by decide +kernel
    exact fun u hu => of_decide_eq_true (List.all_eq_true.mp hall u hu)

/-- The header of an empty object is read back. -/
theorem signature_headers_sample : ∃ header v1,
    buildSignatureHeader (fun _ _ => sampleDigest) (units "secret") (.ofNat 1717941612)
      (units "\x7b\x7d") = .ok header ∧
    signV1 (fun _ _ => sampleDigest) (units "secret") (.ofNat 1717941612) (units "\x7b\x7d") =
      .ok v1 ∧
    parseSignatureHeader header = .ok ⟨.whole false 1717941612, v1⟩ ∧
    verifyV1 (fun _ _ => sampleDigest) (units "secret") (.ofNat 1717941612) (units "\x7b\x7d") v1 =
      .ok true :=
  (signature_headers_iff (fun _ _ => sampleDigest) fun _ _ => hexDigest_sample).1 _ _ _
    (by decide) (by decide)

/-- **Headers that are not of the documented form are accepted**: with text behind the digits of
the time, with a signature that is none, with a version that is not known. -/
theorem parser_accepts_malformed :
    (parseSignatureHeader (units "t=12abc,v1=zz") = .ok ⟨.whole false 12, units "zz"⟩ ∧
      ¬ DocumentedForm (units "t=12abc,v1=zz")) ∧
    parseSignatureHeader (units "t=12,v1=ab,v2=cd") = .ok ⟨.whole false 12, units "ab"⟩ ∧
      ¬ DocumentedForm (units "t=12,v1=ab,v2=cd") := by
  refine ⟨⟨rfl, fun h => ?_⟩, rfl, fun h => ?_⟩
  · obtain ⟨digits, hex, hparts, ⟨-, hdigits⟩, -⟩ := h
    have hread : headerParts (units "t=12abc,v1=zz") =
        [units "t=" ++ units "12abc", units "v1=" ++ units "zz"] := rfl
    rw [hread, List.cons.injEq, List.append_cancel_left_eq] at hparts
    exact absurd (hdigits 0x61 (hparts.1 ▸ by decide)) (by decide)
  · obtain ⟨digits, hex, hparts, -⟩ := h
    have hlength : 3 = 2 := congrArg List.length hparts
    cases hlength

end NestBatch
