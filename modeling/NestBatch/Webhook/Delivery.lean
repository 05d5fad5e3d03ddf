import Mathlib.Data.ENat.Lattice
import NestBatch.Lib.JsTree
import NestBatch.Lib.Pool
import NestBatch.Webhook.Signing

/-!
# The delivery of webhooks

An event is posted to every URL, with a budget of attempts each.  A delivery ends with the first
response that is a success or an error of the client; other responses and network errors are tried
again.  A delivery without success leaves one dead letter in the log.

The deliveries of an event go on side by side; a step is one operation of one of them.
-/

namespace NestBatch

open JsString JsTree Prog

/-! ### One delivery -/

structure PostRequest where
  url : JsString
  signature : JsString
  timestamp : JsString
  body : JsString

/-- What comes of a `fetch`: a response, or what is thrown. -/
inductive FetchResult
  | status (code : Nat)
  | threw (message : JsString)

inductive AttemptResult
  | success (status : Nat)
  | clientError (status : Nat)
  | serverError (status : Nat)
  | networkError (error : JsString)

inductive LogLevel
  | debug
  | log
  | warn
  deriving DecidableEq

/-- What a delivery does to the world. -/
inductive DeliveryOp
  /-- `Math.floor(Date.now() / 1000)`. -/
  | now
  | post (request : PostRequest)
  | log (level : LogLevel) (message : JsString)
  | sleep (ms : Nat)

@[reducible] def DeliveryOp.Answer : DeliveryOp → Type
  | .now => Nat
  | .post _ => FetchResult
  | .log _ _ | .sleep _ => Unit

abbrev DeliveryCode := Prog DeliveryOp DeliveryOp.Answer SigningError

def writeLog (level : LogLevel) (message : JsString) : DeliveryCode Unit :=
  perform (DeliveryOp.log level message)

def sleep (ms : Nat) : DeliveryCode Unit := perform (DeliveryOp.sleep ms)

/-- A `BatchEvent`; `timestamp` is its ISO text. -/
structure WebhookEvent where
  type : JsString
  timestamp : JsString
  jobExecutionId : JsString
  stepExecutionId : Option JsString
  data : JsTree

/-- What the observer has: resolved options, and the schedule of its retries. -/
structure WebhookBatchObserver where
  secret : JsString
  urls : List JsString
  attempts : Nat
  retryDelaysMs : List Nat
  secret_ne_nil : secret ≠ []
  attempts_pos : 0 < attempts

/-! ### The options -/

/-- What the host passes to `forRoot`, as far as deliveries use it. -/
structure WebhookBatchModuleOptions where
  secret : Option JsString := none
  urls : List JsString := []
  attempts : Option Int := none

/-- `process.env`. -/
structure WebhookEnv where
  hmacSecret : Option JsString := none
  testFast : Option JsString := none

structure ResolvedWebhookOptions where
  secret : JsString
  urls : List JsString
  attempts : Nat
  secret_ne_nil : secret ≠ []
  attempts_pos : 0 < attempts

/-- A secret that is set is not empty. -/
def nonEmptySecret : Option JsString → Option { secret : JsString // secret ≠ [] }
  | some (c :: cs) => some ⟨c :: cs, List.cons_ne_nil c cs⟩
  | _ => none

def pickSecret (env : WebhookEnv) (hostInjected : Option JsString) :
    Option { secret : JsString // secret ≠ [] } :=
  (nonEmptySecret hostInjected).or (nonEmptySecret env.hmacSecret)

def resolveWebhookOptions (env : WebhookEnv) (raw : WebhookBatchModuleOptions) :
    Except String ResolvedWebhookOptions :=
  match pickSecret env raw.secret with
  | none => .error ("[WebhookBatchModule] secret is required: pass \x60secret\x60 to " ++
      "forRoot() or set the WEBHOOK_HMAC_SECRET env var")
  | some secret =>
      if [] ∈ raw.urls then
        .error "[WebhookBatchModule] every entry in \x60urls\x60 must be a non-empty string"
      else
        .ok { secret := secret.1, urls := raw.urls
              attempts := (max 1 (min 4 (raw.attempts.getD 4))).toNat
              secret_ne_nil := secret.2, attempts_pos := by omega }

namespace WebhookBatchObserver

end WebhookBatchObserver

/-- A budget of one to four attempts is kept, and no other can be had. -/
theorem resolved_attempts {env : WebhookEnv} {raw : WebhookBatchModuleOptions}
    {options : ResolvedWebhookOptions} (h : resolveWebhookOptions env raw = .ok options) :
    options.attempts ≤ 4 ∧
      ∀ n, raw.attempts = some n → 1 ≤ n → n ≤ 4 → (options.attempts : Int) = n := by
  unfold resolveWebhookOptions at h
  split at h
  · cases h
  · split at h
    · cases h
    · obtain rfl := Except.ok.inj h
      dsimp only
      refine ⟨by omega, ?_⟩
      intro n hn hlow hhigh
      rw [hn, Option.getD_some]
      omega

namespace WebhookBatchObserver

variable (hmac : JsString → JsString → JsString) (sha256 : JsString → JsString)
variable (observer : WebhookBatchObserver)

def fingerprintSecret (secret : JsString) : JsString :=
  if secret.length = 0 then units "<missing>" else (sha256 secret).take 12

/-- `attemptOnce`. -/
def classify : FetchResult → AttemptResult
  | .status code =>
      if 200 ≤ code ∧ code < 300 then .success code
      else if 400 ≤ code ∧ code < 500 then .clientError code
      else .serverError code
  | .threw message => .networkError message

def attemptOnce (request : PostRequest) : DeliveryCode AttemptResult := do
  let result ← perform (DeliveryOp.post request)
  return classify result

/-- ` type=… jobExecutionId=…`, as it stands in every message. -/
def eventText (event : WebhookEvent) : JsString :=
  units " type=" ++ event.type ++ units " jobExecutionId=" ++ event.jobExecutionId

def progressText (attempt : Nat) : JsString :=
  units " attempt=" ++ decimal attempt ++ units "/" ++ decimal observer.attempts

def deliveredMessage (url : JsString) (event : WebhookEvent) (attempt status : Nat) : JsString :=
  units "delivered url=" ++ url ++ eventText event ++ observer.progressText attempt ++
    units " status=" ++ decimal status ++ (if attempt > 1 then units " (after retry)" else [])

def statusText : Option Nat → JsString
  | some status => decimal status
  | none => units "n/a"

def deadLetterMessage (url : JsString) (event : WebhookEvent) (attempts : Nat)
    (lastStatus : Option Nat) (lastError : JsString) : JsString :=
  units "[WebhookBatchObserver] dead-letter url=" ++ url ++ units " attempts=" ++
    decimal attempts ++ units " lastStatus=" ++ statusText lastStatus ++ units " lastError=" ++
    lastError ++ eventText event ++ units " secret_sha256=" ++
    fingerprintSecret sha256 observer.secret

def retryMessage (url : JsString) (attempt : Nat) (lastStatus : Option Nat) (lastError : JsString)
    (delayMs : Nat) : JsString :=
  units "retry url=" ++ url ++ observer.progressText attempt ++ units " status=" ++
    statusText lastStatus ++ units " lastError=" ++ lastError ++ units " nextDelayMs=" ++
    decimal delayMs

/-- What a retry waits for. -/
def delayMs (attempt : Nat) : Nat :=
  observer.retryDelaysMs.getD (min (attempt - 1) (observer.retryDelaysMs.length - 1)) 0

/-- `HTTP <status>`. -/
def httpText (status : Nat) : JsString := units "HTTP " ++ decimal status

/-- What is done behind an attempt that is tried again. -/
def beforeRetry (url : JsString) (attempt : Nat) (lastStatus : Option Nat)
    (lastError : JsString) : DeliveryCode Unit := do
  if attempt < observer.attempts then
    writeLog .debug (observer.retryMessage url attempt lastStatus lastError
      (observer.delayMs attempt))
    sleep (observer.delayMs attempt)

/-- The loop of `deliverToUrl`, with so many attempts left. -/
def attemptsFrom (event : WebhookEvent) (request : PostRequest) :
    Nat → Nat → Option Nat → Option JsString → DeliveryCode Unit
  | 0, _, lastStatus, lastError =>
      writeLog .warn (observer.deadLetterMessage sha256 request.url event observer.attempts
        lastStatus (lastError.getD (units "n/a")))
  | left + 1, attempt, _, _ => do
      match ← attemptOnce request with
      | .success status =>
          writeLog (if attempt > 1 then .log else .debug)
            (observer.deliveredMessage request.url event attempt status)
      | .clientError status =>
          writeLog .warn (observer.deadLetterMessage sha256 request.url event attempt
            (some status) (httpText status))
      | .serverError status => do
          observer.beforeRetry request.url attempt (some status) (httpText status)
          attemptsFrom event request left (attempt + 1) (some status) (some (httpText status))
      | .networkError error => do
          observer.beforeRetry request.url attempt none error
          attemptsFrom event request left (attempt + 1) none (some error)

end WebhookBatchObserver

/-! ### What a delivery comes to -/

/-- The URL's side of a delivery: the time it begins, and what comes of each of its attempts. -/
structure Receiver where
  clock : Nat
  outcomes : Nat → FetchResult

/-- What has come of a delivery so far. -/
structure Delivery where
  posts : List PostRequest := []
  logs : List (LogLevel × JsString) := []

def Delivery.warnings (d : Delivery) : List JsString :=
  (d.logs.filter fun entry => entry.1 = .warn).map Prod.snd

def Receiver.trans (receiver : Receiver) :
    (o : DeliveryOp) → Delivery → o.Answer → Delivery → Prop
  | .now, d, timestamp, d' => timestamp = receiver.clock ∧ d' = d
  | .post request, d, result, d' =>
      result = receiver.outcomes d.posts.length ∧ d' = { d with posts := d.posts ++ [request] }
  | .log level message, d, _, d' => d' = { d with logs := d.logs ++ [(level, message)] }
  | .sleep _, d, _, d' => d' = d

/-- The operations of one delivery; its loop does not go on for ever. -/
def Receiver.logic (receiver : Receiver) : Logic DeliveryOp DeliveryOp.Answer Delivery where
  trans := receiver.trans
  guard _ _ := True
  loops := False

namespace AttemptResult

def IsSuccess : AttemptResult → Prop
  | .success _ => True
  | _ => False

/-- There is no other attempt behind it. -/
def IsFinal : AttemptResult → Prop
  | .success _ | .clientError _ => True
  | _ => False

def lastStatus : AttemptResult → Option Nat
  | .success status | .clientError status | .serverError status => some status
  | .networkError _ => none

def lastError : AttemptResult → JsString
  | .success status | .clientError status | .serverError status =>
      WebhookBatchObserver.httpText status
  | .networkError error => error

end AttemptResult

/-- The result of the attempt behind `k` others. -/
def Receiver.result (receiver : Receiver) (k : Nat) : AttemptResult :=
  WebhookBatchObserver.classify (receiver.outcomes k)

/-- The position of the first attempt that is final. -/
noncomputable def Receiver.firstFinal (receiver : Receiver) : ℕ∞ :=
  ⨅ k : Nat, ⨅ _ : (receiver.result k).IsFinal, ((k + 1 : Nat) : ℕ∞)

/-- The request of a delivery has been posted `n` times, and that is all. -/
structure Ended (sha256 : JsString → JsString) (observer : WebhookBatchObserver)
    (event : WebhookEvent) (receiver : Receiver) (request : PostRequest) (n : Nat)
    (d : Delivery) : Prop where
  count : (n : ℕ∞) = min (observer.attempts : ℕ∞) receiver.firstFinal
  posts : d.posts = List.replicate n request
  delivered : (∃ k < n, (receiver.result k).IsSuccess) → d.warnings = []
  dead : (∀ k < n, ¬ (receiver.result k).IsSuccess) → d.warnings =
    [observer.deadLetterMessage sha256 request.url event n (receiver.result (n - 1)).lastStatus
      (receiver.result (n - 1)).lastError]

/-- The request has been posted `n` times, and no attempt was final. -/
structure Going (receiver : Receiver) (request : PostRequest) (n : Nat) (d : Delivery) : Prop where
  posts : d.posts = List.replicate n request
  silent : d.warnings = []
  unfinished : ∀ k < n, ¬ (receiver.result k).IsFinal

section Loop

variable {sha256 : JsString → JsString} {observer : WebhookBatchObserver} {event : WebhookEvent}
variable {receiver : Receiver} {request : PostRequest} {d : Delivery} {n : Nat}

/-- The first final answer is the first that is final. -/
theorem firstFinal_eq (hfinal : (receiver.result n).IsFinal)
    (hbefore : ∀ k < n, ¬ (receiver.result k).IsFinal) :
    receiver.firstFinal = (n + 1 : Nat) := by
  refine le_antisymm (iInf₂_le n hfinal) (le_iInf₂ fun k hk => ?_)
  have hle : n ≤ k := Nat.not_lt.mp fun hlt => hbefore k hlt hk
  exact Nat.cast_le.mpr (Nat.succ_le_succ hle)

/-- While no answer is final the first final one is still ahead. -/
theorem le_firstFinal (hbefore : ∀ k < n, ¬ (receiver.result k).IsFinal) :
    (n : ℕ∞) ≤ receiver.firstFinal := by
  refine le_iInf₂ fun k hk => ?_
  have hle : n ≤ k := Nat.not_lt.mp fun hlt => hbefore k hlt hk
  exact Nat.cast_le.mpr (Nat.le_succ_of_le hle)

/-- A success is final. -/
theorem AttemptResult.IsSuccess.final {result : AttemptResult} (h : result.IsSuccess) :
    result.IsFinal := by
  cases result with
  | success status => trivial
  | _ => exact h.elim

/-- The warnings of a delivery are those of its logs. -/
theorem warnings_log (level : LogLevel) (message : JsString) :
    ({ d with logs := d.logs ++ [(level, message)] } : Delivery).warnings =
      d.warnings ++ if level = .warn then [message] else [] := by
  unfold Delivery.warnings
  rw [List.filter_append, List.map_append]
  by_cases hlevel : level = .warn
  · simp [hlevel]
  · simp [hlevel]

/-- One more attempt that is not final. -/
theorem Going.post (h : Going receiver request n d) (hretry : ¬ (receiver.result n).IsFinal) :
    Going receiver request (n + 1) { d with posts := d.posts ++ [request] } := by
  refine ⟨?_, h.silent, fun k hk => ?_⟩
  · change d.posts ++ [request] = _
    rw [h.posts, ← List.replicate_succ']
  · rcases Nat.lt_succ_iff_lt_or_eq.mp hk with hlt | rfl
    · exact h.unfinished k hlt
    · exact hretry

/-- A message below a warning keeps the delivery going. -/
theorem Going.log (h : Going receiver request n d) {level : LogLevel} (hlevel : level ≠ .warn)
    (message : JsString) :
    Going receiver request n { d with logs := d.logs ++ [(level, message)] } := by
  refine ⟨h.posts, ?_, h.unfinished⟩
  rw [warnings_log, h.silent, if_neg hlevel]
  rfl

/-- The final attempt, and the line that is logged behind it. -/
theorem Going.ended (h : Going receiver request n d) (hleft : n < observer.attempts)
    (hfinal : (receiver.result n).IsFinal) {level : LogLevel} {message : JsString}
    (hsuccess : (receiver.result n).IsSuccess → level ≠ .warn)
    (hdead : ¬ (receiver.result n).IsSuccess → level = .warn ∧ message =
      observer.deadLetterMessage sha256 request.url event (n + 1) (receiver.result n).lastStatus
        (receiver.result n).lastError) :
    Ended sha256 observer event receiver request (n + 1)
      { posts := d.posts ++ [request], logs := d.logs ++ [(level, message)] } := by
  have hwarnings : ({ posts := d.posts ++ [request], logs := d.logs ++ [(level, message)] } :
      Delivery).warnings = if level = .warn then [message] else [] := by
    have hlog := @warnings_log d level message
    rw [h.silent, List.nil_append] at hlog
    exact hlog
  refine ⟨?_, ?_, fun hsome => ?_, fun hnone => ?_⟩
  · rw [firstFinal_eq hfinal h.unfinished, min_eq_right]
    exact Nat.cast_le.mpr hleft
  · change d.posts ++ [request] = _
    rw [h.posts, ← List.replicate_succ']
  · obtain ⟨k, hk, hresult⟩ := hsome
    rw [hwarnings]
    rcases Nat.lt_succ_iff_lt_or_eq.mp hk with hlt | rfl
    · exact absurd hresult.final (h.unfinished k hlt)
    · exact if_neg (hsuccess hresult)
  · obtain ⟨hlevel, hmessage⟩ := hdead (hnone n (Nat.lt_succ_self n))
    rw [hwarnings, if_pos hlevel, hmessage]
    rfl

/-- The budget is spent. -/
theorem Going.exhausted (h : Going receiver request n d) (hspent : n = observer.attempts)
    {message : JsString} (hmessage : message =
      observer.deadLetterMessage sha256 request.url event n
        (receiver.result (n - 1)).lastStatus (receiver.result (n - 1)).lastError) :
    Ended sha256 observer event receiver request n
      { d with logs := d.logs ++ [(.warn, message)] } := by
  refine ⟨?_, h.posts, fun hsome => ?_, fun _ => ?_⟩
  · rw [← hspent, min_eq_left (le_firstFinal h.unfinished)]
  · obtain ⟨k, hk, hresult⟩ := hsome
    exact absurd hresult.final (h.unfinished k hk)
  · rw [warnings_log, h.silent, hmessage]
    rfl

/-- A log line is added to the logs and nothing else. -/
theorem wp_writeLog {level : LogLevel} {message : JsString}
    {Q : Except SigningError Unit → Delivery → Prop} :
    wp receiver.logic (writeLog level message) Q d ↔
      Q (.ok ()) { d with logs := d.logs ++ [(level, message)] } := by
  constructor
  · intro h
    exact h.2 () _ rfl
  · intro h
    refine ⟨trivial, fun _ d' ht => ?_⟩
    cases ht
    exact h

/-- Nothing but the log changes between two attempts, and no warning is written. -/
theorem Going.beforeRetry (h : Going receiver request n d) (attempt : Nat)
    (lastStatus : Option Nat) (lastError : JsString) :
    wp receiver.logic (observer.beforeRetry request.url attempt lastStatus lastError)
      (fun out d' => out = .ok () ∧ Going receiver request n d') d := by
  unfold WebhookBatchObserver.beforeRetry
  split
  · refine wp_bind.mpr (wp_writeLog.mpr ⟨trivial, fun _ d' ht => ?_⟩)
    cases ht
    exact ⟨rfl, h.log (by decide) _⟩
  · exact ⟨rfl, h⟩

end Loop

/-- The deliveries of an event, side by side. -/
abbrev Fanout (observer : WebhookBatchObserver) :=
  Pool (Fin observer.urls.length) DeliveryOp DeliveryOp.Answer SigningError Unit
    (Fin observer.urls.length → Delivery)

section Fanout

variable {hmac : JsString → JsString → JsString} {sha256 : JsString → JsString}
variable {observer : WebhookBatchObserver} {event : WebhookEvent}

/-- One step of the deliveries. -/
abbrev Fanout.Step (receivers : Fin observer.urls.length → Receiver) (P Q : Fanout observer) :
    Prop := Pool.Step (Pool.separately fun i => (receivers i).logic) P Q

abbrev Fanout.Reaches (receivers : Fin observer.urls.length → Receiver) (P Q : Fanout observer) :
    Prop := Pool.Reaches (Pool.separately fun i => (receivers i).logic) P Q

variable {receivers : Fin observer.urls.length → Receiver} {Q : Fanout observer}

/-- The receiver answers every call. -/
theorem Receiver.exists_answer (receiver : Receiver) (o : DeliveryOp) (d : Delivery) :
    ∃ r d', receiver.logic.trans o d r d' := by
  cases o with
  | now => exact ⟨_, _, rfl, rfl⟩
  | post request => exact ⟨_, _, rfl, rfl⟩
  | log level message => exact ⟨(), _, rfl⟩
  | sleep ms => exact ⟨(), _, rfl⟩

end Fanout

end NestBatch
