import NestBatch.Core.Ir
import NestBatch.Lib.JsTree

/-!
# The arguments of a worker

An external task is told what to run by arguments: a flag, and its value in the argument behind
it.  The worker takes every argument that starts with two hyphens for a flag, also where a value
is due.  So the arguments are decoded to what was encoded as long as no value looks like a flag.

`number` is `Number`, whatever it makes of a text.
-/

namespace NestBatch

open JsString JsTree

/-- `startsWith('--')`. -/
def isFlag (arg : JsString) : Bool := (units "--").isPrefixOf arg

/-- `=`. -/
def equalsSign : UInt16 := 0x3d

/-- `out[key] = value`; a string makes no entry under `__proto__`. -/
def assignFlag (out : JsMap JsString JsString) (key value : JsString) : JsMap JsString JsString :=
  if key = units "__proto__" then out else out.set key value

/-- The loop of `parseBatchWorkerArgs`. -/
def readFlags : List JsString → JsMap JsString JsString → JsMap JsString JsString
  | [], out => out
  | arg :: rest, out =>
      if !isFlag arg then readFlags rest out
      else if equalsSign ∈ arg then
        let eq := arg.idxOf equalsSign
        readFlags rest (assignFlag out ((arg.take eq).drop 2) (arg.drop (eq + 1)))
      else
        match rest with
        | [] => assignFlag out (arg.drop 2) (units "true")
        | next :: rest =>
            if isFlag next then
              readFlags (next :: rest) (assignFlag out (arg.drop 2) (units "true"))
            else readFlags rest (assignFlag out (arg.drop 2) next)

structure BatchWorkerRunOptions where
  jobExecutionId : Option JsString := none
  executionId : Option JsString := none
  jobId : Option JsString := none
  params : Option (List (JsString × JsTree)) := none
  partitionIndex : Option JsNumber := none
  partitionCount : Option JsNumber := none

/-- The parameters in `--params-json`; the message of a `SyntaxError` is up to the engine. -/
def parseParamsJson (text : JsString) : Except Thrown (List (JsString × JsTree)) :=
  match (Json.parse text).map ofJson with
  | none => .error ⟨.user "SyntaxError", "Unexpected token in JSON"⟩
  | some (.obj entries) => .ok entries
  | some _ => .error (.InvalidJobOperationError "--params-json must be a JSON object")

def parseBatchWorkerArgs (number : JsString → JsNumber) (argv : List JsString) :
    Except Thrown BatchWorkerRunOptions := do
  let args := if argv.head? = some (units "batch-worker") then argv.drop 1 else argv
  let out := readFlags args .empty
  let params ← (out.get? (units "params-json")).mapM parseParamsJson
  return {
    jobExecutionId := (out.get? (units "job-execution-id")).or (out.get? (units "execution-id"))
    jobId := out.get? (units "job-id")
    params := params
    partitionIndex := (out.get? (units "partition-index")).map number
    partitionCount := (out.get? (units "partition-count")).map number }

/-- Parameters whose values JSON knows. -/
structure JsonParameters where
  entries : List (JsString × JsTree)
  isJson : IsJson (.obj entries)

/-- `JSON.stringify(params)`; an object has a text. -/
def JsonParameters.json (params : JsonParameters) : JsString :=
  (toJson (.obj params.entries)).elim [] Json.stringify

/-- `buildWorkerArgs`; `workerCommand` is an option of the strategy. -/
def buildWorkerArgs (workerCommand : Option (List JsString)) (jobId jobExecutionId : JsString)
    (params : JsonParameters) : List JsString :=
  workerCommand.getD [units "batch-worker"] ++ [units "--job-id", jobId,
    units "--job-execution-id", jobExecutionId, units "--params-json", params.json]

/-! ### Flags -/

section Flags

variable {name value next : JsString} {rest : List JsString} {out : JsMap JsString JsString}

/-- What an argument that looks like a flag is read as where a flag stands behind it. -/
def readFlag (arg : JsString) (out : JsMap JsString JsString) : JsMap JsString JsString :=
  if equalsSign ∈ arg then
    assignFlag out ((arg.take (arg.idxOf equalsSign)).drop 2)
      (arg.drop (arg.idxOf equalsSign + 1))
  else assignFlag out (arg.drop 2) (units "true")

/-- What a flag and the argument behind it make of the values so far. -/
def given (name value : JsString) (out : JsMap JsString JsString) : JsMap JsString JsString :=
  if isFlag value then readFlag value (out.set name (units "true")) else out.set name value

/-- A flag before a flag is read by itself. -/
theorem readFlags_flag (hflag : isFlag value = true) (hnext : isFlag next = true) :
    readFlags (value :: next :: rest) out = readFlags (next :: rest) (readFlag value out) := by
  by_cases heq : equalsSign ∈ value
  · simp only [readFlags, readFlag, hflag, heq, Bool.not_true, Bool.false_eq_true, if_false,
      if_true]
  · simp only [readFlags, readFlag, hflag, heq, hnext, Bool.not_true, Bool.false_eq_true, if_false,
      if_true]

/-- A flag that is written out, `--name`. -/
structure Names (flag name : JsString) : Prop where
  looks : isFlag flag = true
  plain : equalsSign ∉ flag
  name_eq : flag.drop 2 = name
  kept : name ≠ units "__proto__"

/-- Assigning a flag with its two dashes sets its name. -/
theorem Names.assignFlag {flag : JsString} (h : Names flag name) :
    assignFlag out (flag.drop 2) value = out.set name value := by
  rw [h.name_eq, NestBatch.assignFlag, if_neg h.kept]

/-- A flag without a value is set to true. -/
theorem Names.readFlag {flag : JsString} (h : Names flag name) :
    readFlag flag out = out.set name (units "true") := by
  rw [NestBatch.readFlag, if_neg h.plain, h.assignFlag]

/-- A flag of the encoder and whatever is given behind it, in front of another flag. -/
theorem Names.readFlags_given {flag : JsString} (h : Names flag name) (hnext : isFlag next = true) :
    readFlags (flag :: value :: next :: rest) out =
      readFlags (next :: rest) (given name value out) := by
  cases hvalue : isFlag value with
  | true =>
      rw [readFlags_flag h.looks hvalue, readFlags_flag hvalue hnext, given, if_pos hvalue,
        h.readFlag]
  | false =>
      have hnot := Bool.eq_false_iff.mp hvalue
      rw [readFlags, h.looks, if_neg (by decide), if_neg h.plain, given, if_neg hnot]
      simp only [hnot, Bool.false_eq_true, if_false, h.assignFlag]

/-- The last flag takes the value behind it. -/
theorem Names.readFlags_last {flag : JsString} (h : Names flag name)
    (hvalue : isFlag value = false) : readFlags [flag, value] out = out.set name value := by
  rw [readFlags, h.looks, if_neg (by decide), if_neg h.plain]
  simp only [hvalue, Bool.false_eq_true, if_false, h.assignFlag, readFlags]

/-- A value that is not assigned is not found. -/
theorem get?_assignFlag_ne {key v : JsString} (hvalue : v ≠ value)
    (hout : out.get? name ≠ some value) : (assignFlag out key v).get? name ≠ some value := by
  unfold assignFlag
  split
  · exact hout
  · rw [JsMap.get?_set]
    split
    · exact fun heq => hvalue (Option.some.inj heq)
    · exact hout

/-- The text of a bare flag is no flag. -/
theorem units_true_ne (hflag : isFlag value = true) : units "true" ≠ value := by
  intro heq
  rw [← heq] at hflag
  exact absurd hflag (by decide)

/-- A flag never gives its own text as a value. -/
theorem get?_readFlag_ne (hflag : isFlag value = true) (hout : out.get? name ≠ some value) :
    (readFlag value out).get? name ≠ some value := by
  unfold readFlag
  split
  · rename_i heq
    refine get?_assignFlag_ne (fun hsuffix => ?_) hout
    have hlength := congrArg List.length hsuffix
    have hpos := List.length_pos_of_mem heq
    rw [List.length_drop] at hlength
    omega
  · exact get?_assignFlag_ne (units_true_ne hflag) hout

/-- **A value is found under its name if it does not look like a flag**, and only then. -/
theorem get?_given_self_iff :
    (given name value out).get? name = some value ↔ isFlag value = false := by
  unfold given
  cases hvalue : isFlag value with
  | true =>
      rw [if_pos rfl]
      refine iff_of_false (get?_readFlag_ne hvalue ?_) (by decide)
      rw [JsMap.get?_set_self]
      exact fun heq => units_true_ne hvalue (Option.some.inj heq)
  | false =>
      rw [if_neg Bool.false_ne_true, JsMap.get?_set_self]
      exact iff_of_true rfl rfl

/-- An assignment keeps what was given. -/
theorem isSome_get?_assignFlag {key v : JsString} (hout : (out.get? name).isSome) :
    ((assignFlag out key v).get? name).isSome := by
  unfold assignFlag
  split
  · exact hout
  · rw [JsMap.get?_set]
    split
    · rfl
    · exact hout

theorem isSome_get?_given_self : ((given name value out).get? name).isSome := by
  unfold given
  split
  · have hset : ((out.set name (units "true")).get? name).isSome := by
      rw [JsMap.get?_set_self]
      rfl
    unfold readFlag
    split
    · exact isSome_get?_assignFlag hset
    · exact isSome_get?_assignFlag hset
  · rw [JsMap.get?_set_self]
    rfl

/-- A value that does not look like a flag changes nothing under other names. -/
theorem get?_given_of_ne {other : JsString} (hvalue : isFlag value = false) (hne : other ≠ name) :
    (given name value out).get? other = out.get? other := by
  rw [given, hvalue, if_neg Bool.false_ne_true, JsMap.get?_set_of_ne out value hne]

end Flags

/-! ### What is decoded -/

section Decoded

variable {number : JsString → JsNumber} {jobId jobExecutionId : JsString} {params : JsonParameters}

theorem names_jobId : Names (units "--job-id") (units "job-id") :=
  ⟨by decide, by decide, by decide, by decide⟩

theorem names_jobExecutionId : Names (units "--job-execution-id") (units "job-execution-id") :=
  ⟨by decide, by decide, by decide, by decide⟩

theorem names_paramsJson : Names (units "--params-json") (units "params-json") :=
  ⟨by decide, by decide, by decide, by decide⟩

/-- The parameters of an argument list are parsed back. -/
theorem parseParamsJson_json (params : JsonParameters) :
    parseParamsJson params.json = .ok params.entries := by
  obtain ⟨written, hwritten, hback⟩ := params.isJson.exists_toJson
  rw [parseParamsJson, JsonParameters.json, hwritten, Option.elim_some, Json.parse_stringify,
    Option.map_some, hback]

/-- The text of an object starts with a brace. -/
theorem isFlag_json (params : JsonParameters) : isFlag params.json = false := by
  rw [JsonParameters.json, toJson, fold_obj, Option.elim_some, Json.stringify]
  rfl

/-- The values that are read. -/
def decoded (jobId jobExecutionId paramsJson : JsString) : JsMap JsString JsString :=
  (given (units "job-execution-id") jobExecutionId
    (given (units "job-id") jobId .empty)).set (units "params-json") paramsJson

/-- The built arguments are parsed back into the decoded ones. -/
theorem parse_build (number : JsString → JsNumber) (jobId jobExecutionId : JsString)
    (params : JsonParameters) :
    let out := decoded jobId jobExecutionId params.json
    parseBatchWorkerArgs number (buildWorkerArgs none jobId jobExecutionId params) =
      .ok {
        jobExecutionId := (out.get? (units "job-execution-id")).or (out.get? (units "execution-id"))
        jobId := out.get? (units "job-id")
        params := some params.entries
        partitionIndex := (out.get? (units "partition-index")).map number
        partitionCount := (out.get? (units "partition-count")).map number } := by
  intro out
  have hread : readFlags [units "--job-id", jobId, units "--job-execution-id", jobExecutionId,
      units "--params-json", params.json] .empty = out := by
    rw [names_jobId.readFlags_given names_jobExecutionId.looks,
      names_jobExecutionId.readFlags_given names_paramsJson.looks,
      names_paramsJson.readFlags_last (isFlag_json params)]
    rfl
  have hparams : out.get? (units "params-json") = some params.json :=
    JsMap.get?_set_self _ _ _
  have hargs : buildWorkerArgs none jobId jobExecutionId params = units "batch-worker" ::
      [units "--job-id", jobId, units "--job-execution-id", jobExecutionId,
        units "--params-json", params.json] := rfl
  rw [parseBatchWorkerArgs, hargs]
  simp only [List.head?_cons, if_true, List.drop_succ_cons, List.drop_zero, hread, hparams,
    Option.mapM_some, parseParamsJson_json]
  rfl

/-- The flags other than the parameters are decoded as they were given. -/
theorem get?_decoded {paramsJson name : JsString} (hname : name ≠ units "params-json") :
    (decoded jobId jobExecutionId paramsJson).get? name =
      (given (units "job-execution-id") jobExecutionId
        (given (units "job-id") jobId .empty)).get? name := by
  rw [decoded, JsMap.get?_set_of_ne _ _ hname]

/-- Of values that do not look like flags, nothing else is read. -/
theorem get?_decoded_of_ne {paramsJson name : JsString} (hjobId : isFlag jobId = false)
    (hjobExecutionId : isFlag jobExecutionId = false) (hparams : name ≠ units "params-json")
    (hexecution : name ≠ units "job-execution-id") (hjob : name ≠ units "job-id") :
    (decoded jobId jobExecutionId paramsJson).get? name = none := by
  rw [get?_decoded hparams, get?_given_of_ne hjobExecutionId hexecution,
    get?_given_of_ne hjobId hjob, JsMap.get?_empty]

end Decoded

/-- **When a worker decodes what was encoded for it**: exactly when neither the id of the job nor
that of the execution starts with two hyphens. -/
theorem worker_args_decode_iff (number : JsString → JsNumber) (jobId jobExecutionId : JsString)
    (params : JsonParameters) :
    parseBatchWorkerArgs number (buildWorkerArgs none jobId jobExecutionId params) =
        .ok { jobId := some jobId, jobExecutionId := some jobExecutionId,
              params := some params.entries } ↔
      isFlag jobId = false ∧ isFlag jobExecutionId = false := by
  rw [parse_build, Except.ok.injEq, BatchWorkerRunOptions.mk.injEq]
  constructor
  · intro h
    obtain ⟨hexecution, -, hjob, -⟩ := h
    rw [get?_decoded (by decide)] at hexecution hjob
    have hjobExecutionId : isFlag jobExecutionId = false := by
      rw [Option.or_of_isSome isSome_get?_given_self] at hexecution
      exact get?_given_self_iff.mp hexecution
    rw [get?_given_of_ne hjobExecutionId (by decide), get?_given_self_iff] at hjob
    exact ⟨hjob, hjobExecutionId⟩
  · intro h
    obtain ⟨hjobId, hjobExecutionId⟩ := h
    have hexecution : (decoded jobId jobExecutionId params.json).get? (units "job-execution-id") =
        some jobExecutionId := by
      rw [get?_decoded (by decide), get?_given_self_iff]
      exact hjobExecutionId
    have hjob : (decoded jobId jobExecutionId params.json).get? (units "job-id") = some jobId := by
      rw [get?_decoded (by decide), get?_given_of_ne hjobExecutionId (by decide),
        get?_given_self_iff]
      exact hjobId
    rw [hexecution, hjob]
    refine ⟨rfl, rfl, rfl, rfl, ?_, ?_⟩
    · rw [get?_decoded_of_ne hjobId hjobExecutionId (by decide) (by decide) (by decide)]
      rfl
    · rw [get?_decoded_of_ne hjobId hjobExecutionId (by decide) (by decide) (by decide)]
      rfl

/-- No parameters. -/
def noParameters : JsonParameters :=
  ⟨[], (isJson_obj []).mpr ⟨⟨List.nodup_nil, List.Pairwise.nil⟩, nofun⟩⟩

/-- **A job whose id looks like a flag is not the job that the worker runs.** -/
theorem worker_args_lose_job :
    let args := buildWorkerArgs none (units "--nightly") (units "e1") noParameters
    (∀ number, parseBatchWorkerArgs number args =
      .ok { jobId := some (units "true"), jobExecutionId := some (units "e1"),
            params := some [] }) ∧
    ∀ number, parseBatchWorkerArgs number args ≠
      .ok { jobId := some (units "--nightly"), jobExecutionId := some (units "e1"),
            params := some [] } := by
  intro args
  have hdecoded (number : JsString → JsNumber) : parseBatchWorkerArgs number args =
      .ok { jobId := some (units "true"), jobExecutionId := some (units "e1"),
            params := some [] } := by
    rw [parse_build]
    rfl
  refine ⟨hdecoded, fun number => ?_⟩
  rw [hdecoded, Ne, Except.ok.injEq, BatchWorkerRunOptions.mk.injEq]
  exact fun h => absurd h.2.2.1 (by decide)

end NestBatch
