import NestBatch.Execution.Footprint

/-!
# User code that does what it is asked

`UserCall.Succeeds` says what a call of user code answers when nothing goes
wrong.  `listEnvironment` is the plainest environment there is: a reader over a
list, a processor that hands its item on, and a writer that fails only where it
is told to.  Its state is the position of the reader.
-/

namespace NestBatch

variable {α υ : Type}

/-- The answers of user code that does not fail: nobody throws, the items pass
the processor unchanged, and an `after:step` listener leaves the result alone. -/
def UserCall.Succeeds : (call : UserCall α) → call.Resp → Prop
  | .invoke _, r => ∃ c, r = .ok c
  | .factory _ _, r => ∃ c, r = .ok c
  | .read _ _, r => ∃ item, r = .ok item
  | .process _ item _, r => r = .ok (some item)
  | .write _ _ _, r => ∃ value, r = .ok value
  | .lengthOf items, r => r = items.length
  | .openStream _ _, r => ∃ ctx, r = .ok ctx
  | .updateStream _ _, r => ∃ ctx, r = .ok ctx
  | .closeStream _, r => r = .ok ()
  | .tasklet _ _, r => ∃ value, r = .ok value
  | .listener _ _ _, r => r = .ok ()
  | .afterStep _ _ result, r => r = (.ok (), result)
  | .decide _ _, r => ∃ status, r = .ok status

/-- User code that never fails. -/
def Environment.Succeeds (env : Environment α υ) : Prop :=
  ∀ (call : UserCall α) (user : υ) ctx, call.Succeeds (env.user call user ctx).1

/-- A reader over `items`; every lambda makes a fresh one.  `refuses writer k`
is what the writer throws at chunk `k`, if anything. -/
def listEnvironment (items : List α) (refuses : Handle → Int → Option Thrown) :
    Environment α Nat where
  user
    | .invoke fn, pos, _ => (.ok { target := fn, isFunction := true }, pos, [])
    | .factory fn _, pos, _ => (.ok { target := fn }, pos, [])
    | .read _ _, pos, _ => (.ok items[pos]?, pos + 1, [])
    | .process _ item _, pos, _ => (.ok (some item), pos, [])
    | .write writer _ ctx, pos, _ =>
        (match refuses writer ctx.chunkIndex with
          | some err => .error err
          | none => .ok none, pos, [])
    | .lengthOf items, pos, _ => (items.length, pos, [])
    | .openStream _ ctx, pos, _ => (.ok ctx, pos, [])
    | .updateStream _ ctx, pos, _ => (.ok ctx, pos, [])
    | .closeStream _, pos, _ => (.ok (), pos, [])
    | .tasklet _ _, pos, _ => (.ok none, pos, [])
    | .listener _ _ _, pos, _ => (.ok (), pos, [])
    | .afterStep _ _ result, pos, _ => ((.ok (), result), pos, [])
    | .decide _ _, pos, _ => (.ok "", pos, [])
  broker _ pos := (.ok "queued", pos)

/-- A list environment whose writer takes everything. -/
abbrev willing (items : List α) : Environment α Nat := listEnvironment items fun _ _ => none

/-- Ids of growing length. -/
def unaryIds (c : Char) : IdGenerator where
  next n := String.ofList (List.replicate n c)
  unique := by
    intro m n h
    have hlength := congrArg String.length h
    simpa using hlength

/-- A list environment without refusals succeeds. -/
theorem willing_succeeds (items : List α) : (willing items).Succeeds := by
  intro call user ctx
  cases call with
  | process => rfl
  | lengthOf => rfl
  | closeStream => rfl
  | listener => rfl
  | afterStep => rfl
  | _ => exact ⟨_, rfl⟩

end NestBatch
