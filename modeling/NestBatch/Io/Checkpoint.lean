import NestBatch.Core.Types

/-!
# Checkpoints in a step context

The item streams that ship with the batch runtime keep their position in the
context of the step, each as a record under a key of its own.
-/

namespace NestBatch

/-- `asJsonRecord`: the fields of an object; anything else has none. -/
def asJsonRecord : JsonValue → List (String × JsonValue)
  | .obj fields => fields
  | _ => []

/-- `readCheckpoint`: the record under `key`. -/
def readCheckpoint (context : ExecutionContext) (key : String) : List (String × JsonValue) :=
  match JsonValue.getField (asJsonRecord context.data) key with
  | some value => asJsonRecord value
  | none => []

/-- `readCheckpointNumber`. -/
def readCheckpointNumber (context : ExecutionContext) (key field : String) (fallback : Int) : Int :=
  match JsonValue.getField (readCheckpoint context key) field with
  | some (.num n) => n
  | _ => fallback

/-- `readCheckpointValue`. -/
def readCheckpointValue (context : ExecutionContext) (key field : String) (fallback : JsonValue) :
    JsonValue :=
  (JsonValue.getField (readCheckpoint context key) field).getD fallback

/-- `writeCheckpoint`. -/
def writeCheckpoint (context : ExecutionContext) (key : String)
    (state : List (String × JsonValue)) : ExecutionContext :=
  { context with data := .obj (JsonValue.setField (asJsonRecord context.data) key (.obj state)) }

@[simp] theorem readCheckpoint_write_self (context : ExecutionContext) (key : String)
    (state : List (String × JsonValue)) :
    readCheckpoint (writeCheckpoint context key state) key = state := by
  unfold readCheckpoint writeCheckpoint
  simp [asJsonRecord]

/-- A record under another key stays as it is. -/
theorem readCheckpoint_write_of_ne (context : ExecutionContext) {key key' : String}
    (state : List (String × JsonValue)) (h : key' ≠ key) :
    readCheckpoint (writeCheckpoint context key state) key' = readCheckpoint context key' := by
  have hfield := JsonValue.getField_setField_of_ne (asJsonRecord context.data) (.obj state) h
  unfold readCheckpoint writeCheckpoint
  rw [← hfield]
  rfl

section Record

variable {context : ExecutionContext} {key field : String}

/-- The number of a record. -/
theorem readCheckpointNumber_of_record {n : Int}
    (h : readCheckpoint context key = [(field, .num n)]) (fallback : Int) :
    readCheckpointNumber context key field fallback = n := by
  unfold readCheckpointNumber
  rw [h]
  simp [JsonValue.getField]

/-- The value of a record. -/
theorem readCheckpointValue_of_record {value : JsonValue}
    (h : readCheckpoint context key = [(field, value)]) (fallback : JsonValue) :
    readCheckpointValue context key field fallback = value := by
  unfold readCheckpointValue
  rw [h]
  simp [JsonValue.getField]

end Record

end NestBatch
