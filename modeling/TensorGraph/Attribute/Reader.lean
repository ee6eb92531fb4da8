import TensorGraph.GraphError

/-! Reading the attributes of a node. A reader remembers which names it was asked for, so that at the
end a name that nobody asked for is refused. A read that fails has asked all the same. -/
namespace TensorGraph

namespace Attribute

/-- A finite number; integers are converted. -/
def asFloat : Attribute → Except AttributeFault Binary32
  | float value => if value.isFinite then .ok value else .error (.notFinite value)
  | int value => .ok (.ofInt value.toInt)
  | other => .error (.mistyped .float other.form)

/-- An integer that is a truth value: zero is false, all others are true. -/
def asFlag : Attribute → Except AttributeFault Bool
  | int value => .ok (value != 0)
  | other => .error (.mistyped .flag other.form)

def asInts : Attribute → Except AttributeFault (List Int64)
  | ints values => .ok values
  | other => .error (.mistyped .ints other.form)

end Attribute

structure AttributeReader where
  node : String
  attributes : Attributes
  asked : List String := []
  deriving DecidableEq

/-- A computation that reads attributes and may stop at a fault; the reader outlives the fault. -/
abbrev Reading := ExceptT GraphError (StateM AttributeReader)

namespace AttributeReader

variable {α : Type}

/-- The reader after it was asked for a name. -/
def note (reader : AttributeReader) (key : String) : AttributeReader :=
  { reader with asked := reader.asked ++ [key] }

/-- What a reader answers for a name. -/
def answer (reader : AttributeReader) (convert : Attribute → Except AttributeFault α)
    (key : String) : Except GraphError (Option α) :=
  match reader.attributes.get? key with
  | none => .ok none
  | some found =>
    match convert found with
    | .ok x => .ok (some x)
    | .error fault => .error (.invalidAttribute reader.node key fault)

/-- Asks for the attribute under a name, which need not be there. -/
def read (convert : Attribute → Except AttributeFault α) (key : String) : Reading (Option α) := do
  let reader ← get
  set (reader.note key)
  ofExcept (reader.answer convert key)

def float (key : String) : Reading (Option Binary32) := read Attribute.asFloat key
def flag (key : String) : Reading (Option Bool) := read Attribute.asFlag key
def ints (key : String) : Reading (Option (List Int64)) := read Attribute.asInts key

/-- Refuses an attribute for a fault. -/
def refuse (key : String) (fault : AttributeFault) : Reading α := do
  throw (.invalidAttribute (← get).node key fault)

/-- The least name that was never asked for: names come in ascending order. -/
def leftover? (reader : AttributeReader) : Option String :=
  reader.attributes.keys.find? (· ∉ reader.asked)

/-- Refuses attributes that were never asked for. -/
def finish : Reading Unit := do
  match (← get).leftover? with
  | some key => refuse key .unrecognised
  | none => return ()

/-- The outcome of a reading of a node's attributes from the start. -/
def outcome (node : String) (attributes : Attributes) (reading : Reading α) : Except GraphError α :=
  (reading.run.run { node, attributes }).1

/-- A read answers from the attributes alone, and whatever it answers it was asked. -/
@[simp] theorem run_read (convert : Attribute → Except AttributeFault α) (key : String)
    (reader : AttributeReader) :
    (read convert key).run.run reader = (reader.answer convert key, reader.note key) := by
  change (ofExcept (reader.answer convert key) : Reading (Option α)).run.run (reader.note key) = _
  cases reader.answer convert key <;> rfl

@[simp] theorem run_refuse (key : String) (fault : AttributeFault) (reader : AttributeReader) :
    (refuse key fault : Reading α).run.run reader =
      (.error (.invalidAttribute reader.node key fault), reader) := rfl

@[simp] theorem run_finish (reader : AttributeReader) :
    finish.run.run reader =
      (match reader.leftover? with
        | some key => .error (.invalidAttribute reader.node key .unrecognised)
        | none => .ok (), reader) := by
  change ((match reader.leftover? with
    | some key => refuse key .unrecognised
    | none => return () : Reading Unit).run.run reader) = _
  cases reader.leftover? <;> rfl

theorem leftover?_eq_none_iff (reader : AttributeReader) :
    reader.leftover? = none ↔ ∀ key ∈ reader.attributes.keys, key ∈ reader.asked := by
  simp [leftover?]

end AttributeReader
end TensorGraph
