import TensorGraph.Attribute
import TensorGraph.Json.Decoder

/-! Attributes as JSON values. The form of an attribute is not written: it is the first of integer,
number, string, list of integers, list of numbers that the value fits. -/
namespace TensorGraph
open Json

namespace Attribute

/-- An integer of 64 bits with a sign. -/
def int64? : Number → Option Int64
  | .integer value =>
    if -0x8000000000000000 ≤ value ∧ value < 0x8000000000000000 then some (.ofInt value) else none
  | .float _ => none

def number? : Value → Option Number
  | .number value => some value
  | _ => none

def ofValue? : Value → Option Attribute
  | .number value =>
    match int64? value with
    | some i => some (int i)
    | none => some (float value.toBinary32)
  | .string text => some (string text)
  | .array items => do
    let numbers ← items.mapM number?
    match numbers.mapM int64? with
    | some values => return ints values
    | none => return floats (numbers.map Number.toBinary32)
  | _ => none

/-- A float is written with its exact value; what is no finite number is null. -/
def floatValue (x : Binary32) : Value :=
  if x.isFinite then .number (.float x.toBinary64) else .null

def toValue : Attribute → Value
  | int value => .number (.integer value.toInt)
  | float value => floatValue value
  | string text => .string text
  | ints values => .array (values.map fun value => .number (.integer value.toInt))
  | floats values => .array (values.map floatValue)

/-- Reads an attribute that is inside so many containers. The whole value is read before its form is
looked for. -/
def decoder (depth : Nat) : Decoder Attribute := fun tree =>
  match tree.value? (nestingLimit - depth) with
  | none => .error .malformed
  | some value =>
    match ofValue? value with
    | none => .error .noVariant
    | some found => .ok found

end Attribute

/-- Reads attributes under their names, inside so many containers. -/
def Attributes.decoder (depth : Nat) : Decoder Attributes :=
  Decoder.map (Attribute.decoder (depth + 1))

def Attributes.toValue (attributes : Attributes) : Value :=
  .object (attributes.entries.map fun (key, found) => (key, found.toValue))

end TensorGraph
