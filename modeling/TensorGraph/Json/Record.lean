import TensorGraph.Json.Decoder

/-! Records: objects with known members, or arrays of their values in the order of declaration. Members
of other names are passed over, a known member may come once, and trailing values that have a default
may be left out. A record is put together from its parts, each of which is absent until it is read. -/
namespace TensorGraph.Json

/-- A member of a record whose parts are of type `π`. -/
structure Slot (π : Type) where
  name : String
  isSet : π → Bool
  read : π → Decoder π

/-- A member that fills one part. -/
def Slot.part {π α : Type} (name : String) (get : π → Option α) (set : π → α → π)
    (decode : Decoder α) : Slot π where
  name := name
  isSet parts := (get parts).isSome
  read parts tree := return set parts (← decode tree)

/-- How a record was written. -/
inductive Layout where
  | object | array
  deriving DecidableEq

/-- A part that has no default. Only an object names what it lacks. -/
def Layout.require {α : Type} (layout : Layout) (name : String) : Option α → Except FormatError α
  | some x => .ok x
  | none =>
    match layout with
    | object => .error (.missingField name)
    | array => .error .malformed

namespace Decoder

variable {π : Type}

/-- Reads members in the order of the text. A repeated one is refused at its name. -/
def recordMembers (fields : List (Slot π)) : π → List Member → Except FormatError π
  | parts, [] => .ok parts
  | _, (none, _) :: _ => .error .malformed
  | parts, (some key, tree) :: rest =>
    match fields.find? (·.name == key) with
    | none => recordMembers fields parts rest
    | some field =>
      if field.isSet parts then .error (.duplicateField key)
      else do
        let parts ← field.read parts tree
        recordMembers fields parts rest

/-- Reads values in the order of the fields. -/
def recordItems : List (Slot π) → π → List Tree → Except FormatError π
  | _, parts, [] => .ok parts
  | [], _, _ :: _ => .error .malformed
  | field :: fields, parts, tree :: rest => do
    let parts ← field.read parts tree
    recordItems fields parts rest

/-- A record with fields in the order of their declaration. -/
def record {α : Type} (fields : List (Slot π)) (start : π)
    (finish : Layout → π → Except FormatError α) : Decoder α
  | .object members => do finish .object (← recordMembers fields start members)
  | .array items => do finish .array (← recordItems fields start items)
  | _ => .error .malformed

end Decoder
end TensorGraph.Json
