import TensorGraph.Json.Value
import TensorGraph.Number.Binary32

/-! Reading trees as data. Readers go through a tree in the order of its text, and the first thing wrong
is the one that is reported. -/
namespace TensorGraph.Json

/-- What is wrong with a text. All that is wrong with its form counts as malformed. -/
inductive FormatError where
  | missingField (name : String)
  | duplicateField (name : String)
  | noVariant
  | malformed
  deriving DecidableEq

/-- Malformed texts have no text of their own for what is wrong. -/
def FormatError.message? : FormatError → Option String
  | missingField name => some s!"missing field `{name}`"
  | duplicateField name => some s!"duplicate field `{name}`"
  | noVariant => some "data did not match any variant of untagged enum Attribute"
  | malformed => none

abbrev Decoder (α : Type) := Tree → Except FormatError α

/-- The number of 32 bits that a number of JSON stands for. -/
def Number.toBinary32 : Number → Binary32
  | integer value => .ofInt value
  | float value => .ofBinary64 value

namespace Decoder

def string : Decoder String
  | .string (some text) => .ok text
  | _ => .error .malformed

def boolean : Decoder Bool
  | .boolean value => .ok value
  | _ => .error .malformed

def number : Decoder Number
  | .number literal =>
    match literal.number? with
    | some value => .ok value
    | none => .error .malformed
  | _ => .error .malformed

/-- An integer that is not negative. -/
def size : Decoder Nat := fun tree => do
  match ← number tree with
  | .integer (.ofNat n) => return n
  | _ => throw .malformed

def float : Decoder Binary32 := fun tree => do return (← number tree).toBinary32

def list {α : Type} (item : Decoder α) : Decoder (List α)
  | .array items => items.mapM item
  | _ => .error .malformed

/-- Null stands for what is absent. -/
def optional {α : Type} (decode : Decoder α) : Decoder (Option α)
  | .null => .ok none
  | tree => some <$> decode tree

/-- Members in order, of which later ones win over earlier ones of the same name. -/
def members {α : Type} (decode : Decoder α) (found : NameMap α) :
    List Member → Except FormatError (NameMap α)
  | [] => .ok found
  | (none, _) :: _ => .error .malformed
  | (some key, tree) :: rest => do
    let x ← decode tree
    members decode (found.insert key x) rest

def map {α : Type} (decode : Decoder α) : Decoder (NameMap α)
  | .object list => members decode ∅ list
  | _ => .error .malformed

/-- The whole of a text: one value and nothing behind it. -/
def document {α : Type} (decode : Decoder α) (octets : List UInt8) : Except FormatError α := do
  let text := Document.ofOctets octets
  let x ← decode text.tree
  if text.trailing then throw .malformed
  return x

end Decoder
end TensorGraph.Json
