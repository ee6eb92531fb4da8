import TensorGraph.Json.Tree
import TensorGraph.NameMap

/-! Values of JSON, which a tree has when all its numbers are within range, all its strings are text and
its containers are not too deep inside one another. -/
namespace TensorGraph.Json

inductive Value where
  | null
  | boolean (value : Bool)
  | number (value : Number)
  | string (text : String)
  | array (items : List Value)
  | object (members : List (String × Value))
  deriving Inhabited

/-- So many containers may be inside one another where values are read. -/
def nestingLimit : Nat := 127

mutual

/-- The value of a tree, in which so many more containers may be inside one another. -/
def Tree.value? (room : Nat) : Tree → Option Value
  | .null => some .null
  | .boolean value => some (.boolean value)
  | .number literal => literal.number?.map .number
  | .string text => text.map .string
  | .array items => if room = 0 then none else (itemValues? (room - 1) items).map .array
  | .object members => if room = 0 then none else (memberValues? (room - 1) members).map .object
  | .broken => none

def itemValues? (room : Nat) : List Tree → Option (List Value)
  | [] => some []
  | tree :: rest => do
    let value ← tree.value? room
    let values ← itemValues? room rest
    return value :: values

def memberValues? (room : Nat) : List (Option String × Tree) → Option (List (String × Value))
  | [] => some []
  | (key, tree) :: rest => do
    let key ← key
    let value ← tree.value? room
    let values ← memberValues? room rest
    return (key, value) :: values

end

/-- The names of an object's members in ascending order. -/
def Value.names? : Value → Option (List String)
  | .object members => some (NameMap.ofList members).keys
  | _ => none

def Value.strings (texts : List String) : Value := .array (texts.map .string)

end TensorGraph.Json
