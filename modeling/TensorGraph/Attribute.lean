import TensorGraph.NameMap
import TensorGraph.Number.Binary32

/-! Attributes of nodes: loosely typed values under names. -/
namespace TensorGraph

inductive Attribute where
  | int (value : Int64)
  | float (value : Binary32)
  | string (value : String)
  | ints (values : List Int64)
  | floats (values : List Binary32)
  deriving DecidableEq, Inhabited

namespace Attribute

/-- The form of an attribute without its value. -/
inductive Form where
  | int | float | string | ints | floats
  deriving DecidableEq, Repr

def Form.name : Form → String
  | int => "int"
  | float => "float"
  | string => "string"
  | ints => "ints"
  | floats => "floats"

def form : Attribute → Form
  | int _ => .int
  | float _ => .float
  | string _ => .string
  | ints _ => .ints
  | floats _ => .floats

/-- What an operator may ask an attribute to be. -/
inductive Wanted where
  | float | flag | ints
  deriving DecidableEq, Repr

def Wanted.name : Wanted → String
  | float => "float"
  | flag => "int flag"
  | ints => "ints"

end Attribute

abbrev Attributes := NameMap Attribute

end TensorGraph
