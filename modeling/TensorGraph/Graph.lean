import TensorGraph.Attribute
import TensorGraph.Shape

/-! Graphs as they are handed over: declarations of inputs, nodes, weights, and the names of the outputs.
Labels of kinds and types are still the ones that were written. -/
namespace TensorGraph

/-- The label of what was given no type. -/
def defaultTypeLabel : String := "Float"

structure Input where
  name : String
  typeLabel : String := defaultTypeLabel
  shape : Shape
  deriving DecidableEq

/-- A node; the first label of its output types is the type of its operator. -/
structure Node where
  name : Option String := none
  kindLabel : String
  attributes : Attributes := ∅
  inputs : List String := []
  outputs : List String := []
  outputTypes : List String := []
  deriving DecidableEq

/-- A weight with its elements as octets in little-endian order. -/
structure Weight where
  name : String
  typeLabel : String := defaultTypeLabel
  shape : Shape
  data : List UInt8
  deriving DecidableEq

/-- A weight made of numbers. -/
def Weight.ofFloats (name : String) (typeLabel : String) (shape : Shape)
    (values : List Binary32) : Weight :=
  { name, typeLabel, shape, data := Binary32.encode values }

structure Graph where
  inputs : List Input := []
  nodes : List Node := []
  weights : List Weight := []
  outputs : List String := []
  deriving DecidableEq

/-- The name of a model that was given none. -/
def defaultName : String := "model"

/-- A named graph. Its first inputs may be placeholders, which are no inputs of the model. -/
structure Description extends Graph where
  name : String := defaultName
  placeholderInputs : Nat := 0
  deriving DecidableEq

/-- A count of placeholders among the options takes the place of the description's own. -/
structure Options where
  checkPermutationRank : Bool := true
  placeholderInputs : Option Nat := none
  deriving DecidableEq

end TensorGraph
