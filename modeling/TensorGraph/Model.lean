import TensorGraph.Operator
import TensorGraph.Registry

/-! Models: operators in the order of their evaluation, the tensors they work on, and the names of the
tensors that are the outcome. -/
namespace TensorGraph

structure Model where
  name : String
  operators : List Operator
  tensors : Registry
  outputs : List String
  deriving DecidableEq

namespace Model

def inputs (m : Model) : List Tensor := m.tensors.ofKind .input

def initializers (m : Model) : List Tensor := m.tensors.ofKind .initialized

end Model
end TensorGraph
