import TensorGraph.ElementType
import TensorGraph.Number.Binary32
import TensorGraph.Operator.Kind

/-! Operators of a model. The result of a Gemm is alpha · op(A) · op(B) + beta · C, where op transposes
a matrix when its flag is set. A Transpose gives axis i of its result the extent of axis
permutation[i]. -/
namespace TensorGraph

structure Scaling where
  alpha : Binary32
  beta : Binary32
  transA : Bool
  transB : Bool
  deriving DecidableEq

inductive Operation where
  | gemm (scaling : Scaling)
  | relu
  | transpose (permutation : List Nat)
  deriving DecidableEq

def Operation.kind : Operation → Kind
  | gemm _ => .gemm
  | relu => .relu
  | transpose _ => .transpose

structure Operator where
  name : String
  operation : Operation
  inputs : List String
  outputs : List String
  elementType : ElementType
  deriving DecidableEq

def Operator.kind (op : Operator) : Kind := op.operation.kind

end TensorGraph
