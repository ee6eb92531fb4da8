import TensorGraph.Model

/-! Shapes of the tensors of a model, from the declared ones and the rules of the operators in order.
An operator on a tensor of unknown shape is passed over. -/
namespace TensorGraph

namespace Operator

def expectRank (op : Operator) (tensor : String) (rank : Nat) (shape : Shape) :
    Except GraphError Unit :=
  if shape.length = rank then .ok ()
  else .error (.invalidNode op.name (.rank tensor rank shape.length))

/-- Rows and columns of a matrix, exchanged when it counts as transposed. -/
def extents (op : Operator) (tensor : String) (transposed : Bool) : Shape →
    Except GraphError (Nat × Nat)
  | [rows, columns] => .ok (if transposed then (columns, rows) else (rows, columns))
  | shape => .error (.invalidNode op.name (.rank tensor 2 shape.length))

/-- The extents of some axes in the order in which the axes are listed. -/
def gather (op : Operator) (shape : Shape) (axes : List Nat) : Except GraphError Shape :=
  axes.mapM fun axis =>
    match shape[axis]? with
    | some extent => .ok extent
    | none => .error (.invalidNode op.name (.missingAxis axis))

/-- The shape of the result, from the operands with their shapes. -/
def outputShape (op : Operator) (operands : List (String × Shape)) : Except GraphError Shape :=
  match op.operation, operands with
  | .relu, (_, shape) :: _ => .ok shape
  | .transpose permutation, (name, shape) :: _ => do
    op.expectRank name permutation.length shape
    op.gather shape permutation
  | .gemm scaling, (a, shapeA) :: (b, shapeB) :: _ => do
    let (rows, innerA) ← op.extents a scaling.transA shapeA
    let (innerB, columns) ← op.extents b scaling.transB shapeB
    if innerA ≠ innerB then throw (.shapeMismatch b innerA innerB)
    return [rows, columns]
  | _, operands => .error (.invalidNode op.name (.missingOperand operands.length))

end Operator

namespace Model

/-- The shapes that were declared. -/
def declaredShapes (m : Model) : NameMap Shape :=
  NameMap.ofList (m.tensors.tensors.filterMap fun t => t.shape.map fun shape => (t.name, shape))

/-- The operands of an operator with their shapes, if all of these are known. -/
def operands? (known : NameMap Shape) (op : Operator) : Option (List (String × Shape)) :=
  op.inputs.mapM fun name => (known.get? name).map fun shape => (name, shape)

/-- The shapes known after an operator. -/
def inferStep (known : NameMap Shape) (op : Operator) : Except GraphError (NameMap Shape) :=
  match operands? known op with
  | none => .ok known
  | some operands => do
    let shape ← op.outputShape operands
    match op.outputs with
    | [] => throw (.invalidNode op.name (.missingOperand op.inputs.length))
    | output :: _ => return known.insert output shape

def shapes (m : Model) : Except GraphError (NameMap Shape) :=
  m.operators.foldlM inferStep m.declaredShapes

end Model
end TensorGraph
