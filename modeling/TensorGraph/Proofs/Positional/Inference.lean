import TensorGraph.Proofs.Directory
import TensorGraph.Proofs.ShapeInference

/-! Inference by positions, as it goes on rows of shapes: the operands of an operator are the first of
its row, and extents are read at the axes of the shapes. On operators that are well built it gives what
inference gives. -/
namespace TensorGraph

/-- The shape that is known of a name; no axes, where none is known. -/
def NameMap.assigned (known : NameMap Shape) (x : String) : Shape := (known.get? x).getD []

namespace Positional

/-- The shape of a matrix product, from the extents of its first two operands. -/
def gemmShape (op : Operator) (scaling : Scaling) (a b : Shape) :
    Except (Stop GraphError) Shape := do
  if a.length ≠ 2 then
    throw (.fault (.invalidNode op.name (.rank (← item op.inputs 0) 2 a.length)))
  if b.length ≠ 2 then
    throw (.fault (.invalidNode op.name (.rank (← item op.inputs 1) 2 b.length)))
  let rows ← item a (if scaling.transA then 1 else 0)
  let innerA ← item a (if scaling.transA then 0 else 1)
  let innerB ← item b (if scaling.transB then 1 else 0)
  let columns ← item b (if scaling.transB then 0 else 1)
  if innerA ≠ innerB then
    throw (.fault (.shapeMismatch (← item op.inputs 1) innerA innerB))
  return [rows, columns]

def outputShape (op : Operator) (shapes : List Shape) : Except (Stop GraphError) Shape :=
  match op.operation with
  | .relu => item shapes 0
  | .transpose permutation => do
    let shape ← item shapes 0
    if permutation.length ≠ shape.length then
      throw (.fault (.invalidNode op.name
        (.rank (← item op.inputs 0) permutation.length shape.length)))
    permutation.mapM (item shape)
  | .gemm scaling => do
    let a ← item shapes 0
    let b ← item shapes 1
    gemmShape op scaling a b

def inferStep (known : NameMap Shape) (op : Operator) :
    Except (Stop GraphError) (NameMap Shape) :=
  match op.inputs.mapM known.get? with
  | none => .ok known
  | some shapes => do
    let shape ← outputShape op shapes
    let output ← item op.outputs 0
    return known.insert output shape

def shapes (tensors : List Tensor) (ops : List Operator) :
    Except (Stop GraphError) (NameMap Shape) :=
  ops.foldlM inferStep
    (.ofList (tensors.filterMap fun t => t.shape.map fun shape => (t.name, shape)))

theorem mapM_item {shape : Shape} {axes : List Nat} (inside : ∀ axis ∈ axes, axis < shape.length) :
    axes.mapM (item shape : Nat → Except (Stop GraphError) Nat) =
      .ok (axes.map fun axis => shape.getD axis 0) := by
  induction axes with
  | nil => rfl
  | cons axis rest ih =>
    obtain ⟨here, later⟩ := List.forall_mem_cons.mp inside
    rw [List.mapM_cons, ih later, item_eq_ok (List.getElem?_eq_getElem here), List.map_cons,
      List.getD_eq_getElem shape 0 here]
    rfl

theorem item_stored_rows (transposed : Bool) (rows columns : Nat) :
    (item (Shape.stored transposed rows columns) (if transposed then 1 else 0) :
      Except (Stop GraphError) Nat) = .ok rows := by
  cases transposed <;> rfl

theorem item_stored_columns (transposed : Bool) (rows columns : Nat) :
    (item (Shape.stored transposed rows columns) (if transposed then 0 else 1) :
      Except (Stop GraphError) Nat) = .ok columns := by
  cases transposed <;> rfl

theorem gemmShape_eq {op : Operator} {scaling : Scaling} (gemm : op.operation = .gemm scaling)
    {a b c : String} (inputs : op.inputs = [a, b, c]) (shapeA shapeB shapeC : Shape) :
    gemmShape op scaling shapeA shapeB =
      plain (op.outputShape [(a, shapeA), (b, shapeB), (c, shapeC)]) := by
  rw [gemmShape, Operator.outputShape_gemm gemm, inputs]
  by_cases rankA : shapeA.length = 2
  · obtain ⟨rows, innerA, rfl⟩ := Shape.exists_stored scaling.transA rankA
    rw [Operator.extents_stored]
    by_cases rankB : shapeB.length = 2
    · obtain ⟨innerB, columns, rfl⟩ := Shape.exists_stored scaling.transB rankB
      rw [Operator.extents_stored]
      simp only [Shape.length_stored, ne_eq, not_true_eq_false, if_false, item_stored_rows,
        item_stored_columns, ok_bind]
      by_cases same : innerA = innerB
      · simp only [same, not_true_eq_false, if_false, if_true]
        rfl
      · simp only [same, not_false_eq_true, if_false, if_true]
        rfl
    · rw [Operator.extents_of_length_ne rankB]
      simp only [Shape.length_stored, ne_eq, not_true_eq_false, if_false, rankB, not_false_eq_true,
        if_true]
      rfl
  · rw [Operator.extents_of_length_ne rankA]
    simp only [rankA, ne_eq, not_false_eq_true, if_true]
    rfl

/-- An operator that is well built has the operands that are read, and a shape of the rank of its
permutation has the axes. -/
theorem outputShape_eq {op : Operator} (built : op.WellBuilt) (shapes : String → Shape) :
    outputShape op (op.inputs.map shapes) = plain (op.outputShape (op.operandsIn shapes)) := by
  have arity := Operator.inputs_eq_of_wellBuilt built
  rw [outputShape]
  cases operation : op.operation with
  | relu =>
    rw [operation] at arity
    obtain ⟨x, inputs⟩ := arity
    rw [Operator.operandsIn, inputs, List.map_singleton, List.map_singleton,
      Operator.outputShape_relu operation]
    rfl
  | transpose permutation =>
    rw [operation] at arity
    obtain ⟨x, inputs⟩ := arity
    have isPermutation := built.permutation permutation operation
    rw [Operator.operandsIn, inputs, List.map_singleton, List.map_singleton,
      Operator.outputShape_transpose operation isPermutation]
    simp only [item_eq_ok (List.getElem?_cons_zero), ok_bind]
    by_cases rank : (shapes x).length = permutation.length
    · have inside : ∀ axis ∈ permutation, axis < (shapes x).length := by
        rw [rank]
        exact lt_of_perm_range isPermutation
      simp only [rank, ne_eq, not_true_eq_false, if_false, if_true, mapM_item inside]
      rfl
    · simp only [rank, Ne.symm rank, ne_eq, not_false_eq_true, if_false, if_true]
      rfl
  | gemm scaling =>
    rw [operation] at arity
    obtain ⟨a, b, c, inputs⟩ := arity
    rw [Operator.operandsIn, inputs]
    exact gemmShape_eq operation inputs _ _ _

/-- Operands are known with their shapes, or not at all. -/
theorem operands_cases (known : NameMap Shape) (inputs : List String) :
    (inputs.mapM known.get? = none ∧
      inputs.mapM (fun x => (known.get? x).map fun shape => (x, shape)) = none) ∨
    (inputs.mapM known.get? = some (inputs.map known.assigned) ∧
      inputs.mapM (fun x => (known.get? x).map fun shape => (x, shape)) =
        some (inputs.map fun x => (x, known.assigned x))) := by
  induction inputs with
  | nil => exact .inr ⟨rfl, rfl⟩
  | cons x rest ih =>
    simp only [List.mapM_cons, List.map_cons, NameMap.assigned]
    cases known.get? x with
    | none => exact .inl ⟨rfl, rfl⟩
    | some shape =>
      rcases ih with ⟨unknown, none⟩ | ⟨found, operands⟩
      · rw [unknown, none]
        exact .inl ⟨rfl, rfl⟩
      · rw [found, operands]
        exact .inr ⟨rfl, rfl⟩

theorem inferStep_eq {op : Operator} (built : op.WellBuilt) (known : NameMap Shape) :
    inferStep known op = plain (Model.inferStep known op) := by
  obtain ⟨output, outputs⟩ := List.length_eq_one_iff.mp built.outputs
  rw [inferStep, Model.inferStep, Model.operands?]
  rcases operands_cases known op.inputs with ⟨unknown, none⟩ | ⟨found, operands⟩
  · rw [unknown, none]
    rfl
  · rw [found, operands]
    change (outputShape op (op.inputs.map known.assigned) >>= _) =
      plain (op.outputShape (op.operandsIn known.assigned) >>= _)
    rw [outputShape_eq built, plain_bind, outputs]
    rfl

/-- Inference by positions gives what inference gives. -/
theorem shapes_eq {m : Model} (built : ∀ op ∈ m.operators, op.WellBuilt) :
    shapes m.tensors.tensors m.operators = plain m.shapes := by
  have folds : ∀ (ops : List Operator) (known : NameMap Shape), (∀ op ∈ ops, op.WellBuilt) →
      ops.foldlM inferStep known = plain (ops.foldlM Model.inferStep known) := by
    intro ops
    induction ops with
    | nil => exact fun known _ => rfl
    | cons op rest ih =>
      intro known built
      obtain ⟨here, later⟩ := List.forall_mem_cons.mp built
      rw [List.foldlM_cons, List.foldlM_cons, plain_bind, inferStep_eq here]
      exact bind_congr fun known => ih known later
  exact folds m.operators m.declaredShapes built

end Positional
end TensorGraph
