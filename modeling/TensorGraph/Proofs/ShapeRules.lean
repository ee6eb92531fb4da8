import Mathlib.Data.List.GetD
import TensorGraph.Model.Shapes
import TensorGraph.Proofs.Building

/-! What operators ask of shapes, as rules between the shapes of the operands and that of the result,
and what an operator whose rule cannot be met complains about. An operator that is well built computes
the result of its rule, or else its complaint. -/
namespace TensorGraph

/-- The shape in which a matrix is stored that counts as so many rows and columns. -/
def Shape.stored (transposed : Bool) (rows columns : Nat) : Shape :=
  if transposed then [columns, rows] else [rows, columns]

/-- The shapes of the operands of an operation, and the one shape of its result. -/
inductive Operation.Rule : Operation → List Shape → Shape → Prop
  | relu (shape : Shape) : Rule .relu [shape] shape
  | transpose {permutation : List Nat} {shape result : Shape}
    (rank : permutation.length = shape.length) (sameRank : result.length = permutation.length)
    (extents : ∀ i axis : Nat, permutation[i]? = some axis → result[i]? = shape[axis]?) :
    Rule (.transpose permutation) [shape] result
  | gemm (scaling : Scaling) (rows inner columns : Nat) (bias : Shape) :
    Rule (.gemm scaling)
      [.stored scaling.transA rows inner, .stored scaling.transB inner columns, bias] [rows, columns]

/-- What is wrong with the shapes of the operands of an operator. -/
inductive Operator.Violation (op : Operator) (shapes : String → Shape) : GraphError → Prop
  | transposeRank {permutation : List Nat} {x : String} :
    op.operation = .transpose permutation → op.inputs = [x] →
      (shapes x).length ≠ permutation.length →
        Violation op shapes
          (.invalidNode op.name (.rank x permutation.length (shapes x).length))
  | leftRank {scaling : Scaling} {a b c : String} :
    op.operation = .gemm scaling → op.inputs = [a, b, c] → (shapes a).length ≠ 2 →
      Violation op shapes (.invalidNode op.name (.rank a 2 (shapes a).length))
  | rightRank {scaling : Scaling} {a b c : String} :
    op.operation = .gemm scaling → op.inputs = [a, b, c] → (shapes a).length = 2 →
      (shapes b).length ≠ 2 →
        Violation op shapes (.invalidNode op.name (.rank b 2 (shapes b).length))
  | inner {scaling : Scaling} {a b c : String} {rows innerA innerB columns : Nat} :
    op.operation = .gemm scaling → op.inputs = [a, b, c] →
      shapes a = .stored scaling.transA rows innerA →
        shapes b = .stored scaling.transB innerB columns → innerA ≠ innerB →
          Violation op shapes (.shapeMismatch b innerA innerB)

namespace Shape

@[simp] theorem length_stored (transposed : Bool) (rows columns : Nat) :
    (stored transposed rows columns).length = 2 := by
  cases transposed <;> rfl

theorem stored_inj {transposed : Bool} {rows rows' columns columns' : Nat} :
    stored transposed rows columns = stored transposed rows' columns' ↔
      rows = rows' ∧ columns = columns' := by
  cases transposed <;> simp [stored, and_comm]

theorem exists_stored {shape : Shape} (transposed : Bool) (h : shape.length = 2) :
    ∃ rows columns, shape = stored transposed rows columns := by
  obtain ⟨a, b, rfl⟩ := List.length_eq_two.mp h
  cases transposed with
  | false => exact ⟨a, b, rfl⟩
  | true => exact ⟨b, a, rfl⟩

end Shape

namespace Operator

variable {op : Operator}

theorem extents_stored {tensor : String} {transposed : Bool} {rows columns : Nat} :
    op.extents tensor transposed (.stored transposed rows columns) = .ok (rows, columns) := by
  cases transposed <;> rfl

theorem extents_of_length_ne {tensor : String} {transposed : Bool} {shape : Shape}
    (h : shape.length ≠ 2) :
    op.extents tensor transposed shape =
      .error (.invalidNode op.name (.rank tensor 2 shape.length)) := by
  rw [extents]
  intro rows columns same
  rw [same] at h
  exact h rfl

theorem extents_eq_ok {tensor : String} {transposed : Bool} {shape : Shape} {rows columns : Nat} :
    op.extents tensor transposed shape = .ok (rows, columns) ↔
      shape = .stored transposed rows columns := by
  by_cases rank : shape.length = 2
  · obtain ⟨rows', columns', rfl⟩ := Shape.exists_stored transposed rank
    rw [extents_stored, Shape.stored_inj]
    simp
  · rw [extents_of_length_ne rank]
    refine ⟨nofun, ?_⟩
    rintro rfl
    exact absurd (Shape.length_stored ..) rank

theorem extents_eq_error {tensor : String} {transposed : Bool} {shape : Shape} {e : GraphError} :
    op.extents tensor transposed shape = .error e ↔
      shape.length ≠ 2 ∧ e = .invalidNode op.name (.rank tensor 2 shape.length) := by
  by_cases rank : shape.length = 2
  · obtain ⟨rows, columns, rfl⟩ := Shape.exists_stored transposed rank
    rw [extents_stored]
    simp
  · rw [extents_of_length_ne rank]
    simp [rank, eq_comm]

/-- Extents of axes that are all there. -/
theorem gather_eq_map {shape : Shape} {axes : List Nat} (inside : ∀ axis ∈ axes, axis < shape.length) :
    op.gather shape axes = .ok (axes.map fun axis => shape.getD axis 0) := by
  rw [gather]
  induction axes with
  | nil => rfl
  | cons axis rest ih =>
    obtain ⟨here, later⟩ := List.forall_mem_cons.mp inside
    rw [List.mapM_cons, ih later, List.getElem?_eq_getElem here, List.map_cons,
      List.getD_eq_getElem shape 0 here]
    rfl

/-- Gathered extents are those of the axes one by one. -/
theorem eq_map_getD_iff {shape result : Shape} {axes : List Nat}
    (inside : ∀ axis ∈ axes, axis < shape.length) :
    result = (axes.map fun axis => shape.getD axis 0) ↔ result.length = axes.length ∧
      ∀ i axis : Nat, axes[i]? = some axis → result[i]? = shape[axis]? := by
  constructor
  · rintro rfl
    refine ⟨by simp, fun i axis found => ?_⟩
    have here := inside axis (List.mem_of_getElem? found)
    simp [found, List.getElem?_eq_getElem here]
  · intro h
    obtain ⟨count, each⟩ := h
    apply List.ext_getElem?
    intro i
    cases found : axes[i]? with
    | none =>
      have outside : axes.length ≤ i := List.getElem?_eq_none_iff.mp found
      rw [List.getElem?_eq_none (by omega), List.getElem?_map, found]
      rfl
    | some axis =>
      have here := inside axis (List.mem_of_getElem? found)
      simp [each i axis found, found, List.getElem?_eq_getElem here]

variable {shapes : String → Shape} {e : GraphError} {result : Shape}

/-- The operands of an operator with their shapes. -/
def operandsIn (op : Operator) (shapes : String → Shape) : List (String × Shape) :=
  op.inputs.map fun x => (x, shapes x)

theorem outputShape_relu (relu : op.operation = .relu) (x : String) (shape : Shape) :
    op.outputShape [(x, shape)] = .ok shape := by
  simp only [outputShape, relu]

theorem outputShape_transpose {permutation : List Nat}
    (transpose : op.operation = .transpose permutation)
    (isPermutation : permutation.Perm (List.range permutation.length)) (x : String) (shape : Shape) :
    op.outputShape [(x, shape)] =
      if shape.length = permutation.length then
        .ok (permutation.map fun axis => shape.getD axis 0)
      else .error (.invalidNode op.name (.rank x permutation.length shape.length)) := by
  simp only [outputShape, transpose]
  change (op.expectRank x permutation.length shape >>= fun _ => op.gather shape permutation) = _
  rw [expectRank]
  by_cases rank : shape.length = permutation.length
  · have inside : ∀ axis ∈ permutation, axis < shape.length := by
      rw [rank]
      exact lt_of_perm_range isPermutation
    rw [if_pos rank, if_pos rank]
    exact gather_eq_map inside
  · rw [if_neg rank, if_neg rank]
    rfl

theorem outputShape_gemm {scaling : Scaling} (gemm : op.operation = .gemm scaling)
    (a b c : String × Shape) :
    op.outputShape [a, b, c] = (do
      let (rows, innerA) ← op.extents a.1 scaling.transA a.2
      let (innerB, columns) ← op.extents b.1 scaling.transB b.2
      if innerA = innerB then return [rows, columns]
      else throw (.shapeMismatch b.1 innerA innerB)) := by
  simp only [outputShape, gemm]
  refine bind_congr fun left => bind_congr fun right => ?_
  by_cases same : left.2 = right.1
  · simp [same]
  · simp [same, throw, throwThe, MonadExceptOf.throw, bind, Except.bind]

theorem inputs_eq_of_wellBuilt (built : op.WellBuilt) :
    match op.operation with
    | .gemm _ => ∃ a b c, op.inputs = [a, b, c]
    | .relu | .transpose _ => ∃ x, op.inputs = [x] := by
  have arity := built.inputs
  rw [kind] at arity
  cases operation : op.operation with
  | gemm scaling =>
    rw [operation] at arity
    exact List.length_eq_three.mp arity
  | relu =>
    rw [operation] at arity
    exact List.length_eq_one_iff.mp arity
  | transpose permutation =>
    rw [operation] at arity
    exact List.length_eq_one_iff.mp arity

theorem violation_relu (relu : op.operation = .relu) : ¬ op.Violation shapes e := by
  intro h
  cases h <;> simp_all

theorem violation_transpose {permutation : List Nat} {x : String}
    (transpose : op.operation = .transpose permutation) (inputs : op.inputs = [x]) :
    op.Violation shapes e ↔ (shapes x).length ≠ permutation.length ∧
      e = .invalidNode op.name (.rank x permutation.length (shapes x).length) := by
  constructor
  · intro h
    cases h <;> simp_all
  · rintro ⟨rank, rfl⟩
    exact .transposeRank transpose inputs rank

theorem violation_gemm {scaling : Scaling} {a b c : String}
    (gemm : op.operation = .gemm scaling) (inputs : op.inputs = [a, b, c]) :
    op.Violation shapes e ↔
      ((shapes a).length ≠ 2 ∧ e = .invalidNode op.name (.rank a 2 (shapes a).length)) ∨
      ((shapes a).length = 2 ∧ (shapes b).length ≠ 2 ∧
        e = .invalidNode op.name (.rank b 2 (shapes b).length)) ∨
      ∃ rows innerA innerB columns, shapes a = .stored scaling.transA rows innerA ∧
        shapes b = .stored scaling.transB innerB columns ∧ innerA ≠ innerB ∧
          e = .shapeMismatch b innerA innerB := by
  have operands : ∀ {a' b' c'}, op.inputs = [a', b', c'] → a = a' ∧ b = b' ∧ c = c' := by
    intro a' b' c' inputs'
    simpa using inputs.symm.trans inputs'
  constructor
  · intro h
    cases h with
    | transposeRank transpose => simp [gemm] at transpose
    | leftRank again inputs' rank =>
      obtain ⟨rfl, rfl, rfl⟩ := operands inputs'
      exact .inl ⟨rank, rfl⟩
    | rightRank again inputs' rankA rankB =>
      obtain ⟨rfl, rfl, rfl⟩ := operands inputs'
      exact .inr (.inl ⟨rankA, rankB, rfl⟩)
    | inner again inputs' left right other =>
      obtain ⟨rfl, rfl, rfl⟩ := operands inputs'
      obtain rfl := Operation.gemm.inj (gemm.symm.trans again)
      exact .inr (.inr ⟨_, _, _, _, left, right, other, rfl⟩)
  · intro h
    rcases h with ⟨rank, rfl⟩ | ⟨rankA, rankB, rfl⟩ |
      ⟨rows, innerA, innerB, columns, left, right, other, rfl⟩
    · exact .leftRank gemm inputs rank
    · exact .rightRank gemm inputs rankA rankB
    · exact .inner gemm inputs left right other

theorem rule_gemm {scaling : Scaling} {left right bias : Shape} :
    (Operation.gemm scaling).Rule [left, right, bias] result ↔
      ∃ rows inner columns, left = .stored scaling.transA rows inner ∧
        right = .stored scaling.transB inner columns ∧ result = [rows, columns] := by
  constructor
  · intro h
    cases h with
    | gemm _ rows inner columns => exact ⟨rows, inner, columns, rfl, rfl, rfl⟩
  · rintro ⟨rows, inner, columns, rfl, rfl, rfl⟩
    exact .gemm scaling rows inner columns bias

theorem rule_transpose {permutation : List Nat} {shape : Shape} :
    (Operation.transpose permutation).Rule [shape] result ↔
      shape.length = permutation.length ∧ result.length = permutation.length ∧
        ∀ i axis : Nat, permutation[i]? = some axis → result[i]? = shape[axis]? := by
  constructor
  · intro h
    cases h with
    | transpose rank sameRank extents => exact ⟨rank.symm, sameRank, extents⟩
  · intro h
    obtain ⟨rank, sameRank, extents⟩ := h
    exact .transpose rank.symm sameRank extents

theorem rule_relu {shape : Shape} : Operation.relu.Rule [shape] result ↔ result = shape := by
  constructor
  · intro h
    cases h with
    | relu => rfl
  · rintro rfl
    exact .relu result

theorem outputShape_transpose_eq_ok {permutation : List Nat}
    (transpose : op.operation = .transpose permutation)
    (isPermutation : permutation.Perm (List.range permutation.length)) {x : String} {shape : Shape} :
    op.outputShape [(x, shape)] = .ok result ↔
      (Operation.transpose permutation).Rule [shape] result := by
  rw [outputShape_transpose transpose isPermutation, rule_transpose]
  by_cases rank : shape.length = permutation.length
  · have inside : ∀ axis ∈ permutation, axis < shape.length := by
      rw [rank]
      exact lt_of_perm_range isPermutation
    rw [if_pos rank, ← eq_map_getD_iff inside]
    exact ⟨fun h => ⟨rank, (Except.ok.inj h).symm⟩, fun h => congrArg Except.ok h.2.symm⟩
  · rw [if_neg rank]
    simp [rank]

theorem outputShape_gemm_eq_ok {scaling : Scaling} (gemm : op.operation = .gemm scaling)
    {a b c : String × Shape} :
    op.outputShape [a, b, c] = .ok result ↔ (Operation.gemm scaling).Rule [a.2, b.2, c.2] result := by
  simp only [outputShape_gemm gemm, rule_gemm, bind_eq_ok, Prod.exists, extents_eq_ok]
  constructor
  · intro h
    obtain ⟨rows, innerA, left, innerB, columns, right, h⟩ := h
    by_cases same : innerA = innerB
    · rw [if_pos same] at h
      subst same
      exact ⟨rows, innerA, columns, left, right, (Except.ok.inj h).symm⟩
    · rw [if_neg same] at h
      exact absurd h throw_ne_ok
  · intro h
    obtain ⟨rows, inner, columns, left, right, same⟩ := h
    refine ⟨rows, inner, left, inner, columns, right, ?_⟩
    rw [if_pos rfl, same]
    rfl

theorem outputShape_gemm_eq_error {scaling : Scaling} (gemm : op.operation = .gemm scaling)
    {a b c : String} (inputs : op.inputs = [a, b, c]) :
    op.outputShape (op.operandsIn shapes) = .error e ↔ op.Violation shapes e := by
  rw [violation_gemm gemm inputs, operandsIn, inputs]
  simp only [List.map_cons, List.map_nil, outputShape_gemm gemm, bind_eq_error, Prod.exists,
    extents_eq_ok, extents_eq_error]
  constructor
  · intro h
    rcases h with h | ⟨rows, innerA, left, ⟨rank, same⟩ | ⟨innerB, columns, right, h⟩⟩
    · exact .inl h
    · refine .inr (.inl ⟨?_, rank, same⟩)
      rw [left]
      exact Shape.length_stored ..
    · by_cases same : innerA = innerB
      · rw [if_pos same] at h
        cases h
      · rw [if_neg same] at h
        exact .inr (.inr ⟨rows, innerA, innerB, columns, left, right, same, (throw_eq_error.mp h).symm⟩)
  · intro h
    rcases h with h | ⟨rankA, h⟩ | ⟨rows, innerA, innerB, columns, left, right, other, rfl⟩
    · exact .inl h
    · obtain ⟨rows, innerA, left⟩ := Shape.exists_stored scaling.transA rankA
      exact .inr ⟨rows, innerA, left, .inl h⟩
    · refine .inr ⟨rows, innerA, left, .inr ⟨innerB, columns, right, ?_⟩⟩
      rw [if_neg other]
      rfl

/-- An operator computes the result of its rule. -/
theorem outputShape_eq_ok (built : op.WellBuilt) (shapes : String → Shape) :
    op.outputShape (op.operandsIn shapes) = .ok result ↔
      op.operation.Rule (op.inputs.map shapes) result := by
  have arity := inputs_eq_of_wellBuilt built
  cases operation : op.operation with
  | relu =>
    rw [operation] at arity
    obtain ⟨x, inputs⟩ := arity
    rw [operandsIn, inputs, List.map_singleton, List.map_singleton, outputShape_relu operation,
      rule_relu]
    exact ⟨fun h => (Except.ok.inj h).symm, fun h => congrArg Except.ok h.symm⟩
  | transpose permutation =>
    rw [operation] at arity
    obtain ⟨x, inputs⟩ := arity
    rw [operandsIn, inputs]
    exact outputShape_transpose_eq_ok operation (built.permutation permutation operation)
  | gemm scaling =>
    rw [operation] at arity
    obtain ⟨a, b, c, inputs⟩ := arity
    rw [operandsIn, inputs]
    exact outputShape_gemm_eq_ok operation

/-- An operator complains about what violates its rule. -/
theorem outputShape_eq_error (built : op.WellBuilt) (shapes : String → Shape) :
    op.outputShape (op.operandsIn shapes) = .error e ↔ op.Violation shapes e := by
  have arity := inputs_eq_of_wellBuilt built
  cases operation : op.operation with
  | relu =>
    rw [operation] at arity
    obtain ⟨x, inputs⟩ := arity
    rw [operandsIn, inputs, List.map_singleton, outputShape_relu operation]
    simp [violation_relu operation]
  | transpose permutation =>
    rw [operation] at arity
    obtain ⟨x, inputs⟩ := arity
    rw [violation_transpose operation inputs, operandsIn, inputs, List.map_singleton,
      outputShape_transpose operation (built.permutation permutation operation)]
    by_cases rank : (shapes x).length = permutation.length
    · simp [rank]
    · simp [rank, eq_comm]
  | gemm scaling =>
    rw [operation] at arity
    obtain ⟨a, b, c, inputs⟩ := arity
    exact outputShape_gemm_eq_error operation inputs

end Operator
end TensorGraph
