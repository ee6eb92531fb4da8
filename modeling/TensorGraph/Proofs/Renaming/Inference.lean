import TensorGraph.Proofs.Renaming.Compile
import TensorGraph.Proofs.ShapeInference

/-! Inference under other names of tensors: it finds the same shapes under the new names, or fails with
the same complaint about the renamed tensor. So a graph and a renaming of it have the same outcomes all
the way, up to the names. -/
namespace TensorGraph

variable (ρ : Renaming)

namespace Operator

variable (op : Operator)

theorem expectRank_rename (x : String) (rank : Nat) (shape : Shape) :
    (op.rename ρ).expectRank (ρ x) rank shape = ρ.outcome id (op.expectRank x rank shape) := by
  rw [expectRank, expectRank]
  split
  · rfl
  · rfl

theorem extents_rename (x : String) (transposed : Bool) (shape : Shape) :
    (op.rename ρ).extents (ρ x) transposed shape = ρ.outcome id (op.extents x transposed shape) := by
  rw [extents.eq_def, extents.eq_def]
  split
  · rfl
  · rfl

theorem gather_rename (shape : Shape) (axes : List Nat) :
    (op.rename ρ).gather shape axes = ρ.outcome id (op.gather shape axes) := by
  rw [gather, gather]
  induction axes with
  | nil => rfl
  | cons axis rest ih =>
    rw [List.mapM_cons, List.mapM_cons, ih]
    cases shape[axis]? with
    | none => rfl
    | some extent =>
      dsimp only
      rw [ok_bind, ok_bind]
      exact ρ.outcome_bind fun _ => rfl

/-- Operands under other names. -/
def renameOperand (operand : String × Shape) : String × Shape := (ρ operand.1, operand.2)

theorem outputShape_rename (operands : List (String × Shape)) :
    (op.rename ρ).outputShape (operands.map (renameOperand ρ)) =
      ρ.outcome id (op.outputShape operands) := by
  have kept : (op.rename ρ).operation = op.operation := rfl
  rw [outputShape.eq_def, outputShape.eq_def, kept]
  cases op.operation with
  | relu =>
    cases operands with
    | nil => rfl
    | cons a rest => rfl
  | transpose permutation =>
    cases operands with
    | nil => rfl
    | cons a rest =>
      change ((op.rename ρ).expectRank (ρ a.1) permutation.length a.2 >>= fun _ =>
        (op.rename ρ).gather a.2 permutation) = _
      rw [expectRank_rename]
      exact ρ.outcome_bind fun _ => op.gather_rename ρ a.2 permutation
  | gemm scaling =>
    rcases operands with _ | ⟨a, _ | ⟨b, rest⟩⟩
    · rfl
    · rfl
    · change ((op.rename ρ).extents (ρ a.1) scaling.transA a.2 >>= _) = _
      rw [extents_rename]
      refine ρ.outcome_bind fun left => ?_
      change ((op.rename ρ).extents (ρ b.1) scaling.transB b.2 >>= _) = _
      rw [extents_rename]
      refine ρ.outcome_bind fun right => ?_
      dsimp only [id]
      by_cases other : left.2 ≠ right.1
      · rw [if_pos other, if_pos other]
        rfl
      · rw [if_neg other, if_neg other]
        rfl

end Operator

namespace Model

variable (m : Model)

theorem declaredShapes_rename : (m.rename ρ).declaredShapes = m.declaredShapes.rename ρ := by
  apply NameMap.eq_of_get?
  intro y
  ext shape
  rw [get?_declaredShapes, NameMap.get?_rename_eq_some_iff]
  constructor
  · intro h
    obtain ⟨t', mem', declared, rfl⟩ := h
    obtain ⟨t, mem, rfl⟩ := List.mem_map.mp mem'
    exact ⟨t.name, rfl, get?_declaredShapes.mpr ⟨t, mem, declared, rfl⟩⟩
  · intro h
    obtain ⟨x, rfl, found⟩ := h
    obtain ⟨t, mem, declared, rfl⟩ := get?_declaredShapes.mp found
    exact ⟨t.rename ρ, List.mem_map_of_mem mem, declared, rfl⟩

theorem operands?_rename (known : NameMap Shape) (op : Operator) :
    operands? (known.rename ρ) (op.rename ρ) =
      (operands? known op).map (List.map (Operator.renameOperand ρ)) := by
  rw [operands?, operands?, Operator.rename]
  dsimp only
  induction op.inputs with
  | nil => rfl
  | cons x rest ih =>
    rw [List.map_cons, List.mapM_cons, List.mapM_cons, ih, NameMap.get?_rename]
    cases known.get? x with
    | none => rfl
    | some shape =>
      cases rest.mapM fun name => (known.get? name).map fun shape => (name, shape) with
      | none => rfl
      | some operands => rfl

theorem inferStep_rename (known : NameMap Shape) (op : Operator) :
    inferStep (known.rename ρ) (op.rename ρ) =
      ρ.outcome (NameMap.rename ρ) (inferStep known op) := by
  rw [inferStep, inferStep, operands?_rename]
  cases operands? known op with
  | none => rfl
  | some operands =>
    rw [Option.map_some]
    dsimp only
    rw [Operator.outputShape_rename]
    refine ρ.outcome_bind fun shape => ?_
    rw [Operator.rename]
    cases op.outputs with
    | nil =>
      rw [List.length_map]
      rfl
    | cons output rest => exact congrArg Except.ok (NameMap.insert_rename ρ known output shape)

/-- Inference finds the shapes under the other names, or fails with the renamed complaint. -/
theorem shapes_renamed : (m.rename ρ).shapes = ρ.outcome (NameMap.rename ρ) m.shapes := by
  rw [shapes, shapes, declaredShapes_rename]
  exact ρ.outcome_foldlM (inferStep_rename ρ) m.operators m.declaredShapes

end Model

/-- Names in a scope. -/
def Renaming.scoped (scope : String) : Renaming where
  apply x := scope ++ x
  injective := by
    intro x y same
    simpa using same

/-- Names of tensors are nothing but names. Under other ones, different for different tensors, a graph or
a description compiles to the same model under these names, or there is the same complaint about the
tensor of the new name; and inference on any model comes to the same shapes or to the same complaint. -/
theorem compile_under_renaming (g : Graph) (d : Description) (options : Options) (name : String) :
    (g.rename ρ).compile options name = ρ.outcome (Model.rename ρ) (g.compile options name) ∧
      (d.rename ρ).compile options = ρ.outcome (Model.rename ρ) (d.compile options) ∧
      ∀ m : Model, (m.rename ρ).shapes = ρ.outcome (NameMap.rename ρ) m.shapes := by
  refine ⟨g.compile_renamed ρ options name, ?_, fun m => m.shapes_renamed ρ⟩
  have dropped : (d.rename ρ).inputs.drop (d.skipped options) =
      (d.inputs.drop (d.skipped options)).map (Input.rename ρ) := List.map_drop.symm
  rw [Description.compile, Description.compile, ← Graph.compile_renamed]
  change Graph.compile { (d.rename ρ).toGraph with
    inputs := (d.rename ρ).inputs.drop (d.skipped options) } options d.name = _
  rw [dropped]
  rfl

theorem compile_under_renaming_layer :
    (Graph.layer.rename (.scoped "net/")).compile = .ok (Graph.layerModel.rename (.scoped "net/")) := by
  rw [(compile_under_renaming (.scoped "net/") Graph.layer {} {} defaultName).1, Graph.compile_layer]
  rfl

end TensorGraph
