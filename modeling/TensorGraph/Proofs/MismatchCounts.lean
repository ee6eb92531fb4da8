import TensorGraph.Model.Shapes
import TensorGraph.Proofs.Blame

/-! The two counts that a mismatch of shapes tells. Inner extents of a product are told as they are, and
differ. Of data only whole elements are counted, so that data of one size may be told apart from a shape of
another size by equal counts: octets at its end that make up no element do not count. -/
namespace TensorGraph

/-- Data of all elements of a shape, with some octets behind them that are no further element. -/
def Shape.Overhung (shape : Shape) (data : List UInt8) : Prop :=
  4 * shape.elements < data.length ∧ data.length < 4 * (shape.elements + 1)

/-- The element count of a shape, and how many elements there are in data of another size. -/
structure TellsCounts (shape : Shape) (data : List UInt8) (expected actual : Nat) : Prop where
  expected : expected = shape.elements
  actual : actual = data.length / 4
  differs : data.length ≠ 4 * shape.elements

/-- Counts of data are equal only where octets overhang. -/
theorem TellsCounts.eq_iff {shape : Shape} {data : List UInt8} {expected actual : Nat}
    (tells : TellsCounts shape data expected actual) : expected = actual ↔ shape.Overhung data := by
  obtain ⟨rfl, rfl, differs⟩ := tells
  rw [Shape.Overhung]
  omega

/-- Counts that are told are not equal. -/
def GraphError.CountsDiffer : GraphError → Prop
  | .shapeMismatch _ expected actual => expected ≠ actual
  | _ => True

variable {name : String} {expected actual : Nat}

theorem Registry.tellsCounts_of_materialize {r : Registry} {x : String} {t : ElementType}
    {shape : Shape} {data : List UInt8}
    (failed : r.materialize x t shape data = .error (.shapeMismatch name expected actual)) :
    name = x ∧ TellsCounts shape data expected actual := by
  rcases materialize_eq_error.mp failed with ⟨-, other⟩ | ⟨-, -, other⟩ | ⟨-, -, missized⟩
  · cases other
  · cases other
  · cases missized with
    | mismatch fits other => exact ⟨rfl, rfl, rfl, by omega⟩

namespace Graph

/-- A mismatch tells of the first weight of its name. -/
theorem tellsCounts_of_compile {g : Graph} {options : Options} {model : String}
    (failed : g.compile options model = .error (.shapeMismatch name expected actual)) :
    ∃ weight, g.IsFirst weight ∧ weight.name = name ∧
      TellsCounts weight.shape weight.data expected actual := by
  have blames := (g.faultsIn_compile options model).of_error _ failed
  generalize told : GraphError.shapeMismatch name expected actual = e at blames
  cases blames with
  | shapeMismatch first differs =>
    cases told
    exact ⟨_, first, rfl, rfl, rfl, differs⟩
  | operator _ lies =>
    rw [← told] at lies
    cases lies
  | _ => cases told

end Graph

namespace Operator

variable {op : Operator}

theorem countsDiffer_extents (tensor : String) (transposed : Bool) (shape : Shape) :
    FaultsIn GraphError.CountsDiffer (op.extents tensor transposed shape) := by
  unfold extents
  split
  · exact .ok _
  · exact .error trivial

theorem countsDiffer_gather (shape : Shape) (axes : List Nat) :
    FaultsIn GraphError.CountsDiffer (op.gather shape axes) := by
  refine .mapM (fun axis => ?_) axes
  split
  · exact .ok _
  · exact .error trivial

/-- An operator that tells counts tells inner extents that differ. -/
theorem countsDiffer_outputShape (operands : List (String × Shape)) :
    FaultsIn GraphError.CountsDiffer (op.outputShape operands) := by
  unfold outputShape
  split
  · exact .ok _
  · refine .bind ?_ fun _ _ => countsDiffer_gather _ _
    rw [expectRank]
    split
    · exact .ok _
    · exact .error trivial
  · refine (countsDiffer_extents ..).bind fun left _ => (countsDiffer_extents ..).bind fun right _ => ?_
    obtain ⟨rows, innerA⟩ := left
    obtain ⟨innerB, columns⟩ := right
    by_cases same : innerA = innerB
    · simp only [same, ne_eq, not_true_eq_false, if_false]
      exact .ok _
    · simp only [same, ne_eq, not_false_eq_true, if_true]
      exact .error same
  · exact .error trivial

end Operator

namespace Model

theorem countsDiffer_inferStep (known : NameMap Shape) (op : Operator) :
    FaultsIn GraphError.CountsDiffer (inferStep known op) := by
  rw [inferStep]
  split
  · exact .ok _
  · refine (Operator.countsDiffer_outputShape _).bind fun shape _ => ?_
    split
    · exact .error trivial
    · exact .ok _

theorem countsDiffer_shapes (m : Model) : FaultsIn GraphError.CountsDiffer m.shapes :=
  .foldlM countsDiffer_inferStep m.operators m.declaredShapes

end Model

/-- What the counts of a mismatch are. A registration tells those of a shape and of other data, and so does
a compilation for the first weight of the name that it tells; the counts are equal exactly where the data
has all elements of the shape and octets behind them that are no element. Inference never tells equal
counts. -/
theorem mismatch_counts (name : String) (expected actual : Nat) :
    (∀ (r : Registry) (x : String) (t : ElementType) (shape : Shape) (data : List UInt8),
      r.materialize x t shape data = .error (.shapeMismatch name expected actual) →
        TellsCounts shape data expected actual ∧ (expected = actual ↔ shape.Overhung data)) ∧
    (∀ (g : Graph) (options : Options) (model : String),
      g.compile options model = .error (.shapeMismatch name expected actual) →
        ∃ weight, g.IsFirst weight ∧ weight.name = name ∧
          TellsCounts weight.shape weight.data expected actual ∧
            (expected = actual ↔ weight.shape.Overhung weight.data)) ∧
    (∀ (d : Description) (options : Options),
      d.compile options = .error (.shapeMismatch name expected actual) →
        ∃ weight, d.toGraph.IsFirst weight ∧ weight.name = name ∧
          TellsCounts weight.shape weight.data expected actual ∧
            (expected = actual ↔ weight.shape.Overhung weight.data)) ∧
    ∀ m : Model, m.shapes = .error (.shapeMismatch name expected actual) → expected ≠ actual := by
  refine ⟨?_, ?_, ?_, ?_⟩
  · intro r x t shape data failed
    have tells := (Registry.tellsCounts_of_materialize failed).2
    exact ⟨tells, tells.eq_iff⟩
  · intro g options model failed
    obtain ⟨weight, first, named, tells⟩ := Graph.tellsCounts_of_compile failed
    exact ⟨weight, first, named, tells, tells.eq_iff⟩
  · intro d options failed
    obtain ⟨weight, first, named, tells⟩ := Graph.tellsCounts_of_compile failed
    exact ⟨weight, first, named, tells, tells.eq_iff⟩
  · intro m failed
    exact m.countsDiffer_shapes.of_error _ failed

/-- Seven octets for one float. -/
theorem mismatch_counts_overhung :
    Registry.empty.materialize "w" .float32 [1] [0, 0, 128, 63, 0, 0, 0] =
        .error (.shapeMismatch "w" 1 1) ∧ Shape.Overhung [1] [0, 0, 128, 63, 0, 0, 0] := by
  have failed : Registry.empty.materialize "w" .float32 [1] [0, 0, 128, 63, 0, 0, 0] =
      .error (.shapeMismatch "w" 1 1) := by decide +kernel
  exact ⟨failed, ((mismatch_counts "w" 1 1).1 _ _ _ _ _ failed).2.mp rfl⟩

/-- A graph whose one weight has an octet too many. -/
def Graph.overhanging : Graph where
  weights := [{ name := "w", shape := [1], data := [0, 0, 128, 63, 0] }]

/-- A mismatch may tell the same count twice: one element is expected, and one is found. -/
theorem mismatch_of_equal_counts :
    Graph.overhanging.compile = .error (.shapeMismatch "w" 1 1) ∧
      Registry.empty.materialize "w" .float32 [1] [0, 0, 128, 63, 0] =
        .error (.shapeMismatch "w" 1 1) := by
  refine ⟨by decide +kernel, by decide +kernel⟩

end TensorGraph
