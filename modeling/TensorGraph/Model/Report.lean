import TensorGraph.Model.Shapes
import TensorGraph.Number.Shortest
import TensorGraph.Text.Lines

/-! Models as text: a section of tensors in the order of their registration, one of operators, the
outputs, and on demand a section of shapes. Columns are padded by code points. -/
namespace TensorGraph
open Text

/-- A flag is written as a digit. -/
def flagText (flag : Bool) : String := if flag then "1" else "0"

def Tensor.line (t : Tensor) : String :=
  let shape := t.shape.elim "?" Shape.text
  s!"  {padded 20 t.name} {padded 12 t.kind.name} {t.elementType.name} {shape}"

def Operation.text : Operation → String
  | gemm s => s!" alpha={s.alpha.text} beta={s.beta.text} " ++
      s!"transA={flagText s.transA} transB={flagText s.transB}"
  | relu => ""
  | transpose permutation => s!" perm={Shape.text permutation}"

def Operator.line (op : Operator) : String :=
  s!"  {commaList op.outputs} = {op.kind.name}({commaList op.inputs}){op.operation.text}"

namespace Model

def reportLines (m : Model) : List String :=
  [s!"model {m.name}", "tensors:"] ++ m.tensors.tensors.map Tensor.line ++
    ["operators:"] ++ m.operators.map Operator.line ++ [s!"outputs: {commaList m.outputs}"]

def report (m : Model) : String := unlines m.reportLines

/-- The line of a tensor whose shape is known. -/
def shapeLine? (known : NameMap Shape) (t : Tensor) : Option String :=
  (known.get? t.name).map fun shape => s!"  {padded 20 t.name} {shape.text}"

def shapeLines (m : Model) (known : NameMap Shape) : List String :=
  "shapes:" :: m.tensors.tensors.filterMap (shapeLine? known)

def shapeReport (m : Model) (known : NameMap Shape) : String := unlines (m.shapeLines known)

end Model

/-- A line for every label with its kind. -/
def Kind.report : String :=
  unlines (labels.map fun (label, kind) => s!"{padded 18 label} {kind.name}")

end TensorGraph
