import TensorGraph.Text.Blank

/-! Kinds of operators, and the labels under which nodes ask for them. A label may stand in white space,
and inside that in one pair of single quotes; otherwise it has to be a listed one. -/
namespace TensorGraph

inductive Kind where
  | gemm | relu | transpose
  deriving DecidableEq, Repr, Inhabited

namespace Kind

def name : Kind → String
  | gemm => "Gemm"
  | relu => "Relu"
  | transpose => "Transpose"

/-- Every label with its kind. -/
def labels : List (String × Kind) :=
  [("onnx::Gemm", gemm), ("affine", gemm), ("onnx::Relu", relu), ("rectifier", relu),
   ("onnx::Transpose", transpose), ("transpose", transpose)]

/-- Takes one pair of quotes off a text that begins and ends with one. -/
def unquote : List Char → List Char
  | '\x27' :: rest => if rest.getLast? = some '\x27' then rest.dropLast else '\x27' :: rest
  | text => text

def ofLabel? (label : String) : Option Kind :=
  let bare := unquote (Text.trim label.toList)
  (labels.find? fun entry => entry.1.toList == bare).map (·.2)

example : ofLabel? " 'onnx::Transpose' " = some transpose := by decide +kernel

/-- Nothing may stand between the quotes and the label. -/
example : ofLabel? "' affine'" = none := by decide +kernel

/-- A lone quote is no pair. -/
example : unquote ['\x27'] = ['\x27'] := by decide

end Kind
end TensorGraph
