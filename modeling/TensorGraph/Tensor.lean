import TensorGraph.ElementType
import TensorGraph.Number.Binary32
import TensorGraph.Shape

/-! Tensors: a name, an element type, a shape where it is known, and what backs them. -/
namespace TensorGraph

inductive TensorKind where
  | input | initialized | intermediate
  deriving DecidableEq, Repr

def TensorKind.name : TensorKind → String
  | input => "Input"
  | initialized => "Initialized"
  | intermediate => "Intermediate"

/-- What backs a tensor: initialized ones own their elements as octets in little-endian order. -/
inductive Storage where
  | input
  | initialized (data : List UInt8)
  | intermediate
  deriving DecidableEq

structure Tensor where
  name : String
  elementType : ElementType
  shape : Option Shape
  storage : Storage
  deriving DecidableEq

namespace Tensor

def kind (t : Tensor) : TensorKind :=
  match t.storage with
  | .input => .input
  | .initialized _ => .initialized
  | .intermediate => .intermediate

def data? (t : Tensor) : Option (List UInt8) :=
  match t.storage with
  | .initialized data => some data
  | _ => none

/-- The numbers of an initialized tensor of 32-bit floats. -/
def floats? (t : Tensor) : Option (List Binary32) :=
  if t.elementType = .float32 then t.data?.map Binary32.decode else none

end Tensor
end TensorGraph
