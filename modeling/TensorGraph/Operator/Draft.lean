import TensorGraph.Attribute.Reader
import TensorGraph.Operator

/-! Drafts: what is known of an operator before its attributes are read. Completing a draft checks the
number of its operands, then its element type, then its attributes. -/
namespace TensorGraph

structure Draft where
  name : String
  attributes : Attributes
  inputs : List String
  outputs : List String
  elementType : ElementType
  deriving DecidableEq

/-- What is wrong with an axis that comes behind others. -/
def axisFault? (rank : Nat) (before : List Int64) (axis : Int64) : Option AttributeFault :=
  if axis.toInt < 0 ∨ (rank : Int) ≤ axis.toInt then some (.axisOutOfRange axis rank)
  else if axis ∈ before then some (.axisRepeated axis)
  else none

/-- The first thing wrong with axes that come behind others. -/
def firstFault? (rank : Nat) (before : List Int64) : List Int64 → Option AttributeFault
  | [] => none
  | axis :: rest => axisFault? rank before axis <|> firstFault? rank (axis :: before) rest

/-- The axes as a permutation of as many axes, or the first thing wrong with them. -/
def permutationOf (axes : List Int64) : Except AttributeFault (List Nat) :=
  match firstFault? axes.length [] axes with
  | some fault => .error fault
  | none => .ok (axes.map fun axis => axis.toInt.toNat)

namespace Draft

def expectArity (d : Draft) (inputs outputs : Nat) : Except GraphError Unit :=
  if d.inputs.length = inputs ∧ d.outputs.length = outputs then .ok ()
  else .error (.invalidNode d.name
    (.arity inputs outputs d.inputs.length d.outputs.length))

def read {α : Type} (d : Draft) (reading : Reading α) : Except GraphError α :=
  AttributeReader.outcome d.name d.attributes reading

/-- The scaling of a Gemm. One operand is always transposed and the other is not: the flag of B
decides, and the flag of A where B has none. -/
def readScaling (d : Draft) : Reading Scaling := do
  let alpha := (← AttributeReader.float "alpha").getD .one
  let beta := (← AttributeReader.float "beta").getD .one
  let flagA ← AttributeReader.flag "transA"
  let flagB ← AttributeReader.flag "transB"
  match flagB <|> flagA.map not with
  | none => throw (.missingAttribute d.name "transA/transB")
  | some transB =>
    AttributeReader.finish
    return { alpha, beta, transA := !transB, transB }

/-- The permutation of a Transpose. -/
def readPermutation (d : Draft) : Reading (List Nat) := do
  match ← AttributeReader.ints "perm" with
  | none => throw (.missingAttribute d.name "perm")
  | some axes =>
    AttributeReader.finish
    match permutationOf axes with
    | .error fault => AttributeReader.refuse "perm" fault
    | .ok permutation => return permutation

def readOperation (d : Draft) : Kind → Reading Operation
  | .gemm => .gemm <$> d.readScaling
  | .relu => do
    AttributeReader.finish
    return .relu
  | .transpose => .transpose <$> d.readPermutation

/-- How many inputs an operator of a kind has; all kinds have one output. -/
def inputCount : Kind → Nat
  | .gemm => 3
  | .relu | .transpose => 1

def complete (d : Draft) (kind : Kind) : Except GraphError Operator := do
  d.expectArity (inputCount kind) 1
  d.elementType.ensureSupported (.operator d.name kind)
  let operation ← d.read (d.readOperation kind)
  return { d with operation }

example : permutationOf [0, 2, 1] = .ok [0, 2, 1] := rfl
example : permutationOf [0, 0, 5] = .error (.axisRepeated 0) := rfl
example : permutationOf [-1] = .error (.axisOutOfRange (-1) 1) := rfl

end Draft
end TensorGraph
