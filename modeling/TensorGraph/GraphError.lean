import TensorGraph.Attribute
import TensorGraph.ElementType
import TensorGraph.Number.Shortest
import TensorGraph.Operator.Kind
import TensorGraph.Shape

/-! What can be wrong with a graph, each fault with what it is about. One function gives its text. -/
namespace TensorGraph

/-- Where a type label stands. -/
inductive Place where
  | input (name : String)
  | weight (name : String)
  | tensor (name : String)
  | operator (name : String) (kind : Kind)
  | described (text : String)
  deriving DecidableEq

def Place.text : Place → String
  | input name => s!"input '{name}'"
  | weight name => s!"weight '{name}'"
  | tensor name => s!"tensor '{name}'"
  | operator name kind => s!"operator {name} ({kind.name})"
  | described text => text

/-- Who refers to a tensor. -/
inductive Referrer where
  | operator (name : String)
  | outputs
  | lookup
  deriving DecidableEq

def Referrer.text : Referrer → String
  | operator name => s!"operator {name}"
  | outputs => "graph outputs"
  | lookup => "lookup"

inductive AttributeFault where
  | mistyped (wanted : Attribute.Wanted) (found : Attribute.Form)
  | notFinite (value : Binary32)
  | unrecognised
  | axisOutOfRange (axis : Int64) (rank : Nat)
  | axisRepeated (axis : Int64)
  | rankMismatch (length : Nat) (input : String) (rank : Nat)
  deriving DecidableEq

def AttributeFault.text : AttributeFault → String
  | mistyped wanted found => s!"expected {wanted.name}, found {found.name}"
  | notFinite value => s!"expected a finite float, found {value.text}"
  | unrecognised => "not recognised for this operator"
  | axisOutOfRange axis rank => s!"axis {axis.toInt} out of range for rank {rank}"
  | axisRepeated axis => s!"axis {axis.toInt} appears more than once"
  | rankMismatch length input rank =>
    s!"permutation of length {length} applied to '{input}' of rank {rank}"

/-- A missing operand or axis is one that an operator counts on and does not have. -/
inductive NodeFault where
  | arity (inputs outputs foundInputs foundOutputs : Nat)
  | untyped
  | rank (tensor : String) (expected found : Nat)
  | missingOperand (position : Nat)
  | missingAxis (axis : Nat)
  deriving DecidableEq

def NodeFault.text : NodeFault → String
  | arity inputs outputs foundInputs foundOutputs =>
    s!"expected {inputs} input(s) and {outputs} output(s), " ++
      s!"found {foundInputs} and {foundOutputs}"
  | untyped => "no element type declared for its outputs"
  | rank tensor expected found => s!"expected '{tensor}' to have rank {expected}, found rank {found}"
  | missingOperand position => s!"there is no operand {position}"
  | missingAxis axis => s!"there is no axis {axis}"

inductive TensorFault where
  | inputWithoutShape
  | initializedWithoutData
  | unaddressable (shape : Shape)
  deriving DecidableEq

def TensorFault.text : TensorFault → String
  | inputWithoutShape => "input tensors must declare a shape"
  | initializedWithoutData => "initialized tensors must be materialized with their data"
  | unaddressable shape => s!"shape {shape.text} is too large to address"

inductive GraphError where
  | unsupportedType (label : String) (place : Place)
  | unknownKind (label : String)
  | missingAttribute (node key : String)
  | invalidAttribute (node key : String) (fault : AttributeFault)
  | invalidNode (node : String) (fault : NodeFault)
  | duplicateName (name : String)
  | unknownTensor (name : String) (referrer : Referrer)
  | shapeMismatch (name : String) (expected actual : Nat)
  | invalidTensor (name : String) (fault : TensorFault)
  deriving DecidableEq

def GraphError.message : GraphError → String
  | unsupportedType label place => s!"Unsupported element type '{label}' for {place.text}"
  | unknownKind label => s!"Unknown node kind: {label}"
  | missingAttribute node key => s!"Node {node} is missing required attribute '{key}'"
  | invalidAttribute node key fault =>
    s!"Node {node} has invalid attribute '{key}': {fault.text}"
  | invalidNode node fault => s!"Invalid node {node}: {fault.text}"
  | duplicateName name => s!"Tensor '{name}' is already defined"
  | unknownTensor name referrer => s!"Unknown tensor '{name}' referenced by {referrer.text}"
  | shapeMismatch name expected actual =>
    s!"Shape mismatch for tensor '{name}': expected {expected} elements, found {actual}"
  | invalidTensor name fault => s!"Invalid tensor '{name}': {fault.text}"

namespace ElementType

/-- Refuses a type that models are not built of. -/
def ensureSupported (t : ElementType) (place : Place) : Except GraphError Unit :=
  if t.isSupported then .ok () else .error (.unsupportedType t.name place)

/-- Reads a label and refuses a type that models are not built of. -/
def ofSupportedLabel (label : String) (place : Place) : Except GraphError ElementType :=
  match ofLabel? label with
  | none => .error (.unsupportedType label place)
  | some t => do
    t.ensureSupported place
    return t

end ElementType

/-- Reads the label of a node's kind. -/
def Kind.ofLabel (label : String) : Except GraphError Kind :=
  match ofLabel? label with
  | none => .error (.unknownKind label)
  | some kind => .ok kind

namespace Kind

variable {label : String}

theorem ofLabel_eq_ok {kind : Kind} : ofLabel label = .ok kind ↔ ofLabel? label = some kind := by
  rw [ofLabel]
  cases ofLabel? label <;> simp

theorem ofLabel_eq_error {e : GraphError} :
    ofLabel label = .error e ↔ ofLabel? label = none ∧ e = .unknownKind label := by
  rw [ofLabel]
  cases ofLabel? label <;> simp [eq_comm]

end Kind
end TensorGraph
