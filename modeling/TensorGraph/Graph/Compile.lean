import TensorGraph.Graph
import TensorGraph.Model
import TensorGraph.Operator.Draft

/-! Compiling a graph into a model: inputs first, then the nodes in order, then the weights, and the
outputs last. A node may refer to inputs, to weights and to outputs of nodes before it. The first fault
ends the compilation. -/
namespace TensorGraph

namespace Graph

def declareInput (r : Registry) (input : Input) : Except GraphError Registry := do
  let elementType ← ElementType.ofSupportedLabel input.typeLabel (.input input.name)
  let (_, r) ← r.declare input.name elementType (some input.shape) .input
  return r

def materializeWeight (r : Registry) (weight : Weight) : Except GraphError Registry := do
  let elementType ← ElementType.ofSupportedLabel weight.typeLabel (.weight weight.name)
  let (_, r) ← r.materialize weight.name elementType weight.shape weight.data
  return r

def declareOutput (elementType : ElementType) (r : Registry) (name : String) :
    Except GraphError Registry := do
  let (_, r) ← r.declare name elementType none .intermediate
  return r

/-- The shape of a tensor where it is known before the weights are there. Of several weights of a name
the last one counts. -/
def knownShape? (weights : List Weight) (r : Registry) (name : String) : Option Shape :=
  match r.get? name with
  | some tensor => tensor.shape
  | none => (weights.reverse.find? (·.name == name)).map (·.shape)

/-- The type of a node's operator: the first label of its output types. -/
def nodeType (node : Node) (name : String) (kind : Kind) : Except GraphError ElementType :=
  match node.outputTypes with
  | [] => .error (.invalidNode name .untyped)
  | label :: _ =>
    match ElementType.ofLabel? label with
    | none => .error (.unsupportedType label (.operator name kind))
    | some elementType => .ok elementType

/-- Refuses the first name that is neither registered nor a weight. -/
def resolveInputs (weights : List Weight) (r : Registry) (name : String) (inputs : List String) :
    Except GraphError Unit :=
  inputs.forM fun input =>
    if r.contains input || weights.any (·.name == input) then .ok ()
    else .error (.unknownTensor input (.operator name))

/-- Refuses a Transpose whose input has a known shape of another rank. -/
def checkRank (weights : List Weight) (r : Registry) (op : Operator) : Except GraphError Unit :=
  match op.operation with
  | .transpose permutation =>
    match op.inputs with
    | [] => .error (.invalidNode op.name (.missingOperand 0))
    | input :: _ =>
      match knownShape? weights r input with
      | some shape =>
        if shape.length = permutation.length then .ok ()
        else .error (.invalidAttribute op.name "perm"
          (.rankMismatch permutation.length input shape.length))
      | none => .ok ()
  | _ => .ok ()

/-- The name of a node's operator: its own, or one made of its kind and its position. -/
def nodeName (node : Node) (kind : Kind) (position : Nat) : String :=
  node.name.getD s!"{kind.name}_{position}"

def compileNode (options : Options) (weights : List Weight) (r : Registry) (position : Nat)
    (node : Node) : Except GraphError Operator := do
  let kind ← Kind.ofLabel node.kindLabel
  let name := nodeName node kind position
  let elementType ← nodeType node name kind
  resolveInputs weights r name node.inputs
  let op ← Draft.complete { node with name, elementType } kind
  if options.checkPermutationRank then checkRank weights r op
  return op

/-- Operators of the nodes from a position on, and the registry after them. -/
def compileNodes (options : Options) (weights : List Weight) :
    Registry → Nat → List Node → Except GraphError (Registry × List Operator)
  | r, _, [] => .ok (r, [])
  | r, position, node :: rest => do
    let op ← compileNode options weights r position node
    let r ← op.outputs.foldlM (declareOutput op.elementType) r
    let (r, ops) ← compileNodes options weights r (position + 1) rest
    return (r, op :: ops)

/-- Refuses an output that is no tensor, and one that was named before. -/
def checkOutputs (r : Registry) : List String → List String → Except GraphError Unit
  | _, [] => .ok ()
  | seen, name :: rest =>
    if !r.contains name then .error (.unknownTensor name .outputs)
    else if name ∈ seen then .error (.duplicateName name)
    else checkOutputs r (name :: seen) rest

/-- Compiles a graph all of whose inputs are inputs of the model. -/
def compile (g : Graph) (options : Options := {}) (name : String := defaultName) :
    Except GraphError Model := do
  let r ← g.inputs.foldlM declareInput .empty
  let (r, operators) ← compileNodes options g.weights r 0 g.nodes
  let tensors ← g.weights.foldlM materializeWeight r
  checkOutputs tensors [] g.outputs
  return { name, operators, tensors, outputs := g.outputs }

end Graph

/-- How many leading inputs are left out. -/
def Description.skipped (d : Description) (options : Options) : Nat :=
  options.placeholderInputs.getD d.placeholderInputs

/-- Compiles a description without its placeholders. -/
def Description.compile (d : Description) (options : Options := {}) : Except GraphError Model :=
  { d.toGraph with inputs := d.inputs.drop (d.skipped options) : Graph }.compile options d.name

end TensorGraph
