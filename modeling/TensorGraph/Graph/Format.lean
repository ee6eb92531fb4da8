import TensorGraph.Attribute.Format
import TensorGraph.Graph
import TensorGraph.Json.Record

/-! Graph descriptions, their parts and options as JSON records. -/
namespace TensorGraph
open Json

namespace Node

structure Parts where
  name : Option (Option String) := none
  kindLabel : Option String := none
  attributes : Option Attributes := none
  inputs : Option (List String) := none
  outputs : Option (List String) := none
  outputTypes : Option (List String) := none

def fields (depth : Nat) : List (Slot Parts) := [
  .part "name" (·.name) (fun p x => { p with name := some x }) (.optional .string),
  .part "kind" (·.kindLabel) (fun p x => { p with kindLabel := some x }) .string,
  .part "attributes" (·.attributes) (fun p x => { p with attributes := some x })
    (Attributes.decoder (depth + 1)),
  .part "inputs" (·.inputs) (fun p x => { p with inputs := some x }) (.list .string),
  .part "outputs" (·.outputs) (fun p x => { p with outputs := some x }) (.list .string),
  .part "output_types" (·.outputTypes) (fun p x => { p with outputTypes := some x })
    (.list .string)]

def finish (layout : Layout) (p : Parts) : Except FormatError Node := do
  return {
    name := p.name.getD none
    kindLabel := ← layout.require "kind" p.kindLabel
    attributes := p.attributes.getD ∅
    inputs := p.inputs.getD []
    outputs := p.outputs.getD []
    outputTypes := p.outputTypes.getD [] }

/-- Reads a node that is inside so many containers. -/
def decoder (depth : Nat) : Decoder Node := .record (fields depth) {} finish

/-- A node is written with all its members. -/
def toValue (node : Node) : Value := .object [
  ("name", (node.name.map Value.string).getD .null),
  ("kind", .string node.kindLabel),
  ("attributes", node.attributes.toValue),
  ("inputs", .strings node.inputs),
  ("outputs", .strings node.outputs),
  ("output_types", .strings node.outputTypes)]

end Node

namespace Input

structure Parts where
  name : Option String := none
  typeLabel : Option String := none
  shape : Option Shape := none

/-- Reads a declaration that stands alone, which has a shape. -/
def decoder : Decoder Input :=
  .record [
    .part "name" (·.name) (fun p x => { p with name := some x }) .string,
    .part "dtype" (·.typeLabel) (fun p x => { p with typeLabel := some x }) .string,
    .part "shape" (·.shape) (fun p x => { p with shape := some x }) (.list .size)]
    ({} : Parts)
    fun layout p => do
      return {
        name := ← layout.require "name" p.name
        typeLabel := p.typeLabel.getD defaultTypeLabel
        shape := ← layout.require "shape" p.shape }

def toValue (input : Input) : Value := .object [
  ("name", .string input.name),
  ("dtype", .string input.typeLabel),
  ("shape", .array (input.shape.map fun extent => .number (.integer (Int.ofNat extent))))]

/-- The parts of a declaration within a description: a null may stand for the type. -/
structure ListedParts where
  name : Option String := none
  typeLabel : Option (Option String) := none
  shape : Option Shape := none

/-- Reads a declaration within a description, where placeholders come without a shape. -/
def listedDecoder : Decoder Input :=
  .record [
    .part "name" (·.name) (fun p x => { p with name := some x }) .string,
    .part "dtype" (·.typeLabel) (fun p x => { p with typeLabel := some x }) (.optional .string),
    .part "shape" (·.shape) (fun p x => { p with shape := some x }) (.list .size)]
    ({} : ListedParts)
    fun layout p => do
      return {
        name := ← layout.require "name" p.name
        typeLabel := (p.typeLabel.getD none).getD defaultTypeLabel
        shape := p.shape.getD [] }

end Input

namespace Weight

structure Parts where
  name : Option String := none
  typeLabel : Option String := none
  shape : Option Shape := none
  values : Option (List Binary32) := none

def decoder : Decoder Weight :=
  .record [
    .part "name" (·.name) (fun p x => { p with name := some x }) .string,
    .part "dtype" (·.typeLabel) (fun p x => { p with typeLabel := some x }) .string,
    .part "shape" (·.shape) (fun p x => { p with shape := some x }) (.list .size),
    .part "values" (·.values) (fun p x => { p with values := some x }) (.list .float)]
    ({} : Parts)
    fun layout p => do
      return .ofFloats (← layout.require "name" p.name) (← layout.require "dtype" p.typeLabel)
        (← layout.require "shape" p.shape) (← layout.require "values" p.values)

end Weight

namespace Description

structure Parts where
  name : Option String := none
  placeholderInputs : Option Nat := none
  inputs : Option (List Input) := none
  nodes : Option (List Node) := none
  weights : Option (List Weight) := none
  outputs : Option (List String) := none

def decoder : Decoder Description :=
  .record [
    .part "name" (·.name) (fun p x => { p with name := some x }) .string,
    .part "placeholder_inputs" (·.placeholderInputs)
      (fun p x => { p with placeholderInputs := some x }) .size,
    .part "inputs" (·.inputs) (fun p x => { p with inputs := some x }) (.list Input.listedDecoder),
    .part "nodes" (·.nodes) (fun p x => { p with nodes := some x }) (.list (Node.decoder 2)),
    .part "weights" (·.weights) (fun p x => { p with weights := some x }) (.list Weight.decoder),
    .part "outputs" (·.outputs) (fun p x => { p with outputs := some x }) (.list .string)]
    ({} : Parts)
    fun _ p => return {
      name := p.name.getD defaultName
      placeholderInputs := p.placeholderInputs.getD 0
      inputs := p.inputs.getD []
      nodes := p.nodes.getD []
      weights := p.weights.getD []
      outputs := p.outputs.getD [] }

/-- Reads the text of a description. -/
def ofOctets (octets : List UInt8) : Except FormatError Description := decoder.document octets

end Description

namespace Options

structure Parts where
  checkPermutationRank : Option Bool := none
  placeholderInputs : Option (Option Nat) := none

def decoder : Decoder Options :=
  .record [
    .part "check_permutation_rank" (·.checkPermutationRank)
      (fun p x => { p with checkPermutationRank := some x }) .boolean,
    .part "placeholder_inputs" (·.placeholderInputs)
      (fun p x => { p with placeholderInputs := some x }) (.optional .size)]
    ({} : Parts)
    fun _ p => return {
      checkPermutationRank := p.checkPermutationRank.getD true
      placeholderInputs := p.placeholderInputs.getD none }

/-- Reads the text of options. -/
def ofOctets (octets : List UInt8) : Except FormatError Options := decoder.document octets

end Options
end TensorGraph
