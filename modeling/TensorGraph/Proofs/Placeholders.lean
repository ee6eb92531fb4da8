import TensorGraph.Proofs.Acceptance

/-! Placeholders among the inputs of a description. They are dropped before anything is looked at: what a
description compiles to is what the graph of its other inputs does, and no name of a placeholder is one
that a node or an output may refer to. -/
namespace TensorGraph

namespace Graph

variable {options options' : Options}

/-- Of the options a node asks only whether ranks are to be checked. -/
theorem compileNode_congr (same : options.checkPermutationRank = options'.checkPermutationRank)
    (weights : List Weight) (r : Registry) (position : Nat) (node : Node) :
    compileNode options weights r position node = compileNode options' weights r position node := by
  simp only [compileNode, same]

theorem compileNodes_congr (same : options.checkPermutationRank = options'.checkPermutationRank)
    (weights : List Weight) (r : Registry) (position : Nat) (nodes : List Node) :
    compileNodes options weights r position nodes = compileNodes options' weights r position nodes := by
  induction nodes generalizing r position with
  | nil => rfl
  | cons node rest ih => simp only [compileNodes, compileNode_congr same, ih]

theorem compile_congr (same : options.checkPermutationRank = options'.checkPermutationRank)
    (g : Graph) (name : String) : g.compile options name = g.compile options' name := by
  simp only [compile, compileNodes_congr same]

/-- The name of a model has no part in its compilation. -/
theorem compile_named (g : Graph) (options : Options) (name : String) :
    g.compile options name = (fun m => { m with name }) <$> g.compile options := by
  simp only [compile, map_bind, map_pure]

end Graph

namespace Description

/-- So many of the first inputs of a description are placeholders: as many as the options say, and where
they say nothing as many as the description does. -/
def HasPlaceholders (d : Description) (options : Options) (k : Nat) : Prop :=
  options.placeholderInputs = some k ∨ options.placeholderInputs = none ∧ d.placeholderInputs = k

/-- The graph of a description without so many inputs, or without any where it has fewer. -/
def behind (d : Description) (k : Nat) : Graph :=
  { d.toGraph with inputs := d.inputs.drop (min k d.inputs.length) }

/-- The graph of a description without its placeholders. -/
def live (d : Description) (options : Options) : Graph :=
  d.behind <| match options.placeholderInputs with
    | some k => k
    | none => d.placeholderInputs

/-- Two descriptions that are the same but for their first inputs. -/
structure SameBehind (k : Nat) (d d' : Description) : Prop where
  name : d.name = d'.name
  inputs : d.inputs.drop k = d'.inputs.drop k
  nodes : d.nodes = d'.nodes
  weights : d.weights = d'.weights
  outputs : d.outputs = d'.outputs

variable {d d' : Description} {options : Options} {k : Nat}

theorem drop_min_length {α : Type} (k : Nat) (xs : List α) :
    xs.drop (min k xs.length) = xs.drop k := by
  rcases Nat.le_total k xs.length with inside | beyond
  · rw [Nat.min_eq_left inside]
  · rw [Nat.min_eq_right beyond, List.drop_length, List.drop_of_length_le beyond]

theorem HasPlaceholders.skipped_eq (has : d.HasPlaceholders options k) : d.skipped options = k := by
  rw [skipped]
  rcases has with given | ⟨unsaid, own⟩
  · rw [given, Option.getD_some]
  · rw [unsaid, Option.getD_none, own]

/-- A description compiles as what is behind its placeholders. -/
theorem HasPlaceholders.compile_eq (has : d.HasPlaceholders options k) :
    d.compile options = (d.behind k).compile options d.name := by
  rw [compile, has.skipped_eq, behind, drop_min_length]

theorem compile_eq_live (d : Description) (options : Options) :
    d.compile options = (d.live options).compile options d.name := by
  rw [live]
  cases said : options.placeholderInputs with
  | some k => exact HasPlaceholders.compile_eq (.inl said)
  | none => exact HasPlaceholders.compile_eq (.inr ⟨said, rfl⟩)

theorem SameBehind.behind_eq (same : SameBehind k d d') : d.behind k = d'.behind k := by
  simp only [behind, drop_min_length, same.inputs, same.nodes, same.weights, same.outputs]

/-- What is refused without the placeholders is refused with them. -/
theorem HasPlaceholders.exists_error (has : d.HasPlaceholders options k)
    (refused : ¬ (d.behind k).Accepted options) : ∃ e, d.compile options = .error e := by
  cases compiled : d.compile options with
  | error e => exact ⟨e, rfl⟩
  | ok m =>
    rw [has.compile_eq] at compiled
    exact absurd (Graph.compile_eq_ok.mp compiled).1 refused

/-- Placeholders have no influence. A description compiles as the graph of its other inputs does, but for
the name of the model, and so does every description with as many other placeholders; names that only
placeholders have are not resolved; and the compilation of a graph, which has no placeholders, does not
look at their number. -/
theorem compile_without_placeholders {d : Description} {options : Options} {k : Nat}
    (has : d.HasPlaceholders options k) :
    d.compile options =
        (fun m => { m with name := d.name }) <$> (d.behind k).compile options ∧
      (∀ d', d'.HasPlaceholders options k → SameBehind k d d' →
        d'.compile options = d.compile options) ∧
      (∀ (i : Nat) (node : Node) (x : String), d.nodes[i]? = some node → x ∈ node.inputs →
        ¬ (d.behind k).InScope i x → ∃ e, d.compile options = .error e) ∧
      (∀ x ∈ d.outputs, x ∉ (d.behind k).names → ∃ e, d.compile options = .error e) ∧
      ∀ (g : Graph) (count : Option Nat),
        g.compile { options with placeholderInputs := count } = g.compile options := by
  refine ⟨?_, ?_, ?_, ?_, ?_⟩
  · rw [has.compile_eq, Graph.compile_named]
  · intro d' has' same
    rw [has.compile_eq, has'.compile_eq, same.behind_eq, same.name]
  · intro i node x source used foreign
    refine has.exists_error fun accepted => ?_
    obtain ⟨_, _, compiles⟩ := accepted.nodes i node source
    exact foreign (compiles.inputs x used)
  · intro x used foreign
    refine has.exists_error fun accepted => ?_
    exact foreign (accepted.outputs.2 x used)
  · intro g count
    apply Graph.compile_congr
    rfl

/-- A rectifier behind two placeholders, of which one has a type that models are not built of and the
other the name of the result. -/
def withPlaceholders : Description where
  name := "net"
  placeholderInputs := 2
  inputs := [{ name := "self", typeLabel := "Double", shape := [] }, { name := "y", shape := [7] },
    { name := "x", shape := [3] }]
  nodes := [
    { kindLabel := "onnx::Relu", inputs := ["x"], outputs := ["y"], outputTypes := ["Float"] }]
  outputs := ["y"]

/-- Options that say how many placeholders there are. -/
def saying (k : Nat) : Options := { placeholderInputs := some k }

theorem hasPlaceholders_saying (d : Description) (k : Nat) : d.HasPlaceholders (saying k) k := .inl rfl

/-- Where the options say nothing both placeholders are left out. Where they say that there is but one,
the other is an input by the name of the result; and where they say that there are more placeholders than
inputs, no input is left for the node. -/
theorem compile_withPlaceholders :
    (withPlaceholders.compile =
        (fun m => { m with name := "net" }) <$> (withPlaceholders.behind 2).compile ∧
      { withPlaceholders with
        inputs := [{ name := "x", shape := [] }, { name := "x", typeLabel := "?", shape := [1, 2] },
          { name := "x", shape := [3] }] }.compile = withPlaceholders.compile ∧
      (∃ e, { withPlaceholders with outputs := ["self"] }.compile = .error e) ∧
      withPlaceholders.compile.isOk = true) ∧
    (withPlaceholders.compile (saying 1) =
        (fun m => { m with name := "net" }) <$> (withPlaceholders.behind 1).compile (saying 1) ∧
      withPlaceholders.compile (saying 1) = .error (.duplicateName "y")) ∧
    (withPlaceholders.behind 9).inputs = [] ∧
      { withPlaceholders with placeholderInputs := 0, inputs := [] }.compile (saying 9) =
        withPlaceholders.compile (saying 9) ∧
      ∃ e, withPlaceholders.compile (saying 9) = .error e := by
  have own : withPlaceholders.HasPlaceholders {} 2 := .inr ⟨rfl, rfl⟩
  have foreign : { withPlaceholders with outputs := ["self"] }.HasPlaceholders {} 2 := .inr ⟨rfl, rfl⟩
  obtain ⟨named, same, -, -, -⟩ := compile_without_placeholders own
  obtain ⟨-, -, -, outputs, -⟩ := compile_without_placeholders foreign
  obtain ⟨fewer, -, -, -, -⟩ :=
    compile_without_placeholders (hasPlaceholders_saying withPlaceholders 1)
  obtain ⟨-, beyond, inputs, -, -⟩ :=
    compile_without_placeholders (hasPlaceholders_saying withPlaceholders 9)
  have hidden : ¬ (withPlaceholders.behind 9).InScope 0 "x" := by
    simp [Graph.InScope, behind, withPlaceholders]
  refine ⟨⟨named, same _ (.inr ⟨rfl, rfl⟩) ⟨rfl, rfl, rfl, rfl, rfl⟩, ?_, by decide +kernel⟩,
    ⟨fewer, by decide +kernel⟩, rfl, ?_, ?_⟩
  · exact outputs "self" (by decide) (by decide)
  · exact beyond _ (hasPlaceholders_saying _ 9) ⟨rfl, rfl, rfl, rfl, rfl⟩
  · exact inputs 0 _ "x" rfl (.head _) hidden

end Description
end TensorGraph
