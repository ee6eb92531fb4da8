import TensorGraph.Proofs.Blame
import TensorGraph.Proofs.Records
import TensorGraph.Proofs.SingleAssignment

/-! The numbers of weights on their way into a model: from a text or from whoever gives them, through
their octets and the check of their count, to what the tensor of the model is read as. -/
namespace TensorGraph
open Json

namespace Weight

/-- A weight that has been read from a tree, where its numbers stand. -/
def ReadFrom (tree : Tree) (weight : Weight) : Prop :=
  ∃ name typeLabel shape numbers, tree.field 0 "name" .string = some (.ok name) ∧
    tree.field 1 "dtype" .string = some (.ok typeLabel) ∧
    tree.field 2 "shape" (.list .size) = some (.ok shape) ∧
    tree.field 3 "values" (.list .float) = some (.ok numbers) ∧
    weight = .ofFloats name typeLabel shape numbers

theorem readFrom_of_decoder {tree : Tree} {weight : Weight} (read : decoder tree = .ok weight) :
    weight.ReadFrom tree := by
  obtain ⟨layout, parts, parted, finished⟩ := record_eq_ok.mp read
  simp only [bind_eq_ok, Layout.require_eq_ok, pure_eq_ok] at finished
  obtain ⟨name, named, typeLabel, typed, shape, shaped, numbers, valued, rfl⟩ := finished
  have names : tree.field 0 "name" .string = parts.name.map .ok := parted.field_eq (by simp) rfl
  have types : tree.field 1 "dtype" .string = parts.typeLabel.map .ok :=
    parted.field_eq (by simp) rfl
  have shapes : tree.field 2 "shape" (.list .size) = parts.shape.map .ok :=
    parted.field_eq (by simp) rfl
  have values : tree.field 3 "values" (.list .float) = parts.values.map .ok :=
    parted.field_eq (by simp) rfl
  rw [named] at names
  rw [typed] at types
  rw [shaped] at shapes
  rw [valued] at values
  exact ⟨name, typeLabel, shape, numbers, names, types, shapes, values, rfl⟩

/-- The tensor that a weight made of numbers stands for holds these numbers. -/
theorem floats?_tensor_ofFloats (name typeLabel : String) (shape : Shape) (numbers : List Binary32) :
    (ofFloats name typeLabel shape numbers).tensor.floats? = some numbers := by
  simp [Tensor.floats?, tensor, ofFloats, Tensor.data?]

/-- The tensor that a weight of the right size stands for holds as many numbers as its shape has
elements, and they are written as its data. -/
theorem Sized.floats?_tensor {weight : Weight} (sized : weight.Sized) :
    ∃ numbers, weight.tensor.floats? = some numbers ∧ numbers.length = weight.shape.elements ∧
      Binary32.encode numbers = weight.data := by
  refine ⟨Binary32.decode weight.data, rfl, ?_, Binary32.encode_decode ?_⟩
  · rw [Binary32.length_decode, sized.whole]
    omega
  · exact sized.whole ▸ Nat.dvd_mul_left ..

end Weight

namespace Description

/-- The trees of the weights in the tree of a description. -/
def weightTrees (tree : Tree) : List Tree :=
  match tree.part? 4 "weights" with
  | some (.array items) => items
  | _ => []

/-- The weights of a description have been read from those of its text, in their order. -/
theorem weights_readFrom {octets : List UInt8} {d : Description} (read : ofOctets octets = .ok d) :
    List.Forall₂ Weight.ReadFrom (weightTrees (Document.ofOctets octets).tree) d.weights := by
  obtain ⟨layout, parts, parted, finished⟩ := record_eq_ok.mp (Decoder.tree_of_document read)
  rw [← pure_eq_ok.mp finished]
  generalize (Document.ofOctets octets).tree = tree at parted
  have weights : tree.field 4 "weights" (.list Weight.decoder) = parts.weights.map .ok :=
    parted.field_eq (by simp) rfl
  rw [Tree.field] at weights
  rw [weightTrees]
  cases there : tree.part? 4 "weights" with
  | none =>
    rw [there, Option.map_none, eq_comm, Option.map_eq_none_iff] at weights
    simp [weights]
  | some part =>
    rw [there, Option.map_some, eq_comm, Option.map_eq_some_iff] at weights
    obtain ⟨list, found, decoded⟩ := weights
    obtain ⟨items, rfl, each⟩ := Decoder.list_eq_ok.mp decoded.symm
    rw [found]
    exact each.imp fun _ _ => Weight.readFrom_of_decoder

end Description

/-- The outcomes of compiling what comes with certain weights. -/
inductive Attempt (weights : List Weight) (outcome : Except GraphError Model) : Prop
  | graph {g : Graph} {options : Options} {name : String} :
    g.weights = weights → g.compile options name = outcome → Attempt weights outcome
  | description {d : Description} {options : Options} :
    d.weights = weights → d.compile options = outcome → Attempt weights outcome

variable {weights : List Weight}

theorem Attempt.exists_graph {outcome : Except GraphError Model} (h : Attempt weights outcome) :
    ∃ (g : Graph) (options : Options) (name : String),
      g.weights = weights ∧ g.compile options name = outcome := by
  cases h with
  | graph same ended => exact ⟨_, _, _, same, ended⟩
  | @description d options same ended =>
    exact ⟨{ d.toGraph with inputs := d.inputs.drop (d.skipped options) }, options, d.name, same, ended⟩

/-- A weight is there under its name in what its graph compiles to. -/
theorem Attempt.get?_weight {m : Model} (h : Attempt weights (.ok m)) {weight : Weight}
    (mem : weight ∈ weights) : m.tensors.get? weight.name = some weight.tensor := by
  obtain ⟨g, options, name, rfl, compiled⟩ := h.exists_graph
  have yields := (Graph.compile_eq_ok.mp compiled).2
  rw [Registry.get?_eq_some_iff, yields.tensors]
  exact ⟨Graph.mem_tensors.mpr (.inr (.inr ⟨weight, mem, rfl⟩)), rfl⟩

/-- A mismatch of sizes is that of the first weight of its name. -/
theorem Attempt.missized {x : String} {expected actual : Nat}
    (h : Attempt weights (.error (.shapeMismatch x expected actual))) :
    ∃ weight, weights.find? (·.name == x) = some weight ∧ expected = weight.shape.elements ∧
      actual = weight.data.length / 4 ∧ weight.data.length ≠ 4 * expected := by
  obtain ⟨g, options, name, rfl, failed⟩ := h.exists_graph
  have blamed := (g.faultsIn_compile options name).of_error _ failed
  cases blamed with
  | shapeMismatch first other => exact ⟨_, first, rfl, rfl, other⟩
  | operator _ said => cases said

/-- Numbers of weights come through: an initialized tensor of a model holds as many as its shape has
elements, and they are its data; a weight that is read has the numbers of its text; what a weight is made
of is found in the model, whatever the bits; and a mismatch is one between the count of the numbers and
the shape. -/
theorem weight_numbers_kept :
    (∀ m : Model, m.Compiled → ∀ t ∈ m.tensors.tensors, t.kind = .initialized →
      ∃ shape numbers, t.shape = some shape ∧ t.floats? = some numbers ∧
        numbers.length = shape.elements ∧ t.data? = some (Binary32.encode numbers)) ∧
    (∀ (octets : List UInt8) (d : Description), Description.ofOctets octets = .ok d →
      List.Forall₂ Weight.ReadFrom
        (Description.weightTrees (Document.ofOctets octets).tree) d.weights) ∧
    (∀ (weights : List Weight) (m : Model), Attempt weights (.ok m) →
      ∀ (x typeLabel : String) (shape : Shape) (numbers : List Binary32),
        .ofFloats x typeLabel shape numbers ∈ weights →
          ∃ t, m.tensors.get? x = some t ∧ t.floats? = some numbers) ∧
    (∀ (weights : List Weight) (x : String) (expected actual : Nat),
      Attempt weights (.error (.shapeMismatch x expected actual)) →
        ∃ weight, weights.find? (·.name == x) = some weight ∧
          ∀ (typeLabel : String) (shape : Shape) (numbers : List Binary32),
            weight = .ofFloats x typeLabel shape numbers →
              expected = shape.elements ∧ actual = numbers.length ∧ expected ≠ actual) := by
  refine ⟨fun m compiled t mem kind => ?_, fun _ _ => Description.weights_readFrom,
    fun weights m attempt x typeLabel shape numbers mem => ?_,
    fun weights x expected actual attempt => ?_⟩
  · obtain ⟨g, options, name, accepted, yields⟩ := compiled.exists_graph
    rw [yields.tensors] at mem
    rcases Graph.mem_tensors.mp mem with ⟨input, -, rfl⟩ | ⟨node, -, x, -, rfl⟩ | ⟨weight, source, rfl⟩
    · cases kind
    · cases kind
    · obtain ⟨numbers, read, count, written⟩ := (accepted.weights weight source).2.floats?_tensor
      exact ⟨weight.shape, numbers, rfl, read, count, congrArg some written.symm⟩
  · exact ⟨_, attempt.get?_weight mem, Weight.floats?_tensor_ofFloats ..⟩
  · obtain ⟨weight, first, rfl, rfl, other⟩ := attempt.missized
    refine ⟨weight, first, fun typeLabel shape numbers made => ?_⟩
    subst made
    have counted : (Weight.ofFloats x typeLabel shape numbers).data.length = 4 * numbers.length :=
      Binary32.length_encode numbers
    have others : 4 * numbers.length ≠ 4 * shape.elements := counted ▸ other
    refine ⟨rfl, ?_, ?_⟩
    · rw [counted]
      omega
    · change shape.elements ≠ _
      omega

/-- Bits that no arithmetic would keep: no number with a payload, minus zero, minus infinity. -/
def Weight.peculiar (extent : Nat) : Weight :=
  .ofFloats "w" "Float" [extent] [⟨0x7fc12345⟩, ⟨0x80000000⟩, ⟨0xff800000⟩]

/-- A description in which a weight has a value that is out of range. -/
def Description.vastText : String :=
  "\x7b\"weights\":[\x7b\"name\":\"w\",\"dtype\":\"Float\",\"shape\":[1],\"values\":[-1e39]\x7d]\x7d"

theorem weight_numbers_kept_peculiar :
    (∃ m t, Graph.compile { weights := [.peculiar 3] } = .ok m ∧ m.tensors.get? "w" = some t ∧
      t.floats? = some [⟨0x7fc12345⟩, ⟨0x80000000⟩, ⟨0xff800000⟩]) ∧
    (∃ d, Description.ofOctets Description.vastText.toUTF8.toList = .ok d ∧
      d.weights = [.ofFloats "w" "Float" [1] [⟨0xff800000⟩]] ∧
      List.Forall₂ Weight.ReadFrom (Description.weightTrees
        (Document.ofOctets Description.vastText.toUTF8.toList).tree) d.weights) ∧
    ∃ expected actual, Graph.compile { weights := [.peculiar 2] } =
      .error (.shapeMismatch "w" expected actual) ∧ expected = 2 ∧ actual = 3 ∧ expected ≠ actual := by
  obtain ⟨-, reads, holds, mismatched⟩ := weight_numbers_kept
  have compiled : Graph.compile { weights := [.peculiar 3] } = .ok
      { name := "model", operators := [], outputs := [],
        tensors := ⟨[(Weight.peculiar 3).tensor], by simp⟩ } := by decide +kernel
  have refused : Graph.compile { weights := [.peculiar 2] } = .error (.shapeMismatch "w" 2 3) := by
    decide +kernel
  have read : Description.ofOctets Description.vastText.toUTF8.toList =
      .ok { weights := [.ofFloats "w" "Float" [1] [⟨0xff800000⟩]] } := by decide +kernel
  refine ⟨?_, ⟨_, read, rfl, reads _ _ read⟩, ⟨2, 3, refused, ?_⟩⟩
  · obtain ⟨t, found, floats⟩ := holds _ _ (.graph rfl compiled) "w" "Float" [3] _ (List.mem_singleton_self _)
    exact ⟨_, t, compiled, found, floats⟩
  · obtain ⟨weight, first, sizes⟩ := mismatched _ "w" 2 3 (.graph rfl refused)
    obtain rfl : Weight.peculiar 2 = weight := Option.some.inj first
    exact sizes "Float" [2] _ rfl

end TensorGraph
