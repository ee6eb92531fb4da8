import TensorGraph.Model.Report
import TensorGraph.Proofs.ShapeInference

/-! Models in print, line by line. Behind the name of a model comes a line for each tensor, which ends in
its shape or in a question mark, then one for each operator, and one for the outputs. Once the shapes are
known there is a second line for each tensor, and those that had a shape before have the same in both. -/
namespace TensorGraph

namespace Text

/-- A text is made of these lines, each with a line feed behind it. -/
def HasLines (text : String) (lines : List String) : Prop :=
  text.toList = lines.flatMap fun line => line.toList ++ ['\n']

theorem hasLines_unlines (lines : List String) : HasLines (unlines lines) lines := by
  simp [HasLines, unlines, String.toList_join, List.flatMap_map]

/-- A text in a column: blanks fill it up to a width in code points. -/
def column (width : Nat) (text : String) : String := String.ofList (text.toList.rightpad width ' ')

theorem padded_eq_column (width : Nat) (text : String) : padded width text = column width text := by
  rw [padded, column, List.rightpad, String.ofList_append, String.ofList_toList, String.length_toList]

end Text

open Text

/-- What stands for a shape: its extents in brackets, or a question mark where it is unknown. -/
def shapeWord : Option Shape → String
  | none => "?"
  | some shape => "[" ++ ", ".intercalate (shape.map Nat.repr) ++ "]"

namespace Tensor

def kindWord (t : Tensor) : String :=
  match t.storage with
  | .input => "Input"
  | .initialized _ => "Initialized"
  | .intermediate => "Intermediate"

/-- The line of a tensor of 32-bit floats in the section of tensors. -/
def entry (t : Tensor) : String :=
  "  " ++ column 20 t.name ++ " " ++ column 12 t.kindWord ++ " float32 " ++ shapeWord t.shape

/-- The line of a tensor in the section of shapes. -/
def shapeEntry (known : NameMap Shape) (t : Tensor) : String :=
  "  " ++ column 20 t.name ++ " " ++ shapeWord (known.get? t.name)

theorem name_kind (t : Tensor) : t.kind.name = t.kindWord := by
  rw [kind, kindWord]
  cases t.storage <;> rfl

theorem line_eq_entry {t : Tensor} (type : t.elementType = .float32) : t.line = t.entry := by
  have shape : t.shape.elim "?" Shape.text = shapeWord t.shape := by cases t.shape <;> rfl
  have word : " float32 " = " " ++ "float32" ++ " " := rfl
  simp only [line, entry, padded_eq_column, name_kind, shape, type, ElementType.name, word, toString,
    String.append_assoc]

end Tensor

/-- The settings of a product; a flag is a number. -/
def Scaling.entry (s : Scaling) : String :=
  " alpha=" ++ s.alpha.text ++ " beta=" ++ s.beta.text ++ " transA=" ++ s.transA.toNat.repr ++
    " transB=" ++ s.transB.toNat.repr

theorem Scaling.text_eq_entry (s : Scaling) : (Operation.gemm s).text = s.entry := by
  have flags (flag : Bool) : flagText flag = flag.toNat.repr := by cases flag <;> rfl
  have transA : " transA=" = " " ++ "transA=" := rfl
  calc (Operation.gemm s).text
      = " alpha=" ++ s.alpha.text ++ " beta=" ++ s.beta.text ++ " " ++
          ("transA=" ++ flagText s.transA ++ " transB=" ++ flagText s.transB) := rfl
    _ = " alpha=" ++ s.alpha.text ++ " beta=" ++ s.beta.text ++ " transA=" ++ s.transA.toNat.repr ++
          " transB=" ++ s.transB.toNat.repr := by
        rw [flags, flags, transA]
        simp only [String.append_assoc]
    _ = s.entry := rfl

/-- The word for an operation, and its settings. -/
def Operation.words : Operation → String × String
  | .gemm s => ("Gemm", s.entry)
  | .relu => ("Relu", "")
  | .transpose permutation => ("Transpose", " perm=" ++ shapeWord (some permutation))

theorem Operation.words_eq (operation : Operation) :
    operation.words = (operation.kind.name, operation.text) := by
  cases operation with
  | gemm s => rw [words, ← s.text_eq_entry]; rfl
  | relu => rfl
  | transpose permutation => rfl

/-- The line of an operator: its results, and what they are of which operands. -/
def Operator.entry (op : Operator) : String :=
  "  " ++ ", ".intercalate op.outputs ++ " = " ++ op.operation.words.1 ++ "(" ++
    ", ".intercalate op.inputs ++ ")" ++ op.operation.words.2

theorem Operator.line_eq_entry (op : Operator) : op.line = op.entry := by
  rw [entry, Operation.words_eq]
  rfl

namespace Model

variable {m : Model} {known : NameMap Shape}

/-- A model in print: its name, its tensors, its operators and its outputs. -/
def listing (m : Model) : List String :=
  ["model " ++ m.name, "tensors:"] ++ m.tensors.tensors.map Tensor.entry ++
    ["operators:"] ++ m.operators.map Operator.entry ++ ["outputs: " ++ ", ".intercalate m.outputs]

theorem Compiled.elementType (compiled : m.Compiled) :
    ∀ t ∈ m.tensors.tensors, t.elementType = .float32 := by
  obtain ⟨g, options, name, accepted, yields⟩ := compiled.exists_graph
  exact (yields.singleAssignment accepted).tensorTypes

theorem Compiled.hasLines_report (compiled : m.Compiled) : HasLines m.report m.listing := by
  have tensors : m.tensors.tensors.map Tensor.line = m.tensors.tensors.map Tensor.entry :=
    List.map_congr_left fun t mem => Tensor.line_eq_entry (compiled.elementType t mem)
  have operators : m.operators.map Operator.line = m.operators.map Operator.entry :=
    List.map_congr_left fun op _ => op.line_eq_entry
  have same : m.reportLines = m.listing := by
    rw [reportLines, tensors, operators]
    rfl
  exact same ▸ hasLines_unlines m.reportLines

/-- Where the shapes of all tensors are known, none is left out. -/
theorem hasLines_shapeReport (all : ∀ t ∈ m.tensors.tensors, known.get? t.name ≠ none) :
    HasLines (m.shapeReport known)
      ("shapes:" :: m.tensors.tensors.map (Tensor.shapeEntry known)) := by
  have lines : m.tensors.tensors.filterMap (shapeLine? known) =
      m.tensors.tensors.map (Tensor.shapeEntry known) := by
    rw [← List.filterMap_eq_map]
    refine List.filterMap_congr fun t mem => ?_
    obtain ⟨shape, there⟩ := Option.ne_none_iff_exists'.mp (all t mem)
    rw [Function.comp_apply, shapeLine?, Tensor.shapeEntry, there, ← padded_eq_column]
    rfl
  rw [← lines]
  exact hasLines_unlines (m.shapeLines known)

/-- Inference on what compiles knows the shapes of all tensors, and keeps the declared ones. -/
theorem Compiled.get?_shapes (compiled : m.Compiled) (inferred : m.shapes = .ok known) :
    ∀ t ∈ m.tensors.tensors, known.get? t.name ≠ none ∧ (t.Given → known.get? t.name = t.shape) := by
  obtain ⟨form, built⟩ := compiled.exists_form
  obtain ⟨shapes, consistent, records⟩ := (form.ordered built).shapes_eq_ok.mp inferred
  intro t mem
  have found : known.get? t.name = some (shapes t.name) :=
    records.get?_of_mem (form.mem_ready_length_iff.mpr (List.mem_map_of_mem mem))
  refine ⟨found ▸ Option.some_ne_none _, fun given => ?_⟩
  have declared : t.shape ≠ none := mt (form.shaped t mem).mp (Tensor.given_iff.mp given)
  obtain ⟨shape, declared⟩ := Option.ne_none_iff_exists'.mp declared
  rw [found, declared, consistent.declared t mem shape declared]

end Model
end TensorGraph
