import TensorGraph.Proofs.Positional.Compile
import TensorGraph.Proofs.Positional.Inference

/-! No run reads where nothing stands. Compilation and inference by positions give what they give
without, and neither ever misses an operand or an axis: operands are counted and axes are checked before
a draft completes to an operator, and ranks are compared before extents are read. -/
namespace TensorGraph

/-- A fault that lies with an operator and not with its graph: it counts on an operand or an axis that it
does not have. -/
def GraphError.isGap : GraphError → Bool
  | .invalidNode _ (.missingOperand _) | .invalidNode _ (.missingAxis _) => true
  | _ => false

/-- A computation that may stop, but not at a gap. -/
abbrev Gapless {α : Type} (x : Except GraphError α) : Prop := FaultsIn (fun e => e.isGap = false) x

/-- A reading that does not stop at a gap, whichever reader it starts with. -/
def Reading.Gapless {α : Type} (x : Reading α) : Prop :=
  ∀ reader : AttributeReader, TensorGraph.Gapless (x.run.run reader).1

namespace Reading.Gapless

variable {α β : Type}

theorem pure (a : α) : Reading.Gapless (Pure.pure a) := fun _ => .ok a

theorem throw {e : GraphError} (h : e.isGap = false) : Reading.Gapless (throw e : Reading α) :=
  fun _ => .error h

theorem refuse (key : String) (fault : AttributeFault) :
    Reading.Gapless (AttributeReader.refuse key fault : Reading α) := by
  intro reader
  rw [AttributeReader.run_refuse]
  exact .error rfl

theorem bind {x : Reading α} {f : α → Reading β} (first : x.Gapless) (next : ∀ a, (f a).Gapless) :
    Reading.Gapless (x >>= f) := by
  intro reader
  rw [AttributeReader.fst_run_bind]
  exact (first reader).bind fun a _ => next a _

theorem map {x : Reading α} (gapless : x.Gapless) (f : α → β) : Reading.Gapless (f <$> x) := by
  rw [← bind_pure_comp]
  exact gapless.bind fun a => .pure (f a)

theorem read (convert : Attribute → Except AttributeFault α) (key : String) :
    (AttributeReader.read convert key).Gapless := by
  intro reader
  rw [AttributeReader.run_read, AttributeReader.answer]
  split
  · exact .ok _
  · split
    · exact .ok _
    · exact .error rfl

theorem finish : AttributeReader.finish.Gapless := by
  intro reader
  rw [AttributeReader.run_finish]
  split
  · exact .error rfl
  · exact .ok _

end Reading.Gapless

namespace Draft

theorem gapless_readScaling (d : Draft) : d.readScaling.Gapless := by
  refine .bind (.read _ _) fun alpha => .bind (.read _ _) fun beta =>
    .bind (.read _ _) fun flagA => .bind (.read _ _) fun flagB => ?_
  split
  · exact .throw rfl
  · exact .bind .finish fun _ => .pure _

theorem gapless_readPermutation (d : Draft) : d.readPermutation.Gapless := by
  refine .bind (.read _ _) fun found => ?_
  split
  · exact .throw rfl
  · refine .bind .finish fun _ => ?_
    split
    · exact .refuse _ _
    · exact .pure _

theorem gapless_readOperation (d : Draft) (kind : Kind) : (d.readOperation kind).Gapless := by
  cases kind with
  | gemm => exact d.gapless_readScaling.map _
  | relu => exact .bind .finish fun _ => .pure _
  | transpose => exact d.gapless_readPermutation.map _

end Draft

section

variable (t : ElementType) (place : Place) (r : Registry)

theorem gapless_ensureSupported : Gapless (t.ensureSupported place) := by
  rw [ElementType.ensureSupported]
  split
  · exact .ok _
  · exact .error rfl

theorem gapless_ofSupportedLabel (label : String) :
    Gapless (ElementType.ofSupportedLabel label place) := by
  rw [ElementType.ofSupportedLabel]
  split
  · exact .error rfl
  · exact (gapless_ensureSupported _ place).bind fun _ _ => .ok _

theorem gapless_complete (d : Draft) (kind : Kind) : Gapless (d.complete kind) := by
  have arity : Gapless (d.expectArity (Draft.inputCount kind) 1) := by
    rw [Draft.expectArity]
    split
    · exact .ok _
    · exact .error rfl
  refine arity.bind fun _ _ => (gapless_ensureSupported ..).bind fun _ _ => ?_
  exact (d.gapless_readOperation kind _).bind fun _ _ => .ok _

theorem gapless_declare (name : String) (shape : Option Shape) (kind : TensorKind) :
    Gapless (r.declare name t shape kind) := by
  have backed : Gapless (Registry.declaredStorage name shape kind) := by
    cases kind with
    | input => cases shape with
      | none => exact .error rfl
      | some shape => exact .ok _
    | initialized => exact .error rfl
    | intermediate => exact .ok _
  refine backed.bind fun storage _ => ?_
  split
  · exact .error rfl
  · exact (gapless_ensureSupported ..).bind fun _ _ => .ok _

theorem gapless_materialize (name : String) (shape : Shape) (data : List UInt8) :
    Gapless (r.materialize name t shape data) := by
  rw [Registry.materialize]
  split
  · exact .error rfl
  · refine (gapless_ensureSupported ..).bind fun _ _ => ?_
    split
    · exact .error rfl
    · split
      · exact .error rfl
      · exact .ok _

end

namespace Graph

variable (options : Options) (weights : List Weight) (r : Registry)

theorem gapless_declareInput (input : Input) : Gapless (declareInput r input) :=
  (gapless_ofSupportedLabel ..).bind fun _ _ => (gapless_declare ..).bind fun _ _ => .ok _

theorem gapless_materializeWeight (weight : Weight) : Gapless (materializeWeight r weight) :=
  (gapless_ofSupportedLabel ..).bind fun _ _ => (gapless_materialize ..).bind fun _ _ => .ok _

theorem gapless_declareOutput (t : ElementType) (name : String) :
    Gapless (declareOutput t r name) :=
  (gapless_declare ..).bind fun _ _ => .ok _

theorem gapless_resolveInputs (name : String) (inputs : List String) :
    Gapless (resolveInputs weights r name inputs) := by
  refine .forM (fun input => ?_) inputs
  split
  · exact .ok _
  · exact .error rfl

/-- The rank check finds the operand that it reads, as it follows the count of operands. -/
theorem gapless_checkRank {op : Operator} (built : op.WellBuilt) :
    Gapless (checkRank weights r op) := by
  constructor
  intro e stopped
  obtain ⟨permutation, x, shape, -, -, -, -, rfl⟩ := (checkRank_eq_error built).mp stopped
  rfl

theorem gapless_compileNode (position : Nat) (node : Node) :
    Gapless (compileNode options weights r position node) := by
  have ofKind : Gapless (Kind.ofLabel node.kindLabel) := by
    rw [Kind.ofLabel]
    split
    · exact .error rfl
    · exact .ok _
  have ofType : ∀ name kind, Gapless (nodeType node name kind) := by
    intro name kind
    rw [nodeType]
    split
    · exact .error rfl
    · split
      · exact .error rfl
      · exact .ok _
  refine ofKind.bind fun kind _ => (ofType ..).bind fun t _ =>
    (gapless_resolveInputs ..).bind fun _ _ => (gapless_complete ..).bind fun op complete => ?_
  split
  · exact (gapless_checkRank weights r (Draft.wellBuilt_of_complete complete)).bind fun _ _ => .ok _
  · exact .ok _

theorem gapless_compileNodes (position : Nat) (nodes : List Node) :
    Gapless (compileNodes options weights r position nodes) := by
  induction nodes generalizing r position with
  | nil => exact .ok _
  | cons node rest ih =>
    refine (gapless_compileNode ..).bind fun op _ => ?_
    refine (FaultsIn.foldlM (fun s x => gapless_declareOutput s _ x) ..).bind fun s _ => ?_
    exact (ih s (position + 1)).bind fun _ _ => .ok _

theorem gapless_checkOutputs (seen outputs : List String) : Gapless (checkOutputs r seen outputs) := by
  induction outputs generalizing seen with
  | nil => exact .ok _
  | cons name rest ih =>
    rw [checkOutputs]
    split
    · exact .error rfl
    · split
      · exact .error rfl
      · exact ih (name :: seen)

theorem gapless_compile (g : Graph) (name : String) : Gapless (g.compile options name) := by
  refine (FaultsIn.foldlM gapless_declareInput ..).bind fun r _ => ?_
  refine (gapless_compileNodes ..).bind fun _ _ => ?_
  refine (FaultsIn.foldlM gapless_materializeWeight ..).bind fun s _ => ?_
  exact (gapless_checkOutputs ..).bind fun _ _ => .ok _

end Graph

theorem Operator.Violation.isGap_eq_false {op : Operator} {shapes : String → Shape} {e : GraphError}
    (violation : op.Violation shapes e) : e.isGap = false := by
  cases violation <;> rfl

theorem Model.Compiled.gapless_shapes {m : Model} (h : m.Compiled) : Gapless m.shapes := by
  obtain ⟨form, built⟩ := h.exists_form
  constructor
  intro e stopped
  obtain ⟨i, op, -, ⟨shapes, consistent⟩, fails⟩ := (form.ordered built).shapes_eq_error.mp stopped
  exact (fails shapes consistent).2.isGap_eq_false

namespace Positional

/-- Compilation by positions and then inference by positions. -/
def infer (x : Except (Stop GraphError) (List Operator × Directory)) :
    Except (Stop GraphError) (NameMap Shape) := do
  let (ops, d) ← x
  shapes d.tensors ops

/-- A run by positions gives what a run without them gives, in its compilation and in the inference
behind it. It never reads outside of a row, and the run without them never stops at a gap. -/
structure Safe (x : Except (Stop GraphError) (List Operator × Directory))
    (y : Except GraphError Model) : Prop where
  compiled : x = plain (y.map fun m => (m.operators, m.tensors.directory))
  inferred : infer x = plain (y >>= Model.shapes)
  inside : ∀ position length,
    x ≠ .error (.outside position length) ∧ infer x ≠ .error (.outside position length)
  gapless : Gapless y ∧ Gapless (y >>= Model.shapes)

theorem safe_of_eq {x : Except (Stop GraphError) (List Operator × Directory)}
    {y : Except GraphError Model} (form : ∀ m, y = .ok m → m.Compiled) (gapless : Gapless y)
    (compiled : x = plain (y.map fun m => (m.operators, m.tensors.directory))) : Safe x y := by
  have inferred : infer x = plain (y >>= Model.shapes) := by
    rw [compiled]
    cases ran : y with
    | error e => rfl
    | ok m => exact shapes_eq (form m ran).exists_form.2
  refine ⟨compiled, inferred, ?_, gapless, ?_⟩
  · intro position length
    rw [inferred, compiled]
    exact ⟨plain_ne_outside _ _ _, plain_ne_outside _ _ _⟩
  · exact gapless.bind fun m ran => (form m ran).gapless_shapes

/-- Whatever is compiled and inferred, every position that is read is one where something stands, no
operand or axis is missed, and no size is other than the product that it stands for. -/
theorem safe_compile :
    (∀ (g : Graph) (options : Options) (name : String),
      Safe (compile g options) (g.compile options name)) ∧
    (∀ (d : Description) (options : Options),
      Safe (compileDescription d options) (d.compile options)) ∧
    ∀ (shape : Shape) (width count octets : Nat), shape.wordSizes? width = some (count, octets) →
      count = shape.elements ∧ octets = shape.elements * width ∧ octets < Shape.addressLimit := by
  refine ⟨?_, ?_, ?_⟩
  · intro g options name
    exact safe_of_eq (fun m ran => .graph ran) (Graph.gapless_compile options g name)
      (compile_eq g options name)
  · intro d options
    exact safe_of_eq (fun m ran => .description ran) (Graph.gapless_compile options _ d.name)
      (compileDescription_eq d options)
  · intro shape width count octets sized
    rw [Shape.wordSizes?_eq_sizes?, Shape.sizes?_eq_some] at sized
    obtain ⟨fits, rfl, rfl⟩ := sized
    exact ⟨rfl, rfl, fits.octets⟩

theorem safe_compile_layer :
    infer (compile Graph.layer {}) = .ok (.ofList [("a", [3, 1]), ("b", [1]), ("h", [3, 1]),
      ("w", [1, 2]), ("x", [3, 2]), ("y", [1, 3])]) ∧
    compileDescription Description.layer {} =
      .ok (Graph.layerModel.operators, Graph.layerModel.tensors.directory) ∧
    Shape.wordSizes? [3, 2] 4 = some (6, 24) ∧ 24 < Shape.addressLimit := by
  obtain ⟨graphs, descriptions, sizes⟩ := safe_compile
  have compiled : Description.layer.compile = .ok Graph.layerModel := by decide +kernel
  have sized : Shape.wordSizes? [3, 2] 4 = some (6, 24) := by decide
  refine ⟨?_, ?_, sized, (sizes _ _ _ _ sized).2.2⟩
  · rw [(graphs Graph.layer {} defaultName).inferred, Graph.compile_layer]
    decide +kernel
  · rw [(descriptions Description.layer {}).compiled, compiled]
    rfl

end Positional
end TensorGraph
