import TensorGraph.Proofs.Readings
import TensorGraph.Proofs.Renaming.Data

/-! Compilation under other names of tensors. Every step commutes with a renaming, whatever its outcome,
and so does the whole: a renamed graph compiles to the renamed model, or there is the same complaint
about the renamed tensor. -/
namespace TensorGraph

variable (ρ : Renaming)

namespace ElementType

theorem ensureSupported_rename (t : ElementType) (place : Place) :
    t.ensureSupported (place.rename ρ) = ρ.outcome id (t.ensureSupported place) := by
  rw [ensureSupported, ensureSupported]
  split
  · rfl
  · rfl

theorem ofSupportedLabel_rename (label : String) (place : Place) :
    ofSupportedLabel label (place.rename ρ) = ρ.outcome id (ofSupportedLabel label place) := by
  rw [ofSupportedLabel, ofSupportedLabel]
  cases ofLabel? label with
  | none => rfl
  | some t =>
    dsimp only
    rw [ensureSupported_rename]
    exact ρ.outcome_bind fun _ => rfl

end ElementType

namespace Registry

variable (r : Registry) (name : String) (t : ElementType)

/-- A tensor and the registry behind it under other names. -/
def renameDone (done : Tensor × Registry) : Tensor × Registry :=
  (done.1.rename ρ, done.2.rename ρ)

theorem declaredStorage_rename (shape : Option Shape) (kind : TensorKind) :
    declaredStorage (ρ name) shape kind = ρ.outcome id (declaredStorage name shape kind) := by
  cases kind with
  | input =>
    rw [declaredStorage, declaredStorage]
    split
    · rfl
    · rfl
  | intermediate => rfl
  | initialized => rfl

theorem declare_rename (shape : Option Shape) (kind : TensorKind) :
    (r.rename ρ).declare (ρ name) t shape kind =
      ρ.outcome (renameDone ρ) (r.declare name t shape kind) := by
  rw [declare, declare, declaredStorage_rename]
  refine ρ.outcome_bind fun storage => ?_
  by_cases taken : name ∈ r.names
  · rw [dif_pos taken, dif_pos ((mem_names_rename ρ).mpr taken)]
    rfl
  · have taken' := mt (mem_names_rename ρ).mp taken
    rw [dif_neg taken, dif_neg taken']
    have supported := t.ensureSupported_rename ρ (.tensor name)
    rw [Place.rename] at supported
    rw [supported]
    refine ρ.outcome_bind fun _ => ?_
    exact congrArg Except.ok (Prod.ext rfl (append_rename ρ r ⟨name, t, shape, storage⟩ taken taken'))

theorem materialize_rename (shape : Shape) (data : List UInt8) :
    (r.rename ρ).materialize (ρ name) t shape data =
      ρ.outcome (renameDone ρ) (r.materialize name t shape data) := by
  rw [materialize, materialize]
  by_cases taken : name ∈ r.names
  · rw [dif_pos taken, dif_pos ((mem_names_rename ρ).mpr taken)]
    rfl
  · have taken' := mt (mem_names_rename ρ).mp taken
    rw [dif_neg taken, dif_neg taken']
    have supported := t.ensureSupported_rename ρ (.weight name)
    rw [Place.rename] at supported
    rw [supported]
    refine ρ.outcome_bind fun _ => ?_
    cases shape.sizes? t.width with
    | none => rfl
    | some sizes =>
      dsimp only
      by_cases other : data.length ≠ sizes.2
      · rw [if_pos other, if_pos other]
        rfl
      · rw [if_neg other, if_neg other]
        exact congrArg Except.ok
          (Prod.ext rfl (append_rename ρ r ⟨name, t, some shape, .initialized data⟩ taken taken'))

end Registry

namespace Graph

variable (r : Registry) (weights : List Weight)

theorem declareInput_rename (input : Input) :
    declareInput (r.rename ρ) (input.rename ρ) =
      ρ.outcome (Registry.rename ρ) (declareInput r input) := by
  have label := ElementType.ofSupportedLabel_rename ρ input.typeLabel (.input input.name)
  rw [Place.rename] at label
  rw [declareInput, declareInput, Input.rename, label]
  refine ρ.outcome_bind fun t => ?_
  rw [id, Registry.declare_rename]
  exact ρ.outcome_bind fun _ => rfl

theorem declareOutput_rename (t : ElementType) (name : String) :
    declareOutput t (r.rename ρ) (ρ name) =
      ρ.outcome (Registry.rename ρ) (declareOutput t r name) := by
  rw [declareOutput, declareOutput, Registry.declare_rename]
  exact ρ.outcome_bind fun _ => rfl

theorem materializeWeight_rename (weight : Weight) :
    materializeWeight (r.rename ρ) (weight.rename ρ) =
      ρ.outcome (Registry.rename ρ) (materializeWeight r weight) := by
  have label := ElementType.ofSupportedLabel_rename ρ weight.typeLabel (.weight weight.name)
  rw [Place.rename] at label
  rw [materializeWeight, materializeWeight, Weight.rename, label]
  refine ρ.outcome_bind fun t => ?_
  rw [id, Registry.materialize_rename]
  exact ρ.outcome_bind fun _ => rfl

theorem knownShape?_rename (x : String) :
    knownShape? (weights.map (Weight.rename ρ)) (r.rename ρ) (ρ x) = knownShape? weights r x := by
  rw [knownShape?, knownShape?, Registry.get?_rename]
  cases r.get? x with
  | some t => rfl
  | none =>
    have last := ρ.find?_map Weight.name Weight.name (Weight.rename ρ) (fun _ => rfl) x weights.reverse
    simp only [Option.map_none, ← List.map_reverse, last, Option.map_map]
    rfl

theorem nodeType_rename (node : Node) (name : String) (kind : Kind) :
    nodeType (node.rename ρ) name kind = ρ.outcome id (nodeType node name kind) := by
  rw [nodeType, nodeType, Node.rename]
  cases node.outputTypes with
  | nil => rfl
  | cons label rest =>
    dsimp only
    cases ElementType.ofLabel? label with
    | none => rfl
    | some t => rfl

theorem any_rename (x : String) :
    (weights.map (Weight.rename ρ)).any (·.name == ρ x) = weights.any (·.name == x) := by
  rw [List.any_map]
  congr 1
  funext weight
  rw [Bool.eq_iff_iff]
  simp [Weight.rename, ρ.eq_iff]

theorem resolveInputs_rename (name : String) (inputs : List String) :
    resolveInputs (weights.map (Weight.rename ρ)) (r.rename ρ) name (inputs.map ρ) =
      ρ.outcome id (resolveInputs weights r name inputs) := by
  refine ρ.outcome_forM (fun x => ?_) inputs
  rw [Registry.contains_rename, any_rename]
  split
  · rfl
  · rfl

theorem checkOutputs_rename (seen outputs : List String) :
    checkOutputs (r.rename ρ) (seen.map ρ) (outputs.map ρ) =
      ρ.outcome id (checkOutputs r seen outputs) := by
  induction outputs generalizing seen with
  | nil => rfl
  | cons name rest ih =>
    rw [List.map_cons, checkOutputs, checkOutputs, Registry.contains_rename]
    split
    · rfl
    · by_cases repeated : name ∈ seen
      · rw [if_pos repeated, if_pos (ρ.mem_map.mpr repeated)]
        rfl
      · rw [if_neg repeated, if_neg (mt ρ.mem_map.mp repeated)]
        exact ih (name :: seen)

end Graph

namespace Draft

/-- A draft under other names of tensors keeps its own name. -/
def rename (d : Draft) : Draft := { d with inputs := d.inputs.map ρ, outputs := d.outputs.map ρ }

variable {α : Type} (d : Draft)

/-- A converter that never tells a tensor. -/
def Plain (convert : Attribute → Except AttributeFault α) : Prop :=
  ∀ found, FaultsIn (fun fault => fault.rename ρ = fault) (convert found)

theorem plain_asFloat : Plain ρ Attribute.asFloat := by
  intro found
  cases found with
  | float value =>
    rw [Attribute.asFloat]
    split
    · exact .ok _
    · exact .error rfl
  | int value => exact .ok _
  | _ => exact .error rfl

theorem plain_asFlag : Plain ρ Attribute.asFlag := by
  intro found
  cases found with
  | int value => exact .ok _
  | _ => exact .error rfl

theorem plain_asInts : Plain ρ Attribute.asInts := by
  intro found
  cases found with
  | ints values => exact .ok _
  | _ => exact .error rfl

variable {ρ}

theorem faultsIn_answer {convert : Attribute → Except AttributeFault α} (plain : Plain ρ convert)
    (key : String) : FaultsIn (fun e => e.rename ρ = e) (d.answer convert key) := by
  rw [answer, AttributeReader.answer]
  cases d.attributes.get? key with
  | none => exact .ok _
  | some found =>
    dsimp only
    cases failed : convert found with
    | ok x => exact .ok _
    | error fault => exact .error (congrArg _ ((plain found).of_error fault failed))

theorem faultsIn_expectOnly (asked : List String) :
    FaultsIn (fun e => e.rename ρ = e) (d.expectOnly asked) := by
  rw [expectOnly]
  split
  · exact .error rfl
  · exact .ok _

theorem rename_axisFault {rank : Nat} {before : List Int64} {axis : Int64} {fault : AttributeFault}
    (found : axisFault? rank before axis = some fault) : fault.rename ρ = fault := by
  rw [axisFault?] at found
  split at found
  · cases found
    rfl
  · split at found
    · cases found
      rfl
    · cases found

theorem rename_firstFault {rank : Nat} {before axes : List Int64} {fault : AttributeFault}
    (found : firstFault? rank before axes = some fault) : fault.rename ρ = fault := by
  induction axes generalizing before with
  | nil => cases found
  | cons axis rest ih =>
    rw [firstFault?] at found
    cases here : axisFault? rank before axis with
    | none =>
      rw [here] at found
      exact ih found
    | some first =>
      rw [here] at found
      cases found
      exact rename_axisFault here

theorem faultsIn_permutationOf (axes : List Int64) :
    FaultsIn (fun fault => fault.rename ρ = fault) (permutationOf axes) := by
  rw [permutationOf]
  split
  · rename_i fault found
    exact .error (rename_firstFault found)
  · exact .ok _

variable (ρ)

/-- What is read of attributes names no tensor, nor does what is wrong with them. -/
theorem readOperation_rename (kind : Kind) :
    ρ.outcome id (d.read (d.readOperation kind)) = d.read (d.readOperation kind) := by
  apply ρ.outcome_of_faultsIn
  rw [read_readOperation]
  cases kind with
  | gemm =>
    dsimp only
    rw [read_readScaling]
    apply FaultsIn.map
    refine (d.faultsIn_answer (plain_asFloat ρ) _).bind fun alpha _ =>
      (d.faultsIn_answer (plain_asFloat ρ) _).bind fun beta _ =>
        (d.faultsIn_answer (plain_asFlag ρ) _).bind fun flagA _ =>
          (d.faultsIn_answer (plain_asFlag ρ) _).bind fun flagB _ => ?_
    cases flagB <|> flagA.map not with
    | none => exact .error rfl
    | some transB => exact (d.faultsIn_expectOnly _).bind fun _ _ => .ok _
  | relu => exact (d.faultsIn_expectOnly _).bind fun _ _ => .ok _
  | transpose =>
    dsimp only
    rw [read_readPermutation]
    apply FaultsIn.map
    refine (d.faultsIn_answer (plain_asInts ρ) _).bind fun found _ => ?_
    cases found with
    | none => exact .error rfl
    | some axes =>
      refine (d.faultsIn_expectOnly _).bind fun _ _ => ?_
      cases failed : permutationOf axes with
      | ok permutation => exact .ok _
      | error fault => exact .error (congrArg _ ((faultsIn_permutationOf axes).of_error fault failed))

theorem expectArity_rename (inputs outputs : Nat) :
    (d.rename ρ).expectArity inputs outputs = ρ.outcome id (d.expectArity inputs outputs) := by
  simp only [expectArity, rename, List.length_map]
  split
  · rfl
  · rfl

/-- A draft of renamed operands completes to the renamed operator. -/
theorem complete_renamed (kind : Kind) :
    (d.rename ρ).complete kind = ρ.outcome (Operator.rename ρ) (d.complete kind) := by
  rw [complete, complete, expectArity_rename]
  refine ρ.outcome_bind fun _ => ?_
  have supported := d.elementType.ensureSupported_rename ρ (.operator d.name kind)
  change (d.elementType.ensureSupported ((Place.operator d.name kind).rename ρ) >>= _) = _
  rw [supported]
  refine ρ.outcome_bind fun _ => ?_
  exact (congrArg (· >>= _) (d.readOperation_rename ρ kind).symm).trans
    (ρ.outcome_bind fun operation => rfl)

end Draft

namespace Graph

variable (options : Options) (r : Registry) (weights : List Weight)

theorem checkRank_rename (op : Operator) :
    checkRank (weights.map (Weight.rename ρ)) (r.rename ρ) (op.rename ρ) =
      ρ.outcome id (checkRank weights r op) := by
  rw [checkRank, checkRank, Operator.rename]
  cases op.operation with
  | gemm scaling => rfl
  | relu => rfl
  | transpose permutation =>
    cases op.inputs with
    | nil => rfl
    | cons x rest =>
      rw [List.map_cons]
      dsimp only
      rw [knownShape?_rename]
      cases knownShape? weights r x with
      | none => rfl
      | some shape =>
        dsimp only
        split
        · rfl
        · rfl

theorem compileNode_rename (position : Nat) (node : Node) :
    compileNode options (weights.map (Weight.rename ρ)) (r.rename ρ) position (node.rename ρ) =
      ρ.outcome (Operator.rename ρ) (compileNode options weights r position node) := by
  have ofKind : Kind.ofLabel node.kindLabel = ρ.outcome id (Kind.ofLabel node.kindLabel) := by
    rw [Kind.ofLabel]
    cases Kind.ofLabel? node.kindLabel with
    | none => rfl
    | some kind => rfl
  rw [compileNode, compileNode]
  change (Kind.ofLabel node.kindLabel >>= _) = _
  refine (congrArg (· >>= _) ofKind).trans (ρ.outcome_bind fun kind => ?_)
  change (nodeType (node.rename ρ) (nodeName node kind position) kind >>= _) = _
  rw [nodeType_rename]
  refine ρ.outcome_bind fun t => ?_
  change (resolveInputs _ _ (nodeName node kind position) (node.inputs.map ρ) >>= _) = _
  rw [resolveInputs_rename]
  refine ρ.outcome_bind fun _ => ?_
  change ((Draft.rename ρ { node with name := nodeName node kind position, elementType := t }).complete
    kind >>= _) = _
  rw [Draft.complete_renamed]
  refine ρ.outcome_bind fun op => ?_
  by_cases checked : options.checkPermutationRank = true
  · rw [if_pos checked, if_pos checked, checkRank_rename]
    exact ρ.outcome_bind fun _ => rfl
  · rw [if_neg checked, if_neg checked]
    rfl

/-- A registry and operators under other names. -/
def renameNodes (done : Registry × List Operator) : Registry × List Operator :=
  (done.1.rename ρ, done.2.map (Operator.rename ρ))

theorem compileNodes_rename (position : Nat) (nodes : List Node) :
    compileNodes options (weights.map (Weight.rename ρ)) (r.rename ρ) position
        (nodes.map (Node.rename ρ)) =
      ρ.outcome (renameNodes ρ) (compileNodes options weights r position nodes) := by
  induction nodes generalizing r position with
  | nil => rfl
  | cons node rest ih =>
    rw [List.map_cons, compileNodes, compileNodes, compileNode_rename]
    refine ρ.outcome_bind fun op => ?_
    change ((op.outputs.map ρ).foldlM (declareOutput op.elementType) (r.rename ρ) >>= _) = _
    rw [ρ.outcome_foldlM fun s x => declareOutput_rename ρ s op.elementType x]
    refine ρ.outcome_bind fun s => ?_
    rw [ih]
    exact ρ.outcome_bind fun _ => rfl

/-- A graph of renamed tensors compiles to the renamed model, or fails with the renamed complaint. -/
theorem compile_renamed (g : Graph) (name : String) :
    (g.rename ρ).compile options name = ρ.outcome (Model.rename ρ) (g.compile options name) := by
  rw [compile, compile]
  change ((g.inputs.map (Input.rename ρ)).foldlM declareInput (Registry.empty.rename ρ) >>= _) = _
  rw [ρ.outcome_foldlM (declareInput_rename ρ)]
  refine ρ.outcome_bind fun s => ?_
  change (compileNodes options (g.weights.map (Weight.rename ρ)) (s.rename ρ) 0
    (g.nodes.map (Node.rename ρ)) >>= _) = _
  rw [compileNodes_rename]
  refine ρ.outcome_bind fun done => ?_
  change ((g.weights.map (Weight.rename ρ)).foldlM materializeWeight (done.1.rename ρ) >>= _) = _
  rw [ρ.outcome_foldlM (materializeWeight_rename ρ)]
  refine ρ.outcome_bind fun tensors => ?_
  change (checkOutputs (tensors.rename ρ) ([].map ρ) (g.outputs.map ρ) >>= _) = _
  rw [checkOutputs_rename]
  exact ρ.outcome_bind fun _ => rfl

end Graph

end TensorGraph
