import Mathlib.Data.List.Induction
import TensorGraph.Proofs.ShapeRules
import TensorGraph.Proofs.SingleAssignment

/-! Inference of shapes as the search for an assignment that agrees with the declared shapes and
satisfies the rules of all operators. Where operators come in an order of evaluation there is at most
one, and inference finds it, or else stops at the first operator whose rule fails. -/
namespace TensorGraph

namespace NameMap

/-- A map holds just the names of a list, each with the shape that it is assigned. -/
def Records (known : NameMap Shape) (names : List String) (shapes : String → Shape) : Prop :=
  ∀ x, known.get? x = if x ∈ names then some (shapes x) else none

variable {known known' : NameMap Shape} {names : List String} {shapes shapes' : String → Shape}

namespace Records

theorem get?_of_mem (records : known.Records names shapes) {x : String} (mem : x ∈ names) :
    known.get? x = some (shapes x) := by
  rw [records x, if_pos mem]

theorem mem_keys_iff (records : known.Records names shapes) {x : String} :
    x ∈ known.keys ↔ x ∈ names := by
  have found : known.get? x = none ↔ x ∉ known.keys := get?_eq_none_iff
  rw [records x] at found
  by_cases mem : x ∈ names
  · simpa [mem] using found
  · simpa [mem] using found

/-- A map and its names determine the shapes that are assigned. -/
theorem agree (records : known.Records names shapes) (records' : known.Records names shapes') :
    ∀ x ∈ names, shapes x = shapes' x := by
  intro x mem
  have same := records.get?_of_mem mem
  rw [records'.get?_of_mem mem] at same
  exact (Option.some.inj same).symm

theorem congr (records : known.Records names shapes) (same : ∀ x ∈ names, shapes x = shapes' x) :
    known.Records names shapes' := by
  intro x
  rw [records x]
  by_cases mem : x ∈ names
  · rw [if_pos mem, if_pos mem, same x mem]
  · rw [if_neg mem, if_neg mem]

theorem insert (records : known.Records names shapes) (x : String) :
    (known.insert x (shapes x)).Records (names ++ [x]) shapes := by
  intro y
  rw [get?_insert, records y]
  by_cases here : x = y
  · simp [here]
  · simp [here, Ne.symm here]

theorem unique (records : known.Records names shapes) (records' : known'.Records names shapes) :
    known = known' := by
  apply eq_of_get?
  intro x
  rw [records x, records' x]

end Records

theorem exists_records (names : List String) (shapes : String → Shape) :
    ∃ known : NameMap Shape, known.Records names shapes := by
  induction names using List.reverseRecOn with
  | nil => exact ⟨empty, fun x => by simp⟩
  | append_singleton front x ih =>
    obtain ⟨known, records⟩ := ih
    exact ⟨known.insert x (shapes x), records.insert x⟩

end NameMap

namespace Operator

variable {op : Operator} {known known' : NameMap Shape} {names : List String}
  {shapes shapes' : String → Shape} {e : GraphError}

/-- An operator has one output, of the shape that its rule asks for. -/
def Holds (op : Operator) (shapes : String → Shape) : Prop :=
  ∃ output, op.outputs = [output] ∧ op.operation.Rule (op.inputs.map shapes) (shapes output)

theorem Holds.congr (holds : op.Holds shapes) (inputs : ∀ x ∈ op.inputs, shapes x = shapes' x)
    (outputs : ∀ x ∈ op.outputs, shapes x = shapes' x) : op.Holds shapes' := by
  obtain ⟨output, single, rule⟩ := holds
  have operands : op.inputs.map shapes = op.inputs.map shapes' := List.map_congr_left inputs
  have result : shapes output = shapes' output := outputs output (by simp [single])
  rw [operands, result] at rule
  exact ⟨output, single, rule⟩

theorem not_rule_of_violation (built : op.WellBuilt) (violation : op.Violation shapes e)
    {result : Shape} : ¬ op.operation.Rule (op.inputs.map shapes) result := by
  intro rule
  have computed := (outputShape_eq_ok built shapes).mpr rule
  rw [(outputShape_eq_error built shapes).mpr violation] at computed
  cases computed

theorem operands?_eq_some (records : known.Records names shapes) (inside : ∀ x ∈ op.inputs, x ∈ names) :
    Model.operands? known op = some (op.operandsIn shapes) := by
  rw [Model.operands?, operandsIn]
  generalize op.inputs = inputs at inside
  induction inputs with
  | nil => rfl
  | cons x rest ih =>
    obtain ⟨here, later⟩ := List.forall_mem_cons.mp inside
    rw [List.mapM_cons, ih later, records.get?_of_mem here]
    rfl

theorem inferStep_of_records (records : known.Records names shapes)
    (inside : ∀ x ∈ op.inputs, x ∈ names) {output : String} (outputs : op.outputs = [output]) :
    Model.inferStep known op = (do
      let result ← op.outputShape (op.operandsIn shapes)
      return known.insert output result) := by
  rw [Model.inferStep, operands?_eq_some records inside]
  simp only [outputs]

/-- One step of inference adds the result of the rule of an operator to what is known. -/
theorem inferStep_eq_ok (built : op.WellBuilt) (records : known.Records names shapes)
    (inside : ∀ x ∈ op.inputs, x ∈ names) {output : String} (outputs : op.outputs = [output]) :
    Model.inferStep known op = .ok known' ↔ ∃ result,
      op.operation.Rule (op.inputs.map shapes) result ∧ known.insert output result = known' := by
  rw [inferStep_of_records records inside outputs, bind_eq_ok]
  simp only [outputShape_eq_ok built, pure_eq_ok]

/-- One step of inference stops at what violates the rule of an operator. -/
theorem inferStep_eq_error (built : op.WellBuilt) (records : known.Records names shapes)
    (inside : ∀ x ∈ op.inputs, x ∈ names) :
    Model.inferStep known op = .error e ↔ op.Violation shapes e := by
  obtain ⟨output, outputs⟩ := List.length_eq_one_iff.mp built.outputs
  rw [inferStep_of_records records inside outputs, bind_eq_error, outputShape_eq_error built]
  simp [pure_ne_error]

end Operator

namespace Model

variable {m : Model} {known : NameMap Shape} {shapes shapes' : String → Shape} {e : GraphError}

/-- The names whose shapes were declared. -/
def declaredNames (m : Model) : List String :=
  (m.tensors.tensors.filter (·.shape.isSome)).map Tensor.name

/-- The names whose shapes are known before the operator at a position. -/
def ready (m : Model) (i : Nat) : List String :=
  m.declaredNames ++ (m.operators.take i).flatMap (·.outputs)

/-- Operators that use only what is known by then, each for a result that is not. -/
structure Ordered (m : Model) : Prop where
  built : ∀ op ∈ m.operators, op.WellBuilt
  operands : ∀ (i : Nat) (op : Operator), m.operators[i]? = some op → ∀ x ∈ op.inputs, x ∈ m.ready i
  fresh : ∀ (i : Nat) (op : Operator), m.operators[i]? = some op → ∀ x ∈ op.outputs, x ∉ m.ready i

/-- Shapes for the tensors of a model that agree with the declared ones and satisfy the rules of some of
its operators. -/
structure ConsistentOn (m : Model) (ops : List Operator) (shapes : String → Shape) : Prop where
  declared : ∀ t ∈ m.tensors.tensors, ∀ shape, t.shape = some shape → shapes t.name = shape
  rules : ∀ op ∈ ops, op.Holds shapes

/-- Shapes that satisfy the rules of all operators. -/
abbrev Consistent (m : Model) (shapes : String → Shape) : Prop := m.ConsistentOn m.operators shapes

theorem mem_declaredNames {x : String} :
    x ∈ m.declaredNames ↔ ∃ t ∈ m.tensors.tensors, (∃ shape, t.shape = some shape) ∧ t.name = x := by
  simp only [declaredNames, List.mem_map, List.mem_filter, Option.isSome_iff_exists, and_assoc]

theorem get?_declaredShapes {x : String} {shape : Shape} :
    m.declaredShapes.get? x = some shape ↔
      ∃ t ∈ m.tensors.tensors, t.shape = some shape ∧ t.name = x := by
  have keys : ((m.tensors.tensors.filterMap fun t => t.shape.map fun shape => (t.name, shape)).map
      (·.1)).Sublist (m.tensors.tensors.map Tensor.name) := by
    generalize m.tensors.tensors = tensors
    induction tensors with
    | nil => simp
    | cons t rest ih =>
      cases declared : t.shape with
      | none => simpa [declared] using ih.cons t.name
      | some shape => simpa [declared] using ih
  rw [declaredShapes, NameMap.get?_ofList_eq_some_iff (m.tensors.distinct.sublist keys)]
  simp only [List.mem_filterMap, Option.map_eq_some_iff, Prod.mk.injEq]
  constructor
  · intro h
    obtain ⟨t, mem, shape', declared, named, same⟩ := h
    exact ⟨t, mem, same ▸ declared, named⟩
  · intro h
    obtain ⟨t, mem, declared, named⟩ := h
    exact ⟨t, mem, shape, declared, named, rfl⟩

theorem records_declaredShapes (consistent : m.ConsistentOn [] shapes) :
    m.declaredShapes.Records m.declaredNames shapes := by
  intro x
  by_cases mem : x ∈ m.declaredNames
  · obtain ⟨t, memT, ⟨shape, declared⟩, rfl⟩ := mem_declaredNames.mp mem
    rw [if_pos mem, consistent.declared t memT shape declared]
    exact get?_declaredShapes.mpr ⟨t, memT, declared, rfl⟩
  · rw [if_neg mem, Option.eq_none_iff_forall_ne_some]
    intro shape found
    obtain ⟨t, memT, declared, named⟩ := get?_declaredShapes.mp found
    exact mem (mem_declaredNames.mpr ⟨t, memT, ⟨shape, declared⟩, named⟩)

/-- Some shapes agree with the declared ones. -/
theorem exists_consistentOn_nil (m : Model) : ∃ shapes, m.ConsistentOn [] shapes := by
  refine ⟨fun x => (m.declaredShapes.get? x).getD [], ?_, by simp⟩
  intro t mem shape declared
  rw [get?_declaredShapes.mpr ⟨t, mem, declared, rfl⟩]
  rfl

theorem consistentOn_append_singleton {ops : List Operator} {op : Operator} :
    m.ConsistentOn (ops ++ [op]) shapes ↔ m.ConsistentOn ops shapes ∧ op.Holds shapes := by
  constructor
  · intro h
    obtain ⟨declared, rules⟩ := h
    rw [List.forall_mem_append] at rules
    exact ⟨⟨declared, rules.1⟩, rules.2 op (List.mem_singleton_self op)⟩
  · intro h
    obtain ⟨⟨declared, rules⟩, holds⟩ := h
    refine ⟨declared, List.forall_mem_append.mpr ⟨rules, ?_⟩⟩
    intro op' mem
    rw [List.mem_singleton.mp mem]
    exact holds

theorem ready_zero (m : Model) : m.ready 0 = m.declaredNames := by simp [ready]

theorem ready_succ {i : Nat} {op : Operator} (found : m.operators[i]? = some op) :
    m.ready (i + 1) = m.ready i ++ op.outputs := by
  simp [ready, List.take_add_one, found]

theorem mem_ready_of_le {i j : Nat} {x : String} (le : i ≤ j) (mem : x ∈ m.ready i) :
    x ∈ m.ready j := by
  rw [ready, List.mem_append, List.mem_flatMap] at mem ⊢
  refine mem.imp_right ?_
  intro h
  obtain ⟨op, early, output⟩ := h
  exact ⟨op, (List.take_subset_take_left _ le) early, output⟩

namespace Ordered

variable {i : Nat} (ordered : m.Ordered)
include ordered

/-- Consistency with operators in front is a matter of the names that are ready behind them. -/
theorem consistentOn_congr (consistent : m.ConsistentOn (m.operators.take i) shapes)
    (same : ∀ x ∈ m.ready i, shapes x = shapes' x) :
    m.ConsistentOn (m.operators.take i) shapes' := by
  constructor
  · intro t mem shape declared
    have known : t.name ∈ m.declaredNames := mem_declaredNames.mpr ⟨t, mem, ⟨shape, declared⟩, rfl⟩
    rw [← same t.name (List.mem_append_left _ known)]
    exact consistent.declared t mem shape declared
  · intro op early
    apply (consistent.rules op early).congr
    · intro x input
      obtain ⟨j, below, rfl⟩ := List.mem_take_iff_getElem.mp early
      have found := List.getElem?_eq_getElem (l := m.operators) (i := j) (by omega)
      exact same x (mem_ready_of_le (by omega) (ordered.operands j _ found x input))
    · intro x output
      exact same x (List.mem_append_right _ (List.mem_flatMap.mpr ⟨op, early, output⟩))

/-- A result that an operator adds by its rule extends the shapes known before it. -/
theorem exists_consistentOn_step {op : Operator} (found : m.operators[i]? = some op)
    (consistent : m.ConsistentOn (m.operators.take i) shapes)
    (records : known.Records (m.ready i) shapes) {output : String} (outputs : op.outputs = [output])
    {result : Shape} (rule : op.operation.Rule (op.inputs.map shapes) result) :
    ∃ shapes', m.ConsistentOn (m.operators.take i ++ [op]) shapes' ∧
      (known.insert output result).Records (m.ready i ++ [output]) shapes' := by
  have fresh : output ∉ m.ready i := ordered.fresh i op found output (by simp [outputs])
  have same : ∀ x ∈ m.ready i, shapes x = Function.update shapes output result x := by
    intro x mem
    have other : x ≠ output := fun h => fresh (h ▸ mem)
    exact (Function.update_of_ne other result shapes).symm
  have new : Function.update shapes output result output = result := Function.update_self ..
  have operands : op.inputs.map shapes = op.inputs.map (Function.update shapes output result) :=
    List.map_congr_left fun x input => same x (ordered.operands i op found x input)
  refine ⟨Function.update shapes output result, consistentOn_append_singleton.mpr ⟨?_, ?_⟩, ?_⟩
  · exact ordered.consistentOn_congr consistent same
  · refine ⟨output, outputs, ?_⟩
    rw [new, ← operands]
    exact rule
  · have recorded := (records.congr same).insert output
    rwa [new] at recorded

/-- Inference passes operators in front exactly when they are consistent with some shapes, and then holds
those that are ready behind them. -/
theorem foldlM_take_eq_ok : (m.operators.take i).foldlM inferStep m.declaredShapes = .ok known ↔
    ∃ shapes, m.ConsistentOn (m.operators.take i) shapes ∧ known.Records (m.ready i) shapes := by
  induction i generalizing known with
  | zero =>
    rw [List.take_zero, List.foldlM_nil, pure_eq_ok, ready_zero]
    constructor
    · rintro rfl
      obtain ⟨shapes, consistent⟩ := m.exists_consistentOn_nil
      exact ⟨shapes, consistent, records_declaredShapes consistent⟩
    · intro h
      obtain ⟨shapes, consistent, records⟩ := h
      exact (records_declaredShapes consistent).unique records
  | succ i ih =>
    cases found : m.operators[i]? with
    | none =>
      have same : m.operators.take (i + 1) = m.operators.take i := by simp [List.take_add_one, found]
      rw [ready, same, ih, ready]
    | some op =>
      have built := ordered.built op (List.mem_of_getElem? found)
      have inside := ordered.operands i op found
      obtain ⟨output, outputs⟩ := List.length_eq_one_iff.mp built.outputs
      have parts : m.operators.take (i + 1) = m.operators.take i ++ [op] := by
        simp [List.take_add_one, found]
      rw [parts, List.foldlM_append, bind_eq_ok, ready_succ found, outputs]
      simp only [List.foldlM_cons, List.foldlM_nil, bind_pure]
      constructor
      -- The new result is assigned to a name that nothing before it mentions.
      · intro h
        obtain ⟨before, ran, stepped⟩ := h
        obtain ⟨shapes, consistent, records⟩ := ih.mp ran
        obtain ⟨result, rule, rfl⟩ :=
          (Operator.inferStep_eq_ok built records inside outputs).mp stepped
        exact ordered.exists_consistentOn_step found consistent records outputs rule
      · intro h
        obtain ⟨shapes, consistent, records⟩ := h
        obtain ⟨consistentBefore, output', outputs', rule⟩ :=
          consistentOn_append_singleton.mp consistent
        obtain rfl : output = output' := by simpa using outputs.symm.trans outputs'
        -- The same shapes are consistent before the operator, so the run up to it holds them.
        obtain ⟨before, recordsBefore⟩ := NameMap.exists_records (m.ready i) shapes
        refine ⟨before, ih.mpr ⟨shapes, consistentBefore, recordsBefore⟩, ?_⟩
        rw [Operator.inferStep_eq_ok built recordsBefore inside outputs]
        exact ⟨shapes output, rule, (recordsBefore.insert output).unique records⟩

/-- Shapes that are consistent with the operators that inference has passed are those it holds. -/
theorem records_of_foldlM_take
    (ran : (m.operators.take i).foldlM inferStep m.declaredShapes = .ok known)
    (consistent : m.ConsistentOn (m.operators.take i) shapes) :
    known.Records (m.ready i) shapes := by
  obtain ⟨known', records⟩ := NameMap.exists_records (m.ready i) shapes
  have again := ordered.foldlM_take_eq_ok.mpr ⟨shapes, consistent, records⟩
  rw [Except.ok.inj (ran.symm.trans again)]
  exact records

theorem agree_of_consistentOn (consistent : m.ConsistentOn (m.operators.take i) shapes)
    (consistent' : m.ConsistentOn (m.operators.take i) shapes') :
    ∀ x ∈ m.ready i, shapes x = shapes' x := by
  obtain ⟨known, records⟩ := NameMap.exists_records (m.ready i) shapes
  have ran := ordered.foldlM_take_eq_ok.mpr ⟨shapes, consistent, records⟩
  exact records.agree (ordered.records_of_foldlM_take ran consistent')

theorem shapes_eq_ok :
    m.shapes = .ok known ↔
      ∃ shapes, m.Consistent shapes ∧ known.Records (m.ready m.operators.length) shapes := by
  have all : (m.operators.take m.operators.length).foldlM inferStep m.declaredShapes = .ok known ↔ _ :=
    ordered.foldlM_take_eq_ok
  rwa [List.take_length] at all

theorem agree_of_consistent (consistent : m.Consistent shapes) (consistent' : m.Consistent shapes') :
    ∀ x ∈ m.ready m.operators.length, shapes x = shapes' x := by
  apply ordered.agree_of_consistentOn
  · rwa [List.take_length]
  · rwa [List.take_length]

/-- Inference stops at the first operator whose rule fails, with what violates it. -/
theorem shapes_eq_error : m.shapes = .error e ↔ ∃ (i : Nat) (op : Operator),
    m.operators[i]? = some op ∧ (∃ shapes, m.ConsistentOn (m.operators.take i) shapes) ∧
      ∀ shapes, m.ConsistentOn (m.operators.take i) shapes →
        (∀ result, ¬ op.operation.Rule (op.inputs.map shapes) result) ∧ op.Violation shapes e := by
  rw [Model.shapes, foldlM_eq_error]
  constructor
  · intro h
    obtain ⟨i, op, known, found, ran, fault⟩ := h
    have built := ordered.built op (List.mem_of_getElem? found)
    have inside := ordered.operands i op found
    obtain ⟨shapes, consistent, -⟩ := ordered.foldlM_take_eq_ok.mp ran
    refine ⟨i, op, found, ⟨shapes, consistent⟩, ?_⟩
    intro other consistentOther
    have records := ordered.records_of_foldlM_take ran consistentOther
    have violation := (Operator.inferStep_eq_error built records inside).mp fault
    exact ⟨fun result => Operator.not_rule_of_violation built violation, violation⟩
  · intro h
    obtain ⟨i, op, found, ⟨shapes, consistent⟩, fails⟩ := h
    have built := ordered.built op (List.mem_of_getElem? found)
    have inside := ordered.operands i op found
    obtain ⟨known, records⟩ := NameMap.exists_records (m.ready i) shapes
    refine ⟨i, op, known, found, ordered.foldlM_take_eq_ok.mpr ⟨shapes, consistent, records⟩, ?_⟩
    exact (Operator.inferStep_eq_error built records inside).mpr (fails shapes consistent).2

end Ordered

namespace SingleAssignment

variable (form : m.SingleAssignment)
include form

/-- Shapes are declared for what is there before the first operator. -/
theorem mem_declaredNames_iff {x : String} :
    x ∈ m.declaredNames ↔ ∃ t ∈ m.tensors.tensors, t.Given ∧ t.name = x := by
  have same : ∀ t ∈ m.tensors.tensors, (∃ shape, t.shape = some shape) ↔ t.Given := by
    intro t mem
    rw [← Option.ne_none_iff_exists', Ne, form.shaped t mem, Tensor.given_iff]
  rw [mem_declaredNames]
  exact exists_congr fun t => and_congr_right fun mem => and_congr_left fun _ => same t mem

theorem mem_ready_iff {i : Nat} {x : String} :
    x ∈ m.ready i ↔ (∃ t ∈ m.tensors.tensors, t.Given ∧ t.name = x) ∨ ∃ j < i, m.Defines j x := by
  rw [ready, List.mem_append, form.mem_declaredNames_iff, mem_flatMap_take]
  rfl

theorem ordered (built : ∀ op ∈ m.operators, op.WellBuilt) : m.Ordered := by
  refine ⟨built, ?_, ?_⟩
  · intro i op found x used
    exact form.mem_ready_iff.mpr (form.available i op found x used)
  · intro i op found x output ready
    have defined : m.Defines i x := ⟨op, found, output⟩
    -- A result is neither there from the start nor the result of an operator before.
    rcases form.mem_ready_iff.mp ready with ⟨t, mem, given, rfl⟩ | ⟨j, before, again⟩
    · exact form.given t mem given i defined
    · obtain ⟨t, mem, kind, rfl⟩ := form.registered i x defined
      have same := (form.produced t mem kind).unique defined again
      omega

/-- In the end the names that are ready are those of all tensors. -/
theorem mem_ready_length_iff {x : String} :
    x ∈ m.ready m.operators.length ↔ x ∈ m.tensors.names := by
  rw [form.mem_ready_iff, Registry.names, List.mem_map]
  constructor
  · intro h
    rcases h with ⟨t, mem, -, named⟩ | ⟨j, -, defined⟩
    · exact ⟨t, mem, named⟩
    · obtain ⟨t, mem, -, named⟩ := form.registered j x defined
      exact ⟨t, mem, named⟩
  · intro h
    obtain ⟨t, mem, named⟩ := h
    cases kind : t.kind with
    | input => exact .inl ⟨t, mem, .inl kind, named⟩
    | initialized => exact .inl ⟨t, mem, .inr kind, named⟩
    | intermediate =>
      obtain ⟨j, ⟨op, found, output⟩, -⟩ := form.produced t mem kind
      exact .inr ⟨j, (List.getElem?_eq_some_iff.mp found).1, op, found, named ▸ output⟩

end SingleAssignment

theorem Compiled.exists_form (h : m.Compiled) :
    m.SingleAssignment ∧ ∀ op ∈ m.operators, op.WellBuilt := by
  obtain ⟨g, options, name, accepted, yields⟩ := h.exists_graph
  refine ⟨yields.singleAssignment accepted, ?_⟩
  intro op mem
  obtain ⟨i, found⟩ := List.mem_iff_getElem?.mp mem
  obtain ⟨node, -, -, -, -, built⟩ := yields.exists_node found
  exact built

/-- Inference on what compiles is sound, complete and unique: it succeeds when some shapes are consistent
with the model, and then holds these for all tensors; no others are. It fails at the first operator whose
rule the shapes known by then violate. -/
theorem Compiled.inference_sound_complete {m : Model} (h : m.Compiled) :
    ((∃ known, m.shapes = .ok known) ↔ ∃ shapes, m.Consistent shapes) ∧
      (∀ known, m.shapes = .ok known →
        (∀ x, x ∈ known.keys ↔ x ∈ m.tensors.names) ∧
          ∃ shapes, m.Consistent shapes ∧
            (∀ x ∈ m.tensors.names, known.get? x = some (shapes x)) ∧
              ∀ other, m.Consistent other → ∀ x ∈ m.tensors.names, other x = shapes x) ∧
      ∀ e, m.shapes = .error e ↔ ∃ (i : Nat) (op : Operator), m.operators[i]? = some op ∧
        (∃ shapes, m.ConsistentOn (m.operators.take i) shapes) ∧
          ∀ shapes, m.ConsistentOn (m.operators.take i) shapes →
            (∀ result, ¬ op.operation.Rule (op.inputs.map shapes) result) ∧ op.Violation shapes e := by
  obtain ⟨form, built⟩ := h.exists_form
  have ordered := form.ordered built
  refine ⟨?_, ?_, fun e => ordered.shapes_eq_error⟩
  · constructor
    · intro h
      obtain ⟨known, inferred⟩ := h
      obtain ⟨shapes, consistent, -⟩ := ordered.shapes_eq_ok.mp inferred
      exact ⟨shapes, consistent⟩
    · intro h
      obtain ⟨shapes, consistent⟩ := h
      obtain ⟨known, records⟩ := NameMap.exists_records (m.ready m.operators.length) shapes
      exact ⟨known, ordered.shapes_eq_ok.mpr ⟨shapes, consistent, records⟩⟩
  · intro known inferred
    obtain ⟨shapes, consistent, records⟩ := ordered.shapes_eq_ok.mp inferred
    refine ⟨fun x => records.mem_keys_iff.trans form.mem_ready_length_iff, shapes, consistent, ?_, ?_⟩
    · intro x mem
      exact records.get?_of_mem (form.mem_ready_length_iff.mpr mem)
    · intro other consistentOther x mem
      exact ordered.agree_of_consistent consistentOther consistent x (form.mem_ready_length_iff.mpr mem)

theorem inference_layer : Graph.layerModel.Compiled ∧
    (∃ shapes, Graph.layerModel.Consistent shapes) ∧
      ∀ shapes, Graph.layerModel.Consistent shapes → shapes "h" = [3, 1] ∧ shapes "y" = [1, 3] := by
  have compiled : Graph.layerModel.Compiled := .graph Graph.compile_layer
  have inferred : Graph.layerModel.shapes = .ok (.ofList [("a", [3, 1]), ("b", [1]), ("h", [3, 1]),
      ("w", [1, 2]), ("x", [3, 2]), ("y", [1, 3])]) := by decide +kernel
  obtain ⟨complete, sound, -⟩ := Compiled.inference_sound_complete compiled
  obtain ⟨-, shapes, -, found, unique⟩ := sound _ inferred
  refine ⟨compiled, complete.mp ⟨_, inferred⟩, ?_⟩
  intro other consistent
  have h := found "h" (by decide)
  have y := found "y" (by decide)
  rw [unique other consistent "h" (by decide), unique other consistent "y" (by decide)]
  exact ⟨(Option.some.inj h).symm, (Option.some.inj y).symm⟩

end Model
end TensorGraph
