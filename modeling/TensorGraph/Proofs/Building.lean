import Mathlib.Data.List.Nodup
import Mathlib.Data.List.Perm.Subperm
import TensorGraph.Proofs.Readings
import TensorGraph.Proofs.Registration

/-! Drafts that complete to operators. What comes out has the operands of its draft in the number that
its kind asks for, and the axes of a Transpose are a permutation. -/
namespace TensorGraph

theorem axisFault?_eq_none {rank : Nat} {before : List Int64} {axis : Int64} :
    axisFault? rank before axis = none ↔
      (0 ≤ axis.toInt ∧ axis.toInt < rank) ∧ axis ∉ before := by
  rw [axisFault?]
  split
  · simp only [reduceCtorEq, false_iff]
    omega
  · split <;> simp_all

/-- Axes are in order when all lie in the range and none comes twice. -/
theorem firstFault?_eq_none {rank : Nat} {before axes : List Int64} :
    firstFault? rank before axes = none ↔
      (∀ axis ∈ axes, 0 ≤ axis.toInt ∧ axis.toInt < rank) ∧ axes.Nodup ∧
        ∀ axis ∈ axes, axis ∉ before := by
  induction axes generalizing before with
  | nil => simp [firstFault?]
  | cons axis rest ih =>
    have alternative : firstFault? rank before (axis :: rest) = none ↔
        axisFault? rank before axis = none ∧ firstFault? rank (axis :: before) rest = none := by
      rw [firstFault?]
      cases axisFault? rank before axis <;> simp
    rw [alternative, axisFault?_eq_none, ih, List.nodup_cons]
    simp only [List.mem_cons, not_or, forall_eq_or_imp]
    constructor
    · intro h
      obtain ⟨⟨range, new⟩, ranges, distinct, news⟩ := h
      exact ⟨⟨range, ranges⟩, ⟨fun mem => (news _ mem).1 rfl, distinct⟩, new,
        fun a mem => (news a mem).2⟩
    · intro h
      obtain ⟨⟨range, ranges⟩, ⟨other, distinct⟩, new, news⟩ := h
      exact ⟨⟨range, new⟩, ranges, distinct,
        fun a mem => ⟨fun same => other (same ▸ mem), news a mem⟩⟩

/-- Distinct numbers below their count are all the numbers below it. -/
theorem perm_range_of_nodup {numbers : List Nat} (distinct : numbers.Nodup)
    (below : ∀ n ∈ numbers, n < numbers.length) : numbers.Perm (List.range numbers.length) :=
  (List.subperm_of_subset distinct fun n mem => List.mem_range.mpr (below n mem)).perm_of_length_le
    (by simp)

theorem lt_of_perm_range {numbers : List Nat} {count : Nat} (perm : numbers.Perm (List.range count)) :
    ∀ n ∈ numbers, n < count :=
  fun _ mem => List.mem_range.mp (perm.mem_iff.mp mem)

/-- Axes that are accepted are rearranged from zero on. -/
theorem perm_range_of_permutationOf {axes : List Int64} {permutation : List Nat}
    (h : permutationOf axes = .ok permutation) :
    permutation.Perm (List.range permutation.length) := by
  rw [permutationOf] at h
  split at h
  · cases h
  · rename_i faultless
    cases h
    obtain ⟨ranges, distinct, -⟩ := firstFault?_eq_none.mp faultless
    apply perm_range_of_nodup
    · refine List.Nodup.map_on (fun a memA b memB same => ?_) distinct
      have lowA := (ranges a memA).1
      have lowB := (ranges b memB).1
      exact Int64.toInt_inj.mp (by omega)
    · intro n mem
      obtain ⟨axis, memAxis, rfl⟩ := List.mem_map.mp mem
      have := ranges axis memAxis
      rw [List.length_map]
      omega

/-- An operator with as many operands as its kind asks for, whose axes, if it has any, are a
permutation. -/
structure Operator.WellBuilt (op : Operator) : Prop where
  inputs : op.inputs.length = Draft.inputCount op.kind
  outputs : op.outputs.length = 1
  permutation : ∀ permutation, op.operation = .transpose permutation →
    permutation.Perm (List.range permutation.length)

namespace Draft

/-- What is read for a kind is an operation of this kind. -/
theorem kind_of_readOperation {d : Draft} {kind : Kind} {operation : Operation}
    (h : d.read (d.readOperation kind) = .ok operation) : operation.kind = kind :=
  (readOperation_eq_ok.mp h).1

theorem perm_range_of_readOperation {d : Draft} {kind : Kind} {permutation : List Nat}
    (h : d.read (d.readOperation kind) = .ok (.transpose permutation)) :
    permutation.Perm (List.range permutation.length) := by
  cases (readOperation_eq_ok.mp h).2 with
  | transpose _ _ accepted => exact perm_range_of_permutationOf accepted

theorem expectArity_eq_ok {d : Draft} {inputs outputs : Nat} {u : Unit} :
    d.expectArity inputs outputs = .ok u ↔
      d.inputs.length = inputs ∧ d.outputs.length = outputs := by
  rw [expectArity]
  split <;> simp_all

/-- A draft completes when the numbers of its operands, its type and its attributes are those of the
kind; the operator keeps all of the draft but the attributes. -/
theorem complete_eq_ok {d : Draft} {kind : Kind} {op : Operator} :
    d.complete kind = .ok op ↔
      (d.inputs.length = inputCount kind ∧ d.outputs.length = 1) ∧ d.elementType = .float32 ∧
        d.read (d.readOperation kind) = .ok op.operation ∧
          op = ⟨d.name, op.operation, d.inputs, d.outputs, .float32⟩ := by
  simp only [complete, bind_eq_ok, expectArity_eq_ok, ElementType.ensureSupported_eq_ok, pure_eq_ok]
  constructor
  · rintro ⟨_, arity, _, type, operation, asked, rfl⟩
    exact ⟨arity, type, asked, by rw [type]⟩
  · intro h
    obtain ⟨arity, type, asked, same⟩ := h
    exact ⟨(), arity, (), type, op.operation, asked, by rw [same, type]⟩

/-- Completion only ever gives operators that are well built. -/
theorem wellBuilt_of_complete {d : Draft} {kind : Kind} {op : Operator}
    (h : d.complete kind = .ok op) : op.WellBuilt := by
  obtain ⟨arity, -, asked, same⟩ := complete_eq_ok.mp h
  have ofKind : op.kind = kind := kind_of_readOperation asked
  constructor
  · rw [ofKind, same]
    exact arity.1
  · rw [same]
    exact arity.2
  · intro permutation isTranspose
    rw [isTranspose] at asked
    exact perm_range_of_readOperation asked

end Draft
end TensorGraph
