import TensorGraph.Proofs.Building
import TensorGraph.Proofs.Magnitudes

/-! The attributes of a Gemm: which of them are accepted, and what they make of the product. Each name
has a language of its own, and beyond those there is only one condition: a flag must be there. -/
namespace TensorGraph

/-- What stands for a scale, and the number it stands for. One is the scale that is not given. -/
inductive IsScale : Option Attribute → Binary32 → Prop
  | absent : IsScale none .one
  | float {x : Binary32} : x.isFinite → IsScale (some (.float x)) x
  | int {i : Int64} : IsScale (some (.int i)) (.ofInt i.toInt)

/-- What may stand where a flag may. -/
inductive IsFlag : Option Attribute → Prop
  | absent : IsFlag none
  | int {i : Int64} : IsFlag (some (.int i))

/-- Which operand is transposed for the attributes of A and B: the flag of B says so itself, that of A by
its opposite. -/
inductive TransposesB : Option Attribute → Option Attribute → Bool → Prop
  | byB {flagA : Option Attribute} {i : Int64} : TransposesB flagA (some (.int i)) (i != 0)
  | byA {i : Int64} : TransposesB (some (.int i)) none (i == 0)

theorem IsScale.isFinite {given : Option Attribute} {x : Binary32} (scale : IsScale given x) :
    x.isFinite = true := by
  cases scale with
  | absent => decide
  | float finite => exact finite
  | int => exact Binary32.isFinite_ofInt _

theorem exists_isScale_iff {given : Option Attribute} : (∃ x, IsScale given x) ↔
    ∀ value, given = some value →
      (∃ i, value = .int i) ∨ ∃ x : Binary32, value = .float x ∧ x.isFinite := by
  constructor
  · rintro ⟨_, scale⟩ value rfl
    cases scale with
    | float finite => exact .inr ⟨_, rfl, finite⟩
    | int => exact .inl ⟨_, rfl⟩
  · intro each
    cases given with
    | none => exact ⟨_, .absent⟩
    | some value =>
      obtain ⟨i, rfl⟩ | ⟨x, rfl, finite⟩ := each value rfl
      · exact ⟨_, .int⟩
      · exact ⟨_, .float finite⟩

theorem isFlag_iff {given : Option Attribute} :
    IsFlag given ↔ ∀ value, given = some value → ∃ i, value = .int i := by
  constructor
  · rintro flag value rfl
    cases flag with
    | int => exact ⟨_, rfl⟩
  · intro each
    cases given with
    | none => exact .absent
    | some value =>
      obtain ⟨i, rfl⟩ := each value rfl
      exact .int

/-- Flags decide about the operands when there is one. -/
theorem exists_transposesB_iff {givenA givenB : Option Attribute} (flagA : IsFlag givenA)
    (flagB : IsFlag givenB) :
    (∃ transB, TransposesB givenA givenB transB) ↔ givenA.isSome ∨ givenB.isSome := by
  cases flagB with
  | int => exact iff_of_true ⟨_, .byB⟩ (.inr rfl)
  | absent =>
    cases flagA with
    | int => exact iff_of_true ⟨_, .byA⟩ (.inl rfl)
    | absent =>
      refine iff_of_false ?_ (by simp)
      rintro ⟨_, ⟨⟩⟩

namespace Attributes

variable {attributes : Attributes} {key : String}

theorem gives_float_iff {x : Binary32} :
    (∃ found, attributes.Gives Attribute.asFloat key found ∧ found.getD .one = x) ↔
      IsScale (attributes.get? key) x := by
  simp only [Gives]
  cases attributes.get? key with
  | none =>
    constructor
    · rintro ⟨_ | _, gives, rfl⟩
      · exact .absent
      · cases gives
    · rintro ⟨⟩
      exact ⟨none, rfl, rfl⟩
  | some value =>
    constructor
    · rintro ⟨_ | found, gives, rfl⟩
      · cases gives
      · rw [Option.map_some, Option.map_some, Option.some.injEq] at gives
        cases value with
        | int => cases gives; exact .int
        | float y =>
          rw [Attribute.asFloat] at gives
          split at gives
          · rename_i finite
            cases gives
            exact .float finite
          · cases gives
        | _ => cases gives
    · intro scale
      refine ⟨some x, ?_, rfl⟩
      cases scale with
      | float finite => rw [Option.map_some, Attribute.asFloat, if_pos finite, Option.map_some]
      | int => rfl

theorem gives_flag_iff {found : Option Bool} : attributes.Gives Attribute.asFlag key found ↔
    IsFlag (attributes.get? key) ∧
      found = (attributes.get? key).bind fun value => value.asFlag.toOption := by
  rw [Gives]
  cases attributes.get? key with
  | none => cases found <;> simp [IsFlag.absent]
  | some value =>
    cases value with
    | int i =>
      have flag : IsFlag (some (.int i)) := .int
      cases found <;> simp [Attribute.asFlag, flag, Except.toOption, eq_comm]
    | _ =>
      refine iff_of_false ?_ ?_
      · cases found <;> simp [Attribute.asFlag]
      · rintro ⟨⟨⟩, -⟩

/-- Both flags together, and what they decide. -/
theorem gives_flags_iff {transB : Bool} :
    (∃ flagA flagB, attributes.Gives Attribute.asFlag "transA" flagA ∧
      attributes.Gives Attribute.asFlag "transB" flagB ∧
        (flagB <|> flagA.map not) = some transB) ↔
      IsFlag (attributes.get? "transA") ∧ IsFlag (attributes.get? "transB") ∧
        TransposesB (attributes.get? "transA") (attributes.get? "transB") transB := by
  simp only [gives_flag_iff]
  constructor
  · rintro ⟨_, _, ⟨isFlagA, rfl⟩, ⟨isFlagB, rfl⟩, decided⟩
    refine ⟨isFlagA, isFlagB, ?_⟩
    generalize attributes.get? "transA" = givenA, attributes.get? "transB" = givenB at *
    cases isFlagB with
    | int => cases decided; exact .byB
    | absent =>
      cases isFlagA with
      | int =>
        cases decided
        rw [bne, Bool.not_not]
        exact .byA
      | absent => cases decided
  · rintro ⟨isFlagA, isFlagB, decided⟩
    refine ⟨_, _, ⟨isFlagA, rfl⟩, ⟨isFlagB, rfl⟩, ?_⟩
    generalize attributes.get? "transA" = givenA, attributes.get? "transB" = givenB at *
    cases decided with
    | byB => rfl
    | @byA i => exact congrArg some (Bool.not_not (i == 0))

/-- The product that attributes stand for: names, scales and flags are looked at apart. -/
theorem denotes_gemm_iff {scaling : Scaling} : attributes.Denotes (.gemm scaling) ↔
    IsScale (attributes.get? "alpha") scaling.alpha ∧ IsScale (attributes.get? "beta") scaling.beta ∧
      (IsFlag (attributes.get? "transA") ∧ IsFlag (attributes.get? "transB") ∧
        TransposesB (attributes.get? "transA") (attributes.get? "transB") scaling.transB) ∧
      scaling.transA = !scaling.transB ∧ attributes.Only ["alpha", "beta", "transA", "transB"] := by
  rw [← gives_float_iff, ← gives_float_iff, ← gives_flags_iff]
  constructor
  · intro denotes
    cases denotes with
    | gemm givesAlpha givesBeta givesA givesB decided only =>
      exact ⟨⟨_, givesAlpha, rfl⟩, ⟨_, givesBeta, rfl⟩, ⟨_, _, givesA, givesB, decided⟩, rfl, only⟩
  · rintro ⟨⟨_, givesAlpha, alpha⟩, ⟨_, givesBeta, beta⟩, ⟨_, _, givesA, givesB, decided⟩, opposite, only⟩
    obtain ⟨_, _, _, _⟩ := scaling
    dsimp only at *
    subst alpha beta opposite
    exact .gemm givesAlpha givesBeta givesA givesB decided only

end Attributes

namespace Draft

variable {d : Draft}

theorem complete_gemm_eq_ok {op : Operator} : d.complete .gemm = .ok op ↔
    (d.inputs.length = 3 ∧ d.outputs.length = 1) ∧ d.elementType = .float32 ∧
      ∃ scaling, d.attributes.Denotes (.gemm scaling) ∧
        op = ⟨d.name, .gemm scaling, d.inputs, d.outputs, .float32⟩ := by
  rw [complete_eq_ok, readOperation_eq_ok]
  refine and_congr_right fun _ => and_congr_right fun _ => ?_
  constructor
  · rintro ⟨⟨kind, denotes⟩, same⟩
    obtain ⟨scaling, gemm⟩ : ∃ scaling, op.operation = .gemm scaling := by
      cases operation : op.operation with
      | gemm scaling => exact ⟨scaling, rfl⟩
      | _ => rw [operation] at kind; cases kind
    rw [gemm] at denotes same
    exact ⟨scaling, denotes, same⟩
  · rintro ⟨scaling, denotes, rfl⟩
    exact ⟨⟨rfl, denotes⟩, rfl⟩

/-- What stands under the four names is looked at by itself, but that there must be a flag. -/
theorem exists_complete_gemm_iff : (∃ op, d.complete .gemm = .ok op) ↔
    (d.inputs.length = 3 ∧ d.outputs.length = 1) ∧ d.elementType = .float32 ∧
      d.attributes.Only ["alpha", "beta", "transA", "transB"] ∧
      ((∃ x, IsScale (d.attributes.get? "alpha") x) ∧ ∃ x, IsScale (d.attributes.get? "beta") x) ∧
      (IsFlag (d.attributes.get? "transA") ∧ IsFlag (d.attributes.get? "transB")) ∧
      ((d.attributes.get? "transA").isSome ∨ (d.attributes.get? "transB").isSome) := by
  simp only [complete_gemm_eq_ok, Attributes.denotes_gemm_iff]
  constructor
  · rintro ⟨op, arity, type, scaling, ⟨alpha, beta, ⟨flagA, flagB, decided⟩, -, only⟩, -⟩
    exact ⟨arity, type, only, ⟨⟨_, alpha⟩, _, beta⟩, ⟨flagA, flagB⟩,
      (exists_transposesB_iff flagA flagB).mp ⟨_, decided⟩⟩
  · rintro ⟨arity, type, only, ⟨⟨alpha, isAlpha⟩, beta, isBeta⟩, ⟨flagA, flagB⟩, given⟩
    obtain ⟨transB, decided⟩ := (exists_transposesB_iff flagA flagB).mpr given
    exact ⟨_, arity, type, ⟨alpha, beta, !transB, transB⟩,
      ⟨isAlpha, isBeta, ⟨flagA, flagB, decided⟩, rfl, only⟩, rfl⟩

/-- A Gemm is built of three inputs, one output and 32-bit floats exactly when no attribute has another
name than its four, the scales that are given are integers or finite numbers, the flags that are given are
integers, and one of them is given. Its scales are then finite and those that are given, and one of its
operands is transposed: as the flag of B says, or against that of A where B has none. -/
theorem product_accepts_exactly (d : Draft) :
    ((∃ op, d.complete .gemm = .ok op) ↔
      (d.inputs.length = 3 ∧ d.outputs.length = 1) ∧ d.elementType = .float32 ∧
      (∀ key ∈ d.attributes.keys, key ∈ ["alpha", "beta", "transA", "transB"]) ∧
      (∀ key ∈ ["alpha", "beta"], ∀ value, d.attributes.get? key = some value →
        (∃ i, value = .int i) ∨ ∃ x : Binary32, value = .float x ∧ x.isFinite) ∧
      (∀ key ∈ ["transA", "transB"], ∀ value, d.attributes.get? key = some value →
        ∃ i, value = .int i) ∧
      ∃ key ∈ ["transA", "transB"], (d.attributes.get? key).isSome) ∧
    ∀ op, d.complete .gemm = .ok op → ∃ scaling : Scaling,
      op = ⟨d.name, .gemm scaling, d.inputs, d.outputs, .float32⟩ ∧
      (scaling.alpha.isFinite ∧ scaling.beta.isFinite) ∧
      IsScale (d.attributes.get? "alpha") scaling.alpha ∧
      IsScale (d.attributes.get? "beta") scaling.beta ∧
      TransposesB (d.attributes.get? "transA") (d.attributes.get? "transB") scaling.transB ∧
      scaling.transA = !scaling.transB := by
  constructor
  · simp only [exists_complete_gemm_iff, Attributes.Only, exists_isScale_iff, isFlag_iff,
      List.forall_mem_cons, List.exists_mem_cons_iff, List.not_mem_nil, false_implies, implies_true,
      and_true, false_and, exists_false, or_false]
  · simp only [complete_gemm_eq_ok, Attributes.denotes_gemm_iff]
    rintro op ⟨-, -, scaling, ⟨alpha, beta, ⟨-, -, decided⟩, opposite, -⟩, same⟩
    exact ⟨scaling, same, ⟨alpha.isFinite, beta.isFinite⟩, alpha, beta, decided, opposite⟩

/-- A product with an integer for a scale and the flag of A alone. -/
def againstA : Draft where
  name := "g"
  attributes := .ofList [("alpha", .int 2), ("transA", .int 0)]
  inputs := ["a", "b", "c"]
  outputs := ["y"]
  elementType := .float32

theorem product_accepts_againstA :
    (∃ op, againstA.complete .gemm = .ok op) ∧
      ∀ op, againstA.complete .gemm = .ok op → ∃ scaling : Scaling,
        op = ⟨"g", .gemm scaling, ["a", "b", "c"], ["y"], .float32⟩ ∧
          scaling.alpha = .ofInt 2 ∧ scaling.beta = .one ∧ scaling.transB = true := by
  have givenAlpha : againstA.attributes.get? "alpha" = some (.int 2) := by decide +kernel
  have givenBeta : againstA.attributes.get? "beta" = none := by decide +kernel
  have givenA : againstA.attributes.get? "transA" = some (.int 0) := by decide +kernel
  have givenB : againstA.attributes.get? "transB" = none := by decide +kernel
  obtain ⟨accepts, builds⟩ := product_accepts_exactly againstA
  simp only [givenAlpha, givenBeta, givenA, givenB] at builds
  constructor
  · refine accepts.mpr ⟨by decide, rfl, by decide +kernel, ?_, ?_, ?_⟩
    · simp [givenAlpha, givenBeta]
    · simp [givenA, givenB]
    · simp [givenA]
  · intro op built
    obtain ⟨⟨_, _, _, _⟩, same, -, alpha, beta, decided, -⟩ := builds op built
    dsimp only at alpha beta decided
    cases alpha
    cases beta
    cases decided
    exact ⟨_, same, rfl, rfl, rfl⟩

end Draft
end TensorGraph
