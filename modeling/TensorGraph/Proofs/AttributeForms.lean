import Mathlib.Data.List.Forall2
import TensorGraph.Attribute.Format
import TensorGraph.Proofs.Literals
import TensorGraph.Proofs.Outcome

/-! The form that a value is given when it is read as an attribute. The forms are tried one behind the
other, but what comes out is said by the value alone: integers of 64 bits and lists of nothing else are
integers, other numbers and lists with such a number in them are floats. -/
namespace TensorGraph
open Json

section Lists

variable {α β : Type} {f : α → Option β} {xs : List α}

theorem mapM_eq_some {ys : List β} :
    xs.mapM f = some ys ↔ List.Forall₂ (fun x y => f x = some y) xs ys := by
  induction xs generalizing ys with
  | nil => simp [eq_comm]
  | cons x xs ih =>
    simp only [List.mapM_cons, Option.bind_eq_bind, Option.bind_eq_some_iff, Option.pure_def,
      Option.some.injEq, List.forall₂_cons_left_iff, ih]
    constructor
    · rintro ⟨y, first, rest, later, rfl⟩
      exact ⟨y, rest, first, later, rfl⟩
    · rintro ⟨y, rest, first, later, rfl⟩
      exact ⟨y, first, rest, later, rfl⟩

theorem mapM_eq_none : xs.mapM f = none ↔ ∃ x ∈ xs, f x = none := by
  induction xs with
  | nil => simp
  | cons x xs ih =>
    rw [List.mapM_cons, List.exists_mem_cons_iff, ← ih]
    cases f x <;> cases xs.mapM f <;> simp

theorem exists_of_mem_forall₂ {R : α → β → Prop} {ys : List β} (each : List.Forall₂ R xs ys) {x : α}
    (mem : x ∈ xs) : ∃ y ∈ ys, R x y := by
  induction each with
  | nil => cases mem
  | cons first _ ih =>
    rcases List.mem_cons.mp mem with rfl | later
    · exact ⟨_, List.mem_cons_self, first⟩
    · obtain ⟨y, there, related⟩ := ih later
      exact ⟨y, List.mem_cons_of_mem _ there, related⟩

theorem exists_forall₂_of_mem {R : α → β → Prop}
    (each : ∀ x ∈ xs, ∃ y, R x y) : ∃ ys, List.Forall₂ R xs ys := by
  induction xs with
  | nil => exact ⟨[], .nil⟩
  | cons x xs ih =>
    rw [List.forall_mem_cons] at each
    obtain ⟨y, first⟩ := each.1
    obtain ⟨ys, rest⟩ := ih each.2
    exact ⟨y :: ys, .cons first rest⟩

end Lists

namespace Json

/-- The tree of a number that is within range. -/
inductive Tree.IsNumber : Tree → Number → Prop
  | number {literal : Literal} {n : Number} : literal.number? = some n → IsNumber (.number literal) n

theorem Tree.value?_eq_number {room : ℕ} {tree : Tree} {n : Number} :
    tree.value? room = some (.number n) ↔ tree.IsNumber n := by
  constructor
  · intro read
    cases tree with
    | number literal =>
      rw [Tree.value?] at read
      obtain ⟨n', found, same⟩ := Option.map_eq_some_iff.mp read
      cases same
      exact .number found
    | array items | object members =>
      rw [Tree.value?] at read
      split at read
      · cases read
      · obtain ⟨_, -, same⟩ := Option.map_eq_some_iff.mp read
        cases same
    | string text =>
      rw [Tree.value?] at read
      obtain ⟨_, -, same⟩ := Option.map_eq_some_iff.mp read
      cases same
    | null | boolean | broken =>
      rw [Tree.value?] at read
      cases read
  · rintro ⟨found⟩
    rw [Tree.value?, found]
    rfl

/-- Numbers are read in one way. -/
theorem Tree.IsNumber.unique {tree : Tree} {n n' : Number} (isNumber : tree.IsNumber n)
    (isNumber' : tree.IsNumber n') : n = n' := by
  cases isNumber with
  | number found =>
    cases isNumber' with
    | number found' => exact Option.some.inj (found.symm.trans found')

/-- The tree of an integer of 64 bits. -/
def Tree.IsInt (tree : Tree) (i : Int64) : Prop :=
  ∃ literal, tree = .number literal ∧ literal.WritesInteger i.toInt

theorem Tree.isInt_iff {tree : Tree} {i : Int64} : tree.IsInt i ↔ tree.IsNumber (.integer i.toInt) := by
  simp only [IsInt, ← Literal.int64?_number?_eq_some, Option.bind_eq_some_iff, Literal.int64?_eq_some]
  constructor
  · rintro ⟨literal, rfl, n, found, rfl⟩
    exact .number found
  · rintro ⟨found⟩
    exact ⟨_, rfl, _, found, rfl⟩

theorem itemValues?_eq_some {room : ℕ} {items : List Tree} {values : List Value} :
    itemValues? room items = some values ↔
      List.Forall₂ (fun item value => item.value? room = some value) items values := by
  induction items generalizing values with
  | nil => simp [itemValues?, eq_comm]
  | cons item items ih =>
    simp only [itemValues?, Option.bind_eq_bind, Option.bind_eq_some_iff, Option.pure_def,
      Option.some.injEq, List.forall₂_cons_left_iff, ih]
    constructor
    · rintro ⟨y, first, rest, later, rfl⟩
      exact ⟨y, rest, first, later, rfl⟩
    · rintro ⟨y, rest, first, later, rfl⟩
      exact ⟨y, first, rest, later, rfl⟩

end Json

namespace Attribute

/-- The form of a number: an integer of 64 bits, or else a float. -/
def ofNumber (n : Number) : Attribute := (int64? n).elim (.float n.toBinary32) .int

/-- The form of a list of numbers: integers when all of them are, or else floats. -/
def ofNumbers (numbers : List Number) : Attribute :=
  (numbers.mapM int64?).elim (.floats (numbers.map Number.toBinary32)) .ints

theorem ofNumber_eq_int {n : Number} {i : Int64} : ofNumber n = .int i ↔ n = .integer i.toInt := by
  rw [← Literal.int64?_eq_some, ofNumber]
  cases int64? n <;> simp

theorem ofNumbers_eq_ints {numbers : List Number} {values : List Int64} :
    ofNumbers numbers = .ints values ↔ numbers = values.map fun i => .integer i.toInt := by
  have each : numbers.mapM int64? = some values ↔ ofNumbers numbers = .ints values := by
    rw [ofNumbers]
    cases numbers.mapM int64? <;> simp
  rw [← each, mapM_eq_some, ← List.forall₂_eq_eq_eq, List.forall₂_map_right_iff]
  simp only [Literal.int64?_eq_some]

/-- A number that is no integer of 64 bits makes floats of all numbers beside it. -/
theorem ofNumbers_of_mem {numbers : List Number} {n : Number} (mem : n ∈ numbers)
    (other : int64? n = none) : ofNumbers numbers = .floats (numbers.map Number.toBinary32) := by
  rw [ofNumbers, mapM_eq_none.mpr ⟨n, mem, other⟩]
  rfl

theorem ofValue?_eq_some {value : Value} {a : Attribute} : ofValue? value = some a ↔
    (∃ n, value = .number n ∧ a = ofNumber n) ∨ (∃ text, value = .string text ∧ a = .string text) ∨
      ∃ numbers : List Number, value = .array (numbers.map .number) ∧ a = ofNumbers numbers := by
  cases value with
  | number n =>
    have form : ofValue? (.number n) = some (ofNumber n) := by
      rw [ofNumber]
      cases integer : int64? n <;> simp [ofValue?, integer]
    simp [form, eq_comm]
  | string text => simp [ofValue?, eq_comm]
  | array items =>
    have numbers (found : List Number) :
        items.mapM number? = some found ↔ items = found.map .number := by
      have each (item : Value) (n : Number) : number? item = some n ↔ item = .number n := by
        cases item <;> simp [number?]
      rw [mapM_eq_some, ← List.forall₂_eq_eq_eq, List.forall₂_map_right_iff]
      simp only [each]
    have form (found : List Number) (same : items = found.map .number) :
        ofValue? (.array items) = some (ofNumbers found) := by
      rw [ofNumbers]
      cases integers : found.mapM int64? <;> simp [ofValue?, (numbers found).mpr same, integers]
    constructor
    · intro read
      obtain ⟨found, same, -⟩ := Option.bind_eq_some_iff.mp read
      rw [form found ((numbers found).mp same), Option.some.injEq] at read
      exact .inr (.inr ⟨found, congrArg _ ((numbers found).mp same), read.symm⟩)
    · rintro (⟨_, ⟨⟩, _⟩ | ⟨_, ⟨⟩, _⟩ | ⟨found, same, rfl⟩)
      exact form found (Value.array.inj same)
  | _ => simp [ofValue?]

/-- What a tree is read as, if it is read as an attribute. -/
inductive ReadFrom : Tree → Attribute → Prop
  | number {tree : Tree} {n : Number} : tree.IsNumber n → ReadFrom tree (ofNumber n)
  | string {text : String} : ReadFrom (.string (some text)) (.string text)
  | array {items : List Tree} {numbers : List Number} :
    List.Forall₂ Tree.IsNumber items numbers → ReadFrom (.array items) (ofNumbers numbers)

theorem value?_eq_array {room : ℕ} (some_room : 0 < room) {tree : Tree} {numbers : List Number} :
    tree.value? room = some (.array (numbers.map .number)) ↔
      ∃ items, tree = .array items ∧ List.Forall₂ Tree.IsNumber items numbers := by
  cases tree with
  | array items =>
    simp only [Tree.value?, if_neg some_room.ne', Option.map_eq_some_iff, itemValues?_eq_some,
      Value.array.injEq, exists_eq_right, List.forall₂_map_right_iff, Tree.value?_eq_number]
    simp
  | object members =>
    rw [Tree.value?]
    split <;> simp
  | _ => simp [Tree.value?]

theorem value?_eq_string {room : ℕ} {tree : Tree} {text : String} :
    tree.value? room = some (.string text) ↔ tree = .string (some text) := by
  cases tree with
  | array items | object members =>
    rw [Tree.value?]
    split <;> simp
  | _ => simp [Tree.value?]

/-- An attribute is read from exactly the trees of its form, wherever one more container fits. -/
theorem decoder_eq_ok {depth : ℕ} (room : depth < nestingLimit) {tree : Tree} {a : Attribute} :
    decoder depth tree = .ok a ↔ ReadFrom tree a := by
  have steps : decoder depth tree = .ok a ↔
      ∃ value, tree.value? (nestingLimit - depth) = some value ∧ ofValue? value = some a := by
    rw [decoder]
    cases tree.value? (nestingLimit - depth) with
    | none => simp
    | some value => cases form : ofValue? value <;> simp [form]
  rw [steps]
  simp only [ofValue?_eq_some]
  constructor
  · rintro ⟨value, read, ⟨n, rfl, rfl⟩ | ⟨text, rfl, rfl⟩ | ⟨numbers, rfl, rfl⟩⟩
    · exact .number (Tree.value?_eq_number.mp read)
    · rw [value?_eq_string.mp read]
      exact .string
    · obtain ⟨items, rfl, each⟩ := (value?_eq_array (by omega)).mp read
      exact .array each
  · intro read
    cases read with
    | number isNumber => exact ⟨_, Tree.value?_eq_number.mpr isNumber, .inl ⟨_, rfl, rfl⟩⟩
    | string => exact ⟨_, value?_eq_string.mpr rfl, .inr (.inl ⟨_, rfl, rfl⟩)⟩
    | array each =>
      exact ⟨_, (value?_eq_array (by omega)).mpr ⟨_, rfl, each⟩, .inr (.inr ⟨_, rfl, rfl⟩)⟩

variable {tree : Tree} {a b : Attribute}

/-- A tree is read in one way. -/
theorem ReadFrom.eq_iff (read : ReadFrom tree a) : a = b ↔ ReadFrom tree b := by
  have room : 0 < nestingLimit := by decide
  rw [← decoder_eq_ok room, (decoder_eq_ok room).mpr read, Except.ok.injEq]

theorem readFrom_int_iff {i : Int64} : ReadFrom tree (.int i) ↔ tree.IsInt i := by
  rw [Tree.isInt_iff]
  constructor
  · intro read
    generalize form : Attribute.int i = a at read
    cases read with
    | number isNumber =>
      rw [ofNumber_eq_int.mp form.symm] at isNumber
      exact isNumber
    | string => cases form
    | @array items numbers each =>
      rw [ofNumbers] at form
      cases integers : numbers.mapM int64? <;> simp [integers] at form
  · intro isNumber
    rw [← ofNumber_eq_int.mpr rfl]
    exact .number isNumber

/-- A float is read from a number that is no integer of 64 bits. -/
theorem readFrom_float_iff {x : Binary32} : ReadFrom tree (.float x) ↔
    ∃ n, tree.IsNumber n ∧ x = n.toBinary32 ∧ ∀ i, ¬ tree.IsInt i := by
  simp only [Tree.isInt_iff]
  constructor
  · intro read
    generalize form : Attribute.float x = a at read
    cases read with
    | @number _ n isNumber =>
      rw [ofNumber] at form
      cases integer : int64? n with
      | some i => simp [integer] at form
      | none =>
        rw [integer, Option.elim_none, Attribute.float.injEq] at form
        refine ⟨n, isNumber, form, fun i isInteger => ?_⟩
        rw [isNumber.unique isInteger, Literal.int64?_eq_some.mpr rfl] at integer
        cases integer
    | string => cases form
    | @array items numbers each =>
      rw [ofNumbers] at form
      cases integers : numbers.mapM int64? <;> simp [integers] at form
  · rintro ⟨n, isNumber, rfl, other⟩
    have form : ofNumber n = .float n.toBinary32 := by
      rw [ofNumber]
      cases integer : int64? n with
      | some i => exact absurd (Literal.int64?_eq_some.mp integer ▸ isNumber) (other i)
      | none => rfl
    exact form ▸ .number isNumber

/-- A list of integers is read from a list of nothing else. -/
theorem readFrom_ints_iff {values : List Int64} : ReadFrom tree (.ints values) ↔
    ∃ items, tree = .array items ∧ List.Forall₂ Tree.IsInt items values := by
  constructor
  · intro read
    generalize form : Attribute.ints values = a at read
    cases read with
    | @number _ n isNumber =>
      rw [ofNumber] at form
      cases integer : int64? n <;> simp [integer] at form
    | string => cases form
    | array each =>
      rw [ofNumbers_eq_ints.mp form.symm, List.forall₂_map_right_iff] at each
      simp only [← Tree.isInt_iff] at each
      exact ⟨_, rfl, each⟩
  · rintro ⟨items, rfl, each⟩
    rw [← ofNumbers_eq_ints.mpr rfl]
    refine .array ?_
    rw [List.forall₂_map_right_iff]
    simpa only [← Tree.isInt_iff] using each

end Attribute
end TensorGraph
