import Mathlib.Data.List.TakeWhile
import TensorGraph.Text.Blank

/-! Texts that have no white space, or none of some other class of characters, at their ends. Trimming
finds them among such characters. -/
namespace TensorGraph.Text

variable {drop : Char → Bool} {front middle back text : List Char}

/-- No character of a class stands at either end of a text. -/
structure Trimmed (drop : Char → Bool) (text : List Char) : Prop where
  first : ∀ c ∈ text.head?, drop c = false
  last : ∀ c ∈ text.getLast?, drop c = false

namespace Trimmed

theorem of_forall (clear : ∀ c ∈ text, drop c = false) : Trimmed drop text where
  first c mem := clear c (List.mem_of_mem_head? mem)
  last c mem := clear c (List.mem_of_mem_getLast? mem)

theorem append {text' : List Char} (trimmed : Trimmed drop text) (trimmed' : Trimmed drop text') :
    Trimmed drop (text ++ text') where
  first c mem := by
    rw [List.head?_append] at mem
    cases front : text.head? with
    | none =>
      rw [front] at mem
      exact trimmed'.first c mem
    | some d =>
      rw [front] at mem
      exact trimmed.first c (front ▸ mem)
  last c mem := by
    rw [List.getLast?_append] at mem
    cases back : text'.getLast? with
    | none =>
      rw [back] at mem
      exact trimmed.last c mem
    | some d =>
      rw [back] at mem
      exact trimmed'.last c (back ▸ mem)

end Trimmed

theorem dropWhile_of_first (clear : ∀ c ∈ text.head?, drop c = false) : text.dropWhile drop = text := by
  cases text with
  | nil => rfl
  | cons c rest => simp [clear c rfl]

/-- What is trimmed is what is left of a text, when only characters of the class stand around it. -/
theorem trimWhere_append (before : ∀ c ∈ front, drop c = true) (trimmed : Trimmed drop middle)
    (behind : ∀ c ∈ back, drop c = true) : trimWhere drop (front ++ middle ++ back) = middle := by
  have behind' : ∀ c ∈ back.reverse, drop c = true := fun c mem => behind c (List.mem_reverse.mp mem)
  have last : ∀ c ∈ middle.reverse.head?, drop c = false := by
    rw [List.head?_reverse]
    exact trimmed.last
  rw [trimWhere, List.append_assoc, List.dropWhile_append_of_pos before]
  cases middle with
  | nil => simp [List.dropWhile_eq_nil_iff.mpr behind]
  | cons c rest =>
    have first : (c :: rest ++ back).dropWhile drop = c :: rest ++ back :=
      dropWhile_of_first trimmed.first
    rw [first, List.reverse_append, List.dropWhile_append_of_pos behind', dropWhile_of_first last,
      List.reverse_reverse]

theorem isBlank_quote {c : Char} (quote : c = '\x27') : isBlank c = false := by
  rw [quote]
  decide

theorem code_of_isAlphanum {c : Char} (h : c.isAlphanum = true) :
    (0x30 ≤ c.toNat ∧ c.toNat ≤ 0x39) ∨ (0x41 ≤ c.toNat ∧ c.toNat ≤ 0x5a) ∨
      (0x61 ≤ c.toNat ∧ c.toNat ≤ 0x7a) := by
  delta Char.isAlphanum Char.isAlpha Char.isUpper Char.isLower Char.isDigit at h
  simp only [Bool.or_eq_true, Bool.and_eq_true, decide_eq_true_eq, ge_iff_le, UInt32.le_iff_toNat_le,
    Char.toNat_val] at h
  change ((0x41 ≤ c.toNat ∧ c.toNat ≤ 0x5a) ∨ (0x61 ≤ c.toNat ∧ c.toNat ≤ 0x7a)) ∨
    (0x30 ≤ c.toNat ∧ c.toNat ≤ 0x39) at h
  omega

/-- No white space is an ASCII letter or digit. -/
theorem isBlank_of_isAlphanum {c : Char} (h : c.isAlphanum = true) : isBlank c = false := by
  have range := code_of_isAlphanum h
  rw [isBlank, List.any_eq_false]
  simp only [blankRanges, List.forall_mem_cons, Bool.and_eq_true, decide_eq_true_eq, List.not_mem_nil,
    false_imp_iff, implies_true, and_true]
  omega

/-- White space has no case. -/
theorem toLower_of_isBlank {c : Char} (blank : isBlank c = true) : c.toLower = c := by
  have notUpper : ¬ (c.val ≥ 'A'.val ∧ c.val ≤ 'Z'.val) := by
    intro upper
    have letter : c.isAlphanum = true := by
      delta Char.isAlphanum Char.isAlpha Char.isUpper
      rw [decide_eq_true upper, Bool.true_or, Bool.true_or]
    rw [isBlank_of_isAlphanum letter] at blank
    cases blank
  exact dif_neg notUpper

end TensorGraph.Text
