/-! White space as Unicode's property White_Space has it, and text without the white space at its
ends. The characters are kept as ranges of code points. -/
namespace TensorGraph.Text

/-- First and last code point of every run of white space. -/
def blankRanges : List (Nat × Nat) :=
  [(0x09, 0x0d), (0x20, 0x20), (0x85, 0x85), (0xa0, 0xa0), (0x1680, 0x1680), (0x2000, 0x200a),
   (0x2028, 0x2029), (0x202f, 0x202f), (0x205f, 0x205f), (0x3000, 0x3000)]

def isBlank (c : Char) : Bool :=
  blankRanges.any fun range => range.1 ≤ c.toNat && c.toNat ≤ range.2

/-- Drops the characters of a class from both ends. -/
def trimWhere (drop : Char → Bool) (text : List Char) : List Char :=
  ((text.dropWhile drop).reverse.dropWhile drop).reverse

def trim (text : List Char) : List Char := trimWhere isBlank text

/-- Only characters of the class are dropped, and only at the ends. -/
theorem exists_append_trimWhere (drop : Char → Bool) (text : List Char) :
    ∃ front back, text = front ++ trimWhere drop text ++ back ∧
      (∀ c ∈ front, drop c = true) ∧ ∀ c ∈ back, drop c = true := by
  refine ⟨text.takeWhile drop, ((text.dropWhile drop).reverse.takeWhile drop).reverse, ?_, ?_, ?_⟩
  · have inner := List.takeWhile_append_dropWhile (p := drop) (l := (text.dropWhile drop).reverse)
    have outer := List.takeWhile_append_dropWhile (p := drop) (l := text)
    rw [trimWhere, List.append_assoc, ← List.reverse_append, inner, List.reverse_reverse, outer]
  · exact fun c mem => List.all_eq_true.mp List.all_takeWhile c mem
  · exact fun c mem => List.all_eq_true.mp List.all_takeWhile c (List.mem_reverse.mp mem)

example : trim [' ', '\u3000', 'a', ' ', 'b', '\u0085', '\n'] = ['a', ' ', 'b'] := by decide

/-- The zero-width space is no white space. -/
example : isBlank '\u200b' = false := by decide

end TensorGraph.Text
