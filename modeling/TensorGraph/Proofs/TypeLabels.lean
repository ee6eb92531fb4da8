import TensorGraph.ElementType
import TensorGraph.Proofs.Trimming

/-! Which labels name an element type. What stands around a word is taken off from the outside in, each
part once: no part that is taken off brings to light, or takes with it, what the next one looks for. -/
namespace TensorGraph

namespace ElementType
open Text

/-- Equal but for the case of ASCII letters. -/
def SameLetters (text text' : List Char) : Prop := text.map Char.toLower = text'.map Char.toLower

/-- The words of element types. -/
inductive Word : ElementType → String → Prop
  | float : Word float32 "float"
  | float32 : Word float32 "float32"
  | double : Word float64 "double"
  | float64 : Word float64 "float64"
  | half : Word float16 "half"
  | float16 : Word float16 "float16"
  | int : Word int32 "int"
  | int32 : Word int32 "int32"
  | long : Word int64 "long"
  | int64 : Word int64 "int64"
  | byte : Word uint8 "byte"
  | uint8 : Word uint8 "uint8"

variable {t t' : ElementType} {text : List Char}

theorem mem_words_iff {word : String} : word.toList ∈ t.words ↔ Word t word := by
  constructor
  · intro mem
    cases t
    all_goals
      simp only [words, List.mem_cons, List.not_mem_nil, or_false, String.toList_inj] at mem
      rcases mem with rfl | rfl
      all_goals constructor
  · rintro ⟨⟩
    all_goals simp [words]

/-- Words are in lower case. -/
theorem map_toLower_of_mem_words (mem : text ∈ t.words) : text.map Char.toLower = text := by
  revert text
  cases t <;> decide

theorem map_toLower_mem_words_iff :
    text.map Char.toLower ∈ t.words ↔ ∃ word, Word t word ∧ SameLetters text word.toList := by
  constructor
  · intro mem
    refine ⟨.ofList (text.map Char.toLower), mem_words_iff.mp (by rwa [String.toList_ofList]), ?_⟩
    rw [SameLetters, String.toList_ofList, map_toLower_of_mem_words mem]
  · rintro ⟨word, isWord, same⟩
    have mem := mem_words_iff.mpr isWord
    rwa [same, map_toLower_of_mem_words mem]

/-- No word is one of two types. -/
theorem eq_of_mem_words (mem : text ∈ t.words) (mem' : text ∈ t'.words) : t = t' := by
  revert text
  cases t <;> cases t' <;> decide

theorem find?_words_eq_some_iff : (all.find? fun t => text ∈ t.words) = some t ↔ text ∈ t.words := by
  constructor
  · intro found
    simpa using List.find?_some found
  · intro mem
    cases found : all.find? fun t => text ∈ t.words with
    | none => exact absurd (List.find?_eq_none.mp found t t.mem_all) (by simpa using mem)
    | some t' =>
      have mem' : text ∈ t'.words := by simpa using List.find?_some found
      rw [eq_of_mem_words mem' mem]

/-- A word is of ASCII letters and digits, and by its first and last letter it is neither the front nor
the end of what may stand around it. -/
theorem shape_of_mem_words (mem : text ∈ t.words) : text ≠ [] ∧ (∀ c ∈ text, c.isAlphanum = true) ∧
    text.head? ≠ some 't' ∧ text.getLast? ≠ some 'r' := by
  have each : ∀ text ∈ t.words, text ≠ [] ∧ text.all Char.isAlphanum = true ∧
      text.head? ≠ some 't' ∧ text.getLast? ≠ some 'r' := by
    cases t <;> decide
  simpa only [List.all_eq_true] using each text mem

theorem isAlphanum_of_toLower {c : Char} (lower : c.toLower.isAlphanum = true) :
    c.isAlphanum = true := by
  by_cases upper : c.isUpper = true
  · change (c.isUpper || c.isLower || c.isDigit) = true
    rw [upper, Bool.true_or, Bool.true_or]
  · delta Char.toLower at lower
    rwa [dif_neg fun range => upper (decide_eq_true range)] at lower

theorem ne_quote_of_isAlphanum {c : Char} (h : c.isAlphanum = true) : (c == '\x27') = false := by
  rw [beq_eq_false_iff_ne]
  rintro rfl
  cases h

theorem dropFront_append (word rest : List Char) : dropFront word (word ++ rest) = rest := by
  simp [dropFront]

theorem dropBack_append (word rest : List Char) : dropBack word (rest ++ word) = rest := by
  simp [dropBack]

/-- What does not begin with the first character of a word does not begin with the word. -/
theorem dropFront_of_head? {c : Char} {word : List Char} (other : text.head? ≠ some c) :
    dropFront (c :: word) text = text := by
  rw [dropFront, if_neg]
  rw [List.isPrefixOf_iff_prefix]
  rintro ⟨rest, rfl⟩
  exact other rfl

theorem dropBack_of_getLast? {c : Char} {word : List Char} (other : text.getLast? ≠ some c) :
    dropBack (word ++ [c]) text = text := by
  rw [dropBack, if_neg]
  rw [List.isSuffixOf_iff_suffix]
  rintro ⟨rest, rfl⟩
  exact other (by simp)

theorem exists_append_dropFront (word text : List Char) :
    ∃ front, text = front ++ dropFront word text ∧ (front = [] ∨ front = word) := by
  rw [dropFront]
  split
  · rename_i isFront
    obtain ⟨rest, rfl⟩ := List.isPrefixOf_iff_prefix.mp isFront
    exact ⟨word, by simp, .inr rfl⟩
  · exact ⟨[], rfl, .inl rfl⟩

theorem exists_append_dropBack (word text : List Char) :
    ∃ back, text = dropBack word text ++ back ∧ (back = [] ∨ back = word) := by
  rw [dropBack]
  split
  · rename_i isBack
    obtain ⟨rest, rfl⟩ := List.isSuffixOf_iff_suffix.mp isBack
    exact ⟨word, by simp, .inr rfl⟩
  · exact ⟨[], by simp, .inl rfl⟩

/-- A text that is a word but for the case of its letters is seen as such through all that may stand
around it. -/
structure Bare (text : List Char) : Prop where
  blankless : Trimmed isBlank text
  quoteless : Trimmed (· == '\x27') text
  front : text.head? ≠ some 't'
  back : text.getLast? ≠ some 'r'
  nonempty : text ≠ []

theorem bare_of_map_toLower (mem : text.map Char.toLower ∈ t.words) : Bare text := by
  obtain ⟨nonempty, letters, front, back⟩ := shape_of_mem_words mem
  have letters' : ∀ c ∈ text, c.isAlphanum = true := fun c inside =>
    isAlphanum_of_toLower (letters _ (List.mem_map_of_mem inside))
  constructor
  · exact .of_forall fun c inside => isBlank_of_isAlphanum (letters' c inside)
  · exact .of_forall fun c inside => ne_quote_of_isAlphanum (letters' c inside)
  · intro first
    rw [List.head?_map, first] at front
    exact front rfl
  · intro last
    rw [List.getLast?_map, last] at back
    exact back rfl
  · rintro rfl
    exact nonempty rfl

theorem dropFront_around {p w x : List Char} (bare : Bare w) (optional : p = [] ∨ p = "torch.".toList) :
    dropFront "torch.".toList (p ++ (w ++ x)) = w ++ x := by
  rcases optional with rfl | rfl
  · have first : (w ++ x).head? ≠ some 't' := by
      cases w with
      | nil => exact absurd rfl bare.nonempty
      | cons c rest => exact bare.front
    exact dropFront_of_head? first
  · exact dropFront_append _ _

theorem dropBack_around {w x : List Char} (bare : Bare w) (optional : x = [] ∨ x = "Tensor".toList) :
    dropBack "Tensor".toList (w ++ x) = w := by
  rcases optional with rfl | rfl
  · rw [List.append_nil]
    have other : dropBack ("Tenso".toList ++ ['r']) w = w := dropBack_of_getLast? bare.back
    exact other
  · exact dropBack_append _ _

/-- Texts whose parts are a word and what may stand next to it are trimmed as the word is. -/
theorem trimmed_around {drop : Char → Bool} {p w x : List Char} (trimmed : Trimmed drop w)
    (front : "torch.".toList.any drop = false) (back : "Tensor".toList.any drop = false)
    (optional : p = [] ∨ p = "torch.".toList) (optional' : x = [] ∨ x = "Tensor".toList) :
    Trimmed drop (p ++ (w ++ x)) := by
  refine .append (.of_forall ?_) (trimmed.append (.of_forall ?_))
  · rcases optional with rfl | rfl
    · nofun
    · simpa only [List.any_eq_false, Bool.not_eq_true] using front
  · rcases optional' with rfl | rfl
    · nofun
    · simpa only [List.any_eq_false, Bool.not_eq_true] using back

/-- The word of a label is found whatever may stand around it. -/
theorem bareWord_around {u q p w x q' v : List Char} (bare : Bare w)
    (blanks : ∀ c ∈ u, isBlank c = true) (blanks' : ∀ c ∈ v, isBlank c = true)
    (quotes : ∀ c ∈ q, c = '\x27') (quotes' : ∀ c ∈ q', c = '\x27')
    (optional : p = [] ∨ p = "torch.".toList) (optional' : x = [] ∨ x = "Tensor".toList) :
    bareWord (u ++ q ++ p ++ w ++ x ++ q' ++ v) = w := by
  have blankless : Trimmed isBlank (p ++ (w ++ x)) :=
    trimmed_around bare.blankless (by decide) (by decide) optional optional'
  have quoteless : Trimmed (· == '\x27') (p ++ (w ++ x)) :=
    trimmed_around bare.quoteless (by decide) (by decide) optional optional'
  have outer : Trimmed isBlank (q ++ (p ++ (w ++ x)) ++ q') :=
    ((Trimmed.of_forall fun c mem => isBlank_quote (quotes c mem)).append blankless).append
      (.of_forall fun c mem => isBlank_quote (quotes' c mem))
  have parts : u ++ q ++ p ++ w ++ x ++ q' ++ v = u ++ (q ++ (p ++ (w ++ x)) ++ q') ++ v := by simp
  rw [bareWord, trim, parts, trimWhere_append blanks outer blanks',
    trimWhere_append (by simpa using quotes) quoteless (by simpa using quotes'),
    dropFront_around bare optional, dropBack_around bare optional']

/-- A label names a type when a word of the type, in whatever case, stands in it: white space may be around
all of it, inside of that single quotes, inside of those the prefix and the suffix of libraries. -/
theorem names_exactly {label : String} : ofLabel? label = some t ↔ ∃ u q p w x q' v : List Char,
    label.toList = u ++ q ++ p ++ w ++ x ++ q' ++ v ∧
      (∀ c ∈ u, isBlank c = true) ∧ (∀ c ∈ v, isBlank c = true) ∧
      (∀ c ∈ q, c = '\x27') ∧ (∀ c ∈ q', c = '\x27') ∧
      (p = [] ∨ p = "torch.".toList) ∧ (x = [] ∨ x = "Tensor".toList) ∧
      ∃ word, Word t word ∧ SameLetters w word.toList := by
  rw [ofLabel?, find?_words_eq_some_iff]
  constructor
  · intro named
    obtain ⟨u, v, outer, blanks, blanks'⟩ := exists_append_trimWhere isBlank label.toList
    obtain ⟨q, q', inner, quotes, quotes'⟩ :=
      exists_append_trimWhere (· == '\x27') (trim label.toList)
    obtain ⟨p, front, optional⟩ := exists_append_dropFront "torch.".toList
      (trimWhere (· == '\x27') (trim label.toList))
    obtain ⟨x, back, optional'⟩ := exists_append_dropBack "Tensor".toList
      (dropFront "torch.".toList (trimWhere (· == '\x27') (trim label.toList)))
    refine ⟨u, q, p, bareWord label.toList, x, q', v, ?_, blanks, blanks', by simpa using quotes,
      by simpa using quotes', optional, optional', map_toLower_mem_words_iff.mp named⟩
    calc label.toList = u ++ trim label.toList ++ v := outer
      _ = u ++ (q ++ (p ++ (bareWord label.toList ++ x)) ++ q') ++ v := by
        rw [bareWord, ← back, ← front, ← inner]
      _ = _ := by simp
  · rintro ⟨u, q, p, w, x, q', v, whole, blanks, blanks', quotes, quotes', optional, optional', word⟩
    have named := map_toLower_mem_words_iff.mpr word
    rwa [whole, bareWord_around (bare_of_map_toLower named) blanks blanks' quotes quotes' optional
      optional']

end ElementType
end TensorGraph
