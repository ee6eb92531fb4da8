import TensorGraph.GraphError
import TensorGraph.Proofs.Trimming

/-! Which labels ask for a kind of operator. A listed label is found amid white space, bare or right inside
one pair of quotes. Every other label is unknown, however close it comes to a listed one. -/
namespace TensorGraph.Kind
open Text

/-- The labels that are listed for the kinds. -/
inductive Listed : Kind → String → Prop
  | onnxGemm : Listed gemm "onnx::Gemm"
  | affine : Listed gemm "affine"
  | onnxRelu : Listed relu "onnx::Relu"
  | rectifier : Listed relu "rectifier"
  | onnxTranspose : Listed transpose "onnx::Transpose"
  | transpose : Listed transpose "transpose"

def quotes (count : Nat) : List Char := List.replicate count '\x27'

/-- How a listed label may be written: bare, or in a pair of quotes with nothing in between. -/
inductive Written (kind : Kind) : List Char → Prop
  | bare {word : String} : Listed kind word → Written kind word.toList
  | quoted {word : String} : Listed kind word → Written kind (quotes 1 ++ word.toList ++ quotes 1)

/-- Writings that are close to that of a word: with other quotes around it than one pair, in letters of
another case, or with white space inside a pair of quotes. -/
inductive Miswritten (word : List Char) : List Char → Prop
  | misquoted {front back : Nat} : ¬ (front = back ∧ back ≤ 1) →
    Miswritten word (quotes front ++ word ++ quotes back)
  | otherCase {other : List Char} {front back : Nat} : other ≠ word →
    other.map Char.toLower = word.map Char.toLower →
      Miswritten word (quotes front ++ other ++ quotes back)
  | spaced {u v : List Char} : (∀ c ∈ u, isBlank c = true) → (∀ c ∈ v, isBlank c = true) →
    u ≠ [] ∨ v ≠ [] → Miswritten word (quotes 1 ++ (u ++ word ++ v) ++ quotes 1)

/-- A label is a text with nothing but white space around it. -/
def Amid (label : String) (text : List Char) : Prop :=
  ∃ u v, label.toList = u ++ text ++ v ∧ (∀ c ∈ u, isBlank c = true) ∧ ∀ c ∈ v, isBlank c = true

/-- A text with no white space and no quotes in it. -/
structure Solid (text : List Char) : Prop where
  nonempty : text ≠ []
  quoteless : '\x27' ∉ text
  blankless : ∀ c ∈ text, isBlank c = false

variable {kind kind' : Kind} {word word' label : String} {text other : List Char}

theorem mem_labels_iff : (word, kind) ∈ labels ↔ Listed kind word := by
  constructor
  · intro mem
    simp only [labels, List.mem_cons, Prod.mk.injEq, List.not_mem_nil, or_false] at mem
    rcases mem with ⟨rfl, rfl⟩ | ⟨rfl, rfl⟩ | ⟨rfl, rfl⟩ | ⟨rfl, rfl⟩ | ⟨rfl, rfl⟩ | ⟨rfl, rfl⟩
    all_goals constructor
  · rintro ⟨⟩
    all_goals simp [labels]

namespace Listed

/-- Listed words differ in more than the case of their letters, and each is listed for one kind. -/
theorem eq_of_toLower (listed : Listed kind word) (listed' : Listed kind' word')
    (same : word.toList.map Char.toLower = word'.toList.map Char.toLower) :
    word = word' ∧ kind = kind' := by
  have apart : ∀ entry ∈ labels, ∀ entry' ∈ labels,
      entry.1.toList.map Char.toLower = entry'.1.toList.map Char.toLower → entry = entry' := by
    decide +kernel
  exact Prod.ext_iff.mp (apart _ (mem_labels_iff.mpr listed) _ (mem_labels_iff.mpr listed') same)

theorem solid_toLower (listed : Listed kind word) : Solid (word.toList.map Char.toLower) := by
  have each : ∀ entry ∈ labels, entry.1.toList.map Char.toLower ≠ [] ∧
      '\x27' ∉ entry.1.toList.map Char.toLower ∧
      (entry.1.toList.map Char.toLower).any isBlank = false := by
    decide +kernel
  obtain ⟨nonempty, quoteless, clear⟩ := each _ (mem_labels_iff.mpr listed)
  exact ⟨nonempty, quoteless, by simpa using clear⟩

end Listed

namespace Solid

/-- A text is solid when it is so in lower case. -/
theorem of_toLower (solid : Solid (text.map Char.toLower)) : Solid text where
  nonempty := by
    rintro rfl
    exact solid.nonempty rfl
  quoteless mem := solid.quoteless (List.mem_map_of_mem mem)
  blankless c mem := by
    cases blank : isBlank c with
    | false => rfl
    | true =>
      have clear := solid.blankless _ (List.mem_map_of_mem mem)
      rw [toLower_of_isBlank blank, blank] at clear
      cases clear

theorem trimmed_quotes (solid : Solid text) (front back : Nat) :
    Trimmed isBlank (quotes front ++ text ++ quotes back) :=
  ((Trimmed.of_forall fun _ mem => isBlank_quote (List.eq_of_mem_replicate mem)).append
    (.of_forall solid.blankless)).append
      (.of_forall fun _ mem => isBlank_quote (List.eq_of_mem_replicate mem))

end Solid

theorem Listed.solid (listed : Listed kind word) : Solid word.toList := listed.solid_toLower.of_toLower

/-- One pair of quotes is taken off. -/
theorem unquote_paired (inner : List Char) : unquote (quotes 1 ++ inner ++ quotes 1) = inner := by
  change unquote ('\x27' :: (inner ++ ['\x27'])) = inner
  rw [unquote, List.getLast?_concat, if_pos rfl, List.dropLast_concat]

theorem unquote_of_head? (other : text.head? ≠ some '\x27') : unquote text = text := by
  unfold unquote
  split
  · exact absurd rfl other
  · rfl

theorem unquote_of_getLast? (other : text.getLast? ≠ some '\x27') : unquote text = text := by
  unfold unquote
  split
  · rename_i rest
    rw [if_neg]
    intro last
    obtain ⟨inner, rfl⟩ := List.getLast?_eq_some_iff.mp last
    exact other (List.getLast?_concat (l := '\x27' :: inner))
  · rfl

/-- Quotes on one side only stay. -/
theorem unquote_unpaired (solid : Solid text) {front back : Nat} (unpaired : front = 0 ∨ back = 0) :
    unquote (quotes front ++ text ++ quotes back) = quotes front ++ text ++ quotes back := by
  rcases unpaired with rfl | rfl
  · obtain ⟨c, rest, rfl⟩ := List.exists_cons_of_ne_nil solid.nonempty
    apply unquote_of_head?
    rintro ⟨⟩
    exact solid.quoteless List.mem_cons_self
  · apply unquote_of_getLast?
    rw [← List.dropLast_concat_getLast solid.nonempty, quotes, quotes, List.replicate_zero,
      List.append_nil, ← List.append_assoc, List.getLast?_concat]
    intro last
    exact solid.quoteless (Option.some.inj last ▸ List.getLast_mem solid.nonempty)

/-- What has no quotes when one pair may be taken off had one pair or none. -/
theorem eq_of_unquote (solid : Solid text) {front back : Nat}
    (same : unquote (quotes front ++ text ++ quotes back) = other) (quoteless : '\x27' ∉ other) :
    text = other ∧ front = back ∧ back ≤ 1 := by
  have clear : ∀ {n m : Nat}, quotes n ++ text ++ quotes m = other → n = 0 ∧ m = 0 := by
    rintro n m rfl
    simp only [quotes, List.mem_append, List.mem_replicate, not_or, and_true, Decidable.not_not]
      at quoteless
    exact ⟨quoteless.1.1, quoteless.2⟩
  by_cases unpaired : front = 0 ∨ back = 0
  · rw [unquote_unpaired solid unpaired] at same
    obtain ⟨rfl, rfl⟩ := clear same
    exact ⟨by simpa [quotes] using same, rfl, by omega⟩
  · obtain ⟨front, rfl⟩ := Nat.exists_eq_add_one_of_ne_zero (not_or.mp unpaired).1
    obtain ⟨back, rfl⟩ := Nat.exists_eq_add_one_of_ne_zero (not_or.mp unpaired).2
    have parts : quotes (front + 1) ++ text ++ quotes (back + 1) =
        quotes 1 ++ (quotes front ++ text ++ quotes back) ++ quotes 1 := by
      rw [quotes, quotes, List.replicate_succ, List.replicate_succ']
      simp [quotes]
    rw [parts, unquote_paired] at same
    obtain ⟨rfl, rfl⟩ := clear same
    exact ⟨by simpa [quotes] using same, rfl, le_rfl⟩

namespace Written

theorem unquote_eq (written : Written kind text) :
    ∃ word, Listed kind word ∧ unquote text = word.toList := by
  cases written with
  | @bare word listed =>
    have plain : unquote (quotes 0 ++ word.toList ++ quotes 0) = quotes 0 ++ word.toList ++ quotes 0 :=
      unquote_unpaired listed.solid (.inl rfl)
    exact ⟨word, listed, by simpa [quotes] using plain⟩
  | quoted listed => exact ⟨_, listed, unquote_paired _⟩

theorem trimmed (written : Written kind text) : Trimmed isBlank text := by
  cases written with
  | bare listed => exact .of_forall listed.solid.blankless
  | quoted listed => exact listed.solid.trimmed_quotes 1 1

/-- A text that is a listed label when it has no more quotes to take off is the writing of one. -/
theorem of_unquote (listed : Listed kind word) (same : unquote text = word.toList) : Written kind text := by
  unfold unquote at same
  split at same
  · rename_i rest
    split at same
    · rename_i last
      obtain ⟨inner, rfl⟩ := List.getLast?_eq_some_iff.mp last
      rw [List.dropLast_concat] at same
      subst same
      exact .quoted listed
    · exact absurd (same ▸ List.mem_cons_self) listed.solid.quoteless
  · subst same
    exact .bare listed

end Written

theorem Amid.trim_eq (amid : Amid label text) (trimmed : Trimmed isBlank text) :
    trim label.toList = text := by
  obtain ⟨u, v, whole, blanks, blanks'⟩ := amid
  rw [whole, trim, trimWhere_append blanks trimmed blanks']

theorem amid_trim (label : String) : Amid label (trim label.toList) :=
  exists_append_trimWhere isBlank label.toList

theorem ofLabel?_eq_some_iff : ofLabel? label = some kind ↔
    ∃ word, Listed kind word ∧ unquote (trim label.toList) = word.toList := by
  rw [ofLabel?, Option.map_eq_some_iff]
  constructor
  · rintro ⟨⟨word, _⟩, found, rfl⟩
    have same := List.find?_some found
    exact ⟨word, mem_labels_iff.mp (List.mem_of_find?_eq_some found), (beq_iff_eq.mp same).symm⟩
  · rintro ⟨word, listed, same⟩
    cases found : labels.find? fun entry => entry.1.toList == unquote (trim label.toList) with
    | none =>
      have other := List.find?_eq_none.mp found _ (mem_labels_iff.mpr listed)
      exact absurd (beq_iff_eq.mpr same.symm) other
    | some entry =>
      have isEntry := List.find?_some found
      have same' : entry.1.toList = word.toList := (beq_iff_eq.mp isEntry).trans same
      have listed' := mem_labels_iff.mp (List.mem_of_find?_eq_some found)
      exact ⟨entry, rfl, (listed'.eq_of_toLower listed (by rw [same'])).2⟩

/-- The labels of a kind are the writings of its listed ones amid white space. -/
theorem ofLabel?_eq_some_iff_written :
    ofLabel? label = some kind ↔ ∃ text, Amid label text ∧ Written kind text := by
  rw [ofLabel?_eq_some_iff]
  constructor
  · rintro ⟨word, listed, same⟩
    exact ⟨_, amid_trim label, .of_unquote listed same⟩
  · rintro ⟨text, amid, written⟩
    rw [amid.trim_eq written.trimmed]
    exact written.unquote_eq

theorem Miswritten.trimmed (listed : Listed kind word) (miswritten : Miswritten word.toList text) :
    Trimmed isBlank text := by
  cases miswritten with
  | misquoted => exact listed.solid.trimmed_quotes ..
  | otherCase _ same =>
    have solid : Solid _ := .of_toLower (same ▸ listed.solid_toLower)
    exact solid.trimmed_quotes ..
  | spaced =>
    constructor
    · rintro c ⟨⟩
      exact isBlank_quote rfl
    · intro c last
      rw [show quotes 1 = ['\x27'] from rfl, List.getLast?_concat] at last
      exact isBlank_quote (Option.some.inj last).symm

/-- What is only close to a listed label is the writing of none. -/
theorem Miswritten.unquote_ne (listed : Listed kind word) (miswritten : Miswritten word.toList text)
    (listed' : Listed kind' word') : unquote text ≠ word'.toList := by
  intro same
  have quoteless := listed'.solid.quoteless
  cases miswritten with
  | misquoted other =>
    exact other (eq_of_unquote listed.solid same quoteless).2
  | otherCase other letters =>
    obtain ⟨rfl, -⟩ := eq_of_unquote (.of_toLower (letters ▸ listed.solid_toLower)) same quoteless
    rw [(listed'.eq_of_toLower listed letters).1] at other
    exact other rfl
  | @spaced u v blanks blanks' some =>
    rw [unquote_paired] at same
    have solid : Solid (u ++ word.toList ++ v) := same ▸ listed'.solid
    have none : u ++ v = [] := by
      refine List.eq_nil_iff_forall_not_mem.mpr fun c mem => ?_
      have clear := solid.blankless c
      rcases List.mem_append.mp mem with mem | mem
      · simp [mem, blanks c mem] at clear
      · simp [mem, blanks' c mem] at clear
    exact some.elim (absurd (List.append_eq_nil_iff.mp none).1)
      (absurd (List.append_eq_nil_iff.mp none).2)

theorem Miswritten.ofLabel?_eq_none (listed : Listed kind word) (miswritten : Miswritten word.toList text)
    (amid : Amid label text) : ofLabel? label = none := by
  rw [Option.eq_none_iff_forall_ne_some]
  intro kind' read
  obtain ⟨word', listed', same⟩ := ofLabel?_eq_some_iff.mp read
  rw [amid.trim_eq (miswritten.trimmed listed)] at same
  exact miswritten.unquote_ne listed listed' same

/-- A label asks for a kind when a listed one stands in it, amid white space, bare or in one pair of quotes;
any other label is unknown and told as it is. So are labels that miss a listed one by their quotes, by
white space inside of these or by the case of letters. -/
theorem asks_exactly (label : String) :
    (∀ kind, ofLabel label = .ok kind ↔ ∃ text, Amid label text ∧ Written kind text) ∧
    (∀ e, ofLabel label = .error e ↔
      (¬ ∃ kind text, Amid label text ∧ Written kind text) ∧ e = .unknownKind label) ∧
    ∀ kind word text, Listed kind word → Miswritten word.toList text → Amid label text →
      ofLabel label = .error (.unknownKind label) := by
  refine ⟨fun kind => ?_, fun e => ?_, fun kind word text listed miswritten amid => ?_⟩
  · rw [ofLabel_eq_ok, ofLabel?_eq_some_iff_written]
  · rw [ofLabel_eq_error, Option.eq_none_iff_forall_ne_some]
    simp only [Ne, ofLabel?_eq_some_iff_written, not_exists]
  · exact ofLabel_eq_error.mpr ⟨miswritten.ofLabel?_eq_none listed amid, rfl⟩

/-- A quoted label is known amid white space of any sort; in two pairs of quotes it is not. -/
theorem asks_exactly_affine :
    ofLabel "\u3000'affine'\n" = .ok gemm ∧
      ofLabel " ''affine''" = .error (.unknownKind " ''affine''") := by
  constructor
  · have known := (asks_exactly "\u3000'affine'\n").1 gemm
    have amid : Amid "\u3000'affine'\n" (quotes 1 ++ "affine".toList ++ quotes 1) :=
      ⟨['\u3000'], ['\n'], by decide, List.forall_mem_singleton.mpr (by decide),
        List.forall_mem_singleton.mpr (by decide)⟩
    exact known.mpr ⟨_, amid, .quoted .affine⟩
  · have missed := (asks_exactly " ''affine''").2.2 gemm "affine"
    have amid : Amid " ''affine''" (quotes 2 ++ "affine".toList ++ quotes 2) :=
      ⟨[' '], [], by decide, List.forall_mem_singleton.mpr (by decide), by simp⟩
    exact missed _ .affine (.misquoted (by decide)) amid

end TensorGraph.Kind
