import Mathlib.Data.List.TakeWhile
import TensorGraph.Json.Token

/-! Words of JSON text. What is read at the front of a text is a word of its own: it is read alike from
the same word with anything else behind it. Only a number asks something of what follows, which may not
go on with it. -/
namespace TensorGraph.Json

/-- No octet of a kind comes first. -/
def Clear (kind : UInt8 → Bool) (octets : List UInt8) : Prop := octets.head?.any kind = false

namespace Clear

variable {kind : UInt8 → Bool} {octet : UInt8} {word rest : List UInt8}

@[simp] theorem nil : Clear kind [] := rfl

@[simp] theorem cons_iff : Clear kind (octet :: rest) ↔ kind octet = false := Iff.rfl

theorem append (front : Clear kind word) (behind : Clear kind rest) : Clear kind (word ++ rest) := by
  cases word with
  | nil => exact behind
  | cons octet word => exact front

theorem dropWhile (kind : UInt8 → Bool) (octets : List UInt8) :
    Clear kind (octets.dropWhile kind) := by
  induction octets with
  | nil => exact nil
  | cons octet rest ih =>
    rw [List.dropWhile_cons]
    split
    · exact ih
    · simp_all

theorem takeWhile_append (within : ∀ octet ∈ word, kind octet = true) (behind : Clear kind rest) :
    (word ++ rest).takeWhile kind = word := by
  rw [List.takeWhile_append_of_pos within]
  cases rest with
  | nil => simp
  | cons octet rest => simp [cons_iff.mp behind]

theorem dropWhile_append (within : ∀ octet ∈ word, kind octet = true) (behind : Clear kind rest) :
    (word ++ rest).dropWhile kind = rest := by
  rw [List.dropWhile_append_of_pos within]
  cases rest with
  | nil => rfl
  | cons octet rest => simp [cons_iff.mp behind]

end Clear

/-- A word that a reader takes for something, whatever is behind it that does not go on with it. -/
def IsWord {α : Type} (scan : List UInt8 → Option (α × List UInt8)) (goesOn : UInt8 → Bool)
    (word : List UInt8) (x : α) : Prop :=
  ∀ behind, Clear goesOn behind → scan (word ++ behind) = some (x, behind)

theorem clear_digits (octets : List UInt8) : Clear isDigit (digits octets).2 :=
  Clear.dropWhile isDigit octets

theorem exists_word_digits {octets rest : List UInt8} {found : List Digit}
    (run : digits octets = (found, rest)) (nonempty : found ≠ []) :
    ∃ octet word, octets = octet :: word ++ rest ∧ isDigit octet = true ∧
      IsWord (some ∘ digits) isDigit (octet :: word) found := by
  rw [digits, Prod.mk.injEq] at run
  obtain ⟨here, behind⟩ := run
  have whole : octets = octets.takeWhile isDigit ++ rest := by
    rw [← behind, List.takeWhile_append_dropWhile]
  have within : ∀ octet ∈ octets.takeWhile isDigit, isDigit octet = true :=
    fun octet mem => List.mem_takeWhile_imp mem
  cases front : octets.takeWhile isDigit with
  | nil =>
    rw [front] at here
    exact absurd here.symm nonempty
  | cons octet word =>
    rw [front] at whole within here
    refine ⟨octet, word, whole, within octet List.mem_cons_self, ?_⟩
    intro behind clear
    rw [Function.comp_apply, digits, Clear.takeWhile_append within clear,
      Clear.dropWhile_append within clear, here]

namespace Literal

def isPoint (octet : UInt8) : Bool := octet = 0x2e

def isExponent (octet : UInt8) : Bool := octet = 0x65 || octet = 0x45

/-- The octets that a number could go on with. -/
def goesOn (octet : UInt8) : Bool := isDigit octet || isPoint octet || isExponent octet

variable {octets rest : List UInt8} {found : List Digit} {exponent : Option Int}

/-- The octets that digits and a point could go on with. -/
def inDecimals (octet : UInt8) : Bool := isDigit octet || isPoint octet

theorem clear_inDecimals : Clear inDecimals octets ↔ Clear isDigit octets ∧ Clear isPoint octets := by
  cases octets <;> simp [inDecimals]

theorem clear_goesOn :
    Clear goesOn octets ↔ Clear inDecimals octets ∧ Clear isExponent octets := by
  cases octets <;> simp [goesOn, inDecimals]

/-- Digits before the point are a run that is not empty, and whether they may stand there depends on
them alone. -/
theorem scanWhole_eq_some (read : scanWhole octets = some (found, rest)) :
    digits octets = (found, rest) ∧ found ≠ [] ∧
      ∀ {octets' rest' : List UInt8}, digits octets' = (found, rest') →
        scanWhole octets' = some (found, rest') := by
  unfold scanWhole at read ⊢
  split at read
  · cases read
  · cases read
  · rename_i nonempty single
    have run := Option.some.inj read
    rw [run] at nonempty single
    refine ⟨run, fun empty => nonempty rest (by rw [empty]), ?_⟩
    intro octets' rest' run'
    rw [run']
    split
    · simp_all
    · simp_all
    · rfl

theorem clear_scanWhole (read : scanWhole octets = some (found, rest)) : Clear isDigit rest := by
  have clear := clear_digits octets
  rwa [(scanWhole_eq_some read).1] at clear

theorem exists_word_scanWhole (read : scanWhole octets = some (found, rest)) :
    ∃ octet word, octets = octet :: word ++ rest ∧ isDigit octet = true ∧
      IsWord scanWhole isDigit (octet :: word) found := by
  obtain ⟨run, nonempty, alone⟩ := scanWhole_eq_some read
  obtain ⟨octet, word, whole, first, isWord⟩ := exists_word_digits run nonempty
  refine ⟨octet, word, whole, first, ?_⟩
  intro behind clear
  exact alone (Option.some.inj (isWord behind clear))

theorem scanFraction_of_clear (clear : Clear isPoint octets) :
    scanFraction octets = some ([], octets) := by
  unfold scanFraction
  split
  · cases clear
  · rfl

/-- A fraction is nothing at all, or a point and digits. -/
theorem scanFraction_eq_some (read : scanFraction octets = some (found, rest)) :
    (found = [] ∧ rest = octets ∧ Clear isPoint octets) ∨
      ∃ behind, octets = 0x2e :: behind ∧ digits behind = (found, rest) ∧ found ≠ [] ∧
        ∀ {octets' rest' : List UInt8}, digits octets' = (found, rest') →
          scanFraction (0x2e :: octets') = some (found, rest') := by
  unfold scanFraction at read
  split at read
  · rename_i behind
    split at read
    · cases read
    · rename_i nonempty
      have run := Option.some.inj read
      rw [run] at nonempty
      refine .inr ⟨behind, rfl, run, fun empty => nonempty rest (by rw [empty]), ?_⟩
      intro octets' rest' run'
      rw [scanFraction, run']
      split
      · simp_all
      · rfl
  · rename_i pointless
    cases read
    refine .inl ⟨rfl, rfl, ?_⟩
    cases octets with
    | nil => exact .nil
    | cons octet behind =>
      simp only [Clear.cons_iff, isPoint, decide_eq_false_iff_not]
      rintro rfl
      exact pointless behind rfl

theorem clear_scanFraction (clear : Clear isDigit octets)
    (read : scanFraction octets = some (found, rest)) : Clear isDigit rest := by
  rcases scanFraction_eq_some read with ⟨-, rfl, -⟩ | ⟨behind, -, run, -⟩
  · exact clear
  · have clear := clear_digits behind
    rwa [run] at clear

theorem exists_word_scanFraction (read : scanFraction octets = some (found, rest)) :
    ∃ word, octets = word ++ rest ∧ Clear isDigit word ∧
      IsWord scanFraction inDecimals word found := by
  rcases scanFraction_eq_some read with ⟨rfl, rfl, -⟩ | ⟨behind, rfl, run, nonempty, alone⟩
  · refine ⟨[], rfl, .nil, ?_⟩
    intro behind clear
    exact scanFraction_of_clear (clear_inDecimals.mp clear).2
  · obtain ⟨octet, word, rfl, -, isWord⟩ := exists_word_digits run nonempty
    refine ⟨0x2e :: octet :: word, rfl, rfl, ?_⟩
    intro behind clear
    exact alone (Option.some.inj (isWord behind (clear_inDecimals.mp clear).1))

/-- Takes a sign from the front, if there is one. -/
def strip (sign? : UInt8 → Option Bool) : List UInt8 → Bool × List UInt8
  | [] => (false, [])
  | octet :: rest =>
    match sign? octet with
    | some negative => (negative, rest)
    | none => (false, octet :: rest)

def sign? (octet : UInt8) : Option Bool :=
  if octet = 0x2b then some false else if octet = 0x2d then some true else none

def minus? (octet : UInt8) : Option Bool := if octet = 0x2d then some true else none

theorem scanSign_eq (octets : List UInt8) : scanSign octets = strip sign? octets := by
  cases octets with
  | nil => rfl
  | cons octet rest =>
    unfold scanSign
    split
    · rename_i same
      cases same
      rfl
    · rename_i same
      cases same
      rfl
    · simp_all [strip, sign?]

theorem sign?_of_isDigit (octet : UInt8) (first : isDigit octet = true) : sign? octet = none := by
  rw [sign?, if_neg, if_neg]
  · rintro rfl
    cases first
  · rintro rfl
    cases first

theorem minus?_of_isDigit (octet : UInt8) (first : isDigit octet = true) : minus? octet = none := by
  rw [minus?, if_neg]
  rintro rfl
  cases first

/-- In front of a digit a sign is taken, or none, whatever the digit. -/
theorem exists_word_strip {sign? : UInt8 → Option Bool}
    (noDigit : ∀ octet, isDigit octet = true → sign? octet = none) (octets : List UInt8) :
    ∃ word, octets = word ++ (strip sign? octets).2 ∧ ∀ octet, isDigit octet = true → ∀ behind,
      strip sign? (word ++ octet :: behind) = ((strip sign? octets).1, octet :: behind) := by
  cases octets with
  | nil =>
    refine ⟨[], rfl, ?_⟩
    intro octet first behind
    simp [strip, noDigit octet first]
  | cons sign rest =>
    cases signed : sign? sign with
    | some negative => exact ⟨[sign], by simp [strip, signed], by simp [strip, signed]⟩
    | none =>
      refine ⟨[], by simp [strip, signed], ?_⟩
      intro octet first behind
      simp [strip, signed, noDigit octet first]

theorem scanExponent_of_clear (clear : Clear isExponent octets) :
    scanExponent octets = some (none, octets) := by
  cases octets with
  | nil => rfl
  | cons octet rest =>
    rw [scanExponent, if_neg (by simpa [isExponent] using clear)]

/-- An exponent is nothing at all, or a mark, a sign and digits. -/
theorem scanExponent_eq_some (read : scanExponent octets = some (exponent, rest)) :
    (exponent = none ∧ rest = octets ∧ Clear isExponent octets) ∨
      ∃ mark behind found, octets = mark :: behind ∧ isExponent mark = true ∧
        digits (scanSign behind).2 = (found, rest) ∧ found ≠ [] ∧
        ∀ {behind' rest' : List UInt8}, (scanSign behind').1 = (scanSign behind).1 →
          digits (scanSign behind').2 = (found, rest') →
            scanExponent (mark :: behind') = some (exponent, rest') := by
  cases octets with
  | nil =>
    cases read
    exact .inl ⟨rfl, rfl, .nil⟩
  | cons mark behind =>
    rw [scanExponent] at read
    split at read
    · rename_i marked
      dsimp only at read
      split at read
      · cases read
      · rename_i found behind' nonempty run
        rw [Option.some.injEq, Prod.mk.injEq] at read
        obtain ⟨rfl, rfl⟩ := read
        refine .inr ⟨mark, behind, found, rfl, by simpa [isExponent] using marked, run, ?_, ?_⟩
        · rintro rfl
          exact nonempty rfl
        · intro octets' rest' sign run'
          rw [scanExponent, if_pos marked]
          dsimp only
          rw [run', sign]
          split
          · simp_all
          · simp_all
    · rename_i unmarked
      cases read
      exact .inl ⟨rfl, rfl, by simpa [isExponent] using unmarked⟩

theorem clear_scanExponent (clear : Clear isDigit octets)
    (read : scanExponent octets = some (exponent, rest)) : Clear isDigit rest := by
  rcases scanExponent_eq_some read with ⟨-, rfl, -⟩ | ⟨mark, behind, found, -, -, run, -, -⟩
  · exact clear
  · have clear := clear_digits (scanSign behind).2
    rwa [run] at clear

theorem clear_of_isExponent {octet : UInt8} {word : List UInt8} (mark : isExponent octet = true) :
    Clear inDecimals (octet :: word) := by
  rw [Clear.cons_iff]
  simp only [isExponent, Bool.or_eq_true, decide_eq_true_eq] at mark
  rcases mark with rfl | rfl <;> rfl

theorem exists_word_scanExponent (read : scanExponent octets = some (exponent, rest)) :
    ∃ word, octets = word ++ rest ∧ Clear inDecimals word ∧
      IsWord scanExponent goesOn word exponent := by
  rcases scanExponent_eq_some read with
    ⟨rfl, rfl, -⟩ | ⟨mark, behind, found, rfl, marked, run, nonempty, alone⟩
  · refine ⟨[], rfl, .nil, ?_⟩
    intro behind clear
    exact scanExponent_of_clear (clear_goesOn.mp clear).2
  · obtain ⟨octet, word, whole, first, isWord⟩ := exists_word_digits run nonempty
    obtain ⟨sign, signed, alike⟩ := exists_word_strip sign?_of_isDigit behind
    simp only [← scanSign_eq] at signed alike
    refine ⟨mark :: (sign ++ octet :: word), ?_, clear_of_isExponent marked, ?_⟩
    · rw [List.cons_append, List.append_assoc, ← whole, ← signed]
    · intro behind' clear
      have sameSign := alike octet first (word ++ behind')
      rw [List.cons_append, List.append_assoc, List.cons_append]
      apply alone
      · rw [sameSign]
      · rw [sameSign]
        exact Option.some.inj (isWord behind' (clear_inDecimals.mp (clear_goesOn.mp clear).1).1)

variable {literal : Literal}

/-- A number is read part by part. -/
theorem scan_eq_some : scan octets = some (literal, rest) ↔
    (strip minus? octets).1 = literal.negative ∧ ∃ behindWhole behindFraction,
      scanWhole (strip minus? octets).2 = some (literal.whole, behindWhole) ∧
      scanFraction behindWhole = some (literal.fraction, behindFraction) ∧
      scanExponent behindFraction = some (literal.exponent, rest) := by
  have same : scan octets = (do
      let whole ← scanWhole (strip minus? octets).2
      let fraction ← scanFraction whole.2
      let exponent ← scanExponent fraction.2
      return (⟨(strip minus? octets).1, whole.1, fraction.1, exponent.1⟩, exponent.2)) := by
    unfold scan
    split
    rename_i negative behind signed
    have stripped : strip minus? octets = (negative, behind) := by
      rw [← signed]
      cases octets with
      | nil => rfl
      | cons octet octets =>
        split
        · rename_i same
          cases same
          rfl
        · rename_i noMinus
          have other : octet ≠ 0x2d := fun same => noMinus octets (by rw [same])
          rw [strip, minus?, if_neg other]
    rw [stripped]
  rw [same]
  cases literal
  simp only [Option.bind_eq_bind, Option.bind_eq_some_iff, Option.pure_def, Prod.exists,
    Option.some.injEq, Prod.mk.injEq, mk.injEq]
  grind

/-- A number ends where no digit follows. -/
theorem clear_scan (read : scan octets = some (literal, rest)) : Clear isDigit rest := by
  obtain ⟨-, behindWhole, behindFraction, whole, fraction, exponent⟩ := scan_eq_some.mp read
  exact clear_scanExponent (clear_scanFraction (clear_scanWhole whole) fraction) exponent

theorem exists_word_scan (read : scan octets = some (literal, rest)) :
    ∃ octet word, octets = octet :: word ++ rest ∧ IsWord scan goesOn (octet :: word) literal := by
  obtain ⟨negative, behindWhole, behindFraction, whole, fraction, exponent⟩ := scan_eq_some.mp read
  obtain ⟨octet, word, first, isDigit, isWhole⟩ := exists_word_scanWhole whole
  obtain ⟨word', rfl, noDigit, isFraction⟩ := exists_word_scanFraction fraction
  obtain ⟨word'', rfl, noDecimals, isExponent⟩ := exists_word_scanExponent exponent
  obtain ⟨minus, signed, alike⟩ := exists_word_strip minus?_of_isDigit octets
  have isWord : IsWord scan goesOn (minus ++ (octet :: word ++ (word' ++ word''))) literal := by
    intro behind clear
    have decimals := noDecimals.append (clear_goesOn.mp clear).1
    have digits := noDigit.append (clear_inDecimals.mp decimals).1
    have sameSign := alike octet isDigit (word ++ (word' ++ (word'' ++ behind)))
    have rearranged : minus ++ (octet :: word ++ (word' ++ word'')) ++ behind =
        minus ++ octet :: (word ++ (word' ++ (word'' ++ behind))) := by simp
    rw [rearranged]
    apply scan_eq_some.mpr
    rw [sameSign]
    exact ⟨negative, _, _, isWhole _ digits, isFraction _ decimals, isExponent _ clear⟩
  have whole : octets = minus ++ (octet :: word ++ (word' ++ word'')) ++ rest := by
    rw [signed, first]
    simp
  cases minus with
  | nil => exact ⟨octet, word ++ (word' ++ word''), whole, isWord⟩
  | cons sign minus => exact ⟨sign, minus ++ (octet :: word ++ (word' ++ word'')), whole, isWord⟩

end Literal

/-- A string ends with its closing quote, whatever follows. -/
theorem Piece.exists_word_scan {found pieces : List Piece} {octets rest : List UInt8}
    (read : scan found octets = some (pieces, rest)) :
    ∃ word, octets = word ++ rest ∧ ∀ behind, scan found (word ++ behind) = some (pieces, behind) := by
  fun_induction scan found octets with
  | case1 found rest' =>
    cases read
    exact ⟨[0x22], rfl, fun _ => rfl⟩
  | case2 found a b c d rest' value unit ih =>
    obtain ⟨word, rfl, alike⟩ := ih read
    refine ⟨0x5c :: 0x75 :: a :: b :: c :: d :: word, rfl, ?_⟩
    intro behind
    simp only [List.cons_append, scan, unit]
    exact alike behind
  | case3 => cases read
  | case4 found letter rest' other value escaped ih =>
    obtain ⟨word, rfl, alike⟩ := ih read
    refine ⟨0x5c :: letter :: word, rfl, ?_⟩
    intro behind
    have noUnit : letter ≠ 0x75 := by
      rintro rfl
      cases escaped
    simp only [List.cons_append]
    rw [scan]
    · simp only [escaped]
      exact alike behind
    · intro _ _ _ _ _ same
      exact absurd same noUnit
  | case5 => cases read
  | case6 => cases read
  | case7 found value rest' noQuote noUnit noEscape plain ih =>
    obtain ⟨word, rfl, alike⟩ := ih read
    refine ⟨value :: word, rfl, ?_⟩
    intro behind
    rw [List.cons_append, scan, if_neg plain]
    · exact alike behind
    all_goals grind
  | case8 => cases read

namespace Token

/-- The octets that a token could go on with. -/
def goesOn : Token → UInt8 → Bool
  | number _ => Literal.goesOn
  | _ => fun _ => false

variable {octet : UInt8} {octets rest : List UInt8} {token : Token}

/-- A token begins with its octet and ends by itself, but for a number. -/
theorem exists_word_scan (read : scan octet octets = some (token, rest)) :
    ∃ word, octets = word ++ rest ∧ IsWord (scan octet) token.goesOn word token := by
  unfold IsWord scan at *
  split at read
  case h_7 =>
    obtain ⟨⟨pieces, behind⟩, found, same⟩ := Option.map_eq_some_iff.mp read
    cases same
    obtain ⟨word, whole, alike⟩ := Piece.exists_word_scan found
    refine ⟨word, whole, ?_⟩
    intro behind _
    simp [alike]
  case h_11 =>
    obtain ⟨⟨literal, behind⟩, found, same⟩ := Option.map_eq_some_iff.mp read
    cases same
    obtain ⟨first, word, whole, isWord⟩ := Literal.exists_word_scan found
    rw [List.cons_append, List.cons.injEq] at whole
    obtain ⟨rfl, rfl⟩ := whole
    refine ⟨word, rfl, ?_⟩
    intro behind clear
    have alike := isWord behind clear
    rw [List.cons_append] at alike
    simp [alike]
  case h_8 =>
    split at read
    · cases read
      exact ⟨[0x75, 0x6c, 0x6c], rfl, fun _ _ => rfl⟩
    · cases read
  case h_9 =>
    split at read
    · cases read
      exact ⟨[0x72, 0x75, 0x65], rfl, fun _ _ => rfl⟩
    · cases read
  case h_10 =>
    split at read
    · cases read
      exact ⟨[0x61, 0x6c, 0x73, 0x65], rfl, fun _ _ => rfl⟩
    · cases read
  all_goals
    cases read
    exact ⟨[], rfl, fun _ _ => rfl⟩

/-- A word that is a token from its first octet to its last. -/
def Spells (token : Token) : List UInt8 → Prop
  | [] => False
  | octet :: rest => scan octet rest = some (token, [])

theorem ne_unreadable_of_scan (read : scan octet octets = some (token, rest)) : token ≠ unreadable := by
  rintro rfl
  unfold scan at read
  split at read
  case h_8 | h_9 | h_10 => split at read <;> cases read
  all_goals simp at read

/-- No token begins with what a number goes on with, but for digits. -/
theorem scan_eq_none (foreign : Literal.isPoint octet = true ∨ Literal.isExponent octet = true)
    (octets : List UInt8) : scan octet octets = none := by
  simp only [Literal.isPoint, Literal.isExponent, Bool.or_eq_true, decide_eq_true_eq] at foreign
  rcases foreign with rfl | rfl | rfl <;> rfl

theorem clear_digit_of_scan {literal : Literal}
    (read : scan octet octets = some (number literal, rest)) : Clear isDigit rest := by
  unfold scan at read
  split at read
  case h_7 => simp at read
  case h_8 | h_9 | h_10 => split at read <;> cases read
  case h_11 =>
    obtain ⟨⟨literal, behind⟩, found, same⟩ := Option.map_eq_some_iff.mp read
    cases same
    exact Literal.clear_scan found
  all_goals cases read

theorem not_isBlank_of_scan (read : scan octet octets = some (token, rest)) : isBlank octet = false := by
  by_contra blank
  simp only [isBlank, Bool.not_eq_false, Bool.or_eq_true, decide_eq_true_eq, or_assoc] at blank
  rcases blank with rfl | rfl | rfl | rfl <;> cases read

variable {blanks word : List UInt8}

theorem Spells.isWord (spells : token.Spells word) :
    ∃ octet more, word = octet :: more ∧ IsWord (scan octet) token.goesOn more token := by
  cases word with
  | nil => cases spells
  | cons octet more =>
    obtain ⟨word, whole, isWord⟩ := exists_word_scan spells
    rw [List.append_nil] at whole
    rw [whole]
    exact ⟨octet, word, rfl, isWord⟩

theorem next?_eq_none_iff : next? octets = none ↔ ∀ octet ∈ octets, isBlank octet = true := by
  rw [← List.dropWhile_eq_nil_iff, next?]
  cases octets.dropWhile isBlank <;> simp

/-- Blanks and a word are read as a token, whatever follows that does not go on with it. -/
theorem next?_of_spells (blank : ∀ octet ∈ blanks, isBlank octet = true) (spells : token.Spells word)
    (clear : Clear token.goesOn rest) : next? (blanks ++ word ++ rest) = some (token, rest) := by
  obtain ⟨octet, more, rfl, isWord⟩ := spells.isWord
  have read := isWord rest clear
  have noBlank : Clear isBlank (octet :: (more ++ rest)) := not_isBlank_of_scan read
  rw [List.append_assoc, List.cons_append, next?, Clear.dropWhile_append blank noBlank]
  simp [read]

/-- A token that is read is blanks and a word, and what follows does not go on with it if that is
readable. -/
theorem exists_spells_of_next? (found : next? octets = some (token, rest))
    (readable : token ≠ unreadable) (later : ∀ after, next? rest ≠ some (unreadable, after)) :
    ∃ blanks word, octets = blanks ++ word ++ rest ∧ (∀ octet ∈ blanks, isBlank octet = true) ∧
      token.Spells word ∧ Clear token.goesOn rest := by
  unfold next? at found
  split at found
  · cases found
  · rename_i octet more front
    have read : scan octet more = some (token, rest) := by
      cases scanned : scan octet more with
      | none =>
        rw [scanned, Option.getD_none, Option.some.injEq, Prod.mk.injEq] at found
        exact absurd found.1.symm readable
      | some pair =>
        rw [scanned, Option.getD_some] at found
        exact found
    obtain ⟨word, whole, isWord⟩ := exists_word_scan read
    refine ⟨octets.takeWhile isBlank, octet :: word, ?_, ?_, ?_, ?_⟩
    · rw [List.append_assoc, List.cons_append, ← whole, ← front, List.takeWhile_append_dropWhile]
    · exact fun octet mem => List.mem_takeWhile_imp mem
    · have alone := isWord [] .nil
      rwa [List.append_nil] at alone
    · cases token with
      | number literal =>
        have noDigit := clear_digit_of_scan read
        cases rest with
        | nil => exact .nil
        | cons next behind =>
          by_contra goesOn
          have foreign : Literal.isPoint next = true ∨ Literal.isExponent next = true := by
            simpa [Token.goesOn, Literal.goesOn, Clear.cons_iff.mp noDigit, or_iff_not_imp_left]
              using goesOn
          have unread := scan_eq_none foreign behind
          have noBlank : isBlank next = false := by
            simp only [Literal.isPoint, Literal.isExponent, Bool.or_eq_true, decide_eq_true_eq]
              at foreign
            rcases foreign with rfl | rfl | rfl <;> rfl
          exact later [] (by simp [next?, noBlank, unread])
      | _ => cases rest <;> rfl

end Token
end TensorGraph.Json
