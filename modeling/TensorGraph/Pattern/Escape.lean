import TensorGraph.Pattern
import TensorGraph.Text.Blank

/-! What is read from a pattern character by character: blanks and comments of verbose patterns, and
what stands behind a backslash. Every reader gives the text that is left. -/
namespace TensorGraph.Pattern

/-- The text behind blanks and comments; a comment goes from # to the end of its line. -/
def behindBlanks (inComment : Bool) : List Char → List Char
  | [] => []
  | c :: rest =>
    if inComment then behindBlanks (c ≠ '\n') rest
    else if Text.isBlank c then behindBlanks false rest
    else if c = '#' then behindBlanks true rest
    else c :: rest

/-- Blanks and comments mean nothing in a verbose pattern. -/
def skip (verbose : Bool) (text : List Char) : List Char :=
  if verbose then behindBlanks false text else text

theorem length_behindBlanks (inComment : Bool) (text : List Char) :
    (behindBlanks inComment text).length ≤ text.length := by
  fun_induction behindBlanks inComment text <;> simp_all <;> omega

theorem length_skip (verbose : Bool) (text : List Char) :
    (skip verbose text).length ≤ text.length := by
  unfold skip
  split
  · exact length_behindBlanks ..
  · exact Nat.le_refl _

/-- What is left behind something read is not changed by what is made of it. -/
theorem eq_of_map_pair {α β γ : Type} {x : Option α} {f : α → β} {y : β} {left rest : γ}
    (h : (x.map fun a => (f a, left)) = some (y, rest)) : left = rest := by
  obtain ⟨_, _, same⟩ := Option.map_eq_some_iff.mp h
  exact (Prod.mk.inj same).2

def hexDigit? (c : Char) : Option Nat :=
  if '0' ≤ c ∧ c ≤ '9' then some (c.toNat - '0'.toNat)
  else if 'a' ≤ c ∧ c ≤ 'f' then some (c.toNat - 'a'.toNat + 10)
  else if 'A' ≤ c ∧ c ≤ 'F' then some (c.toNat - 'A'.toNat + 10)
  else none

/-- Reads as many digits as are asked for behind a number. -/
def readHex (verbose : Bool) : Nat → Nat → List Char → Option (Nat × List Char)
  | 0, value, text => some (value, text)
  | digits + 1, value, text =>
    match skip verbose text with
    | [] => none
    | c :: rest =>
      match hexDigit? c with
      | some digit => readHex verbose digits (16 * value + digit) rest
      | none => none

theorem length_readHex {verbose : Bool} {digits start value : Nat} {text rest : List Char}
    (h : readHex verbose digits start text = some (value, rest)) : rest.length ≤ text.length := by
  fun_induction readHex verbose digits start text with
  | case1 => simp_all
  | case2 => simp at h
  | case3 _ _ text _ _ skipped _ _ ih =>
    have := ih h
    have := length_skip verbose text
    simp only [skipped, List.length_cons] at this
    omega
  | case4 => simp at h

/-- A character by the number of its code point. -/
def readCode (verbose isOctet : Bool) (digits : Nat) (text : List Char) :
    Option (Atom × List Char) :=
  match readHex verbose digits 0 text with
  | some (code, rest) =>
    if code.isValidChar then some (.glyph ⟨Char.ofNat code, isOctet⟩, rest) else none
  | none => none

theorem length_readCode {verbose isOctet : Bool} {digits : Nat} {atom : Atom}
    {text rest : List Char} (h : readCode verbose isOctet digits text = some (atom, rest)) :
    rest.length ≤ text.length := by
  unfold readCode at h
  split at h
  · rename_i read
    split at h
    · simp only [Option.some.injEq, Prod.mk.injEq] at h
      exact h.2 ▸ length_readHex read
    · simp at h
  · simp at h

/-- The control character that a letter stands for. -/
def control? : Char → Option Char
  | 'a' => some '\x07'
  | 'f' => some '\x0c'
  | 't' => some '\t'
  | 'n' => some '\n'
  | 'r' => some '\r'
  | 'v' => some '\x0b'
  | _ => none

/-- What a character stands for behind a backslash, if it stands for something by itself. Numbers
would be references to groups, which are not supported. -/
def escaped? (c : Char) : Option Atom :=
  if c ∈ ['d', 's', 'w'] then some (.shorthand false)
  else if c ∈ ['D', 'S', 'W'] then some (.shorthand true)
  else if c ∈ ['A', 'z'] then some .edge
  else if c ∈ ['b', 'B', '<', '>'] then some .wordEdge
  else if c.toNat < 0x80 ∧ ¬c.isAlphanum then some (.glyph ⟨c, false⟩)
  else (control? c).map fun control => .glyph ⟨control, false⟩

/-- Reads what stands behind a backslash. Properties of Unicode would take tables; a brace cannot be
closed, as that would close the field that the pattern is of. -/
def readEscape (verbose : Bool) : List Char → Option (Atom × List Char)
  | [] => none
  | 'x' :: rest => readCode verbose true 2 rest
  | 'u' :: rest => readCode verbose false 4 rest
  | 'U' :: rest => readCode verbose false 8 rest
  | 'b' :: '\x7b' :: _ => none
  | c :: rest => (escaped? c).map fun atom => (atom, rest)

theorem length_readEscape {verbose : Bool} {atom : Atom} {text rest : List Char}
    (h : readEscape verbose text = some (atom, rest)) : rest.length < text.length := by
  unfold readEscape at h
  split at h
  case h_2 | h_3 | h_4 =>
    have := length_readCode h
    simp only [List.length_cons]; omega
  case h_6 =>
    simp [eq_of_map_pair h]
  all_goals simp at h

example : readEscape false ['x', '4', '1', 'b'] = some (.glyph ⟨'A', true⟩, ['b']) := by decide
example : readEscape true ['u', '0', '0', ' ', 'e', '9'] = some (.glyph ⟨'é', false⟩, []) := by
  decide
example : readEscape false ['q'] = none := by decide

end TensorGraph.Pattern
