import TensorGraph.Pattern.Escape

/-! Classes of characters between brackets. A class may hold others and may be combined with others;
at its beginning a closing bracket and any number of dashes stand for themselves. -/
namespace TensorGraph
namespace CharClass

/-- Names of classes, between colons. -/
def names : List String :=
  ["alnum", "alpha", "ascii", "blank", "cntrl", "digit", "graph", "lower", "print", "punct",
   "space", "upper", "word", "xdigit"]

def ofParts : List CharClass → CharClass
  | [part] => part
  | parts => .union parts

end CharClass

/-- A class whose bracket is not closed yet. Its parts are in reverse; what they are combined with, and
how, stands to their left. -/
structure OpenClass where
  negated : Bool
  left : Option (CharClass × Combination) := none
  parts : List CharClass := []
  atStart : Bool := true

namespace OpenClass

/-- Behind a part a class is not at its start. -/
def push (o : OpenClass) (part : CharClass) : OpenClass :=
  { o with parts := part :: o.parts, atStart := false }

def inner (o : OpenClass) : CharClass :=
  let right := CharClass.ofParts o.parts.reverse
  match o.left with
  | none => right
  | some (left, kind) => .combination kind left right

/-- Combinations are made from left to right. -/
def combine (o : OpenClass) (kind : Combination) : OpenClass :=
  { o with left := some (o.inner, kind), parts := [], atStart := false }

def close (o : OpenClass) : CharClass := .bracket o.negated o.inner

end OpenClass

namespace Pattern

/-- A name behind an opening bracket, as in [:alpha:]. -/
def readName? (text : List Char) : Option (CharClass × List Char) :=
  match text with
  | ':' :: body =>
    let (negated, body) := match body with
      | '^' :: body => (true, body)
      | _ => (false, body)
    match body.dropWhile (· ≠ ':') with
    | ':' :: ']' :: rest =>
      if String.ofList (body.takeWhile (· ≠ ':')) ∈ CharClass.names then
        some (.named negated, rest)
      else none
    | _ => none
  | _ => none

theorem length_readName? {c : CharClass} {text rest : List Char}
    (h : readName? text = some (c, rest)) : rest.length ≤ text.length := by
  unfold readName? at h
  split at h
  · rename_i body
    split at h
    all_goals
      rename_i inner _
      have := (List.dropWhile_sublist (· ≠ ':') (l := inner)).length_le
      grind
  · simp at h

/-- One character or escape of a class. -/
def readUnit (verbose : Bool) : List Char → Option (Atom × List Char)
  | [] => none
  | '\\' :: rest => readEscape verbose rest
  | c :: rest => some (.glyph ⟨c, false⟩, rest)

theorem length_readUnit {verbose : Bool} {atom : Atom} {text rest : List Char}
    (h : readUnit verbose text = some (atom, rest)) : rest.length < text.length := by
  unfold readUnit at h
  split at h
  · simp at h
  · exact Nat.lt_trans (length_readEscape h) (Nat.lt_succ_self _)
  · simp_all

/-- A part of a class by itself. Places are no parts of classes. -/
def part? : Atom → Option CharClass
  | .glyph g => some (.glyph g)
  | .shorthand negated => some (.shorthand negated)
  | _ => none

def range? : Atom → Atom → Option CharClass
  | .glyph first, .glyph last => if first.char ≤ last.char then some (.range first last) else none
  | _, _ => none

/-- The next character behind blanks, where a comment counts for nothing but its mark. -/
def peek (verbose : Bool) (text : List Char) : Option Char :=
  if verbose then
    match text.dropWhile Text.isBlank with
    | '#' :: rest => (rest.dropWhile Text.isBlank).head?
    | rest => rest.head?
  else text.head?

/-- Reads one part of a class. A dash makes no range in front of a closing bracket or another dash. -/
def readPart (verbose : Bool) (text : List Char) : Option (CharClass × List Char) :=
  match readUnit verbose text with
  | none => none
  | some (first, rest) =>
    match skip verbose rest with
    | '-' :: behind =>
      if peek verbose behind ∈ [some ']', some '-'] then
        (part? first).map fun part => (part, '-' :: behind)
      else
        match readUnit verbose (skip verbose behind) with
        | none => none
        | some (last, rest) => (range? first last).map fun part => (part, rest)
    | rest => (part? first).map fun part => (part, rest)

theorem length_readPart {verbose : Bool} {part : CharClass} {text rest : List Char}
    (h : readPart verbose text = some (part, rest)) : rest.length < text.length := by
  unfold readPart at h
  split at h
  · simp at h
  · rename_i first after read
    have taken := length_readUnit read
    have skipped := length_skip verbose after
    split at h
    · rename_i behind front
      rw [front, List.length_cons] at skipped
      split at h
      · rw [← eq_of_map_pair h, List.length_cons]; omega
      · split at h
        · simp at h
        · rename_i second
          have := length_readUnit second
          have := length_skip verbose behind
          rw [← eq_of_map_pair h]; omega
    · rw [← eq_of_map_pair h]; omega

/-- What a class goes on with. A part may leave it at its start. -/
inductive ClassToken where
  | part (c : CharClass) (atStart : Bool)
  | combination (kind : Combination)
  | openBracket (negated : Bool)
  | closeBracket

/-- What follows an opening bracket: whether the class is negated. -/
def readNegation (verbose : Bool) (text : List Char) : Bool × List Char :=
  match skip verbose text with
  | '^' :: rest => (true, rest)
  | rest => (false, rest)

theorem length_readNegation (verbose : Bool) (text : List Char) :
    (readNegation verbose text).2.length ≤ text.length := by
  have := length_skip verbose text
  unfold readNegation
  split <;> simp_all
  omega

/-- What a class goes on with where no character stands for itself because of its place. -/
def classToken? (verbose : Bool) : List Char → Option (ClassToken × List Char)
  | '[' :: rest =>
    match readName? rest with
    | some (c, rest) => some (.part c false, rest)
    | none =>
      let (negated, rest) := readNegation verbose rest
      some (.openBracket negated, rest)
  | ']' :: rest => some (.closeBracket, rest)
  | '&' :: '&' :: rest => some (.combination .intersection, rest)
  | '-' :: '-' :: rest => some (.combination .difference, rest)
  | '~' :: '~' :: rest => some (.combination .symmetricDifference, rest)
  | text => (readPart verbose text).map fun (part, rest) => (.part part false, rest)

theorem length_classToken? {verbose : Bool} {token : ClassToken} {text rest : List Char}
    (h : classToken? verbose text = some (token, rest)) : rest.length < text.length := by
  unfold classToken? at h
  split at h
  case h_1 behind =>
    split at h
    · rename_i named
      have := length_readName? named
      grind
    · have := length_readNegation verbose behind
      simp only [Option.some.injEq, Prod.mk.injEq] at h
      rw [← h.2, List.length_cons]; omega
  case h_6 =>
    obtain ⟨⟨_, _⟩, read, same⟩ := Option.map_eq_some_iff.mp h
    simp only [Prod.mk.injEq] at same
    exact same.2 ▸ length_readPart read
  all_goals
    simp only [Option.some.injEq, Prod.mk.injEq] at h
    simp only [← h.2, List.length_cons]; omega

end Pattern

namespace OpenClass
open Pattern

def token? (verbose : Bool) (o : OpenClass) : List Char → Option (ClassToken × List Char)
  | [] => none
  | c :: rest =>
    if o.atStart ∧ c = '-' then some (.part (.glyph ⟨c, false⟩) true, rest)
    else if o.atStart ∧ o.parts.isEmpty ∧ c = ']' then
      some (.part (.glyph ⟨c, false⟩) false, rest)
    else classToken? verbose (c :: rest)

theorem length_token? {verbose : Bool} {o : OpenClass} {token : ClassToken}
    {text rest : List Char} (h : o.token? verbose text = some (token, rest)) :
    rest.length < text.length := by
  unfold token? at h
  split at h
  · simp at h
  · split at h
    · grind
    · split at h
      · grind
      · exact length_classToken? h

/-- Reads a class to the end of its bracket, behind the classes that it is in. -/
def read (verbose : Bool) (o : OpenClass) (outer : List OpenClass) (text : List Char) :
    Option (CharClass × List Char) :=
  match _found : o.token? verbose (skip verbose text) with
  | none => none
  | some (.part c atStart, rest) => read verbose { o.push c with atStart } outer rest
  | some (.combination kind, rest) => read verbose (o.combine kind) outer rest
  | some (.openBracket negated, rest) => read verbose { negated } (o :: outer) rest
  | some (.closeBracket, rest) =>
    match outer with
    | [] => some (o.close, rest)
    | parent :: outer => read verbose (parent.push o.close) outer rest
  termination_by text.length
  decreasing_by
    all_goals exact Nat.lt_of_lt_of_le (length_token? (by assumption)) (length_skip ..)

theorem length_read {verbose : Bool} {o : OpenClass} {outer : List OpenClass} {c : CharClass}
    {text rest : List Char} (h : o.read verbose outer text = some (c, rest)) :
    rest.length < text.length := by
  fun_induction read verbose o outer text with
  | case1 => simp at h
  | case2 _ _ _ _ _ _ found ih | case3 _ _ _ _ _ found ih | case4 _ _ _ _ _ found ih
  | case6 _ _ _ found _ _ ih =>
    exact Nat.lt_trans (ih h) (Nat.lt_of_lt_of_le (length_token? found) (length_skip ..))
  | case5 _ _ _ found =>
    simp only [Option.some.injEq, Prod.mk.injEq] at h
    exact h.2 ▸ Nat.lt_of_lt_of_le (length_token? found) (length_skip ..)

end OpenClass

namespace Pattern

/-- Reads a class behind its opening bracket. -/
def readClass (verbose : Bool) (text : List Char) : Option (CharClass × List Char) :=
  let (negated, text) := readNegation verbose text
  OpenClass.read verbose { negated } [] text

theorem length_readClass {verbose : Bool} {c : CharClass} {text rest : List Char}
    (h : readClass verbose text = some (c, rest)) : rest.length < text.length :=
  Nat.lt_of_lt_of_le (OpenClass.length_read h) (length_readNegation verbose text)

end Pattern
end TensorGraph
