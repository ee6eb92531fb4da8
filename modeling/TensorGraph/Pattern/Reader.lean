import TensorGraph.Pattern.ClassReader
import TensorGraph.Text.Alphanumeric

/-! Patterns from their text, from left to right. A pattern may become verbose, and stop being so,
within itself; a group ends what it began. Names of groups are given once in a whole pattern. -/
namespace TensorGraph.Pattern

inductive Token where
  | switches (s : Switches)
  | openGroup (s : Switches) (name : Option String)
  | closeGroup
  | bar
  | repetition
  | charClass (c : CharClass)
  | atom (a : Atom)

/-- A sequence of one part is that part. -/
def ofParts : List Pattern → Pattern
  | [part] => part
  | parts => .sequence parts

/-- Letters behind a question mark: what is on from here, or in the group that begins, and behind a
dash what is off. None is given twice, and something follows a dash. -/
def readSwitches (on afterDash : Bool) (done : Switches) : List Char → Option (Token × List Char)
  | [] => none
  | ':' :: rest => if afterDash then none else some (.openGroup done none, rest)
  | ')' :: rest => if afterDash || done.isEmpty then none else some (.switches done, rest)
  | '-' :: rest => if on then readSwitches false true done rest else none
  | c :: rest =>
    match Switch.ofLetter? c with
    | some switch =>
      if (done.lookup switch).isSome then none
      else readSwitches on false ((switch, on) :: done) rest
    | none => none

theorem length_readSwitches {on afterDash : Bool} {done : Switches} {token : Token}
    {text rest : List Char} (h : readSwitches on afterDash done text = some (token, rest)) :
    rest.length < text.length := by
  fun_induction readSwitches on afterDash done text <;> grind

def isName : List Char → Bool
  | [] => false
  | c :: rest =>
    (c = '_' || Text.isAlphabetic c) &&
      rest.all fun c => c ∈ ['_', '.', '[', ']'] || Text.isAlphanumeric c

/-- A group with a name, up to the bracket that closes the name. -/
def readNamedGroup (text : List Char) : Option (Token × List Char) :=
  let name := text.takeWhile (· ≠ '>')
  match text.dropWhile (· ≠ '>') with
  | _ :: rest =>
    if isName name then some (.openGroup [] (some (String.ofList name)), rest) else none
  | [] => none

theorem length_readNamedGroup {token : Token} {text rest : List Char}
    (h : readNamedGroup text = some (token, rest)) : rest.length ≤ text.length := by
  have := (List.dropWhile_sublist (· ≠ '>') (l := text)).length_le
  unfold readNamedGroup at h
  grind

/-- What begins with an opening parenthesis. No group looks around. -/
def readGroup (verbose : Bool) (text : List Char) : Option (Token × List Char) :=
  match skip verbose text with
  | '?' :: 'P' :: '<' :: rest | '?' :: '<' :: rest => readNamedGroup rest
  | '?' :: rest => readSwitches true false [] rest
  | rest => some (.openGroup [] none, rest)

theorem length_readGroup {verbose : Bool} {token : Token} {text rest : List Char}
    (h : readGroup verbose text = some (token, rest)) : rest.length ≤ text.length := by
  have skipped := length_skip verbose text
  unfold readGroup at h
  split at h
  all_goals rename_i front
  · have := length_readNamedGroup h
    rw [front] at skipped; grind
  · have := length_readNamedGroup h
    rw [front] at skipped; grind
  · have := length_readSwitches h
    rw [front] at skipped; grind
  · grind

/-- What a pattern goes on with. A repetition may be marked as one that takes little; the braces of a
counted one cannot be closed, as that would close the field that the pattern is of. -/
def next? (verbose : Bool) : List Char → Option (Token × List Char)
  | [] => none
  | '(' :: rest => readGroup verbose rest
  | ')' :: rest => some (.closeGroup, rest)
  | '|' :: rest => some (.bar, rest)
  | '[' :: rest => (readClass verbose rest).map fun (c, rest) => (.charClass c, rest)
  | '?' :: '?' :: rest | '*' :: '?' :: rest | '+' :: '?' :: rest
  | '?' :: rest | '*' :: rest | '+' :: rest => some (.repetition, rest)
  | '\x7b' :: _ => none
  | '\\' :: rest => (readEscape verbose rest).map fun (a, rest) => (.atom a, rest)
  | '.' :: rest => some (.atom .any, rest)
  | '^' :: rest | '$' :: rest => some (.atom .edge, rest)
  | c :: rest => some (.atom (.glyph ⟨c, false⟩), rest)

theorem length_next? {verbose : Bool} {token : Token} {text rest : List Char}
    (h : next? verbose text = some (token, rest)) : rest.length < text.length := by
  unfold next? at h
  split at h
  case h_2 => exact Nat.lt_succ_of_le (length_readGroup h)
  case h_5 =>
    obtain ⟨⟨_, _⟩, read, same⟩ := Option.map_eq_some_iff.mp h
    have := length_readClass read
    simp only [Prod.mk.injEq] at same
    rw [← same.2, List.length_cons]; omega
  case h_13 =>
    obtain ⟨⟨_, _⟩, read, same⟩ := Option.map_eq_some_iff.mp h
    have := length_readEscape read
    simp only [Prod.mk.injEq] at same
    rw [← same.2, List.length_cons]; omega
  all_goals grind

/-- What is read inside of a group, or of the whole pattern: branches, and the parts of the last one,
both in reverse. -/
structure Level where
  branches : List Pattern := []
  parts : List Pattern := []

namespace Level

def push (l : Level) (part : Pattern) : Level := { l with parts := part :: l.parts }

def branch (l : Level) : Pattern := ofParts l.parts.reverse

def divide (l : Level) : Level := { branches := l.branch :: l.branches }

def pattern (l : Level) : Pattern :=
  if l.branches.isEmpty then l.branch else .choice (l.branch :: l.branches).reverse

/-- Repeats the last part, if there is one. -/
def repeatLast? (l : Level) : Option Level :=
  match l.parts with
  | [] | .switches _ :: _ => none
  | part :: parts => some { l with parts := .repetition part :: parts }

end Level

/-- A group that is not closed yet: what it is in, and what it turns on and off. -/
structure OpenGroup where
  outer : Level
  switches : Switches
  wasVerbose : Bool

/-- How far a pattern has been read. -/
structure Reading where
  level : Level := {}
  groups : List OpenGroup := []
  verbose : Bool := false
  names : List String := []

namespace Reading

def push (r : Reading) (part : Pattern) : Reading := { r with level := r.level.push part }

def turnVerbose (r : Reading) (s : Switches) : Reading :=
  { r with verbose := (s.lookup .verbose).getD r.verbose }

def openGroup (r : Reading) (s : Switches) : Reading :=
  { r with
    level := {}
    groups := { outer := r.level, switches := s, wasVerbose := r.verbose } :: r.groups }

def step? (r : Reading) : Token → Option Reading
  | .switches s => some ((r.push (.switches s)).turnVerbose s)
  | .openGroup s none => some ((r.openGroup s).turnVerbose s)
  | .openGroup s (some name) =>
    if name ∈ r.names then none
    else some { (r.openGroup s).turnVerbose s with names := name :: r.names }
  | .closeGroup =>
    match r.groups with
    | [] => none
    | inner :: outer =>
      some { r with
        level := inner.outer.push (.group inner.switches r.level.pattern)
        groups := outer
        verbose := inner.wasVerbose }
  | .bar => some { r with level := r.level.divide }
  | .repetition => r.level.repeatLast?.map fun level => { r with level }
  | .charClass c => some (r.push (.charClass c))
  | .atom a => some (r.push (.atom a))

/-- The whole pattern, when no group is open. -/
def pattern? (r : Reading) : Option Pattern :=
  if r.groups.isEmpty then some r.level.pattern else none

/-- Reads a text to its end. -/
def read (r : Reading) (text : List Char) : Option Pattern :=
  match _found : next? r.verbose (skip r.verbose text) with
  | none => if (skip r.verbose text).isEmpty then r.pattern? else none
  | some (token, rest) =>
    match r.step? token with
    | none => none
    | some r => r.read rest
  termination_by text.length
  decreasing_by exact Nat.lt_of_lt_of_le (length_next? (by assumption)) (length_skip ..)

end Reading

/-- The pattern of a text. -/
def ofText? (text : List Char) : Option Pattern := ({} : Reading).read text

/-- Whether a text is a pattern that can be matched. -/
def isValid (text : List Char) : Bool := (ofText? text).any isPlain

example : isValid "(?<n>a|[^b]+)*".toList = true := by decide +kernel
example : isValid "(?-u:[\\d_])".toList = true ∧ isValid "[\\d_]".toList = false := by
  decide +kernel
example : isValid "(?i)[[^&&]\\x00-\\U0010FFFF]".toList = true ∧ isValid "(?i)[a]".toList = false := by
  decide +kernel
example : isValid "a(?x) b # )".toList = true ∧ isValid "a b # )".toList = false := by
  decide +kernel

end TensorGraph.Pattern
