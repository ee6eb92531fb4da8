/-! Patterns: regular expressions over the text of a value. A pattern is kept as far as it decides
whether it can be matched without tables of Unicode, on whole characters. -/
namespace TensorGraph

/-- What a pattern may turn on and off within itself. -/
inductive Switch where
  | ignoreCase | multiLine | dotAll | swapGreed | unicode | carriageReturn | verbose
  deriving DecidableEq

def Switch.ofLetter? : Char → Option Switch
  | 'i' => some ignoreCase
  | 'm' => some multiLine
  | 's' => some dotAll
  | 'U' => some swapGreed
  | 'u' => some unicode
  | 'R' => some carriageReturn
  | 'x' => some verbose
  | _ => none

abbrev Switches := List (Switch × Bool)

/-- A character of a pattern; as an octet it is written with \x and two digits. -/
structure Glyph where
  char : Char
  isOctet : Bool := false
  deriving DecidableEq

/-- What stands for one character, or for a place between characters. -/
inductive Atom where
  | glyph (g : Glyph)
  | any
  | edge
  | wordEdge
  | shorthand (negated : Bool)
  deriving DecidableEq

/-- How two sets of characters make one. -/
inductive Combination where
  | intersection | difference | symmetricDifference
  deriving DecidableEq

/-- A set of characters; the names of classes do not matter here. -/
inductive CharClass where
  | glyph (g : Glyph)
  | range (first last : Glyph)
  | named (negated : Bool)
  | shorthand (negated : Bool)
  | bracket (negated : Bool) (inner : CharClass)
  | union (parts : List CharClass)
  | combination (kind : Combination) (left right : CharClass)

inductive Pattern where
  | switches (s : Switches)
  | atom (a : Atom)
  | charClass (c : CharClass)
  | repetition (p : Pattern)
  | group (s : Switches) (inner : Pattern)
  | sequence (parts : List Pattern)
  | choice (branches : List Pattern)

/-! How deep a pattern is nested: everything that holds a part counts, but not what holds none. -/

/-- A depth around parts of a given depth. -/
def depthAround (parts : Option Nat) : Nat := parts.elim 0 (· + 1)

mutual

def CharClass.depth : CharClass → Nat
  | .bracket _ inner => inner.depth + 1
  | .union parts => depthAround (CharClass.greatestDepth? parts)
  | .combination _ left right => max left.depth right.depth + 1
  | .glyph _ | .range _ _ | .named _ | .shorthand _ => 0

def CharClass.greatestDepth? : List CharClass → Option Nat
  | [] => none
  | part :: parts => some (max part.depth ((CharClass.greatestDepth? parts).getD 0))

end

mutual

def Pattern.depth : Pattern → Nat
  | .switches _ | .atom _ => 0
  | .charClass c => c.depth
  | .repetition p => p.depth + 1
  | .group _ inner => inner.depth + 1
  | .sequence parts | .choice parts => depthAround (Pattern.greatestDepth? parts)

def Pattern.greatestDepth? : List Pattern → Option Nat
  | [] => none
  | part :: parts => some (max part.depth ((Pattern.greatestDepth? parts).getD 0))

end

/-- How characters are read at a place of a pattern. -/
structure Mode where
  ignoreCase : Bool := false
  unicode : Bool := true
  deriving DecidableEq

def Mode.turn (m : Mode) (s : Switches) : Mode where
  ignoreCase := (s.lookup .ignoreCase).getD m.ignoreCase
  unicode := (s.lookup .unicode).getD m.unicode

def Glyph.isAscii (g : Glyph) : Bool := g.char.toNat < 0x80

/-- Ignoring case takes a table beyond ASCII; an octet beyond ASCII is no character. -/
def Glyph.isPlain (m : Mode) (g : Glyph) : Bool :=
  if m.unicode then !m.ignoreCase else !g.isOctet || g.isAscii

/-- Shorthands and words take tables, unless they are of ASCII. What is not in an ASCII shorthand is
octets, as is any octet, and those are not whole characters. -/
def Atom.isPlain (m : Mode) : Atom → Bool
  | glyph g => g.isPlain m
  | any => m.unicode
  | edge => true
  | wordEdge => !m.unicode
  | shorthand negated => !m.unicode && !negated

mutual

/-- Whether a class takes no table where case counts. Without Unicode a class is of ASCII, and so it is
nowhere negated. -/
def CharClass.isPlain (unicode : Bool) : CharClass → Bool
  | .glyph g => unicode || g.isAscii
  | .range first last => unicode || first.isAscii && last.isAscii
  | .named negated => unicode || !negated
  | .shorthand negated => !unicode && !negated
  | .bracket negated inner => inner.isPlain unicode && (unicode || !negated)
  | .union parts => CharClass.arePlain unicode parts
  | .combination _ left right => left.isPlain unicode && right.isPlain unicode

def CharClass.arePlain (unicode : Bool) : List CharClass → Bool
  | [] => true
  | part :: parts => part.isPlain unicode && CharClass.arePlain unicode parts

end

/-- Whether a range holds every character. -/
def isWholeRange (first last : Glyph) : Bool :=
  first.char.toNat = 0 && last.char.toNat = 0x10ffff

/-- What a combination makes of two sets that hold all characters or none. -/
def Combination.ofWhole : Combination → Bool → Bool → Bool
  | intersection, left, right => left && right
  | difference, left, right => left && !right
  | symmetricDifference, left, right => left != right

mutual

/-- A class where case is ignored, added to a set of characters. Without tables only the sets of all
characters and of none, here true and false, are known to hold each of their characters in both cases.
They are made from none; to write out all characters changes nothing where all are there already. -/
def CharClass.addCaseless? (whole : Bool) : CharClass → Option Bool
  | .glyph _ | .named _ | .shorthand _ => none
  | .range first last => if whole && isWholeRange first last then some true else none
  | .bracket negated inner => (inner.addCaseless? false).map fun inner => whole || inner != negated
  | .union parts => CharClass.addAllCaseless? whole parts
  | .combination kind left right =>
    (left.addCaseless? false).bind fun left =>
      (right.addCaseless? false).map fun right => whole || kind.ofWhole left right

def CharClass.addAllCaseless? (whole : Bool) : List CharClass → Option Bool
  | [] => some whole
  | part :: parts => (part.addCaseless? whole).bind fun whole => CharClass.addAllCaseless? whole parts

end

def CharClass.isPlainIn (m : Mode) (c : CharClass) : Bool :=
  if m.unicode && m.ignoreCase then (c.addCaseless? false).isSome else c.isPlain m.unicode

mutual

/-- The mode behind a pattern that takes no tables. What a group turns is turned back behind it. -/
def Pattern.modeBehind? (m : Mode) : Pattern → Option Mode
  | .switches s => some (m.turn s)
  | .atom a => if a.isPlain m then some m else none
  | .charClass c => if c.isPlainIn m then some m else none
  | .repetition p => p.modeBehind? m
  | .group s inner => (inner.modeBehind? (m.turn s)).map fun _ => m
  | .sequence parts | .choice parts => Pattern.modeBehindAll? m parts

def Pattern.modeBehindAll? (m : Mode) : List Pattern → Option Mode
  | [] => some m
  | part :: parts => (part.modeBehind? m).bind fun m => Pattern.modeBehindAll? m parts

end

namespace Pattern

/-- The deepest nesting that is read. -/
def depthLimit : Nat := 250

/-- Whether a pattern can be matched on whole characters without tables of Unicode. -/
def isPlain (p : Pattern) : Bool := p.depth ≤ depthLimit && (p.modeBehind? {}).isSome

end Pattern
end TensorGraph
