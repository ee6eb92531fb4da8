import TensorGraph.Json.Token

/-! JSON text as a tree. Reading goes on past nothing: where the text stops making sense the tree is
closed with a broken mark, and so is every container around it. What was written in front of the mark
stays in the tree, so that a reader of the tree meets what is wrong in the order of the text. -/
namespace TensorGraph.Json

/-- A value as it was written: numbers may be too great, strings may be no text. -/
inductive Tree where
  | null
  | boolean (value : Bool)
  | number (literal : Literal)
  | string (text : Option String)
  | array (items : List Tree)
  | object (members : List (Option String × Tree))
  | broken
  deriving Inhabited

/-- A name that is no text is kept as absent. -/
abbrev Member := Option String × Tree

/-- A container that waits for its next value; what it holds so far is in reverse. -/
inductive Frame where
  | array (done : List Tree)
  | object (done : List Member) (key : Option String)

/-- How far the reading of a text has come, inside the containers that are still open. -/
inductive Progress where
  | beforeValue (outer : List Frame)
  | firstItem (outer : List Frame)
  | afterItem (done : List Tree) (outer : List Frame)
  | firstKey (outer : List Frame)
  | nextKey (done : List Member) (outer : List Frame)
  | afterKey (done : List Member) (key : Option String) (outer : List Frame)
  | afterMember (done : List Member) (outer : List Frame)
  | whole (tree : Tree)
  | beyond (tree : Tree)
  | cut (tree : Tree)

namespace Progress

/-- Hands a complete value to the container that waits for it. -/
def deliver (tree : Tree) : List Frame → Progress
  | [] => whole tree
  | .array done :: outer => afterItem (tree :: done) outer
  | .object done name :: outer => afterMember ((name, tree) :: done) outer

/-- The value that a token begins, if it begins one. -/
def begin? (outer : List Frame) : Token → Option Progress
  | .openBrace => some (firstKey outer)
  | .openBracket => some (firstItem outer)
  | .null => some (deliver .null outer)
  | .boolean truth => some (deliver (.boolean truth) outer)
  | .number literal => some (deliver (.number literal) outer)
  | .string text => some (deliver (.string text) outer)
  | _ => none

/-- The mark of an object that goes on with no member. -/
def brokenMember : Member := (none, .broken)

/-- Closes the open containers around a value that was cut, each with a mark of its own. -/
def close (tree : Tree) : List Frame → Tree
  | [] => tree
  | .array done :: outer => close (.array (.broken :: tree :: done).reverse) outer
  | .object done name :: outer => close (.object (brokenMember :: (name, tree) :: done).reverse) outer

/-- The tree of a text that goes no further. -/
def tree : Progress → Tree
  | beforeValue outer => close .broken outer
  | firstItem outer => close (.array [.broken]) outer
  | afterItem done outer => close (.array (.broken :: done).reverse) outer
  | firstKey outer => close (.object [brokenMember]) outer
  | nextKey done outer => close (.object (brokenMember :: done).reverse) outer
  | afterKey done name outer => close (.object (brokenMember :: (name, .broken) :: done).reverse) outer
  | afterMember done outer => close (.object (brokenMember :: done).reverse) outer
  | whole tree | beyond tree | cut tree => tree

def step (p : Progress) (token : Token) : Progress :=
  match p, token with
  | beforeValue outer, token => (begin? outer token).getD (cut p.tree)
  | firstItem outer, .closeBracket => deliver (.array []) outer
  | firstItem outer, token => (begin? (.array [] :: outer) token).getD (cut p.tree)
  | afterItem done outer, .comma => beforeValue (.array done :: outer)
  | afterItem done outer, .closeBracket => deliver (.array done.reverse) outer
  | firstKey outer, .closeBrace => deliver (.object []) outer
  | firstKey outer, .string text => afterKey [] text outer
  | nextKey done outer, .string text => afterKey done text outer
  | afterKey done name outer, .colon => beforeValue (.object done name :: outer)
  | afterMember done outer, .comma => nextKey done outer
  | afterMember done outer, .closeBrace => deliver (.object done.reverse) outer
  | whole tree, _ => beyond tree
  | beyond tree, _ => beyond tree
  | p, _ => cut p.tree

/-- Reads all tokens of a text. -/
def read (p : Progress) (octets : List UInt8) : Progress :=
  match _found : Token.next? octets with
  | none => p
  | some (token, rest) => (p.step token).read rest
  termination_by octets.length
  decreasing_by exact Token.length_next? (by assumption)

end Progress

/-- A text: its first value, and whether anything but blanks follows it. -/
structure Document where
  tree : Tree
  trailing : Bool

def Document.ofOctets (octets : List UInt8) : Document :=
  let p := (Progress.beforeValue []).read octets
  { tree := p.tree, trailing := p matches .beyond _ }

end TensorGraph.Json
