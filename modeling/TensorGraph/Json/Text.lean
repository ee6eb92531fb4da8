/-! Strings of JSON. Between its quotes a string is a run of octets and of escaped 16-bit units. It is text
when the units beyond the basic plane come in pairs and the whole is UTF-8; a string that is no text is
well formed all the same. -/
namespace TensorGraph.Json

/-- One element of a string: an octet, or a unit that was escaped by its number. -/
inductive Piece where
  | octet (value : UInt8)
  | unit (value : Nat)
  deriving DecidableEq

namespace Piece

def hexDigit? (octet : UInt8) : Option Nat :=
  if 0x30 ≤ octet ∧ octet ≤ 0x39 then some (octet.toNat - 0x30)
  else if 0x61 ≤ octet ∧ octet ≤ 0x66 then some (octet.toNat - 0x61 + 10)
  else if 0x41 ≤ octet ∧ octet ≤ 0x46 then some (octet.toNat - 0x41 + 10)
  else none

def hexUnit? (a b c d : UInt8) : Option Nat := do
  return ((← hexDigit? a) * 16 + (← hexDigit? b)) * 256 + (← hexDigit? c) * 16 + (← hexDigit? d)

/-- The octet that a letter stands for behind a backslash. -/
def escaped? : UInt8 → Option UInt8
  | 0x22 => some 0x22
  | 0x5c => some 0x5c
  | 0x2f => some 0x2f
  | 0x62 => some 0x08
  | 0x66 => some 0x0c
  | 0x6e => some 0x0a
  | 0x72 => some 0x0d
  | 0x74 => some 0x09
  | _ => none

/-- The pieces up to the closing quote and what follows it, behind the pieces found before. Control
characters have to be escaped. -/
def scan (found : List Piece) : List UInt8 → Option (List Piece × List UInt8)
  | 0x22 :: rest => some (found.reverse, rest)
  | 0x5c :: 0x75 :: a :: b :: c :: d :: rest =>
    match hexUnit? a b c d with
    | some value => scan (.unit value :: found) rest
    | none => none
  | 0x5c :: letter :: rest =>
    match escaped? letter with
    | some value => scan (.octet value :: found) rest
    | none => none
  | value :: rest =>
    if value < 0x20 ∨ value = 0x5c then none else scan (.octet value :: found) rest
  | [] => none

/-- A string takes at least its closing quote. -/
theorem length_scan {found pieces : List Piece} {octets rest : List UInt8}
    (h : scan found octets = some (pieces, rest)) : rest.length < octets.length := by
  fun_induction scan found octets with
  | case1 => simp_all
  | case2 _ _ _ _ _ _ _ _ ih => have := ih h; simp only [List.length_cons]; omega
  | case3 => simp at h
  | case4 _ _ _ _ _ _ ih => have := ih h; simp only [List.length_cons]; omega
  | case5 => simp at h
  | case6 => simp at h
  | case7 _ _ _ _ _ _ _ ih => have := ih h; simp only [List.length_cons]; omega
  | case8 => simp at h

def isLeading (value : Nat) : Bool := 0xd800 ≤ value && value ≤ 0xdbff
def isTrailing (value : Nat) : Bool := 0xdc00 ≤ value && value ≤ 0xdfff

/-- The code point of a leading and a trailing unit. -/
def paired (high low : Nat) : Nat := (high - 0xd800) * 0x400 + (low - 0xdc00) + 0x10000

def encoded (code : Nat) : List UInt8 := String.utf8EncodeChar (Char.ofNat code)

/-- The octets of the pieces behind octets found before, unless a unit is left without its partner.
The octets found before are in reverse. -/
def octets? (found : List UInt8) : List Piece → Option (List UInt8)
  | [] => some found.reverse
  | .octet value :: rest => octets? (value :: found) rest
  | .unit high :: .unit low :: rest =>
    if isLeading high then
      if isTrailing low then octets? ((encoded (paired high low)).reverse ++ found) rest else none
    else if isTrailing high then none
    else octets? ((encoded high).reverse ++ found) (.unit low :: rest)
  | .unit value :: rest =>
    if isLeading value || isTrailing value then none
    else octets? ((encoded value).reverse ++ found) rest

/-- The text of a string's pieces, if it is one. -/
def text? (pieces : List Piece) : Option String := do
  let octets ← octets? [] pieces
  String.fromUTF8? ⟨octets.toArray⟩

end Piece
end TensorGraph.Json
