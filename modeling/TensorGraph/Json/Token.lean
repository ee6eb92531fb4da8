import TensorGraph.Json.Number
import TensorGraph.Json.Text

/-! Tokens of JSON text. Blanks between tokens mean nothing; what begins no token is unreadable. -/
namespace TensorGraph.Json

/-- A string that is no text is kept as absent. -/
inductive Token where
  | openBrace | closeBrace | openBracket | closeBracket | comma | colon
  | null
  | boolean (value : Bool)
  | number (literal : Literal)
  | string (text : Option String)
  | unreadable
  deriving DecidableEq

namespace Token

def isBlank (octet : UInt8) : Bool :=
  octet = 0x20 || octet = 0x09 || octet = 0x0a || octet = 0x0d

/-- A token that begins with a given octet, and what follows it. -/
def scan (octet : UInt8) (rest : List UInt8) : Option (Token × List UInt8) :=
  match octet with
  | 0x7b => some (openBrace, rest)
  | 0x7d => some (closeBrace, rest)
  | 0x5b => some (openBracket, rest)
  | 0x5d => some (closeBracket, rest)
  | 0x2c => some (comma, rest)
  | 0x3a => some (colon, rest)
  | 0x22 => (Piece.scan [] rest).map fun (pieces, rest) => (string (Piece.text? pieces), rest)
  | 0x6e => match rest with
    | 0x75 :: 0x6c :: 0x6c :: rest => some (null, rest)
    | _ => none
  | 0x74 => match rest with
    | 0x72 :: 0x75 :: 0x65 :: rest => some (boolean true, rest)
    | _ => none
  | 0x66 => match rest with
    | 0x61 :: 0x6c :: 0x73 :: 0x65 :: rest => some (boolean false, rest)
    | _ => none
  | _ => (Literal.scan (octet :: rest)).map fun (literal, rest) => (number literal, rest)

/-- The first token and what follows it; nothing follows an unreadable one. -/
def next? (octets : List UInt8) : Option (Token × List UInt8) :=
  match octets.dropWhile isBlank with
  | [] => none
  | octet :: rest => some ((scan octet rest).getD (unreadable, []))

theorem length_scan {octet : UInt8} {rest after : List UInt8} {token : Token}
    (h : scan octet rest = some (token, after)) : after.length ≤ rest.length := by
  unfold scan at h
  split at h
  case h_7 =>
    obtain ⟨⟨_, _⟩, found, same⟩ := Option.map_eq_some_iff.mp h
    have := Piece.length_scan found
    simp only [Prod.mk.injEq] at same
    rw [← same.2]; omega
  case h_11 =>
    obtain ⟨⟨_, _⟩, found, same⟩ := Option.map_eq_some_iff.mp h
    have := Literal.length_scan found
    simp only [Prod.mk.injEq] at same
    simp only [List.length_cons] at this
    rw [← same.2]; omega
  case h_8 | h_9 | h_10 => split at h <;> simp_all; omega
  all_goals simp_all

/-- Every token takes at least one octet. -/
theorem length_next? {octets rest : List UInt8} {token : Token}
    (h : next? octets = some (token, rest)) : rest.length < octets.length := by
  unfold next? at h
  have shorter := (List.dropWhile_sublist isBlank (l := octets)).length_le
  split at h
  · simp at h
  · rename_i octet behind front
    rw [front, List.length_cons] at shorter
    rw [Option.some.injEq] at h
    cases found : scan octet behind with
    | none => simp_all; omega
    | some pair =>
      obtain ⟨_, after⟩ := pair
      have := length_scan found
      simp_all; omega

end Token
end TensorGraph.Json
