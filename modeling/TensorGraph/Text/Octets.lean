/-! Places in a text, counted in the octets of its UTF-8 form. A place inside a character is none. -/
namespace TensorGraph.Text

/-- How many octets a text takes. -/
def octetCount : List Char → Nat
  | [] => 0
  | c :: rest => c.utf8Size + octetCount rest

/-- A text in front of a place and behind it. -/
def splitAtOctet? : Nat → List Char → Option (List Char × List Char)
  | 0, text => some ([], text)
  | _ + 1, [] => none
  | place + 1, c :: rest =>
    if c.utf8Size ≤ place + 1 then
      (splitAtOctet? (place + 1 - c.utf8Size) rest).map fun (front, back) => (c :: front, back)
    else none

/-- The part of a text between two places. -/
def sliceOctets? (first last : Nat) (text : List Char) : Option (List Char) := do
  let (upTo, _) ← splitAtOctet? last text
  let (_, part) ← splitAtOctet? first upTo
  return part

example : sliceOctets? 1 4 ['[', '日', ']'] = some ['日'] := by decide
example : sliceOctets? 0 2 ['日', '['] = none := by decide

end TensorGraph.Text
