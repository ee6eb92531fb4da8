/-! Texts made of lines, columns and lists. -/
namespace TensorGraph.Text

/-- A text filled up with blanks to a width in code points; longer texts stay as they are. -/
def padded (width : Nat) (text : String) : String :=
  text ++ String.ofList (List.replicate (width - text.length) ' ')

def commaList (texts : List String) : String := ", ".intercalate texts

/-- Lines, each with its end. -/
def unlines (lines : List String) : String := String.join (lines.map (· ++ "\n"))

example : unlines [padded 3 "é", commaList ["a", "b"]] = "é  \na, b\n" := by decide +kernel

end TensorGraph.Text
