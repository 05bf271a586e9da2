/-!
# Text of lists

Messages show shapes and lists of shapes in brackets, separated by a comma and a blank.
-/

namespace ArrayGraph.Text

/-- Items separated by a comma and a blank. -/
def commaSeparated (items : List String) : String := ", ".intercalate items

/-- Items in square brackets. -/
def bracketed (items : List String) : String := "[" ++ commaSeparated items ++ "]"

/-- Items in braces. -/
def braced (items : List String) : String := "\x7b" ++ commaSeparated items ++ "\x7d"

/-- A concrete shape, as in `[2, 3]`. -/
def shape (dimensions : List Nat) : String := bracketed (dimensions.map toString)

/-- A list of concrete shapes, as in `[[2], [3]]`. -/
def shapes (all : List (List Nat)) : String := bracketed (all.map shape)

/-- A text in single quotes. -/
def quoted (text : String) : String := "'" ++ text ++ "'"

end ArrayGraph.Text
