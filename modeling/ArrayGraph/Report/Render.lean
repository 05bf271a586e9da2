import ArrayGraph.Function.Error
import ArrayGraph.Report.Wrap

/-!
# Error reports

A report is meant for a terminal: a coloured title between dashes, a coloured subject, and a message
wrapped to the width of the title.
-/

namespace ArrayGraph

/-- What to tell of an error. -/
structure Report where
  title : String
  subject : Option String
  message : Option String
deriving DecidableEq, Repr

namespace Report

/-- How many columns a report takes. -/
def columns : Nat := 60

/-- How many dashes stand before the title. -/
def leadingDashes : Nat := 10

/-- A text under a terminal style. -/
def styled (codes : String) (text : String) : String := "\x1b[" ++ codes ++ "m" ++ text ++ "\x1b[0m"

/-- A row of dashes. -/
def dashes (count : Nat) : String := String.ofList (List.replicate count '-')

/-- The line of the title, filled with dashes. -/
def titleLine (title : String) : String :=
  dashes leadingDashes ++ " " ++ title ++ " " ++
    dashes (columns - (2 + title.utf8ByteSize + leadingDashes))

/-- A line without the carriage return that may stand before its line break. -/
def dropCarriageReturn (line : String) : String :=
  if line.toList.getLast? = some '\r' then String.ofList line.toList.dropLast else line

/-- The lines of a text. A line break at the end starts no further line. -/
def linesOf (text : String) : List String :=
  let parts := text.splitOn "\n"
  parts.dropLast.map dropCarriageReturn ++ parts.getLast?.toList.filter (· ≠ "")

/-- The text of a report. -/
def render (report : Report) : String :=
  let subject := match report.subject with
    | some text => styled "33" text ++ "\n"
    | none => ""
  let message := match report.message with
    | some text =>
      "\n" ++ String.join (((linesOf text).flatMap (wrapLine columns)).map (· ++ "\n"))
    | none => ""
  "\n" ++ styled "1;34" (titleLine report.title) ++ "\n" ++ subject ++ message ++ "\n"

end Report

namespace FunctionError

/-- The title under which an error is reported. -/
def title : FunctionError → String
  | .duplicateInput _ _ | .invalidInput _ _ | .updateOnNonShared _ | .updateTypeMismatch _ _ _
  | .duplicateUpdate _ => "Invalid Function Signature"
  | .unusedInput _ _ => "Unused Input"
  | .argumentCount _ _ | .argumentType _ _ _ => "Bad Argument"
  | .container _ => "Shared Value"
  | .graph _ => "Invalid Graph"
  | .optimize (.alias _) | .alias _ => "Aliased Memory"
  | .optimize _ => "Rewrite Failed"
  | .mode _ => "Unknown Mode"
  | .run _ => "Runtime Error"

/-- What can be done about an error. -/
def hint : FunctionError → Option String
  | .unusedInput _ _ =>
    some ("Remove the input from the signature, or compile with\n\n" ++
      "  on_unused_input: OnUnusedInput::Warn\n\nto accept it.\n")
  | .alias (.inPlaceNotAccepted _ _) =>
    some "Set accept_inplace to compile graphs that already contain destructive operations."
  | .alias (.protectedStorage _ _ _ _) =>
    some "Only inputs declared mutable and shared values with an update may be overwritten."
  | .container (.released _) =>
    some "A released shared value cannot be read or updated again."
  | _ => none

/-- The report of an error. -/
def report (error : FunctionError) : Report :=
  ⟨error.title, some error.message, error.hint⟩

/-- The status that a program ends with after an error. -/
def exitStatus (_error : FunctionError) : Nat := 1

end FunctionError

end ArrayGraph
