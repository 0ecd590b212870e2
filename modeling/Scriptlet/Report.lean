import Scriptlet.Error
import Scriptlet.Text.Blank
import Scriptlet.Text.Lines

/-!
# Error reports

How an error is shown on a terminal: its name and tip, the file and, if the text
is wrong, the line in question with a mark under the place.
-/

namespace Scriptlet.Report

/-- The first two lines of a report. -/
def heading (e : Error) (file : String) : String :=
  let tip :=
    match e.tip? with
    | none => ""
    | some tip => " (" ++ tip ++ ")"
  "Error: " ++ e.name ++ tip ++ "\n-> " ++ file ++ "\n"

/-- Blanks and tabs at the start of a line are not shown. -/
def isIndent (c : Char) : Bool := c == ' ' || c == '\t'

/-- The line at a place, between rules, with a mark under the place. The mark
counts bytes, less those that are not shown. -/
def excerpt (place : Text.Place) : String :=
  let number := Nat.repr place.number
  let margin := String.ofList (List.replicate (number.length + 1) ' ') ++ "|"
  let hidden := (place.text.takeWhile isIndent).length
  let shown := String.ofList (Text.trimEnd (place.text.dropWhile isIndent))
  let dashes := String.ofList (List.replicate (place.column - hidden) '-')
  margin ++ "\n" ++ number ++ " | " ++ shown ++ "\n" ++ margin ++ " " ++ dashes ++ "^\n"

/-- The report of an error in a source. An error past the end of the source is
shown one past its last line. -/
def render (e : Error) (source file : String) : String :=
  match e.position? with
  | none => heading e file
  | some position =>
    let text := source.toList
    let place := (Text.placeAt text position.offset.toNat).getD (Text.endPlace text)
    heading e file ++ excerpt place

end Scriptlet.Report
