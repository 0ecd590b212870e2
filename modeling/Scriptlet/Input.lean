import Scriptlet.Attempt
import Scriptlet.Error
import Scriptlet.Text.Blank
import Scriptlet.Text.Lines
import Scriptlet.Token.Lexeme

/-!
# Sources of input

A running program asks its input source for values of a type. There are two
sources: a queue of values prepared in advance, and lines of text that someone
is asked for until one of them is a value of the right type.
-/

namespace Scriptlet

/-- A state from which values can be read. A read that succeeds is meant to give
a value of the type that was asked for. -/
class InputSource (σ : Type) where
  read : Ty → Attempt InputError σ Value

/-- Values in the order in which they will be read. -/
abbrev Queue : Type := List Value

/-- Takes the first value, also if it has the wrong type. -/
def Queue.read (ty : Ty) : Attempt InputError Queue Value
  | [] => (.error (.closed ty), [])
  | value :: rest =>
    if value.ty = ty then (.ok value, rest) else (.error (.mismatch ty value), rest)

instance : InputSource Queue := ⟨Queue.read⟩

/-- Digits, and possibly a point with digits after it. -/
def isNumeral (cs : List Char) : Bool :=
  cs.head?.any Char.isDigit && (Lexeme.spanNumber cs).2.isEmpty

/-- The value of a type that someone has entered, with blanks around it. Numbers
are written as in programs or as infinity, and may have a minus sign. -/
def Value.ofInput? (ty : Ty) (text : List Char) : Option Value :=
  let text := Text.trim text
  match ty with
  | .num =>
    let (negative, magnitude) :=
      match text with
      | '-' :: rest => (true, rest)
      | _ => (false, text)
    if magnitude = "Infinity".toList then
      some (.num (Binary64.ofRank negative Binary64.infinityRank))
    else if isNumeral magnitude then (Decimal.read? text).map .num
    else none
  | .bool =>
    if text = "true".toList then some (.bool true)
    else if text = "false".toList then some (.bool false)
    else none

/-- A stream that takes the questions put to the user. -/
structure Prompt where
  /-- What has been written. -/
  written : String
  /-- How many more bytes fit, if there is a limit. -/
  room : Option Nat

namespace Prompt

/-- A stream that takes everything. -/
def unbounded : Prompt := ⟨"", none⟩

/-- A stream that takes a number of bytes. -/
def bounded (room : Nat) : Prompt := ⟨"", some room⟩

/-- Writes a text of one-byte characters. If not all of it fits, as much as fits
is written. -/
def write (text : String) : Attempt InputError Prompt Unit := fun p =>
  match p.room with
  | none => (.ok (), { p with written := p.written ++ text })
  | some room =>
    let fitting := String.ofList (text.toList.take room)
    let p' : Prompt := ⟨p.written ++ fitting, some (room - text.length)⟩
    if text.length ≤ room then (.ok (), p')
    else (.error (.broken "failed to write whole buffer"), p')

/-- The question for a value of a type. -/
def question (ty : Ty) : String := "Enter a value of type " ++ ty.name ++ ". "

end Prompt

/-- Input by lines. -/
structure LineInput where
  /-- The lines not yet read, each with its newline. -/
  lines : List (List UInt8)
  prompt : Prompt

namespace LineInput

/-- Input from a stream of bytes, which is cut into lines after each newline. -/
def ofBytes (bytes : List UInt8) (prompt : Prompt) : LineInput :=
  ⟨Text.cutAfter (· == 10) bytes, prompt⟩

/-- Asks for a value until a line gives one, or there is no further line, or a
line is not text. Each line is asked for once and read once. -/
def readLines (ty : Ty) : List (List UInt8) → Prompt → Except InputError Value × LineInput
  | lines, prompt =>
    match Prompt.write (Prompt.question ty) prompt with
    | (.error e, prompt) => (.error e, ⟨lines, prompt⟩)
    | (.ok (), prompt) =>
      match lines with
      | [] => (.error (.closed ty), ⟨[], prompt⟩)
      | line :: rest =>
        match String.fromUTF8? ⟨line.toArray⟩ with
        | none => (.error (.broken "stream did not contain valid UTF-8"), ⟨rest, prompt⟩)
        | some text =>
          match Value.ofInput? ty text.toList with
          | some value => (.ok value, ⟨rest, prompt⟩)
          | none => readLines ty rest prompt

/-- Reads a value of a type. -/
def read (ty : Ty) : Attempt InputError LineInput Value := fun input =>
  readLines ty input.lines input.prompt

instance : InputSource LineInput := ⟨read⟩

end LineInput
end Scriptlet
