import Scriptlet.Command

/-!
# The program

Does for a command what only the outside world can: reads its file, shows what
it writes, and asks for lines when its run needs them. A run that has come to
the end of the lines given so far is started again with one line more; what it
has already shown is not shown twice, because further input does not change what
came before it.
-/

namespace Scriptlet.Main

open Command

/-- The number that the system has for an error. Some calls give it negated. -/
def errorNumber (code : UInt32) : Nat :=
  if code < 2 ^ (31 : Nat) then code.toNat else (0 - code).toNat

/-- The usual words for the errors that opening and reading a file can meet. -/
def errorText (number : Nat) (details : String) : String :=
  if number = 2 then "No such file or directory"
  else if number = 13 then "Permission denied"
  else if number = 20 then "Not a directory"
  else if number = 21 then "Is a directory"
  else if number = 36 then "File name too long"
  else details

/-- Why a file could not be read. -/
def reasonOf (e : IO.Error) : String :=
  match e with
  | .noFileOrDirectory _ code details
  | .inappropriateType _ code details
  | .permissionDenied _ code details
  | .invalidArgument _ code details =>
    let number := errorNumber code
    errorText number details ++ " (os error " ++ Nat.repr number ++ ")"
  | e => toString e

/-- The content of a file, or why it could not be read. -/
def contentOf (path : String) : IO (Except String (List UInt8)) := do
  try
    return .ok (← IO.FS.readBinFile path).toList
  catch e => return .error (reasonOf e)

/-- The next line of standard input with its newline, behind the bytes already
read. It is empty at the end of the input. -/
partial def nextLine (line : List UInt8) : IO (List UInt8) := do
  match (← (← IO.getStdin).read 1).toList with
  | [] => return line.reverse
  | byte :: _ => if byte = 10 then return (byte :: line).reverse else nextLine (byte :: line)

/-- Shows the part of a result that has not been shown before. -/
def present (stdout stderr : String) : IO Unit := do
  (← IO.getStdout).putStr stdout
  (← IO.getStdout).flush
  (← IO.getStderr).putStr stderr
  (← IO.getStderr).flush

/-- Runs a program on the lines given so far, of which `printed` values and
`asked` characters of questions have been shown. -/
partial def converse (o : Options) (program : Stmt) (source : String) (lines : List UInt8)
    (printed asked : Nat) : IO UInt32 := do
  let (ran, m) := runOn program lines
  let values := m.output.toList
  let questions := m.input.prompt.written.toList
  present (printedLines (values.drop printed)) (String.ofList (questions.drop asked))
  let finished : IO UInt32 := do
    let result := finish o source "" ran m
    present "" (String.ofList (result.stderr.toList.drop questions.length))
    return UInt32.ofNat result.exit
  match ran with
  | .error (.failed (.input (.closed _))) =>
    match ← nextLine [] with
    | [] => finished
    | line => converse o program source (lines ++ line) values.length questions.length
  | _ => finished

/-- Carries out a command. -/
def carryOut (args : List String) : IO UInt32 := do
  let ended (result : Result) : IO UInt32 := do
    present result.stdout result.stderr
    return UInt32.ofNat result.exit
  match request? args with
  | none => ended misuse
  | some .version => ended version
  | some .help => ended help
  | some (.run o) =>
    match load o (← contentOf o.file) with
    | .stopped result => ended result
    | .ready program source listing =>
      present listing ""
      converse o program source [] 0 0

end Scriptlet.Main

/-- The entry point. -/
def main (args : List String) : IO UInt32 := Scriptlet.Main.carryOut args
