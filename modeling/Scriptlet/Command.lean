import Scriptlet.Program
import Scriptlet.Report

/-!
# The command line

A command names a source file and may ask for a listing, for the check alone or
for a run without it. Everything a command does is decided here; reading the
file and the terminal is left to the caller.
-/

namespace Scriptlet.Command

/-- What a run of a file was asked for. -/
structure Options where
  file : String
  checkOnly : Bool
  noCheck : Bool
  listing : Bool
  deriving DecidableEq, Repr

/-- What the arguments ask for. -/
inductive Request where
  | version
  | help
  | run (options : Options)
  deriving DecidableEq, Repr

/-- The arguments read so far. -/
structure Arguments where
  file : Option String
  checkOnly : Bool
  noCheck : Bool
  listing : Bool
  /-- Whether flags have been ended by `--`. -/
  onlyFiles : Bool

/-- Before the first argument. -/
def Arguments.start : Arguments := ⟨none, false, false, false, false⟩

/-- The request at the end of the arguments. A file must have been named, and the
check cannot be both left out and all that is done. -/
def Arguments.finish (a : Arguments) : Option Request :=
  match a.file with
  | none => none
  | some file =>
    if a.checkOnly && a.noCheck then none
    else some (.run ⟨file, a.checkOnly, a.noCheck, a.listing⟩)

/-- Whether an argument is a flag rather than a file. A dash alone is a file. -/
def isFlag (arg : String) : Bool := arg.startsWith "-" && arg != "-"

/-- Reads arguments behind those already read. No flag may be given twice, and a
request for the version or for help is granted as soon as it is reached. -/
def readArguments (a : Arguments) : List String → Option Request
  | [] => a.finish
  | arg :: rest =>
    if a.onlyFiles || !isFlag arg then
      if a.file.isSome || arg.isEmpty then none
      else readArguments { a with file := some arg } rest
    else if arg = "--" then readArguments { a with onlyFiles := true } rest
    else if arg = "--check-only" then
      if a.checkOnly then none else readArguments { a with checkOnly := true } rest
    else if arg = "--no-check" then
      if a.noCheck then none else readArguments { a with noCheck := true } rest
    else if arg = "--dump-ast" then
      if a.listing then none else readArguments { a with listing := true } rest
    else if arg = "--version" || arg.startsWith "-V" then some .version
    else if arg = "--help" || arg.startsWith "-h" then some .help
    else none

/-- What a list of arguments asks for, if it is a proper request. -/
def request? (args : List String) : Option Request := readArguments .start args

/-- The end of a command: its exit code and all that it wrote. -/
structure Result where
  exit : Nat
  stdout : String
  stderr : String
  deriving DecidableEq, Repr

/-- The answer to a request for the version. -/
def version : Result := ⟨0, "minilang 0.1.0\n", ""⟩

/-- How the command is used. -/
def usageLine : String := "Usage: minilang [OPTIONS] <FILE>\n"

/-- The answer to a request for help. -/
def help : Result :=
  ⟨0, "Typecheck and interpret minilang programs\n\n" ++ usageLine ++
    "\nArguments:\n  <FILE>  Path to the source file\n\nOptions:\n" ++
    "      --check-only  Stop after typechecking\n" ++
    "      --no-check    Run without typechecking first\n" ++
    "      --dump-ast    Print the parsed program before running it\n" ++
    "  -h, --help        Print help\n  -V, --version     Print version\n", ""⟩

/-- The answer to arguments that ask for nothing proper. -/
def misuse : Result := ⟨2, "", "error: invalid arguments\n\n" ++ usageLine⟩

/-- The name under which a file is reported: the last part of its path. -/
def fileName (path : String) : String :=
  match ((path.splitOn "/").filter fun part => part != "" && part != ".").getLast? with
  | none => path
  | some part => if part = ".." then path else part

/-- A program before its run. -/
inductive Loaded where
  /-- There is nothing to run. -/
  | stopped (result : Result)
  /-- A program to run, after its listing has been written. -/
  | ready (program : Stmt) (source listing : String)

/-- The end of a command that could not read its file. -/
def unreadable (file reason : String) : Result :=
  ⟨1, "", "Error: could not read " ++ file ++ ": " ++ reason ++ "\n"⟩

/-- Prepares a file for its run: parses it, lists it and checks it as asked. -/
def load (o : Options) (content : Except String (List UInt8)) : Loaded :=
  match content with
  | .error reason => .stopped (unreadable o.file reason)
  | .ok bytes =>
    match String.fromUTF8? ⟨bytes.toArray⟩ with
    | none => .stopped (unreadable o.file "stream did not contain valid UTF-8")
    | some source =>
      let name := fileName o.file
      match Program.ofSource name source with
      | .error e => .stopped ⟨1, "", Report.render (.syntactic e) source name⟩
      | .ok program =>
        let listing := if o.listing then program.render ++ "\n" else ""
        let verdict := if o.noCheck then .ok () else program.typecheck
        match verdict with
        | .error e => .stopped ⟨1, listing, Report.render (.static e) source name⟩
        | .ok () =>
          if o.checkOnly then .stopped ⟨0, listing, ""⟩ else .ready program source listing

/-- The lines that a run has printed. -/
def printedLines (values : List Value) : String :=
  String.join (values.map fun v => v.render ++ "\n")

/-- The end of a command whose program has run. -/
def finish (o : Options) (source listing : String) (ran : Except Halt Unit)
    (m : Machine LineInput) : Result :=
  let stdout := listing ++ printedLines m.output.toList
  let asked := m.input.prompt.written
  match ran with
  | .ok () => ⟨0, stdout, asked⟩
  | .error (.failed e) =>
    ⟨1, stdout, asked ++ Report.render (.runtime e) source (fileName o.file)⟩
  | .error .unfinished => ⟨1, stdout, asked⟩

attribute [local instance] Binary64.natPow

/-- A number of rounds that no loop comes to. -/
def endless : Nat := 2 ^ (62 : Nat)

/-- Runs a program on a stream of input bytes. -/
def runOn (program : Stmt) (bytes : List UInt8) : Except Halt Unit × Machine LineInput :=
  program.execute endless (LineInput.ofBytes bytes .unbounded)

/-- A whole command, given its arguments, the contents of files and the bytes of
its input. -/
def run (args : List String) (fileAt : String → Except String (List UInt8))
    (stdin : List UInt8) : Result :=
  match request? args with
  | none => misuse
  | some .version => version
  | some .help => help
  | some (.run o) =>
    match load o (fileAt o.file) with
    | .stopped result => result
    | .ready program source listing =>
      let (ran, m) := runOn program stdin
      finish o source listing ran m

end Scriptlet.Command
