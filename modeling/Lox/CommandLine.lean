import Lox.Session

/-!
# The command line

The program either runs a file or prompts for lines and runs each of them. Its input is bytes, which
have to be UTF-8.
-/

namespace Lox

/-- What a run of the program leaves behind. -/
structure Outcome where
  exitCode : UInt32
  stdout : Text
  stderr : Text
  deriving DecidableEq, Repr

namespace CommandLine

/-- The exit code for a source with an error in it. -/
def dataError : UInt32 := 65

/-- The message for a file that does not exist. -/
def missingFile : Text := "Error: No such file or directory (os error 2)\n".toList

/-- The message for input that is not UTF-8. -/
def invalidInput : Text := "Error: stream did not contain valid UTF-8\n".toList

def promptMark : Text := "> ".toList

def runFile (settings : Settings) (contents? : Option (List UInt8)) : Except Fault Outcome := do
  match contents? with
  | none => return ⟨1, [], missingFile⟩
  | some contents =>
    match Text.ofBytes? contents with
    | none => return ⟨1, [], invalidInput⟩
    | some source =>
      let (out, console) ← run settings source Console.fresh
      return ⟨if console.hadError then dataError else 0, out, console.written⟩

def lineBreak : UInt8 := 10

/-- The lines of the input, each with its line break. Only the last one may lack it. -/
def splitLines : List UInt8 → List (List UInt8)
  | [] => []
  | byte :: input =>
    if byte = lineBreak then [byte] :: splitLines input
    else
      match splitLines input with
      | [] => [[byte]]
      | line :: lines => (byte :: line) :: lines

/-- Runs one line at the prompt, and gives what it writes and the console after it. Its errors are
forgotten before the next line. A line that is not UTF-8 cannot be run. -/
def runLine? (settings : Settings) (line : List UInt8) (console : Console) :
    Except Fault (Option (Text × Console)) := do
  match Text.ofBytes? line with
  | none => return none
  | some source =>
    let (out, console) ← run settings source console
    return some (out, console.reset)

/-- Prompts for the lines and runs each, until they end or one cannot be run. -/
def promptLines (settings : Settings) : List (List UInt8) → Console → Except Fault Outcome
  | [], console => return ⟨0, promptMark, console.written⟩
  | line :: lines, console => do
    match ← runLine? settings line console with
    | none => return ⟨1, promptMark, console.written ++ invalidInput⟩
    | some (out, console) =>
      let rest ← promptLines settings lines console
      return { rest with stdout := promptMark ++ out ++ rest.stdout }

def prompt (settings : Settings) (input : List UInt8) : Except Fault Outcome :=
  promptLines settings (splitLines input) Console.fresh

end CommandLine

end Lox
