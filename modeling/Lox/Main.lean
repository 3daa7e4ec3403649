import Lox.CommandLine

/-!
# The program

Reads the arguments and the input, and writes what a run leaves behind.
-/

namespace Lox.Main

/-- Reads bytes up to a line break or the end of the input. -/
partial def readLine (input : IO.FS.Stream) (line : List UInt8) : IO (List UInt8) := do
  match (← input.read 1).toList with
  | [] => return line.reverse
  | byte :: _ =>
    if byte = CommandLine.lineBreak then return (byte :: line).reverse
    else readLine input (byte :: line)

/-- Writes a text and does not wait for its line to end. -/
def write (output : IO.FS.Stream) (t : Text) : IO Unit := do
  output.putStr (String.ofList t)
  output.flush

def stopAt (f : Fault) : IO UInt32 := do
  write (← IO.getStderr) ((reprStr f).toList ++ ['\n'])
  return 70

/-- Prompts for lines and runs each, until the input ends or a line cannot be run. -/
partial def prompt (settings : Settings) (console : Console) : IO UInt32 := do
  write (← IO.getStdout) CommandLine.promptMark
  match ← readLine (← IO.getStdin) [] with
  | [] => return 0
  | line =>
    match CommandLine.runLine? settings line console with
    | .error f => stopAt f
    | .ok none =>
      write (← IO.getStderr) CommandLine.invalidInput
      return 1
    | .ok (some (out, after)) =>
      write (← IO.getStderr) ({ after with lines := after.lines.drop console.lines.size }).written
      write (← IO.getStdout) out
      prompt settings after

def runFile (settings : Settings) (path : String) : IO UInt32 := do
  let contents? ← try pure (some (← IO.FS.readBinFile path).toList) catch _ => pure none
  match CommandLine.runFile settings contents? with
  | .error f => stopAt f
  | .ok outcome =>
    write (← IO.getStderr) outcome.stderr
    write (← IO.getStdout) outcome.stdout
    return outcome.exitCode

end Lox.Main

/-- The arguments are the option `--tokens` and the file to run. Without a file it prompts. -/
def main (arguments : List String) : IO UInt32 := do
  let settings : Lox.Settings := ⟨arguments.contains "--tokens", .full⟩
  match arguments.filter (· ≠ "--tokens") with
  | [] => Lox.Main.prompt settings .fresh
  | [path] => Lox.Main.runFile settings path
  | _ =>
    Lox.Main.write (← IO.getStderr) "Usage: lox [--tokens] [FILE]\n".toList
    return 2
