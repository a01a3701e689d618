import Curried.CommandLine.Report

/-!
# The command line

Reads the arguments and the input, and prints the report.
-/

namespace Curried

/-- What the system says about a file that cannot be read. -/
def readingFault : IO.Error → String
  | .noFileOrDirectory .. => "No such file or directory (os error 2)"
  | .permissionDenied .. => "Permission denied (os error 13)"
  | .inappropriateType .. => "Is a directory (os error 21)"
  | e => toString e

/-- Reads standard input to its end. -/
def readStandardInput : IO (Except String String) := do
  let bytes ← (← IO.getStdin).readBinToEnd
  match String.fromUTF8? bytes with
  | some text => return .ok text
  | none => return .error "stream did not contain valid UTF-8"

/-- Reads a file, or standard input for a single dash. -/
def readInput (file : String) : IO (Except String String) := do
  if file = "-" then
    readStandardInput
  else
    try
      let bytes ← IO.FS.readBinFile file
      match String.fromUTF8? bytes with
      | some text => return .ok text
      | none => return .error "stream did not contain valid UTF-8"
    catch e =>
      return .error (readingFault e)

end Curried

/-- Runs the command line. -/
def main (arguments : List String) : IO UInt32 := do
  match Curried.Invocation.ofArguments? arguments with
  | none =>
    (← IO.getStderr).putStrLn
      "usage: eval | run | eval-tree | parse | graph, with --log FILTER"
    return Curried.Report.misuse.toUInt32
  | some invocation =>
    let input ← match invocation.command.file? with
      | some file => Curried.readInput file
      | none => pure (.ok "")
    let report := Curried.Report.ofInvocation invocation input
    (← IO.getStderr).putStr report.errors
    (← IO.getStdout).putStr report.output
    return report.code.toUInt32
