import DialectBridge.Cli
import DialectBridge.Compiler.LineByLine

/-!
# The program

Runs the command line with the line-by-line compiler on the files of the machine.
-/

set_option autoImplicit false

namespace DialectBridge

namespace Cli

/-- What keeps a file of the machine from being read. -/
def flawOf : IO.Error → FileFlaw
  | .inappropriateType _ 21 _ => .isDirectory
  | .inappropriateType _ _ _ => .throughFile
  | .invalidArgument _ 22 _ => .nullCharacter
  | .invalidArgument _ _ _ => .nameTooLong
  | _ => .missing

/-- The content of a file of the machine, if it can be read. -/
def readMachineFile (name : String) : IO (Except FileFlaw (List UInt8)) := do
  try
    return .ok (← IO.FS.readBinFile name).toList
  catch error => return .error (flawOf error)

/-- Runs a script on the files of the machine. -/
def Script.execute {α : Type} : Script α → IO α
  | .done a => return a
  | .read name next => do (next (← readMachineFile name)).execute

/-- Prints a report and returns the exit code. -/
def Report.print (r : Report) : IO UInt32 := do
  (← IO.getStdout).putStr r.stdout
  (← IO.getStderr).putStr r.stderr
  match r.outcome with
  | .ok code => return code.toUInt32
  | .error fault => do
    (← IO.getStderr).putStrLn fault.message
    return 1

end Cli

end DialectBridge

/-- Runs the command line. -/
def main (arguments : List String) : IO UInt32 := do
  let backend : DialectBridge.Cli.Backend := { compiler := DialectBridge.LineByLine.compile }
  (← (DialectBridge.Cli.command backend arguments).execute).print
