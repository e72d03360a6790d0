import StackMaps.Inspect

/-!
# The command line

Reads the file of a stored method and writes what `Inspect.run` shows for it.
-/

namespace StackMaps

namespace Main

/-- How the command is called. -/
def usage : String := "usage: stackmaps [-v] [--bytes] FILE"

/-- The options and the one file named by the arguments. -/
def parse (arguments : List String) : Option (Inspect.Options × String) :=
  let isFlag (argument : String) := argument == "-v" || argument == "--bytes"
  match arguments.filter fun argument => !isFlag argument with
  | [file] =>
    if file.startsWith "-" then none
    else some (⟨arguments.contains "-v", arguments.contains "--bytes"⟩, file)
  | _ => none

/-- Write a report and choose the exit code. -/
def present (report : Inspect.Report) : IO UInt32 := do
  IO.print report.output
  match report.failure with
  | none => return 0
  | some message =>
    IO.eprintln message
    return 101

end Main

end StackMaps

/-- Show the stored method in a file. -/
def main (arguments : List String) : IO UInt32 := do
  match StackMaps.Main.parse arguments with
  | none =>
    IO.eprintln StackMaps.Main.usage
    return 2
  | some (options, file) =>
    match ← (IO.FS.readBinFile file).toBaseIO with
    | .ok bytes =>
      StackMaps.Main.present (StackMaps.Inspect.run options (bytes.toList.map UInt8.toBitVec))
    | .error _ =>
      IO.eprintln "could not read input file"
      return 101
