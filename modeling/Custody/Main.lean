import Custody.CommandLine

/-!
# The program

Reads the files a command line works on and does what its outcome says.
Complaints go to the error stream.
-/

namespace Custody.Program

/-- Those of the named files that can be read. -/
def readFiles : List String → IO Files
  | [] => return []
  | name :: others => do
    let rest ← readFiles others
    try
      return rest.put name (← IO.FS.readBinFile name).toList
    catch _ =>
      return rest

/-- Does what an outcome says and gives its exit code. -/
def carryOut (o : Outcome) : IO UInt32 := do
  IO.print o.output
  unless o.complaint.isEmpty do IO.eprintln o.complaint
  match o.written with
  | some (name, contents) =>
    try
      IO.FS.writeBinFile name ⟨contents.toArray⟩
      return UInt32.ofNat o.exitCode
    catch _ =>
      IO.eprintln ("cannot write " ++ name)
      return 1
  | none => return UInt32.ofNat o.exitCode

end Custody.Program

open Custody in
/-- Runs the command line. -/
def main (arguments : List String) : IO UInt32 := do
  let inputs := ((Command.parse? arguments).map Command.inputs).getD []
  Program.carryOut (Command.outcome (← Program.readFiles inputs) arguments)
