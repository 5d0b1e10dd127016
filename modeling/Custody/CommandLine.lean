import Custody.Scenario
import Custody.View

/-!
# The command line

Three commands work on a store in a file. `inspect` prints the view of the
store and `root` the digest of its bytes; `demo` plays the scenario, under
settings from a file if one is named, and writes the store it leaves behind.

What a command line does is a function of the files that can be read: the
`Outcome` has the exit code, the text printed and the file written. A command
that fails prints nothing and writes nothing.
-/

namespace Custody

/-- The contents of files, by name. -/
abbrev Files := Table String Bytes

/-- **A command**, with the files it works on. -/
inductive Command where
  /-- Print the view of a store. -/
  | inspect (store : String)
  /-- Print the root of a store. -/
  | root (store : String)
  /-- Play the scenario and write the store it leaves. -/
  | demo (out : String) (settings : Option String)

/-- **What a command line leaves behind.** -/
structure Outcome where
  /-- The exit code. -/
  exitCode : Nat
  /-- The text printed. -/
  output : String
  /-- The complaint, when something went wrong. -/
  complaint : String
  /-- The file written, with its contents. -/
  written : Option (String × Bytes)

namespace Outcome

/-- Success, with a line printed. -/
def ofLine (line : String) : Outcome := ⟨0, line ++ "\n", "", none⟩

/-- Success, with a file written. -/
def ofFile (name : String) (contents : Bytes) : Outcome := ⟨0, "", "", some (name, contents)⟩

/-- Failure, with a fault. -/
def ofFault (fault : Fault) : Outcome := ⟨1, "", fault.code ++ ": " ++ fault.message, none⟩

/-- The outcome of arguments that are no command. -/
def usage : Outcome := ⟨2, "", "usage: (inspect | root) STORE | demo OUT [--config FILE]", none⟩

end Outcome

namespace Command

/-- The command of a list of arguments; anything else is no command. -/
def parse? : List String → Option Command
  | ["inspect", store] => some (.inspect store)
  | ["root", store] => some (.root store)
  | ["demo", out] => some (.demo out none)
  | ["demo", out, "--config", settings] => some (.demo out (some settings))
  | ["demo", "--config", settings, out] => some (.demo out (some settings))
  | _ => none

/-- The files a command reads. -/
def inputs : Command → List String
  | inspect store => [store]
  | root store => [store]
  | demo _ settings => settings.toList

/-- The store in a file. -/
def readStore (files : Files) (name : String) : Except Fault Store :=
  match files.get? name with
  | some bytes => Store.ofBytes bytes
  | none => .error (.io "the store cannot be read")

/-- The settings in a file. -/
def readSettings (files : Files) (name : String) : Except Fault Settings :=
  match (files.get? name).bind Bytes.toText? with
  | some text => Settings.parse text
  | none => .error (.io "the settings cannot be read")

/-- **What a command does**, given the files that can be read. -/
def run (files : Files) : Command → Except Fault Outcome
  | inspect store => do return .ofLine (← readStore files store).view.pretty
  | root store => do return .ofLine (Hex.ofBytes (← (← readStore files store).root))
  | demo out settings => do
    let settings ←
      match settings with
      | some name => readSettings files name
      | none => .ok Settings.standard
    let store ← Scenario.run settings
    return .ofFile out (← store.toBytes)

/-- **What a command line does**, given the files that can be read. -/
def outcome (files : Files) (arguments : List String) : Outcome :=
  match parse? arguments with
  | none => .usage
  | some command =>
    match command.run files with
    | .ok outcome => outcome
    | .error fault => .ofFault fault

end Command

end Custody
