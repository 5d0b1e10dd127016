import Custody.Fault
import Custody.Json.Scan

/-!
# Settings

Two limits and one switch, each with a default. They are read from JSON
text: an object that names the settings it changes and may hold anything
else beside them, or an array of their values in order, later ones left out.
A setting named twice is refused, and so is a limit of zero.
-/

namespace Custody

/-- **The settings.** -/
structure Settings where
  /-- How many frames may be open at once. -/
  maxFrames : Nat
  /-- How many links a borrow follows. -/
  maxLinks : Nat
  /-- Whether an account's private data needs its signature. -/
  enforceAuthority : Bool
deriving DecidableEq

namespace Settings

/-- The settings in force when none are given. -/
def standard : Settings := ⟨256, 8, true⟩

instance : Inhabited Settings := ⟨standard⟩

/-- The settings named so far. -/
structure Draft where
  /-- The limit on open frames. -/
  maxFrames : Option Nat
  /-- The limit on links. -/
  maxLinks : Option Nat
  /-- The switch for signatures. -/
  enforceAuthority : Option Bool

namespace Draft

/-- Nothing named yet. -/
def empty : Draft := ⟨none, none, none⟩

/-- The settings, what was not named standing at its default. -/
def complete (d : Draft) : Settings :=
  ⟨d.maxFrames.getD standard.maxFrames, d.maxLinks.getD standard.maxLinks,
    d.enforceAuthority.getD standard.enforceAuthority⟩

/-- Reads the value of a member and adds it, refusing a setting that was
named before; other members are passed over. -/
def member (d : Draft) (name : String) (cs : Chars) : Option (Draft × Chars) := do
  if name = "max_frame_depth" then
    if d.maxFrames.isSome then none
    let (n, rest) ← Scan.word? cs
    return ({ d with maxFrames := some n }, rest)
  else if name = "max_link_depth" then
    if d.maxLinks.isSome then none
    let (n, rest) ← Scan.word? cs
    return ({ d with maxLinks := some n }, rest)
  else if name = "enforce_authority" then
    if d.enforceAuthority.isSome then none
    let (b, rest) ← Scan.flag? cs
    return ({ d with enforceAuthority := some b }, rest)
  else return (d, ← Scan.value cs)

/-- Reads at most `count` members of an object and its closing brace. -/
def members : (count : Nat) → Draft → Chars → Option (Draft × Chars)
  | 0, _, _ => none
  | count + 1, d, cs => do
    let (name, cs) ← Scan.string? cs
    let (d, cs) ← d.member name (← Scan.colon cs)
    match Scan.blanks cs with
    | ',' :: rest => members count d rest
    | '\x7d' :: rest => some (d, rest)
    | _ => none

/-- Reads what follows a value of an array: its closing bracket, or a comma
and more. -/
def orClose (d : Draft) (more : Chars → Option (Draft × Chars)) (cs : Chars) :
    Option (Draft × Chars) :=
  match Scan.blanks cs with
  | ']' :: rest => some (d, rest)
  | ',' :: rest => more rest
  | _ => none

/-- Reads the values of an array and its closing bracket. -/
def elements (cs : Chars) : Option (Draft × Chars) := do
  match Scan.blanks cs with
  | ']' :: rest => some (empty, rest)
  | cs =>
    let (n, cs) ← Scan.word? cs
    let d := { empty with maxFrames := some n }
    d.orClose (fun cs => do
      let (n, cs) ← Scan.word? cs
      let d := { d with maxLinks := some n }
      d.orClose (fun cs => do
        let (b, cs) ← Scan.flag? cs
        { d with enforceAuthority := some b }.orClose (fun _ => none) cs) cs) cs

/-- Reads a whole text. -/
def ofText? (text : String) : Option Draft := do
  let cs := text.toList
  let (d, rest) ←
    match Scan.blanks cs with
    | '\x7b' :: rest =>
      match Scan.blanks rest with
      | '\x7d' :: rest => some (empty, rest)
      | rest => members cs.length empty rest
    | '[' :: rest => elements rest
    | _ => none
  if (Scan.blanks rest).isEmpty then some d else none

end Draft

/-- Refuses limits of zero. -/
def check (s : Settings) : Except Fault Settings :=
  if s.maxFrames = 0 then .error (.config "max_frame_depth must be at least 1")
  else if s.maxLinks = 0 then .error (.config "max_link_depth must be at least 1")
  else .ok s

/-- **Reads settings** from JSON text. -/
def parse (text : String) : Except Fault Settings :=
  match Draft.ofText? text with
  | some d => d.complete.check
  | none => .error (.config "the settings are not in the expected form")

end Settings

end Custody
