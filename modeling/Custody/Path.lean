import Custody.Text
import Custody.ValueFault

/-!
# Storage paths

The storage of an account has three **domains**: one that holds values and
two that hold links, a private and a public one. A **path** names a slot in
a domain and is written `/domain/identifier`.
-/

namespace Custody

/-- **A domain** of an account's storage. -/
inductive Domain where
  /-- The account's values. -/
  | storage
  /-- Links that only the account may look at. -/
  | privateLinks
  /-- Links that everyone may look at. -/
  | publicLinks
deriving DecidableEq, Ord

namespace Domain

instance : Std.TransOrd Domain where
  eq_swap {a b} := by cases a <;> cases b <;> rfl
  isLE_trans {a b c} := by cases a <;> cases b <;> cases c <;> decide

instance : Std.LawfulEqOrd Domain where
  compare_self {a} := by cases a <;> rfl
  eq_of_compare {a b} := by cases a <;> cases b <;> decide

/-- The name of the domain in a path. -/
def text : Domain → String
  | storage => "storage"
  | privateLinks => "private"
  | publicLinks => "public"

/-- The domain of that name. -/
def ofText? : String → Option Domain
  | "storage" => some storage
  | "private" => some privateLinks
  | "public" => some publicLinks
  | _ => none

/-- Values live in one domain only. -/
def holdsValues : Domain → Bool
  | storage => true
  | _ => false

/-- Links live where values do not. -/
def holdsLinks (d : Domain) : Bool := !d.holdsValues

end Domain

/-- **A storage path.** -/
structure Path where
  /-- The domain the path lies in. -/
  domain : Domain
  /-- The name of the slot. -/
  identifier : String
deriving DecidableEq

namespace Path

/-- The written form, `/domain/identifier`. -/
def text (p : Path) : String := "/" ++ p.domain.text ++ "/" ++ p.identifier

/-- The path of an identifier in a domain; any other name is refused. -/
def make (domain : Domain) (identifier : String) : Except ValueFault Path :=
  let path : Path := ⟨domain, identifier⟩
  if Identifier.isValid identifier then .ok path else .error (.invalidPath path.text)

/-- The domain name and the identifier of a text `/domain/identifier`: what
stands between the first two slashes, and what follows the second. -/
def split? (text : String) : Option (String × String) :=
  match text.toList with
  | '/' :: rest =>
    match rest.dropWhile (· != '/') with
    | _ :: identifier =>
      some (String.ofList (rest.takeWhile (· != '/')), String.ofList identifier)
    | [] => none
  | _ => none

/-- Reads a path, refusing a text that is not of the written form. -/
def parse (text : String) : Except ValueFault Path :=
  match split? text with
  | some (domain, identifier) =>
    match Domain.ofText? domain with
    | some d => make d identifier
    | none => .error (.invalidPath text)
  | none => .error (.invalidPath text)

end Path

end Custody
