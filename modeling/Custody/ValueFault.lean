/-!
# Why a value could not be built

Values are checked when they are made: a copyable aggregate takes no linear
field, a copy takes no linear value, and the texts of paths and addresses
have to parse. These four refusals exist before any operation runs, and the
operations pass them on (`Fault.ofValueFault`).
-/

namespace Custody

/-- **A refusal to build a value.** -/
inductive ValueFault where
  /-- The struct `typeName` was given a linear value for `field`. -/
  | linearInCopyable (typeName field : String)
  /-- A copy met a resource of type `typeName`. -/
  | copyOfLinear (typeName : String)
  /-- The text is no storage path. -/
  | invalidPath (text : String)
  /-- The text is no address. -/
  | invalidAddress (text : String)
deriving DecidableEq

namespace ValueFault

/-- The sentence shown for the refusal. -/
def message : ValueFault → String
  | linearInCopyable typeName field =>
    "copyable aggregate '" ++ typeName ++ "' cannot hold linear field '" ++ field ++ "'"
  | copyOfLinear typeName => "cannot copy linear value of type '" ++ typeName ++ "'"
  | invalidPath text => "invalid storage path '" ++ text ++ "'"
  | invalidAddress text => "invalid address '" ++ text ++ "'"

end ValueFault

end Custody
