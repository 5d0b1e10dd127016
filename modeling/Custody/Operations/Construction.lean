import Custody.State
import Custody.Value.Copy

/-!
# Making composites

A resource is made inside a transaction, with a new identity; the values
given for its fields must be in flight and are settled in the fields. A
struct needs no identity and no transaction.
-/

namespace Custody

namespace Construction

open CustodyM

/-- Settles the values of fields in the fields of their owner. -/
def settleFields (owner : ResourceId) : List (String × Value) → LedgerM Unit
  | [] => return
  | (name, v) :: rest => do
    Ledger.settleValue v (.field owner name)
    settleFields owner rest

/-- The entries for a new resource: every root among the values of its
fields has to be in flight, then an identity is minted and the fields are
settled one after the other. -/
def enter (fields : List (String × Value)) : LedgerM ResourceId := do
  (fields.flatMap fun f => f.2.rootIds).forM Ledger.expectInFlight
  let id ← modifyGet Ledger.mint
  settleFields id fields
  return id

/-- **Makes a resource** of a declared type, in flight. -/
def createResource (typeName : String) (fields : List (String × Value)) : CustodyM Value :=
  guarded do
    let _ ← requireTransaction
    let _ ← requireComposite typeName .resource
    let id ← onLedger (enter fields)
    return (Resource.ofAssignments id typeName fields).toValue

/-- **Makes a struct** of a declared type. -/
def createStruct (typeName : String) (fields : List (String × Value)) : CustodyM Value :=
  guarded do
    let _ ← requireComposite typeName .struct
    let s ← ofValueFault (Struct.make typeName fields)
    return s.toValue

end Construction

end Custody
