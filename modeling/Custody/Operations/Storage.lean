import Custody.State
import Custody.Value.Copy
import Custody.Value.Typing

/-!
# Saving and loading

Values are saved to and loaded from the value domain of an account that
signed the transaction. A slot is never overwritten, and a load names the
type it expects: paths are shared by everything that uses the account, so a
value of another type means that two users disagree.
-/

namespace Custody

namespace Storage

open CustodyM

/-- Refuses an account that did not sign and a path that holds no value. -/
def checkPath (address : Address) (path : Path) : CustodyM Unit := do
  requireAuthority address
  if !path.domain.holdsValues then throw (.invalidDomain path)

/-- Refuses a stored value of an unexpected type. -/
def checkTy (address : Address) (path : Path) (v : Value) (expected : Ty) :
    CustodyM Unit := do
  if !(← get).registry.isSubtype v.ty expected then
    throw (.loadTypeMismatch address path expected.text v.ty.text)

/-- Refuses a value that contains something that is never stored. -/
def ensureStorable (v : Value) : CustodyM Unit :=
  if v.isStorable then return else throw (.notStorable v.kindName)

/-- **Moves a value into an empty slot.** -/
def save (address : Address) (path : Path) (v : Value) : CustodyM Unit :=
  guarded do
    checkPath address path
    ensureStorable v
    if (← get).store.contains address path then throw (.pathOccupied address path)
    onLedger (Ledger.settleValue v (.stored address path))
    modify fun s => { s with store := s.store.insert address path (.value v) }

/-- **Moves a value out of storage**; an empty slot gives none. -/
def load (address : Address) (path : Path) (expected : Ty) : CustodyM (Option Value) :=
  guarded do
    checkPath address path
    match (← get).store.value? address path with
    | none => return none
    | some v =>
      checkTy address path v expected
      ensureNotBorrowed (.stored address path)
      onLedger (Ledger.releaseValue v (.stored address path))
      modify fun s => { s with store := s.store.erase address path }
      return some v

/-- **Copies a stored value**; an empty slot gives none. -/
def copy (address : Address) (path : Path) (expected : Ty) : CustodyM (Option Value) :=
  guarded do
    checkPath address path
    match (← get).store.value? address path with
    | none => return none
    | some v =>
      checkTy address path v expected
      if v.isLinear then throw (.copyOfLinear v.ty.text)
      return some (← ofValueFault v.copy)

/-- The type of the value in a slot. -/
def typeAt (address : Address) (path : Path) : CustodyM (Option Ty) :=
  guarded do
    checkPath address path
    return ((← get).store.value? address path).map Value.ty

/-- The paths in use in a domain. The public domain is open to everyone. -/
def paths (address : Address) (domain : Domain) : CustodyM (List Path) :=
  guarded do
    if domain ≠ .publicLinks then requireAuthority address
    return (← get).store.paths address domain

end Storage

end Custody
