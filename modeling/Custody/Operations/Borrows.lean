import Custody.Operations.Links

/-!
# Borrowing

A borrow issues a reference onto a stored value, through a capability or
with the account's signature, or onto a local. There is at most one
outstanding reference per target. A borrow that fails changes nothing and
does not mark the transaction: a revoked link looks like an empty one.
-/

namespace Custody

/-- Borrows: actions that may fail with the reason why there is no
reference. -/
abbrev BorrowM := ExceptT BorrowFailure (StateM State)

namespace Borrows

/-- Issues a reference to the innermost frame, or to the transaction when no
frame is open. -/
def issue (target : Target) (identity : Option ResourceId) (granted : RefTy) :
    BorrowM Reference := do
  let s ← get
  let frame := s.stack.current?.getD FrameId.transaction
  match s.loans.acquire target frame with
  | none => throw .alreadyBorrowed
  | some (id, loans) =>
    set { s with loans := loans }
    return ⟨id, target, identity, granted, frame⟩

/-- Refuses to borrow outside a transaction. -/
def requireTransaction : BorrowM Unit := do
  if (← get).transaction.isNone then throw .noTransaction

/-- Issues a reference onto a stored value. -/
def issueStored (r : Resolution) (requested : RefTy) : BorrowM Reference := do
  requireTransaction
  let v ← ofExcept ((← get).resolvedValue r requested)
  issue (.stored r.address r.path) v.resourceId? requested

/-- **Borrows through a capability.** -/
def throughCapability (c : Capability) (requested : RefTy) : BorrowM Reference := do
  let r ← ofExcept ((← get).resolve c requested)
  issueStored r requested

/-- **Borrows a stored value** with the account's signature. -/
def stored (address : Address) (path : Path) (requested : RefTy) : BorrowM Reference := do
  let s ← get
  match s.transaction with
  | none => throw .noTransaction
  | some t =>
    if s.settings.enforceAuthority && !t.signers.contains address then throw .unauthorized
    if !path.domain.holdsValues then throw .absentTarget
    issueStored ⟨address, path, []⟩ requested

/-- **Borrows a local.** -/
def ofLocal (frame : FrameId) (name : String) (requested : RefTy) : BorrowM Reference := do
  requireTransaction
  let s ← get
  match s.stack.value frame name with
  | .error _ => throw .absentTarget
  | .ok v =>
    if s.registry.isSubtype v.ty requested.target then
      issue (.binding frame name) v.resourceId? requested
    else throw .typeMismatch

end Borrows

end Custody
