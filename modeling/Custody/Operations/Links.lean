import Custody.State
import Custody.Value.Typing

/-!
# Links and capabilities

An account publishes a value by linking a path of a link domain to it,
directly or through other links. A capability names the path of a link.
Resolving a capability follows the chain of links to the value domain, and
**every** type declared on the way, by the capability and by each link, has
to admit the request. Removing a link revokes everything that leads through
it.
-/

namespace Custody

/-- **Where a capability leads.** -/
structure Resolution where
  /-- The account. -/
  address : Address
  /-- The path of the value. -/
  path : Path
  /-- The types declared by the links on the way, first link first. -/
  promised : List Ty
deriving DecidableEq

namespace State

/-- Refuses a request that a declared type does not admit. -/
def checkPromise (s : State) (declared requested : RefTy) : Except BorrowFailure Unit :=
  match s.registry.admission declared requested with
  | .upcast => .ok ()
  | .downcast => .ok ()
  | .unauthorized => .error .notAuthorized
  | .mismatch => .error .typeMismatch

/-- Follows links from a path of an account until it meets a path that holds
a value, at most `hops` of them. -/
def follow (s : State) (address : Address) (requested : RefTy) :
    (hops : Nat) → (path : Path) → (promised : List Ty) → Except BorrowFailure Resolution
  | hops, path, promised =>
    if path.domain.holdsLinks then
      match hops with
      | 0 => .error .linkCycle
      | hops + 1 =>
        match s.store.link? address path with
        | none => .error .deadLink
        | some link => do
          s.checkPromise link.promise requested
          follow s address requested hops link.target (promised ++ [link.promise.target])
    else if promised.isEmpty then .error .deadLink
    else .ok ⟨address, path, promised⟩

/-- **Resolves a capability** for a request. -/
def resolve (s : State) (c : Capability) (requested : RefTy) :
    Except BorrowFailure Resolution := do
  match c.promise with
  | some declared => s.checkPromise declared requested
  | none => .ok ()
  s.follow c.address requested s.settings.maxLinks c.path []

/-- The value a resolution leads to; it must have the requested type and
every type promised on the way. -/
def resolvedValue (s : State) (r : Resolution) (requested : RefTy) :
    Except BorrowFailure Value :=
  match s.store.value? r.address r.path with
  | none => .error .absentTarget
  | some v =>
    if (requested.target :: r.promised).all (s.registry.isSubtype v.ty) then .ok v
    else .error .typeMismatch

end State

namespace Links

open CustodyM

/-- Refuses an account that did not sign and a path that holds no link. -/
def checkPath (address : Address) (path : Path) : CustodyM Unit := do
  requireAuthority address
  if !path.domain.holdsLinks then throw (.invalidDomain path)

/-- **Links a path to a target.** A path in use is left as it is and gives no
capability. -/
def add (address : Address) (source target : Path) (promise : RefTy) :
    CustodyM (Option Capability) :=
  guarded do
    checkPath address source
    if (← get).store.contains address source then return none
    modify fun s =>
      { s with store := s.store.insert address source (.link ⟨source, target, promise⟩) }
    return some ⟨address, source, some promise⟩

/-- **Removes a link**, if there is one. -/
def remove (address : Address) (path : Path) : CustodyM Unit :=
  guarded do
    checkPath address path
    if ((← get).store.link? address path).isSome then
      modify fun s => { s with store := s.store.erase address path }

/-- **A capability** for a link path, linked or not. One for a private path
needs the account's signature. -/
def capability (address : Address) (path : Path) (promise : Option RefTy) :
    CustodyM Capability :=
  guarded do
    match path.domain with
    | .storage => throw (.invalidDomain path)
    | .privateLinks => requireAuthority address
    | .publicLinks => pure ()
    return ⟨address, path, promise⟩

/-- Where the link at a path leads. The public domain is open to everyone. -/
def target (address : Address) (path : Path) : CustodyM (Option Path) :=
  guarded do
    if path.domain ≠ .publicLinks then requireAuthority address
    return ((← get).store.link? address path).map Link.target

/-- Whether a borrow through the capability would find its value, whether or
not it is borrowed. -/
def check (s : State) (c : Capability) (requested : RefTy) : Bool :=
  match s.resolve c requested >>= fun r => s.resolvedValue r requested with
  | .ok _ => true
  | .error _ => false

end Links

end Custody
