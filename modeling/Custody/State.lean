import Custody.Bytes.Store
import Custody.CallStack
import Custody.Ledger
import Custody.Loans
import Custody.Registry
import Custody.Settings

/-!
# The state of a custodian

A custodian is its storage together with everything that tracks it while a host
works on it: the ledger, the open frames, the outstanding references and,
while one is running, the transaction.

Operations are actions of `CustodyM`. They read and change the state and may
fail with a fault, and **what an action did before it failed stays done**.
Most operations change nothing when they fail because they check before they
act; the few that do not are undone by the end of their transaction. To that
end the operations a host can call are `guarded`: a fatal fault marks the
running transaction, and a marked transaction cannot commit.
-/

namespace Custody

/-- **A running transaction.** -/
structure Transaction where
  /-- The accounts that signed it. -/
  signers : SortedSet Address
  /-- The bytes of the store when it began. -/
  snapshot : Bytes
  /-- The records of the ledger when it began. -/
  records : SortedMap ResourceId Holding
  /-- The message of the first fatal fault raised in it. -/
  poison : Option String

/-- **The state of a custodian.** -/
structure State where
  /-- Limits and switches. -/
  settings : Settings
  /-- The declared types. -/
  registry : Registry
  /-- What is stored. -/
  store : Store
  /-- Where every resource is. -/
  ledger : Ledger
  /-- The open frames. -/
  stack : CallStack
  /-- The outstanding references. -/
  loans : Loans
  /-- The running transaction. -/
  transaction : Option Transaction

/-- **Actions on a custodian.** A failure keeps what was done before it. -/
abbrev CustodyM := ExceptT Fault (StateM State)

namespace Ledger

/-- The ledger of a store: every resource found in it is held where it was
found. -/
def ofStore (store : Store) : Ledger :=
  store.entries.foldl
    (fun ledger entry =>
      match entry.2.2 with
      | .value v =>
        (v.inventory (.stored entry.1 entry.2.1)).foldl (fun l r => l.adopt r.1 r.2) ledger
      | .link _ => ledger)
    empty

end Ledger

namespace State

/-- A custodian that resumes from stored state. -/
def ofStore (store : Store) (settings : Settings) (registry : Registry) : State where
  settings := settings
  registry := registry
  store := store
  ledger := Ledger.ofStore store
  stack := CallStack.empty
  loans := Loans.empty
  transaction := none

/-- A custodian with nothing stored. -/
def fresh (settings : Settings) (registry : Registry) : State :=
  ofStore Store.empty settings registry

/-- Whether a transaction is running. -/
def inTransaction (s : State) : Bool := s.transaction.isSome

/-- Marks the running transaction, if the fault is fatal and the first. -/
def note (s : State) (fault : Fault) : State :=
  if fault.isFatal then
    { s with
      transaction := s.transaction.map fun t =>
        { t with poison := some (t.poison.getD fault.message) } }
  else s

end State

namespace CustodyM

variable {α : Type}

/-- **An operation open to the host**: a fatal fault marks the running
transaction. -/
def guarded (action : CustodyM α) : CustodyM α :=
  tryCatch action fun fault => do
    modify (·.note fault)
    throw fault

/-- An action on the ledger alone. -/
def onLedger (action : LedgerM α) : CustodyM α :=
  ExceptT.mk fun s =>
    let (result, ledger) := action.run.run s.ledger
    (result, { s with ledger := ledger })

/-- An action that cannot fail, with its verdict on a borrow. -/
def ofBorrow (action : ExceptT BorrowFailure (StateM State) α) :
    CustodyM (Except BorrowFailure α) :=
  ExceptT.mk fun s =>
    let (result, s) := action.run.run s
    (.ok result, s)

/-- The result of building a value. -/
def ofValueFault (result : Except ValueFault α) : CustodyM α :=
  match result with
  | .ok a => return a
  | .error fault => throw (.ofValueFault fault)

/-- The running transaction. -/
def requireTransaction : CustodyM Transaction := do
  match (← get).transaction with
  | some t => return t
  | none => throw .noTransaction

/-- Refuses an account that did not sign, unless signatures are not
enforced. -/
def requireAuthority (address : Address) : CustodyM Unit := do
  let t ← requireTransaction
  if (← get).settings.enforceAuthority && !t.signers.contains address then
    throw (.unauthorized address)

/-- Refuses a target with an outstanding reference. -/
def ensureNotBorrowed (target : Target) : CustodyM Unit := do
  if (← get).loans.isBorrowed target then throw (.alreadyBorrowed target.text)

/-- The composite of that name and kind. -/
def requireComposite (name : String) (kind : Kind) : CustodyM Declaration := do
  match (← get).registry.composite? name with
  | some d => if d.kind = kind then return d else throw (.unknownType name)
  | none => throw (.unknownType name)

end CustodyM

end Custody
