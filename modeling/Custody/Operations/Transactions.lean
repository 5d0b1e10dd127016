import Custody.Operations.Frames

/-!
# Transactions

A transaction is all or nothing. Beginning one keeps the bytes of the store
and the records of the ledger; aborting it brings both back. A transaction
commits when no fatal fault marked it and it leaves nothing behind: all
frames are closed, and every live resource is in storage or owned by one
that is. A commit that is refused aborts.
-/

namespace Custody

namespace Transactions

open CustodyM

/-- **Begins a transaction** signed by the given accounts. -/
def start (signers : List Address) : CustodyM Unit := do
  let s ← get
  if s.transaction.isSome then throw .nestedTransaction
  let snapshot ← ofExcept s.store.toBytes
  set { s with
    stack := s.stack.clear
    loans := s.loans.releaseAll
    transaction :=
      some ⟨SortedSet.ofList signers, snapshot, s.ledger.records, none⟩ }

/-- **Aborts the transaction**: storage and ledger are as they were when it
began. -/
def abort : CustodyM Unit := do
  let t ← requireTransaction
  modify fun s => { s with transaction := none }
  let store ← ofExcept (Store.ofBytes t.snapshot)
  modify fun s =>
    { s with
      store := store
      ledger := { s.ledger with records := t.records }
      stack := s.stack.clear
      loans := s.loans.releaseAll }

/-- Refuses to leave a resource in flight or held by a local. -/
def checkNothingLingers : CustodyM Unit := do
  match (← get).ledger.lingering.head? with
  | some (id, place?) =>
    throw (.unhandledResource id ((place?.map Place.text).getD "in flight"))
  | none => return

/-- What has to succeed before a commit: all frames are closed and nothing
lingers. -/
def settleUp : CustodyM Unit := do
  match (← get).stack.outermost? with
  | some frame => Frames.unwind frame
  | none => pure ()
  checkNothingLingers

/-- Aborts, and says why. -/
def refuse (reason : String) : CustodyM Unit := do
  abort
  throw (.transactionAborted reason)

/-- **Commits the transaction.** -/
def commit : CustodyM Unit := do
  let t ← requireTransaction
  match t.poison with
  | some reason => refuse reason
  | none =>
    match ← observing settleUp with
    | .error fault => refuse fault.message
    | .ok _ =>
      modify fun s =>
        { s with
          loans := s.loans.releaseAll
          ledger := s.ledger.forgetDestroyed
          transaction := none }

/-- Ends a transaction after what was done in it: commits, or aborts when it
failed. -/
def conclude {α : Type} (outcome : Except Fault α) : CustodyM α := do
  match outcome with
  | .ok a =>
    commit
    return a
  | .error fault =>
    abort
    throw fault

/-- **Does something as one transaction.** -/
def execute {α : Type} (signers : List Address) (body : CustodyM α) : CustodyM α := do
  start signers
  conclude (← observing body)

end Transactions

end Custody
