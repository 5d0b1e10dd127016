import Custody.Operations.Borrows
import Custody.Operations.Construction
import Custody.Operations.Frames
import Custody.Operations.Links
import Custody.Operations.Locals
import Custody.Operations.Members
import Custody.Operations.Storage
import Custody.Operations.Transactions

/-!
# A scenario: a vault of coins with a deposit slot

Alice keeps coins in a vault and publishes a capability for it that shows
only the deposit side. Bob keeps a copy of the capability, makes a coin and
deposits it. Alice then takes a coin out and keeps it under another path.
-/

namespace Custody

namespace Scenario

/-- The account that keeps the vault. -/
def alice : Address := ⟨0xa11ce⟩

/-- The account that deposits. -/
def bob : Address := ⟨0xb0b⟩

/-- A resource declaration. -/
def resource (above members : List String) : Declaration :=
  ⟨.resource, above, SortedSet.ofList members⟩

/-- The types of the scenario. -/
def registry : Registry :=
  Registry.empty
    |>.declareInterface "Receiver" (resource [] ["coins"])
    |>.declareComposite "Coin" (resource [] ["amount"])
    |>.declareComposite "Vault" (resource ["Receiver"] ["coins", "label"])

/-- Where Alice keeps the vault. -/
def vaultPath : Path := ⟨.storage, "vault"⟩

/-- Where Alice keeps the coin she took out. -/
def spendingPath : Path := ⟨.storage, "spending"⟩

/-- Where Alice publishes the deposit side of the vault. -/
def receiverPath : Path := ⟨.publicLinks, "receiver"⟩

/-- Where Bob keeps his copy of the capability. -/
def copyPath : Path := ⟨.storage, "alice_receiver"⟩

/-- The deposit side of a vault. -/
def receiver : RefTy := ⟨false, .restricted none ["Receiver"]⟩

/-- Makes a coin. -/
def coin (amount : Nat) : CustodyM Value :=
  Construction.createResource "Coin" [("amount", .uint amount)]

/-- A borrow whose failure is passed on. -/
def borrowed (action : BorrowM Reference) : CustodyM Reference := do
  match ← CustodyM.ofBorrow action with
  | .ok r => return r
  | .error failure => throw (.borrow failure)

/-- Alice fills the vault and publishes its deposit side. -/
def publish : CustodyM Unit := do
  let fifty ← coin 50
  let twentyFive ← coin 25
  let vault ← Construction.createResource "Vault"
    [("coins", .array [fifty, twentyFive]), ("label", .str "alice")]
  Storage.save alice vaultPath vault
  let _ ← Links.add alice receiverPath vaultPath receiver
  return

/-- Bob makes a coin and deposits it. -/
def deposit : CustodyM Unit := do
  let c ← Links.capability alice receiverPath none
  Storage.save bob copyPath (.capability c)
  Frames.within fun _ => do
    let r ← borrowed (Borrows.throughCapability c receiver)
    let ten ← coin 10
    Members.push r "coins" ten

/-- Alice takes the first coin out of the vault and keeps it elsewhere. -/
def withdraw : CustodyM Unit :=
  Frames.within fun frame => do
    let r ← borrowed (Borrows.stored alice vaultPath receiver)
    match ← Members.remove r "coins" (.uint 0) with
    | none => return
    | some first =>
      Locals.bind frame "coin" first
      let taken ← Locals.take frame "coin"
      Storage.save alice spendingPath taken

/-- The three transactions of the scenario. -/
def play : CustodyM Unit := do
  Transactions.execute [alice] publish
  Transactions.execute [bob] deposit
  Transactions.execute [alice] withdraw

/-- **The store that the scenario leaves behind.** -/
def run (settings : Settings) : Except Fault Store :=
  let (result, s) := play.run.run (State.fresh settings registry)
  result.map fun _ => s.store

end Scenario

end Custody
