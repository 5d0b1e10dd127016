import Custody.Place
import Custody.ValueFault

/-!
# What can go wrong

Every refusal of this library is a `Fault`, named for its cause. A fault
shows a sentence (`Fault.message`), a diagnostic code (`Fault.code`) and
sometimes advice (`Fault.help?`). Most faults are **fatal**
(`Fault.isFatal`): the host broke a rule it cannot mend, so the transaction
in which one is raised can no longer commit. The others leave everything as
it was and the host may go on.

A borrow that does not come about is not a fault but a `BorrowFailure`; it
becomes one only when the host passes it on.
-/

namespace Custody

/-- **Why a borrow gave no reference.** -/
inductive BorrowFailure where
  /-- Nothing is stored at the target path. -/
  | absentTarget
  /-- The stored or a declared type does not fit the request. -/
  | typeMismatch
  /-- A reference onto the target is outstanding. -/
  | alreadyBorrowed
  /-- There is no link at the capability's path. -/
  | deadLink
  /-- The chain of links is cyclic or too long. -/
  | linkCycle
  /-- The account did not sign. -/
  | unauthorized
  /-- The request needs an authorized capability. -/
  | notAuthorized
  /-- No transaction is running. -/
  | noTransaction
deriving DecidableEq

namespace BorrowFailure

/-- The sentence shown for the failure. -/
def message : BorrowFailure → String
  | absentTarget => "nothing is stored at the target path"
  | typeMismatch => "stored or declared type does not match the requested type"
  | alreadyBorrowed => "the target is already borrowed"
  | deadLink => "no link at the capability path"
  | linkCycle => "link chain is cyclic or too deep"
  | unauthorized => "no authority over the target account"
  | notAuthorized => "requested type needs an authorized capability"
  | noTransaction => "references can only be issued inside a transaction"

/-- The diagnostic code of the failure. -/
def code : BorrowFailure → String
  | absentTarget => "vault_link_E0301"
  | typeMismatch => "vault_link_E0302"
  | alreadyBorrowed => "vault_link_E0303"
  | deadLink => "vault_link_E0304"
  | linkCycle => "vault_link_E0305"
  | unauthorized => "vault_link_E0306"
  | notAuthorized => "vault_link_E0307"
  | noTransaction => "vault_link_E0308"

/-- The advice that comes with the failure, if any. -/
def help? : BorrowFailure → Option String
  | deadLink => some "the link may have been revoked with unlink"
  | notAuthorized =>
    some "only `auth` capabilities may be downcast to a more specific type"
  | _ => none

end BorrowFailure

/-- **A refusal of an operation.** -/
inductive Fault where
  /-- The binding was moved out earlier. -/
  | useAfterMove (name : String)
  /-- Writing to the place would lose the resource. -/
  | resourceLoss (id : ResourceId) (place : Place)
  /-- The resource is still held where it must not be. -/
  | unhandledResource (id : ResourceId) (place : String)
  /-- The resource has another owner. -/
  | alreadyOwned (id : ResourceId) (place : Place)
  /-- The resource is being moved. -/
  | alreadyInFlight (id : ResourceId)
  /-- The resource was destroyed. -/
  | useAfterDestroy (id : ResourceId)
  /-- The resource has no record. -/
  | unknownResource (id : ResourceId)
  /-- A linear value cannot be copied. -/
  | copyOfLinear (typeName : String)
  /-- A copyable aggregate takes no linear field. -/
  | linearInCopyable (typeName field : String)
  /-- There is no such local, field or element. -/
  | unknownBinding (name : String)
  /-- The value has no elements. -/
  | notAContainer (name kind : String)
  /-- The type is not declared as needed. -/
  | unknownType (name : String)
  /-- Something is stored there already. -/
  | pathOccupied (address : Address) (path : Path)
  /-- The stored value has another type. -/
  | loadTypeMismatch (address : Address) (path : Path) (expected found : String)
  /-- The account did not sign. -/
  | unauthorized (address : Address)
  /-- The domain does not hold what the operation is about. -/
  | invalidDomain (path : Path)
  /-- The value contains something that is never stored. -/
  | notStorable (kind : String)
  /-- The text is no storage path. -/
  | invalidPath (text : String)
  /-- The text is no address. -/
  | invalidAddress (text : String)
  /-- A reference onto the target is outstanding. -/
  | alreadyBorrowed (target : String)
  /-- The granted type does not show the member. -/
  | memberNotGranted (member granted : String)
  /-- The reference has ended. -/
  | danglingReference (reference : String)
  /-- The resource was destroyed before. -/
  | doubleDestroy (id : ResourceId)
  /-- The field is empty. -/
  | fieldMoved (id : ResourceId) (field : String)
  /-- The teardown plan leaves a linear field unhandled. -/
  | incompleteDestructor (id : ResourceId) (field : String)
  /-- The frame is not the innermost one. -/
  | frameMismatch (expected found : String)
  /-- Too many frames are open. -/
  | frameDepthExceeded (limit : Nat)
  /-- No transaction is running. -/
  | noTransaction
  /-- A transaction is running already. -/
  | nestedTransaction
  /-- The transaction was rolled back. -/
  | transactionAborted (reason : String)
  /-- A borrow failed and the host passed it on. -/
  | borrow (failure : BorrowFailure)
  /-- The settings are unusable. -/
  | config (text : String)
  /-- Bytes and state do not correspond. -/
  | codec (text : String)
  /-- A file could not be read or written. -/
  | io (text : String)
deriving DecidableEq

namespace Fault

/-- A refusal to build a value, as a fault. -/
def ofValueFault : ValueFault → Fault
  | .linearInCopyable typeName field => linearInCopyable typeName field
  | .copyOfLinear typeName => copyOfLinear typeName
  | .invalidPath text => invalidPath text
  | .invalidAddress text => invalidAddress text

/-- **Whether the fault dooms its transaction.** -/
def isFatal : Fault → Bool
  | alreadyBorrowed _ => false
  | borrow _ => false
  | unknownBinding _ => false
  | notAContainer _ _ => false
  | invalidPath _ => false
  | invalidAddress _ => false
  | config _ => false
  | codec _ => false
  | io _ => false
  | _ => true

/-- The sentence shown for the fault. -/
def message : Fault → String
  | useAfterMove name => "use of moved value '" ++ name ++ "'"
  | resourceLoss id place =>
    "resource " ++ id.text ++ " would be lost by overwriting " ++ place.text
  | unhandledResource id place =>
    "resource " ++ id.text ++ " is still held at " ++ place ++ " when its frame exits"
  | alreadyOwned id place => "resource " ++ id.text ++ " is already owned at " ++ place.text
  | alreadyInFlight id => "resource " ++ id.text ++ " is already being moved"
  | useAfterDestroy id => "resource " ++ id.text ++ " has been destroyed"
  | unknownResource id => "resource " ++ id.text ++ " is not known to this runtime"
  | copyOfLinear typeName => "cannot copy linear value of type '" ++ typeName ++ "'"
  | linearInCopyable typeName field =>
    "copyable aggregate '" ++ typeName ++ "' cannot hold linear field '" ++ field ++ "'"
  | unknownBinding name => "unknown binding '" ++ name ++ "'"
  | notAContainer name kind => "'" ++ name ++ "' is a " ++ kind ++ ", not a container"
  | unknownType name => "unknown type '" ++ name ++ "'"
  | pathOccupied address path =>
    "storage path " ++ path.text ++ " of " ++ address.text ++ " is already occupied"
  | loadTypeMismatch address path expected found =>
    "value at " ++ path.text ++ " of " ++ address.text ++ " has type '" ++ found
      ++ "', expected '" ++ expected ++ "'"
  | unauthorized address => "no authority over account " ++ address.text
  | invalidDomain path =>
    "path " ++ path.text ++ " is in the wrong domain for this operation"
  | notStorable kind => "value of kind '" ++ kind ++ "' cannot be stored"
  | invalidPath text => "invalid path: " ++ text
  | invalidAddress text => "invalid address: " ++ text
  | alreadyBorrowed target => target ++ " is already borrowed"
  | memberNotGranted member granted =>
    "member '" ++ member ++ "' is not accessible through '" ++ granted ++ "'"
  | danglingReference reference => "reference " ++ reference ++ " is no longer valid"
  | doubleDestroy id => "resource " ++ id.text ++ " destroyed twice"
  | fieldMoved id field =>
    "field '" ++ field ++ "' of resource " ++ id.text ++ " was already moved out"
  | incompleteDestructor id field =>
    "destructor for resource " ++ id.text ++ " leaves linear field '" ++ field
      ++ "' unhandled"
  | frameMismatch expected found =>
    "frame " ++ expected ++ " is not the innermost frame (found " ++ found ++ ")"
  | frameDepthExceeded limit =>
    "call depth limit of " ++ toString limit ++ " frames exceeded"
  | noTransaction => "no transaction is active"
  | nestedTransaction => "a transaction is already active"
  | transactionAborted reason => "transaction aborted: " ++ reason
  | borrow failure => failure.message
  | config text => "configuration error: " ++ text
  | codec text => "encoding error: " ++ text
  | io text => text

/-- The diagnostic code of the fault. -/
def code : Fault → String
  | useAfterMove _ => "vault_own_E0101"
  | resourceLoss _ _ => "vault_own_E0102"
  | unhandledResource _ _ => "vault_own_E0103"
  | alreadyOwned _ _ => "vault_own_E0104"
  | alreadyInFlight _ => "vault_own_E0105"
  | useAfterDestroy _ => "vault_own_E0106"
  | unknownResource _ => "vault_own_E0107"
  | copyOfLinear _ => "vault_own_E0108"
  | linearInCopyable _ _ => "vault_own_E0109"
  | unknownBinding _ => "vault_own_E0110"
  | notAContainer _ _ => "vault_own_E0111"
  | unknownType _ => "vault_own_E0112"
  | pathOccupied _ _ => "vault_store_E0201"
  | loadTypeMismatch _ _ _ _ => "vault_store_E0202"
  | unauthorized _ => "vault_store_E0203"
  | invalidDomain _ => "vault_store_E0204"
  | notStorable _ => "vault_store_E0205"
  | invalidPath _ => "vault_store_E0206"
  | invalidAddress _ => "vault_store_E0207"
  | alreadyBorrowed _ => "vault_ref_E0401"
  | memberNotGranted _ _ => "vault_ref_E0402"
  | danglingReference _ => "vault_ref_E0403"
  | doubleDestroy _ => "vault_destroy_E0501"
  | fieldMoved _ _ => "vault_destroy_E0502"
  | incompleteDestructor _ _ => "vault_destroy_E0503"
  | frameMismatch _ _ => "vault_txn_E0601"
  | frameDepthExceeded _ => "vault_txn_E0602"
  | noTransaction => "vault_txn_E0603"
  | transactionAborted _ => "vault_txn_E0604"
  | nestedTransaction => "vault_txn_E0605"
  | borrow failure => failure.code
  | config _ => "vault_config_E0701"
  | codec _ => "vault_codec_E0702"
  | io _ => "vault_io_E0703"

/-- The advice that comes with the fault, if any. -/
def help? : Fault → Option String
  | useAfterMove name =>
    some ("'" ++ name
      ++ "' was moved out earlier; move it back in or bind a new value first")
  | resourceLoss _ place =>
    some ("move the resource out of " ++ place.text
      ++ " before binding a new value there")
  | unhandledResource _ _ =>
    some "every resource must be returned, stored or destroyed on every exit path"
  | alreadyOwned _ _ =>
    some "a resource has exactly one owner; this value is a duplicate"
  | useAfterDestroy _ => some "destroyed resources can never be bound again"
  | unknownResource _ =>
    some "resources must be created through the runtime, or were discarded by a rollback"
  | copyOfLinear _ => some "linear values can only be moved or destroyed"
  | unknownType name =>
    some ("declare '" ++ name
      ++ "' in the type registry before constructing values of it")
  | pathOccupied _ path =>
    some ("load the existing value out of " ++ path.text ++ " before saving a new one")
  | unauthorized address =>
    some ("the transaction must be signed by " ++ address.text
      ++ " to touch its private data")
  | invalidDomain _ =>
    some "values live under /storage, links under /private and /public"
  | notStorable _ =>
    some
      "references are never persisted, and resources with moved-out fields are incomplete"
  | invalidAddress _ => some "addresses are hexadecimal, with or without a 0x prefix"
  | alreadyBorrowed _ =>
    some "the outstanding reference is released when the frame that created it returns"
  | danglingReference _ => some "references cannot outlive the frame that created them"
  | fieldMoved _ _ =>
    some "a destructor cannot tear down a slot that no longer holds a value"
  | incompleteDestructor _ _ =>
    some "every linear field must be destroyed or moved out by the destructor"
  | noTransaction => some "call on_transaction_start or use execute()"
  | nestedTransaction => some "transactions run to completion before the next begins"
  | borrow failure => failure.help?
  | _ => none

end Fault

end Custody
