import Custody.Operations.Borrows
import Custody.Operations.Construction
import Custody.Operations.Frames
import Custody.Operations.Links
import Custody.Operations.Locals
import Custody.Operations.Members
import Custody.Operations.Storage
import Custody.Operations.Teardown
import Custody.Operations.Transactions

/-!
# What a host can ask for

An `Operation` is one call of a host on a custodian, with its arguments, and
`Operation.perform` carries it out. Runs of a host are sequences of
operations, so whatever holds of all runs is proved by going through the
constructors of this type.

A host may also look at the state and declare types; neither is an
operation.
-/

namespace Custody

/-- **One call of a host.** -/
inductive Operation where
  | start (signers : List Address)
  | commit
  | abort
  | createResource (typeName : String) (fields : List (String × Value))
  | createStruct (typeName : String) (fields : List (String × Value))
  | pushFrame
  | popFrame (frame : FrameId)
  | bind (frame : FrameId) (name : String) (v : Value)
  | take (frame : FrameId) (name : String)
  | readLocal (frame : FrameId) (name : String)
  | copyLocal (frame : FrameId) (name : String)
  | pass (caller : FrameId) (argument : String) (callee : FrameId) (parameter : String)
  | assign (frame : FrameId) (source target : String)
  | insert (frame : FrameId) (name : String) (key : Key) (v : Value)
  | push (frame : FrameId) (name : String) (v : Value)
  | remove (frame : FrameId) (name : String) (key : Key)
  | takeField (frame : FrameId) (name field : String)
  | putField (frame : FrameId) (name field : String) (v : Value)
  | save (address : Address) (path : Path) (v : Value)
  | load (address : Address) (path : Path) (expected : Ty)
  | copyStored (address : Address) (path : Path) (expected : Ty)
  | typeAt (address : Address) (path : Path)
  | storedPaths (address : Address) (domain : Domain)
  | link (address : Address) (source target : Path) (promise : RefTy)
  | unlink (address : Address) (path : Path)
  | capability (address : Address) (path : Path) (promise : Option RefTy)
  | linkTarget (address : Address) (path : Path)
  | checkCapability (c : Capability) (requested : RefTy)
  | borrow (c : Capability) (requested : RefTy)
  | borrowStored (address : Address) (path : Path) (requested : RefTy)
  | borrowLocal (frame : FrameId) (name : String) (requested : RefTy)
  | isLive (r : Reference)
  | readMember (r : Reference) (member : String)
  | setMember (r : Reference) (member : String) (v : Value)
  | insertMember (r : Reference) (member : String) (key : Key) (v : Value)
  | pushMember (r : Reference) (member : String) (v : Value)
  | removeMember (r : Reference) (member : String) (key : Key)
  | destroy (v : Value)
  | destroyWith (r : Resource) (p : Plan)

/-- **What a call gives back.** -/
inductive Reply where
  | done
  | verdict (b : Bool)
  | frame (id : FrameId)
  /-- A value, or none where there was none. -/
  | value (v : Option Value)
  | ty (t : Option Ty)
  | path (p : Option Path)
  | paths (ps : List Path)
  | capability (c : Option Capability)
  | reference (r : Reference)
  /-- A borrow gave no reference. -/
  | refused (failure : BorrowFailure)
  | fields (fs : List (String × Value))

namespace Reply

/-- The reply of an action that gives nothing back. -/
def ofUnit (action : CustodyM Unit) : CustodyM Reply := do
  action
  return done

/-- The reply of an action that gives a value back. -/
def ofValue (action : CustodyM Value) : CustodyM Reply := do
  return value (some (← action))

/-- The reply of a borrow. -/
def ofBorrow (action : BorrowM Reference) : CustodyM Reply := do
  match ← CustodyM.ofBorrow action with
  | .ok r => return reference r
  | .error failure => return refused failure

end Reply

namespace Operation

/-- **Carries out a call.** -/
def perform : Operation → CustodyM Reply
  | start signers => Reply.ofUnit (Transactions.start signers)
  | commit => Reply.ofUnit Transactions.commit
  | abort => Reply.ofUnit Transactions.abort
  | createResource typeName fields => Reply.ofValue (Construction.createResource typeName fields)
  | createStruct typeName fields => Reply.ofValue (Construction.createStruct typeName fields)
  | pushFrame => do return .frame (← Frames.push)
  | popFrame frame => Reply.ofUnit (Frames.pop frame)
  | bind frame name v => Reply.ofUnit (Locals.bind frame name v)
  | take frame name => Reply.ofValue (Locals.take frame name)
  | readLocal frame name => Reply.ofValue (Locals.read frame name)
  | copyLocal frame name => Reply.ofValue (Locals.copy frame name)
  | pass caller argument callee parameter =>
    Reply.ofUnit (Locals.pass caller argument callee parameter)
  | assign frame source target => Reply.ofUnit (Locals.assign frame source target)
  | insert frame name key v => Reply.ofUnit (Locals.insert frame name key v)
  | push frame name v => Reply.ofUnit (Locals.push frame name v)
  | remove frame name key => do return .value (← Locals.remove frame name key)
  | takeField frame name field => Reply.ofValue (Locals.takeField frame name field)
  | putField frame name field v => Reply.ofUnit (Locals.putField frame name field v)
  | save address path v => Reply.ofUnit (Storage.save address path v)
  | load address path expected => do return .value (← Storage.load address path expected)
  | copyStored address path expected => do
    return .value (← Storage.copy address path expected)
  | typeAt address path => do return .ty (← Storage.typeAt address path)
  | storedPaths address domain => do return .paths (← Storage.paths address domain)
  | link address source target promise => do
    return .capability (← Links.add address source target promise)
  | unlink address path => Reply.ofUnit (Links.remove address path)
  | capability address path promise => do
    return .capability (some (← Links.capability address path promise))
  | linkTarget address path => do return .path (← Links.target address path)
  | checkCapability c requested => do return .verdict (Links.check (← get) c requested)
  | borrow c requested => Reply.ofBorrow (Borrows.throughCapability c requested)
  | borrowStored address path requested => Reply.ofBorrow (Borrows.stored address path requested)
  | borrowLocal frame name requested => Reply.ofBorrow (Borrows.ofLocal frame name requested)
  | isLive r => do return .verdict ((← get).loans.isLive r)
  | readMember r member => Reply.ofValue (Members.read r member)
  | setMember r member v => Reply.ofUnit (Members.set r member v)
  | insertMember r member key v => Reply.ofUnit (Members.insert r member key v)
  | pushMember r member v => Reply.ofUnit (Members.push r member v)
  | removeMember r member key => do return .value (← Members.remove r member key)
  | destroy v => Reply.ofUnit (Teardown.destroy v)
  | destroyWith r p => do return .fields (← Teardown.destroyWith r p)

end Operation

end Custody
