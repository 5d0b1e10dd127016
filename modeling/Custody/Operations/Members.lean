import Custody.Elements
import Custody.Operations.Storage
import Custody.State
import Custody.Value.Typing

/-!
# Access through references

Every access names a member of the value a reference points at. The
reference has to be live, the member has to be one that the granted type
shows, and the value still has to be the one the reference was issued for.
What is written through a reference may end up in storage, so it has to be
storable.
-/

namespace Custody

namespace Members

open CustodyM

/-- The complaint that a reference has ended. -/
def dangling (r : Reference) : Fault := .danglingReference r.text

/-- The complaint that a value has no such member. -/
def unknownMember (owner : Value) (member : String) : Fault :=
  .unknownBinding (owner.ty.text ++ "." ++ member)

/-- Refuses a reference that has ended and a member it does not show. -/
def checkAccess (r : Reference) (member : String) : CustodyM Unit := do
  let s ← get
  if !s.loans.isLive r then throw (dangling r)
  if !(s.registry.members r.granted.target).contains member then
    throw (.memberNotGranted member r.granted.text)

/-- The value at a target. -/
def targetValue? (s : State) : Target → Option Value
  | .stored address path => s.store.value? address path
  | .binding frame name => (s.stack.value frame name).toOption

/-- The value a reference points at, provided it is the one the reference was
issued for. -/
def value (r : Reference) : CustodyM Value := do
  match targetValue? (← get) r.target with
  | some v => if v.resourceId? = r.identity then return v else throw (dangling r)
  | none => throw (dangling r)

/-- Replaces the value at a target. -/
def replace (target : Target) (v : Value) : CustodyM Unit :=
  modify fun s =>
    match target with
    | .stored address path => { s with store := s.store.insert address path (.value v) }
    | .binding frame name => { s with stack := s.stack.setLocal frame name (.live v) }

/-- The value of a member of a resource or struct. -/
def memberOf (owner : Value) (member : String) : Except Fault Value :=
  match owner with
  | .resource id typeName fields =>
    let r : Resource := ⟨id, typeName, fields⟩
    if r.hasField member then
      match r.field? member with
      | some v => .ok v
      | none => .error (.fieldMoved id member)
    else .error (unknownMember owner member)
  | .struct _ fields =>
    match Table.get? fields member with
    | some v => .ok v
    | none => .error (unknownMember owner member)
  | other => .error (unknownMember other member)

/-- **Copies a member out.** -/
def read (r : Reference) (member : String) : CustodyM Value :=
  guarded do
    checkAccess r member
    let v ← ofExcept (memberOf (← value r) member)
    ofValueFault v.copy

/-- **Overwrites a member**, unless it holds a resource. -/
def set (r : Reference) (member : String) (v : Value) : CustodyM Unit :=
  guarded do
    checkAccess r member
    Storage.ensureStorable v
    let name := r.target.text
    match ← value r with
    | .resource id typeName fields =>
      let owner ← onLedger (Elements.putField ⟨id, typeName, fields⟩ name member v)
      replace r.target owner.toValue
    | .struct typeName fields =>
      if !Table.contains fields member then throw (.unknownBinding (name ++ "." ++ member))
      let owner ← ofValueFault (Struct.set ⟨typeName, fields⟩ member v)
      replace r.target owner.toValue
    | other => throw (unknownMember other member)

/-- Changes the container in a member of the resource referred to. -/
def change {α : Type} (r : Reference) (member : String)
    (action : (container : Value) → (place : Place) → (name : String) → LedgerM (α × Value)) :
    CustodyM α := do
  checkAccess r member
  let v ← value r
  match v.resource? with
  | none => throw (.notAContainer (r.target.text ++ "." ++ member) v.kindName)
  | some owner =>
    let name := owner.typeName ++ "." ++ member
    if !owner.hasField member then throw (.unknownBinding name)
    match owner.field? member with
    | none => throw (.fieldMoved owner.id member)
    | some container =>
      let (a, container) ← onLedger (action container (.field owner.id member) name)
      replace r.target (owner.putField member container).toValue
      return a

/-- **Puts an element into the container in a member.** -/
def insert (r : Reference) (member : String) (key : Key) (v : Value) : CustodyM Unit :=
  guarded do
    Storage.ensureStorable v
    change r member fun container place name => do
      return ((), ← Elements.insert container place name key v)

/-- **Puts an element at the end of the array in a member.** -/
def push (r : Reference) (member : String) (v : Value) : CustodyM Unit :=
  guarded do
    Storage.ensureStorable v
    change r member fun container place name => do
      return ((), ← Elements.push container place name v)

/-- **Takes an element out of the container in a member.** -/
def remove (r : Reference) (member : String) (key : Key) : CustodyM (Option Value) :=
  guarded do
    change r member fun container place name => Elements.remove container place name key

end Members

end Custody
