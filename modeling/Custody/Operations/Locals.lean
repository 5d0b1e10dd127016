import Custody.Elements
import Custody.State

/-!
# Locals

A value is bound to a name in a frame; a binding that still holds a resource
is never overwritten. Taking a copyable value copies it, taking a linear one
moves it and leaves the name behind as moved. Elements and fields of a local
value are moved in place. A local onto which a reference is outstanding can
neither be bound, moved nor changed.
-/

namespace Custody

namespace Locals

open CustodyM

/-- The place of a local. -/
def place (frame : FrameId) (name : String) : Place := .binding frame name

/-- Binds a local of an open frame. -/
def set (frame : FrameId) (name : String) (b : Binding) : CustodyM Unit :=
  modify fun s => { s with stack := s.stack.setLocal frame name b }

/-- What a name of a frame is bound to, if it is bound. -/
def binding? (frame : FrameId) (name : String) : CustodyM (Option Binding) := do
  let f ← ofExcept ((← get).stack.frame frame)
  return Table.get? f.locals name

/-- Refuses to overwrite a binding that holds a resource. -/
def ensureOverwritable (frame : FrameId) (name : String) : CustodyM Unit := do
  match ← binding? frame name with
  | some (.live old) =>
    match Elements.firstRoot? old with
    | some id => throw (.resourceLoss id (place frame name))
    | none => return
  | _ => return

/-- **Binds a value.** -/
def bind (frame : FrameId) (name : String) (v : Value) : CustodyM Unit :=
  guarded do
    let _ ← requireTransaction
    ensureNotBorrowed (.binding frame name)
    ensureOverwritable frame name
    onLedger (Ledger.settleValue v (place frame name))
    set frame name (.live v)

/-- **Takes the value of a local.** -/
def take (frame : FrameId) (name : String) : CustodyM Value :=
  guarded do
    let _ ← requireTransaction
    let v ← ofExcept ((← get).stack.value frame name)
    if v.isLinear then
      ensureNotBorrowed (.binding frame name)
      onLedger (Ledger.releaseValue v (place frame name))
      set frame name .moved
      return v
    else ofValueFault v.copy

/-- Looks at the value of a local. -/
def read (frame : FrameId) (name : String) : CustodyM Value :=
  guarded do ofExcept ((← get).stack.value frame name)

/-- **Copies the value of a local.** -/
def copy (frame : FrameId) (name : String) : CustodyM Value :=
  guarded do
    let v ← ofExcept ((← get).stack.value frame name)
    ofValueFault v.copy

/-- **Passes a local as an argument**: takes it in one frame and binds it in
another. -/
def pass (caller : FrameId) (argument : String) (callee : FrameId) (parameter : String) :
    CustodyM Unit := do
  let v ← take caller argument
  bind callee parameter v

/-- Moves a local to another name of its frame. -/
def assign (frame : FrameId) (source target : String) : CustodyM Unit :=
  pass frame source frame target

/-! ## Elements and fields -/

/-- Changes the value of a local that no reference is onto. -/
def change {α : Type} (frame : FrameId) (name : String)
    (action : Value → LedgerM (α × Value)) : CustodyM α :=
  guarded do
    let _ ← requireTransaction
    ensureNotBorrowed (.binding frame name)
    let old ← ofExcept ((← get).stack.value frame name)
    let (a, new) ← onLedger (action old)
    set frame name (.live new)
    return a

/-- **Puts an element into a local container.** -/
def insert (frame : FrameId) (name : String) (key : Key) (v : Value) : CustodyM Unit :=
  change frame name fun container => do
    return ((), ← Elements.insert container (place frame name) name key v)

/-- **Puts an element at the end of a local array.** -/
def push (frame : FrameId) (name : String) (v : Value) : CustodyM Unit :=
  change frame name fun container => do
    return ((), ← Elements.push container (place frame name) name v)

/-- **Takes an element out of a local container.** -/
def remove (frame : FrameId) (name : String) (key : Key) : CustodyM (Option Value) :=
  change frame name fun container => Elements.remove container (place frame name) name key

/-- Changes the resource that a local is. -/
def changeResource {α : Type} (frame : FrameId) (name : String)
    (action : Resource → LedgerM (α × Resource)) : CustodyM α :=
  change frame name fun v => do
    match v.resource? with
    | some r =>
      let (a, r) ← action r
      return (a, r.toValue)
    | none => throw (Elements.notAContainer name v)

/-- **Takes the value out of a field** of a local resource. -/
def takeField (frame : FrameId) (name field : String) : CustodyM Value :=
  changeResource frame name fun r => Elements.takeField r name field

/-- **Puts a value into a field** of a local resource. -/
def putField (frame : FrameId) (name field : String) (v : Value) : CustodyM Unit :=
  changeResource frame name fun r => do return ((), ← Elements.putField r name field v)

end Locals

end Custody
