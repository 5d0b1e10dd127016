import Custody.Ledger
import Custody.Value.Copy

/-!
# Moving elements and fields

Values move into and out of arrays, dictionaries and resource fields. The
container stands at a place, and its roots are recorded at the places of
their elements; a move changes the container and the ledger together. When
an element of an array changes its position, the records of its roots follow.

The actions return the new container and leave it to the caller to put it
back where it stands. `name` is what the caller calls the container in a
complaint.
-/

namespace Custody

namespace Elements

/-- The complaint that a value has no elements. -/
def notAContainer (name : String) (container : Value) : Fault :=
  .notAContainer name container.kindName

/-- The roots of elements of an array at a place, the first of them standing
at position `start`. -/
def placingsFrom (place : Place) (start : Nat) (elements : List Value) :
    List (ResourceId × Place) :=
  (elements.zipIdx start).flatMap fun e => e.1.placings (place.element (.uint e.2))

/-- Points the records of the roots of elements at where they stand now. -/
def relocateFrom (place : Place) (start : Nat) (elements : List Value) : LedgerM Unit :=
  modify fun ledger =>
    (placingsFrom place start elements).foldl (fun l r => l.relocate r.1 r.2) ledger

/-- The position a key stands for, if it is below the bound. -/
def positionBelow? (key : Key) (bound : Nat) : Option Nat :=
  key.position?.filter (· < bound)

/-- The identity of the first root of a value. -/
def firstRoot? (v : Value) : Option ResourceId := v.rootIds.head?

/-- **Puts a value into a container**: in front of a position of an array, or
under a key of a dictionary where it must not replace a resource. -/
def insert (container : Value) (place : Place) (name : String) (key : Key) (v : Value) :
    LedgerM Value := do
  match container with
  | .array elements =>
    match positionBelow? key (elements.length + 1) with
    | some i =>
      Ledger.settleValue v (place.element (.uint i))
      relocateFrom place (i + 1) (elements.drop i)
      return .array (elements.insertIdx i v)
    | none => throw (.unknownBinding (name ++ "[" ++ key.text ++ "]"))
  | .dict entries =>
    let slot := place.element key
    match (Table.get? entries key).bind firstRoot? with
    | some id => throw (.resourceLoss id slot)
    | none =>
      Ledger.settleValue v slot
      return .dict (Table.place entries key v)
  | other => throw (notAContainer name other)

/-- **Puts a value at the end of an array.** -/
def push (container : Value) (place : Place) (name : String) (v : Value) :
    LedgerM Value := do
  match container with
  | .array elements =>
    Ledger.settleValue v (place.element (.uint elements.length))
    return .array (elements ++ [v])
  | other => throw (notAContainer name other)

/-- **Takes an element out of a container**, together with what remains. A
key that is not in use gives nothing. -/
def remove (container : Value) (place : Place) (name : String) (key : Key) :
    LedgerM (Option Value × Value) := do
  match container with
  | .array elements =>
    match positionBelow? key elements.length with
    | some i =>
      match elements[i]? with
      | some v =>
        Ledger.releaseValue v (place.element (.uint i))
        relocateFrom place i (elements.drop (i + 1))
        return (some v, .array (elements.eraseIdx i))
      | none => return (none, container)
    | none => return (none, container)
  | .dict entries =>
    match Table.get? entries key with
    | some v =>
      Ledger.releaseValue v (place.element key)
      return (some v, .dict (Table.erase entries key))
    | none => return (none, container)
  | other => throw (notAContainer name other)

/-- **Takes the value out of a field**, leaving the field empty. -/
def takeField (r : Resource) (name field : String) : LedgerM (Value × Resource) := do
  if r.hasField field then
    match r.field? field with
    | some v =>
      Ledger.releaseValue v (.field r.id field)
      return (v, r.emptyField field)
    | none => throw (.fieldMoved r.id field)
  else throw (.unknownBinding (name ++ "." ++ field))

/-- **Puts a value into a field**, which must not hold a resource. -/
def putField (r : Resource) (name field : String) (v : Value) : LedgerM Resource := do
  if r.hasField field then
    let place := Place.field r.id field
    match (r.field? field).bind firstRoot? with
    | some id => throw (.resourceLoss id place)
    | none =>
      Ledger.settleValue v place
      return r.putField field v
  else throw (.unknownBinding (name ++ "." ++ field))

end Elements

end Custody
