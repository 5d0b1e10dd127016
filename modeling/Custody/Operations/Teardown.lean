import Custody.State

/-!
# Teardown

Destroying a resource destroys everything it owns, innermost first. The
whole order is laid out and checked before the first record changes. A
**plan** says of each field whether its contents are destroyed or moved out;
it has to deal with every linear field and may not name an empty one.
Copyable fields it does not name are dropped.
-/

namespace Custody

/-- What a plan does with a field. -/
inductive FieldFate where
  | destroy
  /-- The value of the field is handed back. -/
  | moveOut
deriving DecidableEq

/-- **A teardown plan**, by field. -/
structure Plan where
  /-- The fate of each field named. -/
  fates : Table String FieldFate

/-- **The order of a teardown**: the identities in the order in which they
are destroyed, each with the place that holds it, none for one in flight. -/
abbrev TeardownOrder := List (ResourceId × Option Place)

namespace Plan

/-- The plan that names no field. -/
def empty : Plan := ⟨[]⟩

/-- Names a field, anew or again. -/
def assign (p : Plan) (field : String) (fate : FieldFate) : Plan :=
  ⟨Table.put p.fates field fate⟩

/-- The plan that destroys every filled field. -/
def covering (r : Resource) : Plan :=
  (r.fields.filter fun f => f.2.isSome).foldl (fun p f => p.assign f.1 .destroy) empty

/-- The fate of a field. -/
def fate? (p : Plan) (field : String) : Option FieldFate := Table.get? p.fates field

/-- Whether the plan moves the field out. -/
def movesOut (p : Plan) (field : String) : Bool := p.fate? field = some .moveOut

/-- Refuses a plan that names a field the resource does not have or that is
empty. -/
def checkNamed (r : Resource) : List String → Except Fault Unit
  | [] => .ok ()
  | field :: rest =>
    if !r.hasField field then .error (.unknownBinding (r.typeName ++ "." ++ field))
    else if r.isFieldMoved field then .error (.fieldMoved r.id field)
    else checkNamed r rest

/-- Refuses a plan that leaves out a field with a linear value. -/
def checkUnnamed (p : Plan) (id : ResourceId) :
    List (String × Option Value) → Except Fault Unit
  | [] => .ok ()
  | (field, slot) :: rest =>
    if (p.fate? field).isNone && slot.any Value.isLinear then
      .error (.incompleteDestructor id field)
    else checkUnnamed p id rest

/-- **Whether the plan fits the resource.** -/
def validate (p : Plan) (r : Resource) : Except Fault Unit := do
  checkNamed r (Table.keys p.fates)
  checkUnnamed p r.id r.fields

end Plan

namespace Value

/-- The teardown orders of parts, one after the other. -/
def joinOrders : List (Except Fault TeardownOrder) → Except Fault TeardownOrder
  | [] => .ok []
  | part :: rest => do
    let order ← part
    let others ← joinOrders rest
    return order ++ others

/-- The teardown order of keyed parts of a container. -/
def teardownParts (parts : List (Key × (Option Place → Except Fault TeardownOrder)))
    (place? : Option Place) : Except Fault TeardownOrder :=
  joinOrders (parts.map fun part => part.2 (place?.map fun place => place.element part.1))

/-- The teardown order of a field's contents; an empty field cannot be torn
down. -/
def teardownField (owner : ResourceId)
    (field : String × Option (Option Place → Except Fault TeardownOrder)) :
    Except Fault TeardownOrder :=
  match field.2 with
  | some contents => contents (some (.field owner field.1))
  | none => .error (.fieldMoved owner field.1)

/-- The reading behind `teardown`. -/
def teardownReading : Reading (Option Place → Except Fault TeardownOrder) where
  scalar _ _ := .ok []
  array parts := teardownParts (positions parts)
  dict entries := teardownParts entries
  struct _ _ _ := .ok []
  resource r fields place? := do
    let owned ← joinOrders (fields.map (teardownField r.id))
    return owned ++ [(r.id, place?)]

/-- **The teardown order of a value** at a place: of every root, first what
it owns and then itself. -/
def teardown : Value → Option Place → Except Fault TeardownOrder := fold teardownReading

end Value

namespace Resource

/-- The teardown order of what a resource owns, leaving out the fields to
skip. -/
def teardownFields (r : Resource) (skip : String → Bool) : Except Fault TeardownOrder :=
  Value.joinOrders ((r.fields.filter fun f => !skip f.1).map fun f =>
    Value.teardownField r.id (f.1, f.2.map Value.teardown))

end Resource

namespace Teardown

open CustodyM

/-- Checks every step of an order. -/
def check (order : TeardownOrder) : LedgerM Unit :=
  order.forM fun step => Ledger.checkDestroy step.1 step.2

/-- Checks every step of an order, then takes them. -/
def apply (order : TeardownOrder) : LedgerM Unit := do
  check order
  order.forM fun step => Ledger.destroy step.1 step.2

/-- The teardown order of roots in flight, each checked before what it owns
is looked at. -/
def orderOf : List Resource → LedgerM TeardownOrder
  | [] => return []
  | r :: rest => do
    Ledger.checkDestroy r.id none
    let owned ← ofExcept (r.teardownFields fun _ => false)
    let others ← orderOf rest
    return owned ++ [(r.id, none)] ++ others

/-- **Destroys a value** and every resource it owns; copyable values are
dropped. -/
def destroy (v : Value) : CustodyM Unit :=
  guarded do
    let _ ← requireTransaction
    onLedger do apply (← orderOf (v.held.map Prod.snd))

/-- Takes the contents of the fields that a plan moves out from their
fields. -/
def releaseFields (owner : ResourceId) : List (String × Value) → LedgerM Unit
  | [] => return
  | (field, v) :: rest => do
    Ledger.releaseValue v (.field owner field)
    releaseFields owner rest

/-- The filled fields that a plan moves out. -/
def movedOut (p : Plan) (r : Resource) : List (String × Value) :=
  r.fields.filterMap fun f => if p.movesOut f.1 then f.2.map fun v => (f.1, v) else none

/-- **Destroys a resource as planned** and hands back what is moved out, in
flight. -/
def destroyWith (r : Resource) (p : Plan) : CustodyM (List (String × Value)) :=
  guarded do
    let _ ← requireTransaction
    onLedger do
      Ledger.checkDestroy r.id none
      ofExcept (p.validate r)
      let owned ← ofExcept (r.teardownFields fun field => p.movesOut field || r.isFieldMoved field)
      let order := owned ++ [(r.id, none)]
      check order
      releaseFields r.id (movedOut p r)
      apply order
    return movedOut p r

end Teardown

end Custody
