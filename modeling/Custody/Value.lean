import Custody.Handle
import Custody.Key

/-!
# Values

A value is a scalar, a container, a composite or a handle. Composites come
in two sorts. A **struct** is copyable. A **resource** is linear: it has an
identity, may be moved but not copied, and a field of it whose value has
been moved out stays behind as an **empty slot**.

Every reading of a value in this library is a fold over its shape
(`Value.fold`): a reading says what to do with a scalar or handle, and how to
put together the readings of the parts of a container or composite. The
equations of this module unfold a fold one level, and `Value.induction` is
the matching principle for proofs: to show a property of all values, show it
of a value from the property of its direct `parts`.
-/

namespace Custody

/-- **A value.** Dictionary entries stand in ascending key order, the fields
of a composite in the order in which they were first given. -/
inductive Value where
  | nil
  | bool (b : Bool)
  | int (i : Int)
  | uint (n : Nat)
  | str (s : String)
  | address (a : Address)
  | path (p : Path)
  | array (elements : List Value)
  | dict (entries : List (Key × Value))
  | struct (typeName : String) (fields : List (String × Value))
  /-- A field is empty after its value has been moved out. -/
  | resource (id : ResourceId) (typeName : String) (fields : List (String × Option Value))
  | capability (c : Capability)
  | reference (r : Reference)
deriving Inhabited

/-- **A resource**, taken apart. -/
structure Resource where
  /-- Its identity. -/
  id : ResourceId
  /-- The composite it is a value of. -/
  typeName : String
  /-- Its fields; a field whose value was moved out is empty. -/
  fields : Table String (Option Value)
deriving Inhabited

/-- The value that a resource is. -/
def Resource.toValue (r : Resource) : Value := .resource r.id r.typeName r.fields

namespace Value

/-! ## Folds -/

/-- **A way to read values** as elements of `α`. -/
structure Reading (α : Type) where
  /-- The reading of a value without parts. -/
  scalar : Value → α
  /-- The reading of an array from those of its elements. -/
  array : List α → α
  /-- The reading of a dictionary from those of its entries. -/
  dict : List (Key × α) → α
  /-- The reading of a struct from those of its fields. -/
  struct : (typeName : String) → List (String × α) → α
  /-- The reading of a resource from those of its filled fields. -/
  resource : Resource → List (String × Option α) → α

section Fold

variable {α : Type} (reading : Reading α)

mutual

/-- Reads a value from its parts up. -/
def fold : Value → α
  | .array elements => reading.array (foldElements elements)
  | .dict entries => reading.dict (foldEntries entries)
  | .struct typeName fields => reading.struct typeName (foldFields fields)
  | .resource id typeName fields =>
    reading.resource ⟨id, typeName, fields⟩ (foldSlots fields)
  | v => reading.scalar v

/-- Reads each element. -/
def foldElements : List Value → List α
  | [] => []
  | v :: rest => fold v :: foldElements rest

/-- Reads each dictionary entry. -/
def foldEntries : List (Key × Value) → List (Key × α)
  | [] => []
  | (k, v) :: rest => (k, fold v) :: foldEntries rest

/-- Reads each field of a struct. -/
def foldFields : List (String × Value) → List (String × α)
  | [] => []
  | (name, v) :: rest => (name, fold v) :: foldFields rest

/-- Reads each filled field of a resource. -/
def foldSlots : List (String × Option Value) → List (String × Option α)
  | [] => []
  | (name, none) :: rest => (name, none) :: foldSlots rest
  | (name, some v) :: rest => (name, some (fold v)) :: foldSlots rest

end

theorem foldElements_eq_map (elements : List Value) :
    foldElements reading elements = elements.map (fold reading) := by
  induction elements with
  | nil => rfl
  | cons v rest ih => simp [foldElements, ih]

theorem foldEntries_eq_map (entries : List (Key × Value)) :
    foldEntries reading entries = entries.map fun e => (e.1, fold reading e.2) := by
  induction entries with
  | nil => rfl
  | cons e rest ih => simp [foldEntries, ih]

theorem foldFields_eq_map (fields : List (String × Value)) :
    foldFields reading fields = fields.map fun f => (f.1, fold reading f.2) := by
  induction fields with
  | nil => rfl
  | cons f rest ih => simp [foldFields, ih]

theorem foldSlots_eq_map (fields : List (String × Option Value)) :
    foldSlots reading fields = fields.map fun f => (f.1, f.2.map (fold reading)) := by
  induction fields with
  | nil => rfl
  | cons f rest ih => obtain ⟨name, _ | v⟩ := f <;> simp [foldSlots, ih]

theorem fold_array (elements : List Value) :
    fold reading (.array elements) = reading.array (elements.map (fold reading)) := by
  rw [← foldElements_eq_map]; rfl

theorem fold_dict (entries : List (Key × Value)) :
    fold reading (.dict entries)
      = reading.dict (entries.map fun e => (e.1, fold reading e.2)) := by
  rw [← foldEntries_eq_map]; rfl

theorem fold_struct (typeName : String) (fields : List (String × Value)) :
    fold reading (.struct typeName fields)
      = reading.struct typeName (fields.map fun f => (f.1, fold reading f.2)) := by
  rw [← foldFields_eq_map]; rfl

theorem fold_resource (id : ResourceId) (typeName : String)
    (fields : List (String × Option Value)) :
    fold reading (.resource id typeName fields)
      = reading.resource ⟨id, typeName, fields⟩
        (fields.map fun f => (f.1, f.2.map (fold reading))) := by
  rw [← foldSlots_eq_map]; rfl

end Fold

/-! ## Parts and induction -/

/-- **The direct parts** of a container or composite; empty slots have
none. -/
def parts : Value → List Value
  | .array elements => elements
  | .dict entries => entries.map Prod.snd
  | .struct _ fields => fields.map Prod.snd
  | .resource _ _ fields => fields.filterMap Prod.snd
  | _ => []

/-- A part is smaller than the whole. -/
theorem sizeOf_lt_of_mem_parts {v part : Value} (h : part ∈ v.parts) :
    sizeOf part < sizeOf v := by
  cases v with
  | array elements =>
    have : sizeOf part < sizeOf elements := List.sizeOf_lt_of_mem h
    simp only [Value.array.sizeOf_spec]
    omega
  | dict entries =>
    obtain ⟨⟨k, w⟩, mem, rfl⟩ := List.mem_map.1 h
    have := List.sizeOf_lt_of_mem mem
    simp only [Value.dict.sizeOf_spec, Prod.mk.sizeOf_spec] at this ⊢
    omega
  | struct typeName fields =>
    obtain ⟨⟨name, w⟩, mem, rfl⟩ := List.mem_map.1 h
    have := List.sizeOf_lt_of_mem mem
    simp only [Value.struct.sizeOf_spec, Prod.mk.sizeOf_spec] at this ⊢
    omega
  | resource id typeName fields =>
    obtain ⟨⟨name, slot⟩, mem, hw⟩ := List.mem_filterMap.1 h
    obtain rfl : slot = some part := hw
    have := List.sizeOf_lt_of_mem mem
    simp only [Value.resource.sizeOf_spec, Prod.mk.sizeOf_spec, Option.some.sizeOf_spec]
      at this ⊢
    omega
  | _ => simp [parts] at h

/-- **Induction on parts.** A property that every value has when its direct
parts have it holds of all values. -/
theorem induction {motive : Value → Prop}
    (step : ∀ v : Value, (∀ part ∈ v.parts, motive part) → motive v) (v : Value) :
    motive v :=
  step v fun part _ => induction step part
termination_by v
decreasing_by exact sizeOf_lt_of_mem_parts ‹_›

/-! ## Looking at a value -/

/-- The name of the sort of value. -/
def kindName : Value → String
  | .nil => "nil"
  | .bool _ => "bool"
  | .int _ => "int"
  | .uint _ => "uint"
  | .str _ => "str"
  | .address _ => "address"
  | .path _ => "path"
  | .array _ => "array"
  | .dict _ => "dict"
  | .struct _ _ => "struct"
  | .resource _ _ _ => "resource"
  | .capability _ => "capability"
  | .reference _ => "reference"

/-- The value as a container key. -/
def key? : Value → Option Key
  | .bool b => some (.bool b)
  | .int i => some (.int i)
  | .uint n => some (.uint n)
  | .str s => some (.str s)
  | .address a => some (.address a)
  | _ => none

/-- The number of an unsigned value. -/
def uint? : Value → Option Nat
  | .uint n => some n
  | _ => none

/-- The resource a value is. -/
def resource? : Value → Option Resource
  | .resource id typeName fields => some ⟨id, typeName, fields⟩
  | _ => none

/-- The identity of the resource a value is. -/
def resourceId? (v : Value) : Option ResourceId := v.resource?.map Resource.id

end Value

/-- The key as a value. -/
def Key.toValue : Key → Value
  | .bool b => .bool b
  | .int i => .int i
  | .uint n => .uint n
  | .str s => .str s
  | .address a => .address a

/-! ## The fields of a resource -/

namespace Resource

/-- A resource made of assignments to its fields. -/
def ofAssignments (id : ResourceId) (typeName : String) (fields : List (String × Value)) :
    Resource :=
  ⟨id, typeName, Table.ofList (fields.map fun f => (f.1, some f.2))⟩

/-- Whether the resource has the field, filled or empty. -/
def hasField (r : Resource) (name : String) : Bool := Table.contains r.fields name

/-- The value in a field. -/
def field? (r : Resource) (name : String) : Option Value := (Table.get? r.fields name).join

/-- Whether the field is there but empty. -/
def isFieldMoved (r : Resource) (name : String) : Bool :=
  match Table.get? r.fields name with
  | some none => true
  | _ => false

/-- The names of the empty fields. -/
def movedFields (r : Resource) : List String :=
  (r.fields.filter fun f => f.2.isNone).map Prod.fst

/-- Fills a field; a field the resource does not have is added. -/
def putField (r : Resource) (name : String) (v : Value) : Resource :=
  { r with fields := Table.put r.fields name (some v) }

/-- Empties a field; a field the resource does not have is left out. -/
def emptyField (r : Resource) (name : String) : Resource :=
  if r.hasField name then { r with fields := Table.put r.fields name none } else r

end Resource

end Custody
