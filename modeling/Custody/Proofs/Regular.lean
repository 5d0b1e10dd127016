import Custody.Proofs.Codec
import Custody.Proofs.Tables
import Custody.Value.Copy

/-!
# Regular values

Numbers and tables are written here with types that are wider than those of a
host: an integer is unbounded, and a dictionary is any list of pairs. A value is
**regular** when it and everything in it is such as a host makes it with the
constructors:

* its numbers are those of a 64-bit machine;
* the keys of a dictionary ascend, and the fields of a composite have
  distinct names;
* no field of a struct is linear.

Without the last condition a value is **readable**: its bytes determine it.
That is all the types of a host's data see to, as the constructors keep linear
values out of structs and the decoder does not. What the operations make of
regular values is regular again, so this is a property of what enters from
outside, and likewise for readable values.
-/

namespace Custody

namespace Value

/-- **A property holds everywhere in a value**: of the value itself, and
everywhere in its parts. -/
inductive Everywhere (P : Value → Prop) : Value → Prop where
  | intro {v : Value} (here : P v) (inside : ∀ part ∈ v.parts, Everywhere P part) :
    Everywhere P v

namespace Everywhere

variable {P : Value → Prop} {v : Value}

/-- What holds everywhere holds of the value itself, -/
theorem here (h : Everywhere P v) : P v := by
  obtain ⟨here, -⟩ := h
  exact here

/-- and everywhere in its parts. -/
theorem inside (h : Everywhere P v) : ∀ part ∈ v.parts, Everywhere P part := by
  obtain ⟨-, inside⟩ := h
  exact inside

/-- A weaker property holds everywhere too. -/
theorem mono {P' : Value → Prop} (h : Everywhere P v) (le : ∀ v, P v → P' v) :
    Everywhere P' v := by
  induction h with
  | intro here _ ih => exact ⟨le _ here, ih⟩

/-- Everywhere in an array is in the array and everywhere in its elements; -/
theorem array_iff {elements : List Value} :
    Everywhere P (.array elements) ↔ P (.array elements) ∧ ∀ v ∈ elements, Everywhere P v :=
  ⟨fun h => ⟨h.here, h.inside⟩, fun h => ⟨h.1, h.2⟩⟩

/-- in a dictionary, everywhere in its entries; -/
theorem dict_iff {entries : List (Key × Value)} :
    Everywhere P (.dict entries) ↔ P (.dict entries) ∧ ∀ e ∈ entries, Everywhere P e.2 := by
  refine ⟨fun h => ⟨h.here, fun e he => h.inside _ (List.mem_map_of_mem he)⟩, fun h => ⟨h.1, ?_⟩⟩
  intro part mem
  obtain ⟨e, he, rfl⟩ := List.mem_map.1 mem
  exact h.2 e he

/-- in a struct, everywhere in its fields; -/
theorem struct_iff {typeName : String} {fields : List (String × Value)} :
    Everywhere P (.struct typeName fields)
      ↔ P (.struct typeName fields) ∧ ∀ f ∈ fields, Everywhere P f.2 := by
  refine ⟨fun h => ⟨h.here, fun f hf => h.inside _ (List.mem_map_of_mem hf)⟩, fun h => ⟨h.1, ?_⟩⟩
  intro part mem
  obtain ⟨f, hf, rfl⟩ := List.mem_map.1 mem
  exact h.2 f hf

/-- in a resource, everywhere in those of its fields that are filled. -/
theorem resource_iff {id : ResourceId} {typeName : String}
    {fields : List (String × Option Value)} :
    Everywhere P (.resource id typeName fields)
      ↔ P (.resource id typeName fields) ∧ ∀ f ∈ fields, ∀ v ∈ f.2, Everywhere P v := by
  constructor
  · intro h
    exact ⟨h.here, fun f hf v hv => h.inside _ (List.mem_filterMap.2 ⟨f, hf, hv⟩)⟩
  · intro h
    refine ⟨h.1, fun part mem => ?_⟩
    obtain ⟨f, hf, hv⟩ := List.mem_filterMap.1 mem
    exact h.2 f hf part hv

end Everywhere

/-- **A value occurs in another**, at some depth. -/
inductive Occurs (w : Value) : Value → Prop where
  | here : Occurs w w
  | inside {v part : Value} (mem : part ∈ v.parts) (occurs : Occurs w part) : Occurs w v

/-- What holds everywhere in a value holds everywhere in what occurs in it. -/
theorem Everywhere.within {P : Value → Prop} {v w : Value} (h : Everywhere P v)
    (occurs : Occurs w v) : Everywhere P w := by
  induction occurs with
  | here => exact h
  | inside mem _ ih => exact ih (h.inside _ mem)

/-- What holds everywhere holds of all that occurs. -/
theorem Everywhere.of_occurs {P : Value → Prop} {v w : Value} (h : Everywhere P v)
    (occurs : Occurs w v) : P w := (h.within occurs).here

/-- What regularity asks of a value, its parts apart. -/
def WellFormed : Value → Prop
  | .int i => -(UInt64.size : Int) ≤ 2 * i ∧ 2 * i < UInt64.size
  | .uint n => n < UInt64.size
  | .dict entries => Table.Ascending entries ∧ ∀ e ∈ entries, e.1.InRange
  | .struct _ fields => (Table.keys fields).Nodup ∧ ∀ f ∈ fields, f.2.isLinear = false
  | .resource id _ fields => id.number < UInt64.size ∧ (Table.keys fields).Nodup
  | _ => True

/-- What reading a value back from its bytes asks of it, its parts apart. -/
def WellWritten : Value → Prop
  | .int i => -(UInt64.size : Int) ≤ 2 * i ∧ 2 * i < UInt64.size
  | .uint n => n < UInt64.size
  | .dict entries => Table.Ascending entries ∧ ∀ e ∈ entries, e.1.InRange
  | .struct _ fields => (Table.keys fields).Nodup
  | .resource id _ fields => id.number < UInt64.size ∧ (Table.keys fields).Nodup
  | _ => True

/-- **A readable value.** -/
def Readable (v : Value) : Prop := Everywhere WellWritten v

/-- **A regular value.** -/
def Regular (v : Value) : Prop := Everywhere WellFormed v

/-- **What is regular is readable.** -/
theorem Regular.readable {v : Value} (h : v.Regular) : v.Readable := by
  refine Everywhere.mono h fun v here => ?_
  cases v with
  | struct typeName fields => exact here.1
  | _ => exact here

namespace Regular

variable {elements : List Value} {entries : List (Key × Value)} {typeName : String}

theorem array_iff : (Value.array elements).Regular ↔ ∀ v ∈ elements, v.Regular :=
  Everywhere.array_iff.trans (and_iff_right trivial)

theorem dict_iff :
    (Value.dict entries).Regular
      ↔ (Table.Ascending entries ∧ ∀ e ∈ entries, e.1.InRange) ∧ ∀ e ∈ entries, e.2.Regular :=
  Everywhere.dict_iff

theorem struct_iff {fields : List (String × Value)} :
    (Value.struct typeName fields).Regular
      ↔ ((Table.keys fields).Nodup ∧ ∀ f ∈ fields, f.2.isLinear = false)
        ∧ ∀ f ∈ fields, f.2.Regular :=
  Everywhere.struct_iff

theorem resource_iff {id : ResourceId} {fields : List (String × Option Value)} :
    (Value.resource id typeName fields).Regular
      ↔ (id.number < UInt64.size ∧ (Table.keys fields).Nodup)
        ∧ ∀ f ∈ fields, ∀ v ∈ f.2, v.Regular :=
  Everywhere.resource_iff

end Regular

end Value

/-! ## Edits

What the operations do to a value inside another one is to put an element into
a container or take one out, to fill or empty a field, and to assign a field of
a struct. A property that each of these keeps where it is made holds everywhere
afterwards, if it held everywhere before and holds everywhere in what is put
in. -/

namespace Value

/-- **The property endures edits**: the elements of an array may be any,
entries of a dictionary may come under keys in range and go, a field of a struct
may be assigned and a field of a resource filled. -/
structure Enduring (P : Value → Prop) : Prop where
  array : ∀ elements, P (.array elements)
  place : ∀ entries key v, key.InRange → P (.dict entries) → P (.dict (Table.place entries key v))
  erase : ∀ entries key, P (.dict entries) → P (.dict (Table.erase entries key))
  assign : ∀ (s s' : Struct) field v, s.set field v = .ok s' → P s.toValue → P s'.toValue
  fill : ∀ (r : Resource) field v, P r.toValue → P (r.putField field v).toValue

end Value

namespace Resource

variable {P : Value → Prop} {r : Resource} {field : String} {v : Value}

/-- The contents of a field may change to anything that has the property, if
the resource has it with them. -/
theorem everywhere_setSlot (everywhere : Value.Everywhere P r.toValue) {slot : Option Value}
    (here : P (Resource.toValue { r with fields := Table.put r.fields field slot }))
    (h : ∀ v ∈ slot, Value.Everywhere P v) :
    Value.Everywhere P (Resource.toValue { r with fields := Table.put r.fields field slot }) := by
  have inside := (Value.Everywhere.resource_iff.1 everywhere).2
  refine Value.Everywhere.resource_iff.2 ⟨here, fun f hf v hv => ?_⟩
  rcases Table.mem_put hf with rfl | hf
  · exact h v hv
  · exact inside f hf v hv

/-- What stands in a field has the property. -/
theorem everywhere_field? (everywhere : Value.Everywhere P r.toValue)
    (h : r.field? field = some v) : Value.Everywhere P v := by
  have found : Table.get? r.fields field = some (some v) := Option.join_eq_some_iff.1 h
  exact (Value.Everywhere.resource_iff.1 everywhere).2 _ (Table.mem_of_get?_eq_some found) v rfl

/-- A field may be filled with a value in which the property holds everywhere.
-/
theorem everywhere_putField (enduring : Value.Enduring P)
    (everywhere : Value.Everywhere P r.toValue)
    (hv : Value.Everywhere P v) : Value.Everywhere P (r.putField field v).toValue :=
  everywhere_setSlot everywhere (enduring.fill r field v everywhere.here) fun _ hw =>
    Option.some.inj hw ▸ hv

/-- A field may be emptied, if the resource has the property then. -/
theorem everywhere_emptyField (everywhere : Value.Everywhere P r.toValue)
    (here : P (r.emptyField field).toValue) :
    Value.Everywhere P (r.emptyField field).toValue := by
  unfold emptyField at here ⊢
  split at here
  next there =>
    rw [if_pos there]
    exact everywhere_setSlot everywhere here fun _ hv => nomatch hv
  next absent => rwa [if_neg absent]

/-- A resource may be made of anything that has the property, if the resource has it. -/
theorem everywhere_ofAssignments {fields : List (String × Value)} {id : ResourceId}
    {typeName : String} (here : P (ofAssignments id typeName fields).toValue)
    (h : ∀ f ∈ fields, Value.Everywhere P f.2) :
    Value.Everywhere P (ofAssignments id typeName fields).toValue := by
  refine Value.Everywhere.resource_iff.2 ⟨here, fun f hf v hv => ?_⟩
  -- what is left in a field is among what was assigned
  obtain ⟨lost, split⟩ := Table.exists_perm_ofList (fields.map fun f => (f.1, some f.2))
  obtain ⟨g, hg, rfl⟩ := List.mem_map.1 (split.mem_iff.2 (List.mem_append_left _ hf))
  exact Option.some.inj hv ▸ h g hg

end Resource

namespace Struct

variable {P : Value → Prop} {s s' : Struct} {field : String} {v : Value}

/-- **A field can be assigned** anything that is not linear. -/
theorem set_eq_ok_iff : s.set field v = .ok s'
    ↔ v.isLinear = false ∧ s' = { s with fields := Table.put s.fields field v } := by
  unfold set
  cases v.isLinear <;> simp [eq_comm]

/-- A struct without linear fields stays so. -/
theorem copyable_set (copyable : ∀ f ∈ s.fields, f.2.isLinear = false)
    (h : s.set field v = .ok s') : ∀ f ∈ s'.fields, f.2.isLinear = false := by
  obtain ⟨accepted, rfl⟩ := set_eq_ok_iff.1 h
  intro f hf
  rcases Table.mem_put hf with rfl | hf
  · exact accepted
  · exact copyable f hf

/-- So may one of a struct. -/
theorem everywhere_set (enduring : Value.Enduring P) (everywhere : Value.Everywhere P s.toValue)
    (hv : Value.Everywhere P v) (h : s.set field v = .ok s') : Value.Everywhere P s'.toValue := by
  have here := enduring.assign s s' field v h everywhere.here
  obtain ⟨-, rfl⟩ := set_eq_ok_iff.1 h
  have inside := (Value.Everywhere.struct_iff.1 everywhere).2
  refine Value.Everywhere.struct_iff.2 ⟨here, fun f hf => ?_⟩
  rcases Table.mem_put hf with rfl | hf
  · exact hv
  · exact inside f hf

/-- A struct may be made of anything that has the property. -/
theorem everywhere_make (enduring : Value.Enduring P) {typeName : String}
    {fields : List (String × Value)} {made : Struct}
    (none : P (.struct typeName [])) (h : ∀ f ∈ fields, Value.Everywhere P f.2)
    (done : make typeName fields = .ok made) : Value.Everywhere P made.toValue := by
  unfold make at done
  suffices ∀ start : Struct, Value.Everywhere P start.toValue →
      fields.foldlM (fun s f => s.set f.1 f.2) start = .ok made →
        Value.Everywhere P made.toValue from
    this _ (Value.Everywhere.struct_iff.2 ⟨none, fun _ hf => absurd hf List.not_mem_nil⟩) done
  clear done
  induction fields with
  | nil =>
    intro start everywhere done
    exact Except.ok.inj done ▸ everywhere
  | cons f fields ih =>
    intro start everywhere done
    obtain ⟨first, rest⟩ := List.forall_mem_cons.1 h
    rw [List.foldlM_cons] at done
    cases assigned : start.set f.1 f.2 with
    | error fault =>
      rw [assigned] at done
      cases done
    | ok next =>
      rw [assigned] at done
      exact ih rest next (everywhere_set enduring everywhere first assigned) done

end Struct

/-! ### Regular and readable values under edits -/

/-- The constructors and the writes keep values well formed, -/
theorem Value.enduring_wellFormed : Value.Enduring Value.WellFormed where
  array _ := trivial
  place _ _ _ range := fun ⟨ascending, ranges⟩ =>
    ⟨ascending.place _ _,
      fun _ he => (Table.mem_place he).elim (fun same => same ▸ range) (ranges _)⟩
  erase _ _ := fun ⟨ascending, ranges⟩ =>
    ⟨ascending.filter _, fun e he => ranges e (List.mem_filter.1 he).1⟩
  assign s s' field v h := by
    rintro ⟨distinct, copyable⟩
    have stillCopyable := Struct.copyable_set copyable h
    obtain ⟨-, rfl⟩ := Struct.set_eq_ok_iff.1 h
    exact ⟨Table.nodup_keys_put distinct field v, stillCopyable⟩
  fill r field v := fun ⟨range, distinct⟩ => ⟨range, Table.nodup_keys_put distinct field (some v)⟩

/-- and so they keep them well written, linear fields or not. -/
theorem Value.enduring_wellWritten : Value.Enduring Value.WellWritten where
  array _ := trivial
  place := Value.enduring_wellFormed.place
  erase := Value.enduring_wellFormed.erase
  assign s s' field v h := by
    obtain ⟨-, rfl⟩ := Struct.set_eq_ok_iff.1 h
    exact fun distinct => Table.nodup_keys_put distinct field v
  fill := Value.enduring_wellFormed.fill

/-- The contents of a field may change to anything regular. -/
theorem Resource.regular_setSlot {r : Resource} (regular : r.toValue.Regular) (field : String)
    {slot : Option Value} (h : ∀ v ∈ slot, v.Regular) :
    (Resource.toValue { r with fields := Table.put r.fields field slot }).Regular :=
  everywhere_setSlot regular ⟨regular.here.1, Table.nodup_keys_put regular.here.2 field slot⟩ h

/-- What stands in a field of a regular resource is regular. -/
theorem Resource.regular_field? {r : Resource} (regular : r.toValue.Regular) {field : String}
    {v : Value} (h : r.field? field = some v) : v.Regular :=
  everywhere_field? regular h

/-- A field of a struct may be given anything regular that is not linear. -/
theorem Struct.regular_set {s s' : Struct} {field : String} {v : Value}
    (regular : s.toValue.Regular) (hv : v.Regular) (h : s.set field v = .ok s') :
    s'.toValue.Regular :=
  everywhere_set Value.enduring_wellFormed regular hv h

end Custody
