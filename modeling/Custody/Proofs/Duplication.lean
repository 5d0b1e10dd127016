import Custody.Proofs.Effects
import Custody.Proofs.Tracking

/-!
# What can be copied

Three readings have to agree on which values may not be doubled. Whether a value is
linear, and which roots it has, is read off its elements and stops at structs. A copy
goes into structs as well, and is refused at the first resource it meets. So a struct
with a resource in it would be taken for a copyable value that cannot be copied.

No such struct can be built: one is made field by field, and a linear value is refused
as a field, when the struct is made and later. That no struct holds anything linear is
therefore true of **every value that can be built**, however values are put together and
taken apart (`Value.Built.shielded`), and then no struct has a resource in it at any
depth. From this it follows that a copy gives the value itself, or is refused for the
first root, and that it is refused exactly for linear values.
-/

namespace Custody

namespace Value

/-! ## Values that can be built -/

/-- **The values that can be built.** Flat values are there. Any values can be put into
an array or under ascending keys into a dictionary, and taken from where they are. A
struct is made of assignments to its fields, and a field can be assigned later. A
resource is made of assignments; a field of it can be emptied and filled. -/
inductive Built : Value → Prop where
  | flat {v : Value} (h : v.IsFlat) : Built v
  | array {elements : List Value} (h : ∀ v ∈ elements, Built v) : Built (.array elements)
  | dict {entries : List (Key × Value)} (ascending : Table.Ascending entries)
      (h : ∀ e ∈ entries, Built e.2) : Built (.dict entries)
  | part {v w : Value} (whole : Built v) (h : w ∈ v.parts) : Built w
  | struct {typeName : String} {fields : List (String × Value)} {s : Struct}
      (h : ∀ f ∈ fields, Built f.2) (made : Struct.make typeName fields = .ok s) :
      Built s.toValue
  | assigned {s s' : Struct} {field : String} {v : Value} (whole : Built s.toValue)
      (h : Built v) (done : s.set field v = .ok s') : Built s'.toValue
  | resource {fields : List (String × Value)} (id : ResourceId) (typeName : String)
      (h : ∀ f ∈ fields, Built f.2) :
      Built (Resource.ofAssignments id typeName fields).toValue
  | emptied {r : Resource} (field : String) (whole : Built r.toValue) :
      Built (r.emptyField field).toValue
  | filled {r : Resource} {v : Value} (field : String) (whole : Built r.toValue)
      (h : Built v) : Built (r.putField field v).toValue

/-- What a struct sees to, its parts apart: no field of it is linear. -/
def CopyableFields : Value → Prop
  | .struct _ fields => ∀ f ∈ fields, f.2.isLinear = false
  | _ => True

/-- **A value shields its structs** when no struct in it has a linear field. -/
def Shielded (v : Value) : Prop := Everywhere CopyableFields v

/-- No edit puts a linear value into a struct, since assigning checks for it. -/
theorem enduring_copyableFields : Enduring CopyableFields where
  array _ := trivial
  place _ _ _ _ _ := trivial
  erase _ _ _ := trivial
  assign _ _ _ _ h copyable := Struct.copyable_set copyable h
  fill _ _ _ _ := trivial

/-- **Whatever can be built shields its structs.** -/
theorem Built.shielded {v : Value} (built : v.Built) : v.Shielded := by
  induction built with
  | @flat v h =>
    cases v with
    | array | dict | struct | resource => exact h.elim
    | _ => exact .intro trivial fun _ mem => nomatch mem
  | array _ ih => exact Everywhere.array_iff.2 ⟨trivial, ih⟩
  | dict _ _ ih => exact Everywhere.dict_iff.2 ⟨trivial, ih⟩
  | part _ h ih => exact Everywhere.inside ih _ h
  | struct _ made ih =>
    exact Struct.everywhere_make enduring_copyableFields (fun _ hf => nomatch hf) ih made
  | assigned _ _ done whole ih =>
    exact Struct.everywhere_set enduring_copyableFields whole ih done
  | resource _ _ _ ih => exact Resource.everywhere_ofAssignments trivial ih
  | emptied field whole ih =>
    refine Resource.everywhere_emptyField ih ?_
    unfold Resource.emptyField
    split <;> trivial
  | filled _ _ _ whole ih => exact Resource.everywhere_putField enduring_copyableFields whole ih

/-! ## Resources at any depth -/

variable {v w : Value}

/-- The parts of a shielded copyable value are copyable. -/
theorem isLinear_of_mem_parts (fields : v.CopyableFields) (copyable : v.isLinear = false)
    (h : w ∈ v.parts) : w.isLinear = false := by
  have container (inside : v.IsContainer) : w.isLinear = false := by
    rw [← Bool.not_eq_true] at copyable ⊢
    exact fun linear => copyable ((isLinear_container inside).2 ⟨w, h, linear⟩)
  cases v with
  | array => exact container trivial
  | dict => exact container trivial
  | struct typeName entries =>
    obtain ⟨f, hf, rfl⟩ := List.mem_map.1 h
    exact fields f hf
  | resource id typeName slots =>
    have root := isLinear_eq_false_iff.1 copyable
    cases (resources_resource ⟨id, typeName, slots⟩).symm.trans root
  | _ => cases h

/-- **A shielded copyable value has no resource in it**, at any depth. -/
theorem not_occurs_of_copyable (shielded : v.Shielded) (copyable : v.isLinear = false)
    (r : Resource) : ¬Occurs r.toValue v := by
  intro occurs
  induction occurs with
  | here => cases (resources_resource r).symm.trans (isLinear_eq_false_iff.1 copyable)
  | inside mem _ ih =>
    exact ih (shielded.inside _ mem) (isLinear_of_mem_parts shielded.here copyable mem)

/-! ## Copies -/

/-- A result that is refused for the first of some roots. -/
def refusing {α : Type} (roots : List Resource) (a : α) : Except ValueFault α :=
  match roots with
  | [] => .ok a
  | r :: _ => .error (.copyOfLinear r.typeName)

/-- Copies are refused together for the first root of all. -/
theorem gather_eq {κ : Type} {parts : List (κ × Value)}
    (h : ∀ part ∈ parts, part.2.copy = refusing part.2.resources part.2) :
    gather (parts.map fun part => (part.1, part.2.copy))
      = refusing (parts.flatMap fun part => part.2.resources) parts := by
  induction parts with
  | nil => rfl
  | cons part parts ih =>
    obtain ⟨first, rest⟩ := List.forall_mem_cons.1 h
    rw [List.map_cons, gather, first, ih rest, List.flatMap_cons]
    cases part.2.resources with
    | cons r roots => rfl
    | nil => cases parts.flatMap fun part => part.2.resources <;> rfl

/-- **A copy of a shielded value** is the value itself, or it is refused for the first
root. -/
theorem copy_eq (shielded : v.Shielded) : v.copy = refusing v.resources v := by
  induction v using Value.induction with
  | step v ih =>
  have parts (w : Value) (h : w ∈ v.parts) : w.copy = refusing w.resources w :=
    ih w h (shielded.inside w h)
  cases v with
  | array elements =>
    rw [copy_array, gather_eq fun part mem => ?_, resources_array, List.flatMap_map]
    · cases elements.flatMap resources with
      | cons r roots => rfl
      | nil =>
        show Except.ok (Value.array ((elements.map fun v => ((), v)).map Prod.snd)) = _
        rw [List.map_map]
        exact congrArg (fun es => Except.ok (Value.array es)) (List.map_id elements)
    · obtain ⟨w, hw, rfl⟩ := List.mem_map.1 mem
      exact parts w hw
  | dict entries =>
    rw [copy_dict, gather_eq fun e he => parts e.2 (List.mem_map_of_mem he), resources_dict]
    cases entries.flatMap fun e => e.2.resources <;> rfl
  | struct typeName fields =>
    have none : (fields.flatMap fun f => f.2.resources) = [] :=
      List.flatMap_eq_nil_iff.2 fun f hf => isLinear_eq_false_iff.1 (shielded.here f hf)
    rw [copy_struct, gather_eq fun f hf => parts f.2 (List.mem_map_of_mem hf), none,
      resources_struct]
    rfl
  | resource id typeName fields =>
    have root : (Value.resource id typeName fields).resources = [⟨id, typeName, fields⟩] :=
      resources_resource ⟨id, typeName, fields⟩
    rw [root]
    exact copy_resource ⟨id, typeName, fields⟩
  | _ => rfl

/-- A value has no roots exactly when there are no resources among its elements.
-/
theorem roots_eq_nil_iff : v.roots = [] ↔ v.resources = [] := by
  rw [resources_eq_nil_iff]
  exact List.map_eq_nil_iff

end Value

/-- **Linear values are those with a root, and those that cannot be copied.** Of a value
that can be built: it is linear exactly when it has a root, and exactly when a copy is
refused; a copy is refused for the first root, and one that is not refused is the value
itself. And no struct in it has a resource inside, at any depth. -/
theorem copies_tell_linearity {v : Value} (built : v.Built) :
    (v.isLinear = true ↔ v.roots ≠ [])
      ∧ (v.isLinear = true ↔ ∃ fault, v.copy = .error fault)
      ∧ (∀ fault, v.copy = .error fault →
        ∃ root ∈ v.held.head?, fault = .copyOfLinear root.2.typeName)
      ∧ (∀ w, v.copy = .ok w → w = v)
      ∧ ∀ s : Struct, Value.Occurs s.toValue v →
        ∀ r : Resource, ¬Value.Occurs r.toValue s.toValue := by
  have shielded := built.shielded
  have copied := Value.copy_eq shielded
  have linear : v.isLinear = true ↔ v.resources ≠ [] := by
    rw [← Bool.not_eq_false, Value.isLinear_eq_false_iff]
  refine ⟨linear.trans Value.roots_eq_nil_iff.not.symm, linear.trans ?_, fun fault refused => ?_,
    fun w done => (Value.copy_eq_ok done).1, fun s occurs r => ?_⟩
  · rw [copied]
    cases v.resources with
    | nil => exact iff_of_false (fun h => h rfl) fun ⟨_, h⟩ => nomatch h
    | cons r roots => exact iff_of_true (List.cons_ne_nil _ _) ⟨_, rfl⟩
  · rw [copied, Value.resources] at refused
    cases held : v.held with
    | nil =>
      rw [held] at refused
      cases refused
    | cons root roots =>
      rw [held] at refused
      exact ⟨root, rfl, (Except.error.inj refused).symm⟩
  · refine Value.not_occurs_of_copyable (shielded.within occurs) ?_ r
    exact Value.isLinear_eq_false_iff.2 (Value.resources_struct _ _)

namespace Scenario

/-- A struct with a dictionary in it. -/
def tagged : Struct := ⟨"Label", [("text", .str "alice"), ("tags", .dict [(.uint 1, .nil)])]⟩

/-- The vault after its coins have been taken out. -/
def hollowVault : Resource := keptVault.emptyField "coins"

/-- A label and a hollow vault in a bag. -/
def labeledBag : Value := .array [tagged.toValue, hollowVault.toValue]

/-- The label can be built with the constructors. -/
theorem built_tagged : tagged.toValue.Built := by
  refine @Value.Built.struct _ tagged.fields _ (fun f hf => ?_) rfl
  rcases List.mem_cons.1 hf with rfl | hf
  · exact .flat trivial
  · obtain rfl := List.mem_singleton.1 hf
    refine .dict (List.pairwise_singleton _ _) fun e he => ?_
    exact List.mem_singleton.1 he ▸ .flat trivial

/-- So can the coin, -/
theorem built_keptCoin : keptCoin.toValue.Built := by
  show (Resource.ofAssignments ⟨1⟩ "Coin" [("amount", .uint 50)]).toValue.Built
  exact .resource _ _ fun _ hf => List.mem_singleton.1 hf ▸ .flat trivial

/-- the vault around it, -/
theorem built_keptVault : keptVault.toValue.Built := by
  show (Resource.ofAssignments ⟨2⟩ "Vault"
    [("coins", .array [keptCoin.toValue]), ("label", .str "alice")]).toValue.Built
  refine .resource _ _ fun f hf => ?_
  rcases List.mem_cons.1 hf with rfl | hf
  · exact .array fun v hv => List.mem_singleton.1 hv ▸ built_keptCoin
  · exact List.mem_singleton.1 hf ▸ .flat trivial

/-- and the bag with the label. -/
theorem built_labeledBag : labeledBag.Built := by
  refine .array fun v hv => ?_
  rcases List.mem_cons.1 hv with rfl | hv
  · exact built_tagged
  · exact List.mem_singleton.1 hv ▸ .emptied "coins" built_keptVault

end Scenario

/-- The bag is linear, and copying it is refused for the vault, hollow as it is; the label
in it has no resource inside. -/
theorem copies_tell_linearity_bag :
    Scenario.labeledBag.Built ∧ Scenario.labeledBag.isLinear = true
      ∧ Scenario.labeledBag.roots ≠ []
      ∧ Scenario.labeledBag.copy = .error (.copyOfLinear "Vault")
      ∧ ∀ r : Resource, ¬Value.Occurs r.toValue Scenario.tagged.toValue := by
  obtain ⟨roots, refused, first, -, shielded⟩ := copies_tell_linearity Scenario.built_labeledBag
  obtain ⟨fault, h⟩ := refused.1 rfl
  obtain ⟨root, hroot, rfl⟩ := first fault h
  refine ⟨Scenario.built_labeledBag, rfl, roots.1 rfl, ?_, ?_⟩
  · rw [h, ← Option.some.inj hroot]
    rfl
  · exact shielded Scenario.tagged (.inside List.mem_cons_self .here)

end Custody
