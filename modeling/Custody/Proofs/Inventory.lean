import Custody.Elements
import Custody.Proofs.Regular
import Custody.Proofs.Tables

/-!
# What a value holds, and where

The inventory of a value at a place has two halves. The **roots** stand at
the place itself or at elements of it, so their places change when the value
moves; what the roots own stands in fields, and a field is named after its
owner, so these **possessions** are the same wherever the value is. The two
halves are the placings of `Value.placings` and the list
`Value.possessions`, and every change of a container changes both by what
the one element that comes or goes contributes.

The resources found **at any depth** are counted by `Value.identities`, a
reading that knows nothing of places and enters every part. For a regular
value it finds what the inventory lists.
-/

namespace Custody

/-- **What a resource owns**, at any depth, with the places that hold it. -/
def Resource.possessions (r : Resource) : List (ResourceId × Place) :=
  r.fields.flatMap fun f =>
    match f.2 with
    | some v => v.inventory (.field r.id f.1)
    | none => []

namespace Value

/-- The roots of a value, as resources. -/
def resources (v : Value) : List Resource := v.held.map Prod.snd

/-- **What the roots of a value own**, with the places that hold it. -/
def possessions (v : Value) : List (ResourceId × Place) :=
  v.resources.flatMap Resource.possessions

/-- The identities of the roots are those of the resources among them. -/
theorem rootIds_eq (v : Value) : v.rootIds = v.resources.map Resource.id := by
  unfold rootIds resources
  rw [List.map_map]
  rfl

/-- The placings of a value name its roots with their places. -/
theorem placings_eq (v : Value) (place : Place) :
    v.placings place = v.held.map fun root => (root.2.id, place.within root.1) := by
  unfold placings roots
  rw [List.map_map]
  rfl

/-- Where the value stands makes no difference to which roots it has. -/
@[simp] theorem map_fst_placings (v : Value) (place : Place) :
    (v.placings place).map Prod.fst = v.rootIds := by
  rw [placings_eq, List.map_map]
  rfl

/-! ## Values without roots -/

/-- A value has no resources if it holds none. -/
theorem resources_eq_nil_iff {v : Value} : v.resources = [] ↔ v.held = [] := List.map_eq_nil_iff

/-- A value without a first root has no roots. -/
theorem firstRoot?_eq_none_iff {v : Value} : Elements.firstRoot? v = none ↔ v.resources = [] := by
  unfold Elements.firstRoot?
  rw [List.head?_eq_none_iff, rootIds_eq, List.map_eq_nil_iff]

/-- Without roots there are no placings, -/
theorem placings_of_resources_eq_nil {v : Value} (h : v.resources = []) (place : Place) :
    v.placings place = [] := by
  rw [placings_eq, resources_eq_nil_iff.1 h]
  rfl

/-- and no possessions. -/
theorem possessions_of_resources_eq_nil {v : Value} (h : v.resources = []) :
    v.possessions = [] := by
  unfold possessions
  rw [h]
  rfl

/-! ## Containers -/

/-- The elements of a container, each under its key. -/
def keyed : Value → List (Key × Value)
  | .array elements => positions elements
  | .dict entries => entries
  | _ => []

/-- Positions are given out whatever stands there. -/
theorem positions_map {α β : Type} (f : α → β) (l : List α) :
    positions (l.map f) = (positions l).map fun e => (e.1, f e.2) := by
  unfold positions
  rw [List.zipIdx_map, List.map_map, List.map_map]
  rfl

/-- What an array holds its elements hold, each under its position. -/
theorem held_array (elements : List Value) :
    (Value.array elements).held
      = (Value.array elements).keyed.flatMap fun e =>
        e.2.held.map fun root => (e.1 :: root.1, root.2) := by
  unfold held
  rw [fold_array]
  show heldBelow (positions (elements.map (fold heldReading))) = _
  rw [positions_map, heldBelow, List.flatMap_map]
  rfl

/-- What a dictionary holds its entries hold, each under its key. -/
theorem held_dict (entries : List (Key × Value)) :
    (Value.dict entries).held
      = (Value.dict entries).keyed.flatMap fun e =>
        e.2.held.map fun root => (e.1 :: root.1, root.2) := by
  unfold held
  rw [fold_dict]
  show heldBelow (entries.map fun e => (e.1, fold heldReading e.2)) = _
  rw [heldBelow, List.flatMap_map]
  rfl

/-- Whether the value is an array or a dictionary. -/
def IsContainer : Value → Prop
  | .array _ => True
  | .dict _ => True
  | _ => False

/-- The value is neither a container nor a composite. -/
def IsFlat : Value → Prop
  | .array _ | .dict _ | .struct _ _ | .resource _ _ _ => False
  | _ => True

/-- A value without parts is read as a scalar. -/
theorem fold_flat {α : Type} {reading : Reading α} {v : Value} (h : v.IsFlat) :
    fold reading v = reading.scalar v := by
  cases v with
  | array | dict | struct | resource => exact h.elim
  | _ => rfl

/-- **Induction by sorts.** Arrays and dictionaries are often alike, and so are all values
without parts. -/
theorem sortInduction {motive : Value → Prop}
    (flat : ∀ v : Value, v.IsFlat → motive v)
    (container : ∀ v : Value, v.IsContainer → (∀ part ∈ v.parts, motive part) → motive v)
    (struct : ∀ typeName fields, (∀ f ∈ fields, motive f.2) → motive (.struct typeName fields))
    (resource : ∀ r : Resource, (∀ f ∈ r.fields, ∀ w ∈ f.2, motive w) → motive r.toValue)
    (v : Value) : motive v := by
  induction v using Value.induction with
  | step v ih =>
  cases v with
  | array elements => exact container (.array elements) trivial ih
  | dict entries => exact container (.dict entries) trivial ih
  | struct typeName fields =>
    exact struct typeName fields fun f hf => ih f.2 (List.mem_map_of_mem hf)
  | resource id typeName fields =>
    exact resource ⟨id, typeName, fields⟩ fun f hf w hw => ih w (List.mem_filterMap.2 ⟨f, hf, hw⟩)
  | _ => exact flat _ trivial

/-- The roots of a container are those of its elements. -/
theorem held_container {v : Value} (h : v.IsContainer) :
    v.held = v.keyed.flatMap fun e => e.2.held.map fun root => (e.1 :: root.1, root.2) := by
  cases v with
  | array elements => exact held_array elements
  | dict entries => exact held_dict entries
  | _ => cases h

/-- The placings of a container are those of its elements. -/
theorem placings_container {v : Value} (h : v.IsContainer) (place : Place) :
    v.placings place = v.keyed.flatMap fun e => e.2.placings (place.element e.1) := by
  rw [placings_eq, held_container h, List.map_flatMap]
  refine List.flatMap_congr fun e _ => ?_
  rw [placings_eq, List.map_map]
  rfl

/-- The resources of a container are those of its elements, -/
theorem resources_container {v : Value} (h : v.IsContainer) :
    v.resources = v.keyed.flatMap fun e => e.2.resources := by
  unfold resources
  rw [held_container h, List.map_flatMap]
  refine List.flatMap_congr fun e _ => ?_
  rw [List.map_map]
  rfl

/-- which for an array are the values in it, -/
theorem resources_array (elements : List Value) :
    (Value.array elements).resources = elements.flatMap resources := by
  rw [resources_container (v := .array elements) trivial]
  show (positions elements).flatMap _ = _
  have values : (positions elements).map Prod.snd = elements := by
    unfold positions
    rw [List.map_map]
    exact List.zipIdx_map_fst 0 elements
  rw [← List.flatMap_map Prod.snd, values]

/-- and for a dictionary those of its entries. -/
theorem resources_dict (entries : List (Key × Value)) :
    (Value.dict entries).resources = entries.flatMap fun e => e.2.resources :=
  resources_container (v := .dict entries) trivial

/-- A scalar has no resources. -/
theorem resources_flat {v : Value} (h : v.IsFlat) : v.resources = [] := by
  unfold resources held
  rw [fold_flat h]
  rfl

/-- A resource holds itself, and what it owns is not held by anything around it.
-/
theorem held_resource (r : Resource) : r.toValue.held = [([], r)] := by
  unfold held Resource.toValue
  rw [fold_resource]
  rfl

@[simp] theorem resources_resource (r : Resource) : r.toValue.resources = [r] := by
  unfold resources
  rw [held_resource]
  rfl

@[simp] theorem resources_struct (typeName : String) (fields : List (String × Value)) :
    (Value.struct typeName fields).resources = [] := by
  unfold resources held
  rw [fold_struct]
  rfl

theorem placings_resource (r : Resource) (place : Place) :
    r.toValue.placings place = [(r.id, place)] := by
  rw [placings_eq, held_resource]
  rfl

@[simp] theorem possessions_resource (r : Resource) : r.toValue.possessions = r.possessions := by
  unfold possessions
  rw [resources_resource, List.flatMap_singleton]

/-! ## The inventory -/

/-- An element that has a key is a part. -/
theorem mem_parts_of_mem_keyed {v : Value} {e : Key × Value} (h : e ∈ v.keyed) :
    e.2 ∈ v.parts := by
  cases v with
  | array elements =>
    obtain ⟨x, hx, rfl⟩ := List.mem_map.1 h
    exact List.fst_mem_of_mem_zipIdx hx
  | dict entries => exact List.mem_map_of_mem h
  | _ => cases h

/-- The inventory of a container is put together from those of its elements. -/
theorem fold_inventory_container {v : Value} (h : v.IsContainer) (place : Place) :
    fold inventoryReading v place
      = Inventory.ofParts (v.keyed.map fun e => (e.1, fold inventoryReading e.2)) place := by
  cases v with
  | array elements =>
    rw [fold_array]
    show Inventory.ofParts (positions (elements.map _)) place = _
    rw [positions_map]
    rfl
  | dict entries => rw [fold_dict]; rfl
  | _ => cases h

/-- **The two halves of an inventory** are the placings of the roots and
what they own. -/
theorem fold_inventory (v : Value) (place : Place) :
    fold inventoryReading v place = ⟨v.placings place, v.possessions⟩ := by
  induction v using Value.sortInduction generalizing place with
  | flat v h =>
    rw [fold_flat h, placings_of_resources_eq_nil (resources_flat h),
      possessions_of_resources_eq_nil (resources_flat h)]
    rfl
  | container v h ih =>
    rw [fold_inventory_container h, Inventory.ofParts, placings_container h, possessions,
      resources_container h, List.map_map, List.flatMap_map, List.flatMap_map,
      List.flatMap_assoc]
    refine congrArg₂ _ ?_ ?_
    · refine List.flatMap_congr fun e he => ?_
      show (fold inventoryReading e.2 _).roots = _
      rw [ih e.2 (mem_parts_of_mem_keyed he)]
    · refine List.flatMap_congr fun e he => ?_
      show (fold inventoryReading e.2 _).owned = _
      rw [ih e.2 (mem_parts_of_mem_keyed he)]
      rfl
  | struct typeName fields _ => rw [fold_struct]; rfl
  | resource r _ =>
    rw [possessions_resource, placings_resource, Resource.toValue, fold_resource]
    show Inventory.mk _ ((r.fields.map _).flatMap _) = _
    rw [List.flatMap_map]
    refine congrArg₂ _ rfl (List.flatMap_congr fun f _ => ?_)
    obtain ⟨name, _ | v⟩ := f <;> rfl

/-- **An inventory lists** first the roots, then what they own. -/
theorem inventory_eq (v : Value) (place : Place) :
    v.inventory place = v.placings place ++ v.possessions := by
  unfold inventory
  rw [fold_inventory]
  rfl

/-- A value without roots has nothing in its inventory. -/
theorem inventory_of_resources_eq_nil {v : Value} (h : v.resources = []) (place : Place) :
    v.inventory place = [] := by
  rw [inventory_eq, placings_of_resources_eq_nil h, possessions_of_resources_eq_nil h]
  rfl

/-! ## Linear values -/

/-- An array is linear if an element is, -/
theorem isLinear_array (elements : List Value) :
    (Value.array elements).isLinear = elements.any isLinear := by
  unfold isLinear
  rw [fold_array]
  show (elements.map _).any id = _
  rw [List.any_map]
  rfl

/-- and a dictionary if an entry is. -/
theorem isLinear_dict (entries : List (Key × Value)) :
    (Value.dict entries).isLinear = entries.any fun e => e.2.isLinear := by
  unfold isLinear
  rw [fold_dict]
  show (entries.map _).any Prod.snd = _
  rw [List.any_map]
  rfl

theorem isLinear_flat {v : Value} (h : v.IsFlat) : v.isLinear = false := fold_flat h

/-- A container is linear when an element is. -/
theorem isLinear_container {v : Value} (container : v.IsContainer) :
    v.isLinear = true ↔ ∃ x ∈ v.parts, x.isLinear = true := by
  cases v with
  | array elements =>
    rw [isLinear_array]
    exact List.any_eq_true
  | dict entries =>
    rw [isLinear_dict, List.any_eq_true]
    simp only [parts, List.mem_map, exists_exists_and_eq_and]
  | _ => exact container.elim

/-- **A value is linear** exactly when it has a root. -/
theorem isLinear_eq_false_iff {v : Value} : v.isLinear = false ↔ v.resources = [] := by
  induction v using Value.induction with
  | step v ih =>
  cases v with
  | array elements =>
    rw [isLinear_array, resources_array, List.any_eq_false, List.flatMap_eq_nil_iff]
    exact forall₂_congr fun v hv => by simpa using ih v hv
  | dict entries =>
    rw [isLinear_dict, resources_dict, List.any_eq_false, List.flatMap_eq_nil_iff]
    exact forall₂_congr fun e he => by simpa using ih e.2 (List.mem_map_of_mem he)
  | struct typeName fields =>
    rw [resources_struct]
    refine iff_of_true ?_ rfl
    unfold isLinear
    rw [fold_struct]
    rfl
  | resource id typeName fields =>
    have root : (Value.resource id typeName fields).resources = [⟨id, typeName, fields⟩] :=
      resources_resource ⟨id, typeName, fields⟩
    rw [root]
    refine iff_of_false ?_ (List.cons_ne_nil _ _)
    unfold isLinear
    rw [fold_resource]
    exact Bool.noConfusion
  | _ => exact iff_of_true rfl rfl

/-! ## Everything at any depth -/

/-- The reading behind `identities`. -/
def identitiesReading : Reading (List ResourceId) where
  scalar _ := []
  array parts := parts.flatten
  dict entries := entries.flatMap Prod.snd
  struct _ fields := fields.flatMap Prod.snd
  resource r fields := r.id :: fields.flatMap fun f => f.2.getD []

/-- **The resources found in a value** at any depth, in whatever part. -/
def identities : Value → List ResourceId := fold identitiesReading

/-- What occurs in an array occurs in its elements, -/
theorem identities_array (elements : List Value) :
    (Value.array elements).identities = elements.flatMap identities := by
  unfold identities
  rw [fold_array]
  exact (List.flatMap_def).symm

/-- what occurs in a dictionary in its entries, -/
theorem identities_dict (entries : List (Key × Value)) :
    (Value.dict entries).identities = entries.flatMap fun e => e.2.identities := by
  unfold identities
  rw [fold_dict]
  show (entries.map _).flatMap Prod.snd = _
  rw [List.flatMap_map]

/-- and what occurs in a struct in its fields. -/
theorem identities_struct (typeName : String) (fields : List (String × Value)) :
    (Value.struct typeName fields).identities = fields.flatMap fun f => f.2.identities := by
  unfold identities
  rw [fold_struct]
  show (fields.map _).flatMap Prod.snd = _
  rw [List.flatMap_map]

/-- In a resource there is itself, and then what occurs in its fields. -/
theorem identities_resource (r : Resource) :
    r.toValue.identities
      = r.id :: r.fields.flatMap fun f => (f.2.map Value.identities).getD [] := by
  unfold identities Resource.toValue
  rw [fold_resource]
  show _ :: (r.fields.map _).flatMap _ = _
  rw [List.flatMap_map]

/-- The resources that a value holds or owns. -/
def ids (v : Value) : List ResourceId := v.rootIds ++ v.possessions.map Prod.fst

/-- The identities of an inventory do not depend on where the value stands. -/
theorem map_fst_inventory (v : Value) (place : Place) :
    (v.inventory place).map Prod.fst = v.ids := by
  rw [inventory_eq, List.map_append, map_fst_placings, ids]

/-- Without roots nothing is owned at any depth. -/
theorem ids_of_resources_eq_nil {v : Value} (h : v.resources = []) : v.ids = [] := by
  rw [ids, rootIds_eq, possessions_of_resources_eq_nil h, h]
  rfl

/-- What holds of all elements holds of the container: its resources are
those of the elements. -/
theorem ids_perm_flatMap {β : Type} {v : Value} {parts : List β} {part : β → Value}
    (h : v.resources = parts.flatMap fun x => (part x).resources) :
    v.ids.Perm (parts.flatMap fun x => (part x).ids) := by
  unfold ids possessions
  rw [rootIds_eq, h, List.map_flatMap, List.flatMap_assoc, List.map_flatMap]
  refine (List.flatMap_append_perm _ _ _).trans ?_
  exact List.Perm.of_eq (List.flatMap_congr fun x _ => by rw [rootIds_eq])

/-- **A regular value's inventory misses nothing**: what it lists is what is
found at any depth. -/
theorem identities_perm_ids {v : Value} (regular : v.Regular) : v.identities.Perm v.ids := by
  induction v using Value.induction with
  | step v ih =>
  cases v with
  | array elements =>
    rw [identities_array]
    refine List.Perm.trans ?_ (ids_perm_flatMap (resources_array elements)).symm
    exact List.Perm.flatMap_left _ fun v hv => ih v hv (Regular.array_iff.1 regular v hv)
  | dict entries =>
    rw [identities_dict]
    refine List.Perm.trans ?_ (ids_perm_flatMap (resources_dict entries)).symm
    exact List.Perm.flatMap_left _ fun e he =>
      ih e.2 (List.mem_map_of_mem he) ((Regular.dict_iff.1 regular).2 e he)
  | struct typeName fields =>
    rw [identities_struct, ids_of_resources_eq_nil (resources_struct _ _),
      List.perm_nil, List.flatMap_eq_nil_iff]
    -- no field of a struct is linear, so there is nothing in it at any depth
    intro f hf
    obtain ⟨⟨-, copyable⟩, inside⟩ := Regular.struct_iff.1 regular
    have := ih f.2 (List.mem_map_of_mem hf) (inside f hf)
    rwa [ids_of_resources_eq_nil (isLinear_eq_false_iff.1 (copyable f hf)),
      List.perm_nil] at this
  | resource id typeName fields =>
    have same : (Value.resource id typeName fields).ids
        = id :: (Resource.possessions ⟨id, typeName, fields⟩).map Prod.fst := by
      show (Resource.toValue ⟨id, typeName, fields⟩).ids = _
      rw [ids, rootIds_eq, possessions_resource, resources_resource]
      rfl
    rw [same]
    show (Resource.toValue ⟨id, typeName, fields⟩).identities.Perm _
    rw [identities_resource, Resource.possessions, List.map_flatMap]
    refine List.Perm.cons _ (List.Perm.flatMap_left _ fun f hf => ?_)
    obtain ⟨name, _ | v⟩ := f
    · exact List.Perm.refl _
    · show v.identities.Perm ((v.inventory _).map Prod.fst)
      rw [map_fst_inventory]
      exact ih v (List.mem_filterMap.2 ⟨_, hf, rfl⟩)
        ((Regular.resource_iff.1 regular).2 _ hf v rfl)
  | _ => exact List.Perm.refl _

end Value

/-! ## The roots of elements -/

namespace Elements

theorem placingsFrom_cons (place : Place) (start : Nat) (v : Value) (rest : List Value) :
    placingsFrom place start (v :: rest)
      = v.placings (place.element (.uint start)) ++ placingsFrom place (start + 1) rest := rfl

/-- Where elements start makes no difference to which roots they have. -/
theorem map_fst_placingsFrom (place : Place) (start : Nat) (elements : List Value) :
    (placingsFrom place start elements).map Prod.fst = elements.flatMap Value.rootIds := by
  induction elements generalizing start with
  | nil => rfl
  | cons v rest ih =>
    rw [placingsFrom_cons, List.map_append, ih, Value.map_fst_placings, List.flatMap_cons]

/-- The roots of an array are those of its elements, from the first position on. -/
theorem placings_array (place : Place) (elements : List Value) :
    (Value.array elements).placings place = placingsFrom place 0 elements := by
  rw [Value.placings_container (v := .array elements) trivial]
  show (positions elements).flatMap _ = _
  unfold positions
  rw [List.flatMap_map]
  rfl

end Elements

end Custody
