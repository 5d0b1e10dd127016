import Custody.Proofs.Codec.Value
import Custody.Proofs.Continuity
import Custody.Proofs.Transfers

/-!
# Making and tearing down

A new resource takes values in flight into its fields and is in flight
itself. A teardown destroys what its order lists, and the order of a value
lists exactly what the value holds and owns; a plan moves some fields out
and destroys the rest. So the resources there are before and after differ by
the one that was made, or by those that were torn down.
-/

namespace Custody

open Ledger

variable {l l' : Ledger}

/-! ## Making -/

namespace Construction

variable {owner : ResourceId} {typeName : String} {fields : List (String × Value)}

/-- What is settled in fields stands in these fields. -/
theorem carries_settleFields (h : Returns (settleFields owner fields) l () l') :
    l.Carries l' (afoot (fields.flatMap fun f => f.2.resources))
      (fields.flatMap fun f => f.2.standing (.field owner f.1)) := by
  induction fields generalizing l with
  | nil =>
    obtain rfl := (returns_pure.1 h).2
    exact Carries.refl l []
  | cons f fields ih =>
    obtain ⟨_, u, first, others⟩ := returns_bind.1 h
    have settled :=
      (carries_settleValue first).frame (afoot (fields.flatMap fun f => f.2.resources))
    have rest := (ih others).frame (f.2.standing (.field owner f.1))
    refine ((settled.perm ?_ List.perm_append_comm).trans rest).perm (List.Perm.refl _)
      List.perm_append_comm
    exact afoot_append _ _

/-- With distinct names, the assignments are the fields as they were given. -/
theorem ofAssignments_eq (id : ResourceId) (distinct : (fields.map Prod.fst).Nodup) :
    Resource.ofAssignments id typeName fields
      = ⟨id, typeName, fields.map fun f => (f.1, some f.2)⟩ := by
  unfold Resource.ofAssignments
  rw [Table.ofList_of_nodup (by rwa [Table.keys, List.map_map])]

/-- What a new resource owns is what stands in the fields it was given. -/
theorem owning_possessions_ofAssignments (id : ResourceId)
    (distinct : (fields.map Prod.fst).Nodup) :
    owning (Resource.ofAssignments id typeName fields).possessions
      = fields.flatMap fun f => f.2.standing (.field id f.1) := by
  rw [ofAssignments_eq id distinct, Resource.owning_possessions, List.flatMap_map]
  rfl

/-- The census of a new resource: itself in flight, and what stands in its
fields. -/
theorem afoot_ofAssignments (id : ResourceId) (distinct : (fields.map Prod.fst).Nodup) :
    afoot [Resource.ofAssignments id typeName fields]
      = (id, .inFlight) :: fields.flatMap fun f => f.2.standing (.field id f.1) := by
  rw [← @owning_possessions_ofAssignments typeName fields id distinct]
  unfold afoot
  rw [List.flatMap_singleton]
  rfl

/-- What is entered for a new resource: itself in flight, and what was in
flight in its fields. -/
theorem reflects_entered {id : ResourceId} {rest : Census} (h : Returns (enter fields) l id l')
    (before : l.Reflects (afoot (fields.flatMap fun f => f.2.resources) ++ rest)) :
    l'.Reflects ((id, .inFlight) :: (fields.flatMap fun f => f.2.standing (.field id f.1))
      ++ rest) := by
  obtain ⟨rfl, settled⟩ := returns_enter h
  refine ((carries_settleFields settled).reflects ((⟨l.next⟩, .inFlight) :: rest) ?_).perm
    List.perm_middle
  exact before.mint.perm List.perm_middle.symm

/-- **A new resource** is in flight and owns what was in flight. -/
theorem reflects_enter {id : ResourceId} {rest : Census} (distinct : (fields.map Prod.fst).Nodup)
    (h : Returns (enter fields) l id l')
    (before : l.Reflects (afoot (fields.flatMap fun f => f.2.resources) ++ rest)) :
    l'.Reflects (afoot [Resource.ofAssignments id typeName fields] ++ rest) := by
  rw [afoot_ofAssignments _ distinct]
  exact reflects_entered h before

/-- **Of values for one field** the last one stays in it, and the others are
on record besides. -/
theorem exists_reflects_enter (typeName : String) {id : ResourceId} {rest : Census}
    (h : Returns (enter fields) l id l')
    (before : l.Reflects (afoot (fields.flatMap fun f => f.2.resources) ++ rest)) :
    ∃ lost, l'.Reflects (afoot [Resource.ofAssignments id typeName fields] ++ (lost ++ rest)) := by
  obtain ⟨lost, split⟩ := Table.exists_perm_ofList (fields.map fun f => (f.1, some f.2))
  refine ⟨lost.flatMap (Resource.slotStanding id), (reflects_entered h before).perm ?_⟩
  have stands : (fields.flatMap fun f => f.2.standing (.field id f.1))
      = (fields.map fun f => (f.1, some f.2)).flatMap (Resource.slotStanding id) := by
    rw [List.flatMap_map]
    rfl
  rw [← List.append_assoc]
  refine List.Perm.append_right rest (List.Perm.cons _ ?_)
  rw [stands]
  refine (split.flatMap_right _).trans (List.Perm.of_eq ?_)
  rw [List.flatMap_append, List.flatMap_singleton, Resource.owning_possessions]
  rfl

/-- The resources there are, with the new one. -/
theorem ids_enter {id : ResourceId} (distinct : (fields.map Prod.fst).Nodup)
    (h : Returns (enter fields) l id l') :
    ((afoot [Resource.ofAssignments id typeName fields]).map Prod.fst).Perm
      (id :: (afoot (fields.flatMap fun f => f.2.resources)).map Prod.fst) := by
  obtain ⟨rfl, settled⟩ := returns_enter h
  rw [afoot_ofAssignments _ distinct]
  exact List.Perm.cons _ (carries_settleFields settled).ids

/-- A new resource with a storable identity and regular fields is regular. -/
theorem regular_ofAssignments {id : ResourceId} (range : id.number < UInt64.size)
    (regular : ∀ f ∈ fields, f.2.Regular) :
    (Resource.ofAssignments id typeName fields).toValue.Regular := by
  refine Value.Regular.resource_iff.2 ⟨⟨range, Table.nodup_keys_ofList _⟩, fun f hf v hv => ?_⟩
  obtain ⟨lost, split⟩ := Table.exists_perm_ofList (fields.map fun f => (f.1, some f.2))
  obtain ⟨g, hg, rfl⟩ := List.mem_map.1 (split.mem_iff.2 (List.mem_append_left _ hf))
  obtain rfl := Option.some.inj hv
  exact regular g hg

end Construction

/-! ## Tearing down -/

namespace Teardown

/-- **The census that a teardown order expects**: every resource where the
order has it. -/
def census (order : TeardownOrder) : Census :=
  order.map fun step => (step.1, (step.2.map .owned).getD .inFlight)

/-- The census of two orders is that of the one and that of the other. -/
theorem census_append (order order' : TeardownOrder) :
    census (order ++ order') = census order ++ census order' := List.map_append

/-- The census of an order names the identities of the order. -/
@[simp] theorem map_fst_census (order : TeardownOrder) :
    (census order).map Prod.fst = ids order := by
  unfold census ids
  rw [List.map_map]
  rfl

end Teardown

namespace Value

/-- Orders put one after the other expect what each of them expects. -/
theorem joinOrders_census {β : Type} {parts : List β} {part : β → Except Fault TeardownOrder}
    {expected : β → Census} {order : TeardownOrder}
    (each : ∀ x ∈ parts, ∀ o, part x = .ok o → (Teardown.census o).Perm (expected x))
    (h : joinOrders (parts.map part) = .ok order) :
    (Teardown.census order).Perm (parts.flatMap expected) := by
  induction parts generalizing order with
  | nil =>
    obtain rfl := Except.ok.inj h
    exact List.Perm.nil
  | cons x parts ih =>
    rw [List.map_cons, joinOrders] at h
    obtain ⟨first, hx, h⟩ := bind_eq_ok_iff.1 h
    obtain ⟨others, hrest, h⟩ := bind_eq_ok_iff.1 h
    obtain rfl := Except.ok.inj h
    rw [Teardown.census_append, List.flatMap_cons]
    exact (each x List.mem_cons_self first hx).append
      (ih (fun y hy => each y (List.mem_cons_of_mem _ hy)) hrest)

/-- Orders that are all there are put one after the other. -/
theorem joinOrders_eq_ok {β : Type} {parts : List β} {part : β → Except Fault TeardownOrder}
    {order : β → TeardownOrder} (each : ∀ x ∈ parts, part x = .ok (order x)) :
    joinOrders (parts.map part) = .ok (parts.flatMap order) := by
  induction parts with
  | nil => rfl
  | cons x parts ih =>
    obtain ⟨first, rest⟩ := List.forall_mem_cons.1 each
    rw [List.map_cons, joinOrders, first, ih rest]
    rfl

/-- Orders that are joined in two parts are joined one after the other. -/
theorem joinOrders_append (parts parts' : List (Except Fault TeardownOrder)) :
    joinOrders (parts ++ parts') = (do
      let order ← joinOrders parts
      let others ← joinOrders parts'
      return order ++ others) := by
  induction parts with
  | nil => exact (bind_pure (joinOrders parts')).symm
  | cons part parts ih =>
    rw [List.cons_append, joinOrders, joinOrders, ih]
    simp only [bind_assoc, pure_bind, List.append_assoc]

/-- Orders can be put together part by part. -/
theorem joinOrders_flatMap {β : Type} (parts : List β)
    (orders : β → List (Except Fault TeardownOrder)) :
    joinOrders (parts.flatMap orders) = joinOrders (parts.map fun x => joinOrders (orders x)) := by
  induction parts with
  | nil => rfl
  | cons x parts ih => rw [List.flatMap_cons, joinOrders_append, ih, List.map_cons, joinOrders]

/-- A container is taken down element by element. -/
theorem teardown_container {v : Value} (h : v.IsContainer) (place? : Option Place) :
    v.teardown place?
      = joinOrders (v.keyed.map fun e => e.2.teardown (place?.map fun p => p.element e.1)) := by
  cases v with
  | array elements =>
    unfold teardown
    rw [fold_array]
    show joinOrders ((positions (elements.map _)).map _) = _
    rw [positions_map, List.map_map]
    rfl
  | dict entries =>
    unfold teardown
    rw [fold_dict]
    show joinOrders ((entries.map _).map _) = _
    rw [List.map_map]
    rfl
  | _ => cases h

/-- The resources in a slot. -/
def slotIds (slot : Option Value) : List ResourceId := (slot.map ids).getD []

/-- A flat value has nothing to take down. -/
theorem teardown_flat {v : Value} (h : v.IsFlat) (place? : Option Place) :
    v.teardown place? = .ok [] := by
  unfold teardown
  rw [fold_flat h]
  rfl

/-- A struct has nothing to take down, whatever its fields hold. -/
theorem teardown_struct (typeName : String) (fields : List (String × Value))
    (place? : Option Place) : (Value.struct typeName fields).teardown place? = .ok [] := by
  unfold teardown
  rw [fold_struct]
  rfl

/-- **A resource is torn down** after what stands in its fields. -/
theorem teardown_resource (r : Resource) (place? : Option Place) :
    r.toValue.teardown place? = (do
      let owned ← joinOrders (r.fields.map fun f => teardownField r.id (f.1, f.2.map teardown))
      return owned ++ [(r.id, place?)]) := by
  unfold teardown Resource.toValue
  rw [fold_resource]
  show (joinOrders ((r.fields.map _).map _) >>= _) = _
  rw [List.map_map]
  rfl

/-- **The order of a teardown lists** what stands where the value does. -/
theorem teardown_census {v : Value} {place : Place} {order : TeardownOrder}
    (h : v.teardown (some place) = .ok order) :
    (Teardown.census order).Perm (v.standing place) := by
  induction v using Value.sortInduction generalizing place order with
  | flat v flat =>
    rw [teardown_flat flat] at h
    obtain rfl := Except.ok.inj h
    rw [standing_of_resources_eq_nil (resources_flat flat)]
    exact List.Perm.nil
  | container v hv ih =>
    rw [teardown_container hv] at h
    refine (joinOrders_census (fun e he o ho => ?_) h).trans
      (standing_container_perm hv place).symm
    exact ih e.2 (mem_parts_of_mem_keyed he) ho
  | struct typeName fields _ =>
    rw [teardown_struct] at h
    obtain rfl := Except.ok.inj h
    rw [standing_of_resources_eq_nil (resources_struct _ _)]
    exact List.Perm.nil
  | resource r ih =>
    rw [teardown_resource] at h
    obtain ⟨owned, hfields, same⟩ := bind_eq_ok_iff.1 h
    obtain rfl := Except.ok.inj same
    rw [standing_resource, Resource.owning_possessions, Teardown.census_append]
    refine List.perm_append_comm.trans (List.Perm.cons _ (joinOrders_census ?_ hfields))
    intro f hf o ho
    obtain ⟨name, _ | v⟩ := f
    · cases ho
    · exact ih _ hf v rfl ho

end Value

namespace Resource

/-- The fields of a resource are taken down one after the other when none is
skipped. -/
theorem teardownFields_all (r : Resource) :
    r.teardownFields (fun _ => false)
      = Value.joinOrders (r.fields.map fun f =>
        Value.teardownField r.id (f.1, f.2.map Value.teardown)) := by
  have all : (r.fields.filter fun _ => !false) = r.fields := List.filter_eq_self.2 fun _ _ => rfl
  unfold teardownFields
  rw [all]

/-- A resource is taken down after what it owns. -/
theorem teardown_toValue (r : Resource) (place? : Option Place) :
    r.toValue.teardown place? = (do
      let owned ← r.teardownFields fun _ => false
      return owned ++ [(r.id, place?)]) := by
  rw [Value.teardown_resource, teardownFields_all]

/-- The order of what a resource owns lists what stands in the fields that
are not skipped. -/
theorem teardownFields_census {r : Resource} {skip : String → Bool} {order : TeardownOrder}
    (h : r.teardownFields skip = .ok order) :
    (Teardown.census order).Perm
      ((r.fields.filter fun f => !skip f.1).flatMap (slotStanding r.id)) := by
  refine Value.joinOrders_census (fun f _ o ho => ?_) h
  obtain ⟨name, _ | v⟩ := f
  · cases ho
  · exact Value.teardown_census ho

end Resource

/-- Leaving out more than has to be makes no difference when there is nothing
in what is left out. -/
theorem flatMap_filter_or {β γ : Type} {l : List β} {p q : β → Bool} {g : β → List γ}
    (h : ∀ x ∈ l, q x = true → g x = []) :
    (l.filter fun x => !(p x || q x)).flatMap g = (l.filter fun x => !p x).flatMap g := by
  induction l with
  | nil => rfl
  | cons x l ih =>
    have rest := ih fun y hy => h y (List.mem_cons_of_mem _ hy)
    have head := h x List.mem_cons_self
    cases hp : p x <;> cases hq : q x <;> simp_all

/-- A field that is empty has nothing in it. -/
theorem Resource.slotStanding_of_isFieldMoved {r : Resource}
    (distinct : (Table.keys r.fields).Nodup) {f : String × Option Value} (mem : f ∈ r.fields)
    (moved : r.isFieldMoved f.1 = true) : slotStanding r.id f = [] := by
  have found : Table.get? r.fields f.1 = some f.2 := (Table.mem_iff_get?_eq_some distinct).1 mem
  unfold isFieldMoved at moved
  rw [found] at moved
  obtain ⟨name, _ | v⟩ := f
  · rfl
  · cases moved

namespace Teardown

variable {order : TeardownOrder} {owner : ResourceId} {fields : List (String × Value)}
  {r : Resource} {p : Plan}

/-- **The order of roots** puts their orders one after the other, if all are
in flight. -/
theorem returns_orderOf_iff {resources : List Resource} :
    Returns (orderOf resources) l order l'
      ↔ (∀ r ∈ resources, l.holding? r.id = some .inFlight)
        ∧ Value.joinOrders (resources.map fun r => r.toValue.teardown none) = .ok order
        ∧ l = l' := by
  induction resources generalizing l order with
  | nil =>
    refine returns_pure.trans ((and_congr_left fun _ => ?_).trans
      (and_iff_right (List.forall_mem_nil _)).symm)
    exact Except.ok.injEq _ _ ▸ Iff.rfl
  | cons r resources ih =>
    rw [List.forall_mem_cons, List.map_cons, Value.joinOrders, r.teardown_toValue]
    constructor
    · intro h
      obtain ⟨_, _, here, h⟩ := returns_bind.1 h
      obtain ⟨isHeld, rfl⟩ := returns_checkDestroy.1 here
      obtain ⟨owned, listed, h⟩ := returns_ofExcept_bind.1 h
      obtain ⟨others, _, rest, h⟩ := returns_bind.1 h
      obtain ⟨rfl, rfl⟩ := returns_pure.1 h
      obtain ⟨held, joined, rfl⟩ := ih.1 rest
      rw [listed, joined]
      exact ⟨⟨isHeld, held⟩, rfl, rfl⟩
    · rintro ⟨⟨isHeld, held⟩, joined, rfl⟩
      obtain ⟨first, planned, joined⟩ := bind_eq_ok_iff.1 joined
      obtain ⟨owned, listed, same⟩ := bind_eq_ok_iff.1 planned
      obtain rfl := Except.ok.inj same
      obtain ⟨others, rest, same⟩ := bind_eq_ok_iff.1 joined
      obtain rfl := Except.ok.inj same
      refine returns_bind.2 ⟨(), l, returns_checkDestroy.2 ⟨isHeld, rfl⟩, ?_⟩
      refine returns_ofExcept_bind.2 ⟨owned, listed, ?_⟩
      exact returns_bind.2 ⟨others, l, ih.2 ⟨held, rest, rfl⟩, returns_pure.2 ⟨rfl, rfl⟩⟩

/-- The order of roots in flight lists what they are and own. -/
theorem orderOf_census {resources : List Resource}
    (h : Returns (orderOf resources) l order l') : (census order).Perm (afoot resources) := by
  induction resources generalizing l order with
  | nil =>
    obtain ⟨rfl, -⟩ := returns_pure.1 h
    exact List.Perm.nil
  | cons r resources ih =>
    obtain ⟨_, u, -, h⟩ := returns_bind.1 h
    obtain ⟨owned, fieldsListed, h⟩ := returns_ofExcept_bind.1 h
    obtain ⟨others, w, rest, h⟩ := returns_bind.1 h
    obtain ⟨rfl, rfl⟩ := returns_pure.1 h
    have inFields := Resource.teardownFields_census fieldsListed
    have all : (r.fields.filter fun _ => !false) = r.fields := List.filter_eq_self.2 fun _ _ => rfl
    rw [all, ← Resource.owning_possessions] at inFields
    have first : afoot [r] = (r.id, .inFlight) :: owning r.possessions := by
      unfold afoot
      rw [List.flatMap_singleton]
      rfl
    refine List.Perm.trans ?_ (afoot_append [r] resources).symm
    rw [census_append, census_append, first]
    exact (List.perm_append_comm.trans (List.Perm.cons _ inFields)).append (ih rest)

/-- An order for resources in hand names what they are and own. -/
theorem orderOf_ids {resources : List Resource}
    (h : Returns (orderOf resources) l order l') :
    (ids order).Perm ((afoot resources).map Prod.fst) := by
  rw [← map_fst_census]
  exact (orderOf_census h).map _

/-- **A teardown leaves the rest**: what it destroyed is listed no more. -/
theorem reflects_destroy {resources : List Resource} {rest : Census}
    (h : Returns (do apply (← orderOf resources)) l () l')
    (before : l.Reflects (afoot resources ++ rest)) : l'.Reflects rest := by
  obtain ⟨order, u, listed, applied⟩ := returns_bind.1 h
  obtain rfl := (keeps_orderOf (R := Eq) resources).of_returns listed
  rw [← returns_apply applied]
  exact before.raze (orderOf_ids listed)

/-- What is released from fields is in flight. -/
theorem carries_releaseFields (h : Returns (releaseFields owner fields) l () l') :
    l.Carries l' (fields.flatMap fun f => f.2.standing (.field owner f.1))
      (afoot (fields.flatMap fun f => f.2.resources)) := by
  induction fields generalizing l with
  | nil =>
    obtain rfl := (returns_pure.1 h).2
    exact Carries.refl l []
  | cons f fields ih =>
    obtain ⟨_, u, first, others⟩ := returns_bind.1 h
    have released := (carries_releaseValue first).frame
      (fields.flatMap fun f => f.2.standing (.field owner f.1))
    have rest := (ih others).frame (afoot f.2.resources)
    refine ((released.perm (List.Perm.refl _) List.perm_append_comm).trans rest).perm
      (List.Perm.refl _) ?_
    exact List.perm_append_comm.trans (afoot_append _ _).symm

/-- **What a plan tears down**: the resource, and what it owns in the fields
that are not moved out. -/
def tornDown (p : Plan) (r : Resource) : List ResourceId :=
  r.id :: (r.fields.filter fun f => !p.movesOut f.1).flatMap fun f => Value.slotIds f.2

/-- What is moved out stood in the fields it is moved out of. -/
theorem slotStanding_movedOut (p : Plan) (r : Resource) :
    ((r.fields.filter fun f => p.movesOut f.1).flatMap (Resource.slotStanding r.id))
      = (movedOut p r).flatMap fun f => f.2.standing (.field r.id f.1) := by
  unfold movedOut
  induction r.fields with
  | nil => rfl
  | cons f fields ih =>
    obtain ⟨name, _ | v⟩ := f <;> cases moved : p.movesOut name <;>
      simp [moved, ih, Resource.slotStanding]

/-- **The census of what a plan tears down**: the resource in flight, and what
stands in the fields that are not moved out. -/
def condemned (p : Plan) (r : Resource) : Census :=
  (r.id, .inFlight) :: (r.fields.filter fun f => !p.movesOut f.1).flatMap
    (Resource.slotStanding r.id)

/-- **The census of a resource in flight** by what a plan does with it: what
is torn down, and what is moved out. -/
theorem afoot_plan_perm (p : Plan) (r : Resource) :
    (afoot [r]).Perm
      (condemned p r ++ (movedOut p r).flatMap fun f => f.2.standing (.field r.id f.1)) := by
  have split : (r.fields.filter (fun f => !p.movesOut f.1)
      ++ r.fields.filter fun f => p.movesOut f.1).Perm r.fields := by
    refine List.perm_append_comm.trans ?_
    exact List.filter_append_perm (fun f : String × Option Value => p.movesOut f.1) r.fields
  have owned := split.flatMap_right (Resource.slotStanding r.id)
  rw [List.flatMap_append, ← Resource.owning_possessions, slotStanding_movedOut] at owned
  unfold afoot
  rw [List.flatMap_singleton]
  exact List.Perm.cons _ owned.symm

/-- What stands in the slots of a resource are the identities in its fields. -/
theorem map_fst_slotStanding (owner : ResourceId) (fields : List (String × Option Value)) :
    (fields.flatMap (Resource.slotStanding owner)).map Prod.fst
      = fields.flatMap fun f => Value.slotIds f.2 := by
  rw [List.map_flatMap]
  refine List.flatMap_congr fun f _ => ?_
  obtain ⟨name, _ | v⟩ := f
  · rfl
  · show (v.standing _).map Prod.fst = _
    rw [Value.standing, map_fst_owning, Value.map_fst_inventory]
    rfl

/-- What a plan condemns are the identities it takes down. -/
@[simp] theorem map_fst_condemned (p : Plan) (r : Resource) :
    (condemned p r).map Prod.fst = tornDown p r := by
  rw [condemned, List.map_cons, map_fst_slotStanding]
  rfl

/-- The resources of a planned teardown are those torn down and those moved
out. -/
theorem tornDown_perm (p : Plan) (r : Resource) :
    ((afoot [r]).map Prod.fst).Perm
      (tornDown p r ++ ((movedOut p r).flatMap fun f => f.2.ids)) := by
  refine ((afoot_plan_perm p r).map _).trans (List.Perm.of_eq ?_)
  rw [List.map_append, map_fst_condemned, List.map_flatMap]
  refine congrArg₂ _ rfl (List.flatMap_congr fun f _ => ?_)
  rw [Value.standing, map_fst_owning, Value.map_fst_inventory]

/-- The order of a planned teardown lists what the plan tears down: a field
that is skipped as empty has nothing in it. -/
theorem planned_census {owned : TeardownOrder} (distinct : (Table.keys r.fields).Nodup)
    (listed : r.teardownFields (fun field => p.movesOut field || r.isFieldMoved field)
      = .ok owned) :
    (census (owned ++ [(r.id, none)])).Perm (condemned p r) := by
  have skipped : ((r.fields.filter fun f => !(p.movesOut f.1 || r.isFieldMoved f.1)).flatMap
      (Resource.slotStanding r.id))
        = (r.fields.filter fun f => !p.movesOut f.1).flatMap (Resource.slotStanding r.id) :=
    flatMap_filter_or fun f hf moved => Resource.slotStanding_of_isFieldMoved distinct hf moved
  rw [condemned, ← skipped, census_append]
  exact List.perm_append_comm.trans (List.Perm.cons _ (Resource.teardownFields_census listed))

/-- The order of a planned teardown names what the plan takes down. -/
theorem ids_perm_tornDown {owned : TeardownOrder} (distinct : (Table.keys r.fields).Nodup)
    (listed : r.teardownFields (fun field => p.movesOut field || r.isFieldMoved field)
      = .ok owned) :
    (ids (owned ++ [(r.id, none)])).Perm (tornDown p r) := by
  rw [← map_fst_census, ← map_fst_condemned]
  exact (planned_census distinct listed).map _

/-- **A planned teardown** destroys what the plan tears down and leaves what
it moves out in flight. -/
theorem reflects_destroyWith {u : Ledger} {owned : TeardownOrder} {rest : Census}
    (regular : r.toValue.Regular)
    (listed : r.teardownFields (fun field => p.movesOut field || r.isFieldMoved field) = .ok owned)
    (released : Returns (releaseFields r.id (movedOut p r)) l () u)
    (applied : Returns (apply (owned ++ [(r.id, none)])) u () l')
    (before : l.Reflects (afoot [r] ++ rest)) :
    l'.Reflects (afoot ((movedOut p r).flatMap fun f => f.2.resources) ++ rest) := by
  have order : (ids (owned ++ [(r.id, none)])).Perm ((condemned p r).map Prod.fst) := by
    rw [map_fst_condemned]
    exact ids_perm_tornDown (Value.Regular.resource_iff.1 regular).1.2 listed
  have moved := (carries_releaseFields released).reflects (condemned p r ++ rest) ?_
  · rw [← returns_apply applied]
    refine Reflects.raze (moved.perm ?_) order
    rw [← List.append_assoc, ← List.append_assoc]
    exact List.perm_append_comm.append_right _
  · refine before.perm ?_
    rw [← List.append_assoc]
    exact ((afoot_plan_perm p r).trans List.perm_append_comm).append_right _

end Teardown

end Custody
