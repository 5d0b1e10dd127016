import Custody.Proofs.Discipline

/-!
# The ledger tracks every resource

Resources are found in three places: in the values that are stored, in the
live locals of open frames, and in the hands of the host; and from there on
in elements and in fields, at any depth. `State.Found` says at which place a
resource is found, and `State.identities` lists all that there are.

In every state a disciplined host can reach, unless its transaction is
doomed, no identity occurs twice, what is in hand is recorded as in flight,
and everything else is recorded where it is found
(`reachable_tracked`).
-/

namespace Custody

open Ledger

/-! ## Where resources are found -/

/-- **A resource is found at a place** in a value that stands at a place. -/
inductive Value.Found : Value → Place → ResourceId → Place → Prop where
  /-- The value itself. -/
  | root (r : Resource) (place : Place) : Found r.toValue place r.id place
  /-- In an element of an array, under its position. -/
  | element {elements : List Value} {i : Nat} {v : Value} {place spot : Place} {id : ResourceId}
      (there : elements[i]? = some v) (inside : Found v (place.element (.uint i)) id spot) :
      Found (.array elements) place id spot
  /-- In an entry of a dictionary, under its key. -/
  | entry {entries : List (Key × Value)} {key : Key} {v : Value} {place spot : Place}
      {id : ResourceId} (there : (key, v) ∈ entries)
      (inside : Found v (place.element key) id spot) : Found (.dict entries) place id spot
  /-- In a field of a resource, wherever the resource stands. -/
  | field {r : Resource} {name : String} {v : Value} {place spot : Place} {id : ResourceId}
      (there : (name, some v) ∈ r.fields) (inside : Found v (.field r.id name) id spot) :
      Found r.toValue place id spot

/-- **A resource is found at a place** in the custodian or in what is in
hand. What is in hand itself is at no place. -/
inductive State.Found (s : State) (hands : List Resource) : ResourceId → Place → Prop where
  | stored {address : Address} {path : Path} {v : Value} {id : ResourceId} {spot : Place}
      (there : s.store.value? address path = some v)
      (inside : v.Found (.stored address path) id spot) : Found s hands id spot
  | bound {f : Frame} {name : String} {v : Value} {id : ResourceId} {spot : Place}
      (opened : f ∈ s.stack.frames) (there : (name, .live v) ∈ f.locals)
      (inside : v.Found (.binding f.id name) id spot) : Found s hands id spot
  | inHand {r : Resource} {name : String} {v : Value} {id : ResourceId} {spot : Place}
      (held : r ∈ hands) (there : (name, some v) ∈ r.fields)
      (inside : v.Found (.field r.id name) id spot) : Found s hands id spot

namespace Value

variable {v : Value} {place spot : Place} {id : ResourceId}

/-- The inventory of a container is that of its elements. -/
theorem mem_inventory_container (h : v.IsContainer) {e : ResourceId × Place} :
    e ∈ v.inventory place ↔ ∃ part ∈ v.keyed, e ∈ part.2.inventory (place.element part.1) := by
  simp only [inventory_eq, placings_container h, possessions, resources_container h,
    List.mem_append, List.mem_flatMap]
  constructor
  · rintro (⟨part, hp, he⟩ | ⟨r, ⟨part, hp, hr⟩, he⟩)
    · exact ⟨part, hp, .inl he⟩
    · exact ⟨part, hp, .inr ⟨r, hr, he⟩⟩
  · rintro ⟨part, hp, he | ⟨r, hr, he⟩⟩
    · exact .inl ⟨part, hp, he⟩
    · exact .inr ⟨r, ⟨part, hp, hr⟩, he⟩

/-- What a resource owns stands in one of its fields, or deeper. -/
theorem mem_possessions {r : Resource} {e : ResourceId × Place} :
    e ∈ r.possessions
      ↔ ∃ name v, (name, some v) ∈ r.fields ∧ e ∈ v.inventory (.field r.id name) := by
  unfold Resource.possessions
  rw [List.mem_flatMap]
  constructor
  · rintro ⟨⟨name, _ | v⟩, hf, he⟩
    · cases he
    · exact ⟨name, v, hf, he⟩
  · rintro ⟨name, v, hf, he⟩
    exact ⟨(name, some v), hf, he⟩

/-- The inventory of a resource is itself and what it owns. -/
theorem mem_inventory_resource {r : Resource} {e : ResourceId × Place} :
    e ∈ r.toValue.inventory place ↔ e = (r.id, place) ∨ e ∈ r.possessions := by
  rw [inventory_eq, placings_resource, possessions_resource, List.singleton_append, List.mem_cons]

/-- An element stands at its position. -/
theorem mem_positions {elements : List Value} {part : Key × Value} :
    part ∈ positions elements ↔ ∃ i, part.1 = .uint i ∧ elements[i]? = some part.2 := by
  obtain ⟨key, v⟩ := part
  unfold positions
  simp only [List.mem_map, Prod.mk.injEq, Prod.exists, List.mem_zipIdx_iff_getElem?]
  constructor
  · rintro ⟨w, i, h, rfl, rfl⟩
    exact ⟨i, rfl, h⟩
  · rintro ⟨i, rfl, h⟩
    exact ⟨v, i, h, rfl, rfl⟩

/-- **The inventory lists what is found**, and where. -/
theorem mem_inventory_iff : (id, spot) ∈ v.inventory place ↔ v.Found place id spot := by
  constructor
  · intro h
    induction v using Value.induction generalizing place with
    | step v ih =>
    cases v with
    | array elements =>
      obtain ⟨part, hp, he⟩ := (mem_inventory_container (v := .array elements) trivial).1 h
      obtain ⟨i, key, there⟩ := mem_positions.1 hp
      rw [key] at he
      exact .element there (ih part.2 (mem_parts_of_mem_keyed hp) he)
    | dict entries =>
      obtain ⟨part, hp, he⟩ := (mem_inventory_container (v := .dict entries) trivial).1 h
      exact .entry hp (ih part.2 (mem_parts_of_mem_keyed hp) he)
    | struct typeName fields =>
      rw [inventory_of_resources_eq_nil (resources_struct _ _)] at h
      cases h
    | resource rid typeName fields =>
      -- a resource is found where the value is, what it owns in its fields
      rcases mem_inventory_resource (r := ⟨rid, typeName, fields⟩).1 h with same | owned
      · obtain ⟨rfl, rfl⟩ := Prod.mk.inj same
        exact .root ⟨id, typeName, fields⟩ spot
      · obtain ⟨name, w, hf, he⟩ := mem_possessions.1 owned
        exact .field (r := ⟨rid, typeName, fields⟩) hf (ih w (List.mem_filterMap.2 ⟨_, hf, rfl⟩) he)
    | _ => cases h
  · intro h
    induction h with
    | root r place => exact mem_inventory_resource.2 (.inl rfl)
    | element there _ ih =>
      exact (mem_inventory_container (v := .array _) trivial).2
        ⟨(.uint _, _), mem_positions.2 ⟨_, rfl, there⟩, ih⟩
    | entry there _ ih =>
      exact (mem_inventory_container (v := .dict _) trivial).2 ⟨_, there, ih⟩
    | field there _ ih =>
      exact mem_inventory_resource.2 (.inr (mem_possessions.2 ⟨_, _, there, ih⟩))

/-- The roots of a value are found where they stand. -/
theorem found_of_mem_placings {e : ResourceId × Place} (mem : e ∈ v.placings place) :
    v.Found place e.1 e.2 := by
  refine mem_inventory_iff.1 ?_
  rw [inventory_eq]
  exact List.mem_append_left _ mem

end Value

/-! ## All the resources there are -/

/-- The resources in an entry, at any depth. -/
def Entry.identities : Entry → List ResourceId
  | .value v => v.identities
  | .link _ => []

/-- The resources in storage, at any depth. -/
def Store.identities (s : Store) : List ResourceId := s.entries.flatMap fun e => e.2.2.identities

/-- The resources a name is bound to, at any depth. -/
def Binding.identities : Binding → List ResourceId
  | .live v => v.identities
  | .moved => []

/-- The resources in locals, at any depth. -/
def CallStack.identities (s : CallStack) : List ResourceId :=
  s.frames.flatMap fun f => f.locals.flatMap fun b => b.2.identities

/-- **The resources in storage, in locals and in hand**, at any depth. -/
def State.identities (s : State) (hands : List Resource) : List ResourceId :=
  s.store.identities ++ s.stack.identities ++ hands.flatMap fun r => r.toValue.identities

/-- The resources in a regular value are those that stand there with it. -/
theorem Value.identities_perm_standing {v : Value} (regular : v.Regular) (place : Place) :
    v.identities.Perm ((v.standing place).map Prod.fst) := by
  rw [standing, map_fst_owning, map_fst_inventory]
  exact identities_perm_ids regular

/-- So it is with a store, -/
theorem Store.identities_perm {s : Store} (regular : s.Regular) :
    s.identities.Perm (s.standing.map Prod.fst) := by
  unfold identities standing table
  rw [List.flatMap_map, List.map_flatMap]
  refine List.Perm.flatMap_left _ fun e he => ?_
  have h := regular e he
  obtain ⟨address, path, v | link⟩ := e
  · exact Value.identities_perm_standing h _
  · exact List.Perm.nil

/-- with a stack, -/
theorem CallStack.identities_perm {s : CallStack} (regular : s.Regular) :
    s.identities.Perm (s.standing.map Prod.fst) := by
  unfold identities standing Frame.standing
  rw [List.map_flatMap]
  refine List.Perm.flatMap_left _ fun f hf => ?_
  rw [List.map_flatMap]
  refine List.Perm.flatMap_left _ fun b hb => ?_
  have h := regular f hf b hb
  obtain ⟨name, v | _⟩ := b
  · exact Value.identities_perm_standing h _
  · exact List.Perm.nil

/-- and with what is in hand. -/
theorem identities_perm_afoot {hands : List Resource} (regular : ∀ r ∈ hands, r.toValue.Regular) :
    (hands.flatMap fun r => r.toValue.identities).Perm ((afoot hands).map Prod.fst) := by
  induction hands with
  | nil => exact List.Perm.nil
  | cons r hands ih =>
    obtain ⟨first, others⟩ := List.forall_mem_cons.1 regular
    have alone : ((afoot [r]).map Prod.fst) = r.toValue.ids := by
      rw [← Value.map_fst_afoot, Value.resources_resource]
    rw [List.flatMap_cons]
    refine ((Value.identities_perm_ids first).append (ih others)).trans ?_
    rw [← alone, ← List.map_append]
    exact ((afoot_append [r] hands).map Prod.fst).symm

/-- **The census lists all the resources there are.** -/
theorem State.InOrder.identities_perm {s : State} {hands : List Resource} (o : s.InOrder hands) :
    (s.identities hands).Perm (s.ids hands) := by
  unfold State.identities State.ids State.census State.standing
  rw [List.map_append, List.map_append]
  exact ((Store.identities_perm o.store).append (CallStack.identities_perm o.locals)).append
    (identities_perm_afoot o.hands)

/-- **The census says where everything is found**: what is in hand is in
flight, and the rest where it is. -/
theorem State.mem_census_iff {s : State} {hands : List Resource} {id : ResourceId} {h : Holding} :
    (id, h) ∈ s.census hands
      ↔ (∃ r ∈ hands, r.id = id ∧ h = .inFlight)
        ∨ ∃ place, h = .owned place ∧ s.Found hands id place := by
  have owned {place spot : Place} {v : Value} (inside : v.Found place id spot) :
      (id, Holding.owned spot) ∈ v.standing place :=
    List.mem_map.2 ⟨_, Value.mem_inventory_iff.2 inside, rfl⟩
  have found {place : Place} {v : Value} (listed : (id, h) ∈ v.standing place) :
      ∃ spot, h = .owned spot ∧ v.Found place id spot := by
    obtain ⟨⟨id', spot⟩, mem, same⟩ := List.mem_map.1 listed
    obtain ⟨rfl, rfl⟩ := Prod.mk.inj same
    exact ⟨spot, rfl, Value.mem_inventory_iff.1 mem⟩
  constructor
  · intro mem
    rcases List.mem_append.1 mem with mem | mem
    · rcases List.mem_append.1 mem with mem | mem
      · obtain ⟨⟨⟨address, path⟩, e⟩, there, listed⟩ := List.mem_flatMap.1 mem
        cases e with
        | value v =>
          obtain ⟨spot, rfl, inside⟩ := found listed
          refine .inr ⟨spot, rfl, .stored ?_ inside⟩
          exact Option.bind_eq_some_iff.2 ⟨_, Store.mem_table_iff.1 there, rfl⟩
        | link _ => cases listed
      · obtain ⟨f, opened, listed⟩ := List.mem_flatMap.1 mem
        obtain ⟨⟨name, b⟩, there, listed⟩ := List.mem_flatMap.1 listed
        cases b with
        | live v =>
          obtain ⟨spot, rfl, inside⟩ := found listed
          exact .inr ⟨spot, rfl, .bound opened there inside⟩
        | moved => cases listed
    · rcases List.mem_append.1 mem with mem | mem
      · obtain ⟨_, flown, same⟩ := List.mem_map.1 mem
        obtain ⟨r, held, rfl⟩ := List.mem_map.1 flown
        obtain ⟨rfl, rfl⟩ := Prod.mk.inj same
        exact .inl ⟨r, held, rfl, rfl⟩
      · obtain ⟨⟨id', spot⟩, listed, same⟩ := List.mem_map.1 mem
        obtain ⟨rfl, rfl⟩ := Prod.mk.inj same
        obtain ⟨r, held, possessed⟩ := List.mem_flatMap.1 listed
        obtain ⟨name, v, there, inside⟩ := Value.mem_possessions.1 possessed
        exact .inr ⟨spot, rfl, .inHand held there (Value.mem_inventory_iff.1 inside)⟩
  · rintro (⟨r, held, rfl, rfl⟩ | ⟨spot, rfl, placed⟩)
    · exact List.mem_append_right _ (List.mem_append_left _
        (List.mem_map_of_mem (List.mem_map_of_mem held)))
    · cases placed with
      | @stored address path v _ _ there inside =>
        refine List.mem_append_left _ (List.mem_append_left _ (List.mem_flatMap.2
          ⟨((address, path), .value v), Store.mem_table_iff.2 ?_, owned inside⟩))
        exact (Storage.standingAt_of_value? there).2
      | @bound f name v _ _ opened there inside =>
        exact List.mem_append_left _ (List.mem_append_right _ (List.mem_flatMap.2
          ⟨f, opened, List.mem_flatMap.2 ⟨_, there, owned inside⟩⟩))
      | @inHand r name v _ _ held there inside =>
        have possessed : (id, spot) ∈ hands.flatMap Resource.possessions :=
          List.mem_flatMap.2 ⟨r, held, Value.mem_possessions.2
            ⟨name, v, there, Value.mem_inventory_iff.2 inside⟩⟩
        exact List.mem_append_right _ (List.mem_append_right _ (List.mem_map.2 ⟨_, possessed, rfl⟩))

/-! ## Reachable states -/

/-- **Records and data agree in every state a disciplined host can reach**,
outside a transaction and inside one that is not doomed: no identity occurs
twice, what is in hand is recorded as in flight, everything else is recorded
where it is found, and no other live resource is recorded. -/
theorem reachable_tracked {settings : Settings} {registry : Registry} {s : State}
    {hands : List Resource} (reached : Reachable settings registry s hands)
    (clean : s.isPoisoned = false) :
    (s.identities hands).Nodup
      ∧ (∀ r ∈ hands, s.ledger.holding? r.id = some .inFlight)
      ∧ (∀ id place, s.Found hands id place → s.ledger.holding? id = some (.owned place))
      ∧ (∀ id ∈ s.identities hands, (∃ r ∈ hands, r.id = id) ∨ ∃ place, s.Found hands id place)
      ∧ ∀ id h, s.ledger.holding? id = some h → h.isLive = true → id ∈ s.identities hands := by
  have o : s.InOrder hands := reached.sound.inOrder clean
  have listed := o.identities_perm
  refine ⟨listed.nodup_iff.2 o.reflects.distinct, fun r held => ?_, fun id place placed => ?_,
    fun id mem => ?_, fun id h known live => ?_⟩
  · exact o.reflects.holding? (State.mem_census_iff.2 (.inl ⟨r, held, rfl, rfl⟩))
  · exact o.reflects.holding? (State.mem_census_iff.2 (.inr ⟨place, rfl, placed⟩))
  · obtain ⟨⟨_, h⟩, entry, rfl⟩ := List.mem_map.1 (listed.mem_iff.1 mem)
    rcases State.mem_census_iff.1 entry with ⟨r, held, same, -⟩ | ⟨place, -, placed⟩
    · exact .inl ⟨r, held, same⟩
    · exact .inr ⟨place, placed⟩
  · exact listed.mem_iff.2 (List.mem_map_of_mem ((o.reflects.recorded id h).2 ⟨known, live⟩))

namespace Scenario

/-- The coin in the vault. -/
def keptCoin : Resource := ⟨⟨1⟩, "Coin", [("amount", some (.uint 50))]⟩

/-- The vault with the coin in it. -/
def keptVault : Resource :=
  ⟨⟨2⟩, "Vault", [("coins", some (.array [keptCoin.toValue])), ("label", some (.str "alice"))]⟩

/-- The coin that stays in hand. -/
def looseCoin : Resource := ⟨⟨3⟩, "Coin", [("amount", some (.uint 25))]⟩

/-- Makes the first coin. -/
def makeCoin : Operation := .createResource "Coin" [("amount", .uint 50)]

/-- Makes the vault around it. -/
def makeVault : Operation :=
  .createResource "Vault" [("coins", .array [keptCoin.toValue]), ("label", .str "alice")]

/-- Saves the vault. -/
def saveVault : Operation := .save alice vaultPath keptVault.toValue

/-- Makes the second coin. -/
def makeLoose : Operation := .createResource "Coin" [("amount", .uint 25)]

/-- A vault with a coin is saved. -/
def saved : State := begun.after [.call makeCoin, .call makeVault, .call saveVault]

/-- A vault with a coin is saved, and another coin is in hand. -/
def keeping : State :=
  begun.after [.call makeCoin, .call makeVault, .call saveVault, .call makeLoose]

theorem regular_uint {n : Nat} (h : n < UInt64.size) : (Value.uint n).Regular :=
  ⟨h, fun _ mem => nomatch mem⟩

theorem regular_str (text : String) : (Value.str text).Regular :=
  ⟨trivial, fun _ mem => nomatch mem⟩

theorem regular_coin {id amount : Nat} (hid : id < UInt64.size) (h : amount < UInt64.size) :
    (Resource.toValue ⟨⟨id⟩, "Coin", [("amount", some (.uint amount))]⟩).Regular := by
  refine Value.Regular.resource_iff.2 ⟨⟨hid, List.nodup_singleton "amount"⟩, fun f hf v hv => ?_⟩
  obtain rfl := List.mem_singleton.1 hf
  obtain rfl := Option.some.inj hv
  exact regular_uint h

theorem regular_coins : (Value.array [keptCoin.toValue]).Regular :=
  Value.Regular.array_iff.2 fun _ hv =>
    List.mem_singleton.1 hv ▸ regular_coin (by decide) (by decide)

theorem regular_keptVault : keptVault.toValue.Regular := by
  refine Value.Regular.resource_iff.2 ⟨by decide, fun f hf v hv => ?_⟩
  rcases List.mem_cons.1 hf with rfl | hf
  · exact Option.some.inj hv ▸ regular_coins
  · obtain rfl := List.mem_singleton.1 hf
    exact Option.some.inj hv ▸ regular_str "alice"

theorem permitted_coin {n : Nat} (h : n < UInt64.size) :
    (Operation.createResource "Coin" [("amount", .uint n)]).Permitted :=
  .of_few (Nat.le_refl 1) rfl (List.forall_mem_singleton.2 (regular_uint h))

theorem permitted_makeVault : makeVault.Permitted where
  values v hv := by
    rcases List.mem_cons.1 hv with rfl | hv
    · exact regular_coins
    · exact List.mem_singleton.1 hv ▸ regular_str "alice"
  keys _ h := nomatch h
  named _ _ same := by
    obtain ⟨-, rfl⟩ := Operation.createResource.inj same
    decide

theorem permitted_saveVault : saveVault.Permitted :=
  .of_few (Nat.le_refl 1) rfl (List.forall_mem_singleton.2 regular_keptVault)

/-- The run that saves the vault. -/
theorem run_saved : Run begun [] saved [] [⟨1⟩, ⟨2⟩] [] := by
  have coin := Run.nil.snoc (@Step.returned begun [] makeCoin []
    (.value (some keptCoin.toValue)) _ rfl (permitted_coin (by decide)) (by decide)
    (List.Perm.refl _) rfl)
  have vault := coin.snoc (@Step.returned _ [keptCoin] makeVault []
    (.value (some keptVault.toValue)) _ rfl permitted_makeVault (by decide) (List.Perm.refl _) rfl)
  exact vault.snoc (@Step.returned _ [keptVault] saveVault [] .done _ rfl
    permitted_saveVault (by decide) (List.Perm.refl _) rfl)

/-- The run that leads there. -/
theorem run_keeping : Run begun [] keeping [looseCoin] [⟨1⟩, ⟨2⟩, ⟨3⟩] [] :=
  run_saved.snoc (@Step.returned saved [] makeLoose [] (.value (some looseCoin.toValue)) _ rfl
    (permitted_coin (by decide)) (by decide) (List.Perm.refl _) rfl)

theorem reachable_keeping : Reachable Settings.standard registry keeping [looseCoin] :=
  run_keeping.reachable (Reachable.start .fresh [alice] writable_fresh)

end Scenario

theorem reachable_tracked_keeping :
    Reachable Settings.standard Scenario.registry Scenario.keeping [Scenario.looseCoin]
      ∧ Scenario.keeping.isPoisoned = false
      ∧ (Scenario.keeping.identities [Scenario.looseCoin]).Nodup
      ∧ Scenario.keeping.ledger.holding? ⟨3⟩ = some .inFlight
      ∧ Scenario.keeping.ledger.holding? ⟨1⟩
        = some (.owned ((Place.field ⟨2⟩ "coins").element (.uint 0))) := by
  have clean : Scenario.keeping.isPoisoned = false := rfl
  obtain ⟨distinct, flown, placed, -, -⟩ := reachable_tracked Scenario.reachable_keeping clean
  refine ⟨Scenario.reachable_keeping, clean, distinct, flown _ (List.mem_singleton_self _), ?_⟩
  have inVault : Scenario.keptVault.toValue.Found (.stored Scenario.alice Scenario.vaultPath) ⟨1⟩
      ((Place.field ⟨2⟩ "coins").element (.uint 0)) :=
    .field (r := Scenario.keptVault) List.mem_cons_self
      (.element (i := 0) rfl (.root Scenario.keptCoin _))
  exact placed _ _ (.stored rfl inVault)

end Custody
