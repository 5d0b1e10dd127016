import Custody.Proofs.Codec.Decoded
import Custody.Proofs.Restart

/-!
# What a custodian knows after resuming

Bytes say more than a custodian would have written. The decoder makes values
from them without asking what the operations ask: a struct may come with a
resource in one of its fields, and one identity may come at several places. The
walk that rebuilds the ledger goes through arrays, dictionaries and the fields
of resources, and enters what it meets one after the other. So it passes by
what is buried in a struct, and of an identity that it meets at several places
it records the last one.

That is all that goes wrong (`resumption_tracks`). Every resource that is found
outside of structs is recorded, at its place if it has only one, and new
identities begin above all of them. What is buried in a struct and found nowhere
else is not on record, and a new identity may be the same.
-/

namespace Custody

open Ledger

/-! ## Entering what is found -/

namespace Ledger

variable {l : Ledger} {id : ResourceId} {place : Place} {found : List (ResourceId × Place)}

/-- Enters resources found in storage, one after the other. -/
def adoptAll (l : Ledger) (found : List (ResourceId × Place)) : Ledger :=
  found.foldl (fun l r => l.adopt r.1 r.2) l

/-- Adopting an identity changes its record and no other. -/
theorem holding?_adopt (l : Ledger) (id other : ResourceId) (place : Place) :
    (l.adopt id place).holding? other
      = if other = id then some (.owned place) else l.holding? other :=
  SortedMap.get?_insert l.records id other _

/-- Adopting what was found changes no other record. -/
theorem holding?_adoptAll_of_not_mem (apart : id ∉ found.map Prod.fst) :
    (l.adoptAll found).holding? id = l.holding? id := by
  induction found generalizing l with
  | nil => rfl
  | cons r found ih =>
    obtain ⟨ne, apart⟩ := not_or.1 (fun mem => apart (List.mem_cons.2 mem))
    exact (ih apart).trans ((holding?_adopt ..).trans (if_neg ne))

/-- **The last place** at which an identity is found is entered. -/
theorem holding?_adoptAll_last {before after : List (ResourceId × Place)}
    (last : id ∉ after.map Prod.fst) :
    (l.adoptAll (before ++ (id, place) :: after)).holding? id = some (.owned place) := by
  unfold adoptAll
  rw [List.foldl_append, List.foldl_cons]
  exact (holding?_adoptAll_of_not_mem last).trans ((holding?_adopt ..).trans (if_pos rfl))

/-- New identities stay above what is found, and no further above it than they
have to. -/
theorem next_adoptAll (l : Ledger) (found : List (ResourceId × Place)) :
    l.next ≤ (l.adoptAll found).next
      ∧ (∀ r ∈ found, r.1.number < (l.adoptAll found).next)
      ∧ ((l.adoptAll found).next = l.next
        ∨ ∃ r ∈ found, (l.adoptAll found).next = r.1.number + 1) := by
  induction found generalizing l with
  | nil => exact ⟨Nat.le_refl _, fun _ mem => (nomatch mem), .inl rfl⟩
  | cons r found ih =>
    obtain ⟨grows, above, least⟩ := ih (l.adopt r.1 r.2)
    refine ⟨Nat.le_trans (Nat.le_max_left ..) grows,
      List.forall_mem_cons.2 ⟨Nat.le_trans (Nat.le_max_right ..) grows, above⟩, ?_⟩
    rcases least with same | ⟨q, hq, same⟩
    · rcases Nat.le_total l.next (r.1.number + 1) with le | le
      · exact .inr ⟨r, List.mem_cons_self, same.trans (Nat.max_eq_right le)⟩
      · exact .inl (same.trans (Nat.max_eq_left le))
    · exact .inr ⟨q, List.mem_cons_of_mem _ hq, same⟩

end Ledger

/-! ## What the walk meets -/

namespace Store

variable {store : Store} {id : ResourceId} {spot : Place}

/-- What an entry holds, each resource with its place. -/
def inventoryAt (e : Address × Path × Entry) : List (ResourceId × Place) :=
  match e.2.2 with
  | .value v => v.inventory (.stored e.1 e.2.1)
  | .link _ => []

/-- **What a store holds**, each resource with its place, in the order of the
walk. -/
def inventory (store : Store) : List (ResourceId × Place) := store.entries.flatMap inventoryAt

/-- The ledger of a resumed custodian adopts the inventory of the store. -/
theorem ledger_eq_adoptAll (store : Store) :
    Ledger.ofStore store = Ledger.empty.adoptAll store.inventory := by
  unfold Ledger.ofStore adoptAll inventory
  rw [List.foldl_flatMap]
  congr 1
  funext l e
  obtain ⟨address, path, v | link⟩ := e <;> rfl

/-- **The walk meets what is found** in the store, and where. -/
theorem mem_inventory_iff {settings : Settings} {registry : Registry} :
    (id, spot) ∈ store.inventory ↔ (State.ofStore store settings registry).Found [] id spot := by
  unfold inventory
  rw [List.mem_flatMap]
  constructor
  · rintro ⟨⟨address, path, v | link⟩, there, met⟩
    · exact .stored (Option.bind_eq_some_iff.2 ⟨_, mem_entries_iff.1 there, rfl⟩)
        (Value.mem_inventory_iff.1 met)
    · cases met
  · rintro (⟨there, inside⟩ | ⟨opened, -, -⟩ | ⟨held, -, -⟩)
    · exact ⟨(_, _, .value _), mem_entries_iff.2 (Storage.standingAt_of_value? there).2,
        Value.mem_inventory_iff.2 inside⟩
    · cases opened
    · cases held

end Store

/-! ## What the walk passes by -/

/-- **A resource is buried in a value**: it is in a field of a struct, at some
depth. -/
inductive Value.Buried : Value → ResourceId → Prop where
  | inside {typeName : String} {fields : List (String × Value)} {name : String} {v : Value}
      {id : ResourceId} (there : (name, v) ∈ fields) (within : id ∈ v.identities) :
      Buried (.struct typeName fields) id
  | element {elements : List Value} {v : Value} {id : ResourceId} (there : v ∈ elements)
      (deeper : Buried v id) : Buried (.array elements) id
  | entry {entries : List (Key × Value)} {key : Key} {v : Value} {id : ResourceId}
      (there : (key, v) ∈ entries) (deeper : Buried v id) : Buried (.dict entries) id
  | field {r : Resource} {name : String} {v : Value} {id : ResourceId}
      (there : (name, some v) ∈ r.fields) (deeper : Buried v id) : Buried r.toValue id

namespace Value

variable {v : Value} {id : ResourceId}

/-- What is found is among the identities. -/
theorem Found.mem_identities {place spot : Place} (h : v.Found place id spot) :
    id ∈ v.identities := by
  induction h with
  | root r place =>
    rw [identities_resource]
    exact List.mem_cons_self
  | element there _ ih =>
    rw [identities_array]
    exact List.mem_flatMap.2 ⟨_, List.mem_of_getElem? there, ih⟩
  | entry there _ ih =>
    rw [identities_dict]
    exact List.mem_flatMap.2 ⟨_, there, ih⟩
  | field there _ ih =>
    rw [identities_resource]
    exact List.mem_cons_of_mem _ (List.mem_flatMap.2 ⟨_, there, ih⟩)

/-- What is buried is among the identities. -/
theorem Buried.mem_identities (h : v.Buried id) : id ∈ v.identities := by
  induction h with
  | inside there within =>
    rw [identities_struct]
    exact List.mem_flatMap.2 ⟨_, there, within⟩
  | element there _ ih =>
    rw [identities_array]
    exact List.mem_flatMap.2 ⟨_, there, ih⟩
  | entry there _ ih =>
    rw [identities_dict]
    exact List.mem_flatMap.2 ⟨_, there, ih⟩
  | field there _ ih =>
    rw [identities_resource]
    exact List.mem_cons_of_mem _ (List.mem_flatMap.2 ⟨_, there, ih⟩)

/-- **What occurs in a value** at any depth is found in it or buried. -/
theorem mem_identities_iff (place : Place) :
    id ∈ v.identities ↔ (∃ spot, v.Found place id spot) ∨ v.Buried id := by
  refine ⟨fun h => ?_, fun h => h.elim (fun ⟨_, found⟩ => found.mem_identities) (·.mem_identities)⟩
  induction v using Value.induction generalizing place with
  | step v ih =>
  cases v with
  | array elements =>
    rw [identities_array] at h
    obtain ⟨w, hw, h⟩ := List.mem_flatMap.1 h
    obtain ⟨i, there⟩ := List.mem_iff_getElem?.1 hw
    exact (ih w hw _ h).imp (fun ⟨spot, found⟩ => ⟨spot, .element there found⟩) (.element hw)
  | dict entries =>
    rw [identities_dict] at h
    obtain ⟨e, he, h⟩ := List.mem_flatMap.1 h
    exact (ih e.2 (List.mem_map_of_mem he) _ h).imp
      (fun ⟨spot, found⟩ => ⟨spot, .entry he found⟩) (.entry he)
  | struct typeName fields =>
    rw [identities_struct] at h
    obtain ⟨f, hf, h⟩ := List.mem_flatMap.1 h
    exact .inr (.inside hf h)
  | resource rid typeName fields =>
    change id ∈ (Resource.toValue ⟨rid, typeName, fields⟩).identities at h
    rw [identities_resource] at h
    rcases List.mem_cons.1 h with rfl | h
    · exact .inl ⟨place, .root ⟨id, typeName, fields⟩ place⟩
    · obtain ⟨⟨name, _ | w⟩, hf, h⟩ := List.mem_flatMap.1 h
      · cases h
      · exact (ih w (List.mem_filterMap.2 ⟨_, hf, rfl⟩) _ h).imp
          (fun ⟨spot, found⟩ => ⟨spot, .field (r := ⟨rid, typeName, fields⟩) hf found⟩)
          (.field (r := ⟨rid, typeName, fields⟩) hf)
  | _ => cases h

/-- What is found in a readable value has an identity of 64 bits. -/
theorem Found.bounded {place spot : Place} (h : v.Found place id spot) (readable : v.Readable) :
    id.number < UInt64.size := by
  induction h with
  | root r place => exact (Everywhere.resource_iff.1 readable).1.1
  | element there _ ih =>
    exact ih ((Everywhere.array_iff.1 readable).2 _ (List.mem_of_getElem? there))
  | entry there _ ih => exact ih ((Everywhere.dict_iff.1 readable).2 _ there)
  | field there _ ih => exact ih ((Everywhere.resource_iff.1 readable).2 _ there _ rfl)

end Value

/-! ## Resuming -/

namespace Store

variable {store : Store} {settings : Settings} {registry : Registry} {id : ResourceId}

/-- A resource is buried in the store. -/
def Buried (store : Store) (id : ResourceId) : Prop :=
  ∃ address path v, store.value? address path = some v ∧ v.Buried id

/-- **What occurs in a store** is found there or buried. -/
theorem mem_identities_iff :
    id ∈ (State.ofStore store settings registry).identities []
      ↔ (∃ spot, (State.ofStore store settings registry).Found [] id spot) ∨ store.Buried id := by
  have stored : (State.ofStore store settings registry).identities [] = store.identities :=
    (List.append_nil _).trans (List.append_nil _)
  rw [stored]
  unfold identities
  rw [List.mem_flatMap]
  constructor
  · rintro ⟨⟨address, path, v | link⟩, there, occurs⟩
    · have known : store.value? address path = some v :=
        Option.bind_eq_some_iff.2 ⟨_, mem_entries_iff.1 there, rfl⟩
      rcases (Value.mem_identities_iff (.stored address path)).1 occurs with
        ⟨spot, inside⟩ | buried
      · exact .inl ⟨spot, .stored known inside⟩
      · exact .inr ⟨address, path, v, known, buried⟩
    · cases occurs
  · rintro (⟨spot, ⟨there, inside⟩ | ⟨opened, -, -⟩ | ⟨held, -, -⟩⟩
      | ⟨address, path, v, there, buried⟩)
    · exact ⟨(_, _, .value _), mem_entries_iff.2 (Storage.standingAt_of_value? there).2,
        inside.mem_identities⟩
    · cases opened
    · cases held
    · have known : store.get? address path = some (.value v) :=
        (Storage.standingAt_of_value? there).2
      exact ⟨(address, path, .value v), mem_entries_iff.2 known, buried.mem_identities⟩

/-- What is decoded is readable. -/
theorem Readable.of_ofBytes {bytes : Bytes} (decoded : ofBytes bytes = .ok store) :
    store.Readable := by
  unfold ofBytes at decoded
  cases read : Decoder.decode? decoder bytes with
  | none =>
    rw [read] at decoded
    cases decoded
  | some store' =>
    rw [read] at decoded
    obtain rfl := Except.ok.inj decoded
    obtain ⟨⟨_, rest⟩, run, rfl⟩ := Option.map_eq_some_iff.1 read
    obtain ⟨_, -, ⟨readable, -⟩, -⟩ := Store.yields _ _ _ run
    exact readable

/-- What is found in a readable store has a storable identity. -/
theorem Readable.bounded (readable : store.Readable) {spot : Place}
    (found : (State.ofStore store settings registry).Found [] id spot) :
    id.number < UInt64.size := by
  rcases found with ⟨there, inside⟩ | ⟨opened, -, -⟩ | ⟨held, -, -⟩
  · exact inside.bounded (readable _ (mem_entries_iff.2 (Storage.standingAt_of_value? there).2))
  · cases opened
  · cases held

end Store

/-- **What is on record after resuming**: every identity that the walk meets, at
the place where it meets it last. -/
theorem holding?_ofStore_iff {store : Store} {id : ResourceId} {h : Holding} :
    (Ledger.ofStore store).holding? id = some h
      ↔ ∃ before spot after, store.inventory = before ++ (id, spot) :: after
        ∧ id ∉ after.map Prod.fst ∧ h = .owned spot := by
  rw [store.ledger_eq_adoptAll]
  constructor
  · intro known
    by_cases met : id ∈ store.inventory.map Prod.fst
    · obtain ⟨before, spot, after, split, last⟩ := Table.exists_last met
      rw [split, holding?_adoptAll_last last] at known
      exact ⟨before, spot, after, split, last, (Option.some.inj known).symm⟩
    · rw [holding?_adoptAll_of_not_mem met] at known
      cases known
  · rintro ⟨before, spot, after, split, last, rfl⟩
    rw [split, holding?_adoptAll_last last]

/-- **What a custodian knows that resumes from bytes.** Every resource that is
found at one place is recorded there. On record is what is found, and nothing
else, at the last place where the walk meets it; what is buried in structs and
found nowhere is unknown. New identities begin right above what is found. -/
theorem resumption_tracks {bytes : Bytes} {store : Store} {settings : Settings}
    {registry : Registry} {s : State} (decoded : Store.ofBytes bytes = .ok store)
    (resumed : State.ofStore store settings registry = s) :
    (∀ id spot, s.Found [] id spot → (∀ other, s.Found [] id other → other = spot) →
        s.ledger.holding? id = some (.owned spot))
      ∧ (∀ id h, s.ledger.holding? id = some h
        ↔ ∃ before spot after, store.inventory = before ++ (id, spot) :: after
          ∧ id ∉ after.map Prod.fst ∧ h = .owned spot)
      ∧ (∀ id spot, (id, spot) ∈ store.inventory ↔ s.Found [] id spot)
      ∧ (∀ id ∈ s.identities [], (∃ spot, s.Found [] id spot)
        ∨ store.Buried id ∧ s.ledger.holding? id = none)
      ∧ (∀ id spot, s.Found [] id spot → id.number < s.ledger.next)
      ∧ (s.ledger.next = 1 ∨ ∃ id spot, s.Found [] id spot ∧ s.ledger.next = id.number + 1)
      ∧ s.ledger.next ≤ UInt64.size := by
  subst resumed
  have met {id : ResourceId} {spot : Place} :
      (id, spot) ∈ store.inventory ↔ (State.ofStore store settings registry).Found [] id spot :=
    Store.mem_inventory_iff
  obtain ⟨-, above, least⟩ := next_adoptAll .empty store.inventory
  rw [← store.ledger_eq_adoptAll] at above least
  have least' : (State.ofStore store settings registry).ledger.next = 1
      ∨ ∃ id spot, (State.ofStore store settings registry).Found [] id spot
        ∧ (State.ofStore store settings registry).ledger.next = id.number + 1 :=
    least.imp_right fun ⟨r, hr, same⟩ => ⟨r.1, r.2, met.1 hr, same⟩
  refine ⟨fun id spot found alone => ?_, fun _ _ => holding?_ofStore_iff, fun _ _ => met,
    fun id occurs => ?_, fun id spot found => above (id, spot) (met.2 found), least', ?_⟩
  · obtain ⟨before, other, after, split, last⟩ :=
      Table.exists_last (List.mem_map_of_mem (met.2 found))
    obtain rfl := alone other (met.1 (split ▸ List.mem_append_right _ List.mem_cons_self))
    exact holding?_ofStore_iff.2 ⟨before, other, after, split, last, rfl⟩
  · refine or_iff_not_imp_left.2 fun lost =>
      ⟨?_, Option.eq_none_iff_forall_ne_some.2 fun h known => ?_⟩
    · exact (Store.mem_identities_iff.1 occurs).resolve_left lost
    · obtain ⟨before, spot, after, split, -⟩ := holding?_ofStore_iff.1 known
      exact lost ⟨spot, met.1 (split ▸ List.mem_append_right _ List.mem_cons_self)⟩
  · rcases least' with first | ⟨id, spot, found, same⟩
    · rw [first]
      decide
    · rw [same]
      exact (Store.Readable.of_ofBytes decoded).bounded found

namespace Scenario

/-- A coin with a high number. -/
def rareCoin : Resource := ⟨⟨1000⟩, "Coin", []⟩

/-- A box with the coin in it, which no operation makes. -/
def box : Value := .struct "Box" [("coin", rareCoin.toValue)]

/-- A coin is stored, and the box beside it. -/
def hoard : Store :=
  (Store.empty.insert alice spendingPath (.value (.array [keptCoin.toValue]))).insert alice
    vaultPath (.value box)

/-- The box can be read back from its bytes. -/
theorem readable_box : box.Readable := by
  have coin : rareCoin.toValue.Readable :=
    Value.Everywhere.resource_iff.2 ⟨⟨by decide, by decide⟩, fun _ mem => nomatch mem⟩
  exact Value.Everywhere.struct_iff.2
    ⟨List.nodup_singleton "coin", List.forall_mem_singleton.2 coin⟩

/-- The hoard can be read back from its bytes. -/
theorem readable_hoard : hoard.Readable :=
  Store.forall_entries_insert (Store.forall_entries_insert (fun _ mem => nomatch mem) _ _
    regular_coins.readable) _ _ readable_box

/-- The hoard is what some bytes decode to. -/
theorem exists_bytes_hoard : ∃ bytes, Store.ofBytes bytes = .ok hoard := by
  obtain ⟨bytes, written⟩ : ∃ bytes, hoard.toBytes = .ok bytes := ⟨_, rfl⟩
  have whole := Store.writable_of_length (n := 211) rfl (by decide) bytes written
  exact ⟨bytes, readable_hoard.ofBytes_toBytes written whole⟩

/-- A custodian resumes from them. -/
def resumedHoard : State := State.ofStore hoard Settings.standard registry

end Scenario

/-- The coin that is stored is recorded where it is, and new identities begin
behind it. -/
theorem resumption_tracks_hoard :
    ∃ bytes, Store.ofBytes bytes = .ok Scenario.hoard
      ∧ State.ofStore Scenario.hoard Settings.standard Scenario.registry = Scenario.resumedHoard
      ∧ Scenario.resumedHoard.ledger.holding? ⟨1⟩
        = some (.owned ((Place.stored Scenario.alice Scenario.spendingPath).element (.uint 0)))
      ∧ 1 < Scenario.resumedHoard.ledger.next := by
  obtain ⟨bytes, decoded⟩ := Scenario.exists_bytes_hoard
  obtain ⟨placed, -, met, -, above, -⟩ := resumption_tracks decoded
    (show State.ofStore Scenario.hoard Settings.standard Scenario.registry = Scenario.resumedHoard
      from rfl)
  have inventory : Scenario.hoard.inventory
      = [(⟨1⟩, (Place.stored Scenario.alice Scenario.spendingPath).element (.uint 0))] := rfl
  have found := (met _ _).1 (inventory ▸ List.mem_singleton_self _)
  refine ⟨bytes, decoded, rfl, placed _ _ found fun other again => ?_, above _ _ found⟩
  have alone := (met _ _).2 again
  rw [inventory] at alone
  exact (Prod.mk.inj (List.mem_singleton.1 alone)).2

/-- **The coin in the box is unknown** after resuming, and new identities begin
below it. -/
theorem boxed_coin_unknown :
    (∃ bytes, Store.ofBytes bytes = .ok Scenario.hoard)
      ∧ ⟨1000⟩ ∈ Scenario.resumedHoard.identities []
      ∧ Scenario.resumedHoard.ledger.holding? ⟨1000⟩ = none
      ∧ Scenario.resumedHoard.ledger.next = 2 :=
  ⟨Scenario.exists_bytes_hoard, by decide, rfl, rfl⟩

end Custody
