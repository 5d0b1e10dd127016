import Custody.Proofs.Dissolution
import Custody.Proofs.Contents
import Custody.Proofs.Turns

/-!
# What a new resource retains

The values given for the fields of a new resource are settled one after the
other, each in the field it is given for, and then the resource is made of the
assignments. The ledger goes by the list and the resource by its fields: of two
values that are given for one field, both are settled there, and the resource has
the second. So the last value given for a field is in it, and whatever was in
flight in an earlier one is recorded in a field where it is not found
(`new_resource_retains`). Nothing notices: the record is of a field and not of a
local, and a transaction that leaves it behind commits.
-/

namespace Custody

open Ledger

namespace Construction

variable {l l' : Ledger} {s t : State} {id : ResourceId} {typeName name : String} {v w : Value}
  {fields first later : List (String × Value)}

/-- **The last value** given for a field is in it. -/
theorem field?_ofAssignments (last : name ∉ later.map Prod.fst) :
    (Resource.ofAssignments id typeName (first ++ (name, w) :: later)).field? name = some w := by
  unfold Resource.field? Resource.ofAssignments
  rw [List.map_append, List.map_cons, Table.get?_ofList, Option.join_some]
  rwa [List.map_map]

/-- What stands in a field stands among the contents. -/
theorem mem_placings_of_field? {r : Resource} (h : r.field? name = some w)
    {q : ResourceId × Place} (hq : q ∈ w.placings (.field r.id name)) : q ∈ r.placings :=
  List.mem_flatMap.2
    ⟨_, Table.mem_of_get?_eq_some (Option.join_eq_some_iff.1 h), hq⟩

/-- **Of a value that is followed by another** for its field, no root is in the
resource, if nothing is given twice. -/
theorem not_mem_placings_of_again (again : name ∈ later.map Prod.fst)
    (distinct : ((first ++ (name, w) :: later).flatMap fun f => f.2.rootIds).Nodup) :
    ∀ root ∈ w.rootIds, root ∉
      (Resource.ofAssignments id typeName (first ++ (name, w) :: later)).placings.map Prod.fst := by
  intro root hroot mem
  obtain ⟨q, hq, rfl⟩ := List.mem_map.1 mem
  obtain ⟨⟨name', _ | u⟩, there, hq⟩ := List.mem_flatMap.1 hq
  · cases hq
  have root' : q.1 ∈ u.rootIds := u.map_fst_placings _ ▸ List.mem_map_of_mem hq
  -- what stays was given before or after
  have other : (name', u) ∈ first ++ later := by
    unfold Resource.ofAssignments at there
    rw [List.map_append, List.map_cons] at there
    have kept := Table.mem_of_mem_ofList (by rwa [List.map_map]) there
    rw [← List.map_append] at kept
    obtain ⟨f, hf, same⟩ := List.mem_map.1 kept
    obtain ⟨rfl, filled⟩ := Prod.mk.inj same
    exact Option.some.inj filled ▸ hf
  have apart := (List.perm_middle.flatMap_right fun f : String × Value => f.2.rootIds).nodup_iff.1
    distinct
  rw [List.flatMap_cons, List.nodup_append] at apart
  exact apart.2.2 _ hroot _ (List.mem_flatMap.2 ⟨_, other, root'⟩) rfl

/-- **The entries for a new resource**: an identity, and the roots of everything
that is given, which were in flight, each where it is given for. -/
theorem enters_createResource (h : Returns (createResource typeName fields) s v t) :
    v = (Resource.ofAssignments ⟨s.ledger.next⟩ typeName fields).toValue
      ∧ (∀ root ∈ fields.flatMap fun f => f.2.rootIds, s.ledger.holding? root = some .inFlight)
      ∧ State.Enters { s with ledger := s.ledger.mint.2 } t
        (owning (fields.flatMap fun f => f.2.placings (.field ⟨s.ledger.next⟩ f.1))) := by
  obtain ⟨id, l, entered, rfl, rfl⟩ := entered_of_createResource h
  have given := inFlight_of_enter entered
  obtain ⟨rfl, settled⟩ := returns_enter entered
  obtain ⟨⟨distinct, afloat⟩, rfl⟩ := returns_settles.1 (settles_of_settleFields settled)
  refine ⟨rfl, given, State.enters_recordAll (s := { s with ledger := s.ledger.mint.2 })
    (List.Perm.refl _) (by rwa [map_fst_owning]) (List.forall_mem_map.2 fun q hq => ?_)⟩
  exact ⟨_, afloat q hq, rfl, Holding.noConfusion⟩

end Construction

/-- **A new resource retains what is given last.** Whatever the state, the fields
and their names: when the resource is made, the roots of all that is given were
in flight, none is there twice, and each is recorded in the field it is given
for, under its keys; besides the new identity, no other record has changed. The
last value given for a field is in it, its roots where they are recorded; of a
value given before, no root is in the resource. -/
theorem new_resource_retains {s t : State} {typeName : String} {fields : List (String × Value)}
    {v : Value} (h : Returns (Construction.createResource typeName fields) s v t) :
    ∃ r : Resource, v = r.toValue ∧ r.id = ⟨s.ledger.next⟩
      ∧ (∀ root ∈ fields.flatMap fun f => f.2.rootIds, s.ledger.holding? root = some .inFlight)
      ∧ State.Enters { s with ledger := s.ledger.mint.2 } t
        (owning (fields.flatMap fun f => f.2.placings (.field r.id f.1)))
      ∧ ∀ first name w later, fields = first ++ (name, w) :: later →
        (name ∉ later.map Prod.fst → r.field? name = some w)
          ∧ ∀ q ∈ w.placings (.field r.id name), t.ledger.holding? q.1 = some (.owned q.2)
            ∧ (name ∉ later.map Prod.fst → q ∈ r.placings)
            ∧ (name ∈ later.map Prod.fst → q.1 ∉ r.placings.map Prod.fst) := by
  obtain ⟨made, given, enters⟩ := Construction.enters_createResource h
  refine ⟨_, made, rfl, given, enters, ?_⟩
  rintro first name w later rfl
  refine ⟨Construction.field?_ofAssignments, fun q hq => ⟨?_, fun last => ?_, fun again => ?_⟩⟩
  · exact enters.entered (q.1, .owned q.2) (List.mem_map_of_mem
      (List.mem_flatMap.2 ⟨(name, w), List.mem_append_right _ List.mem_cons_self, hq⟩))
  · exact Construction.mem_placings_of_field? (Construction.field?_ofAssignments last) hq
  · have distinct := enters.distinct
    rw [map_fst_owning, List.map_flatMap] at distinct
    simp only [Value.map_fst_placings] at distinct
    refine Construction.not_mem_placings_of_again again distinct q.1 ?_
    exact w.map_fst_placings _ ▸ List.mem_map_of_mem hq

namespace Scenario

/-- Alice has made two coins. -/
def paired : State := begun.after [.call makeCoin, .call makeLoose]

/-- The second coin. -/
def otherCoin : Resource := ⟨⟨2⟩, "Coin", [("amount", some (.uint 25))]⟩

/-- Both coins, given for one field. -/
def bothCoins : List (String × Value) :=
  [("coins", keptCoin.toValue), ("coins", otherCoin.toValue)]

/-- The vault that is made of them. -/
def halfVault : Resource := ⟨⟨3⟩, "Vault", [("coins", some otherCoin.toValue)]⟩

/-- The vault is made. -/
def halved : State := (outcome (Construction.createResource "Vault" bothCoins) paired).2

end Scenario

/-- Of two coins given for one field, both are recorded in it, and the second
one is there. -/
theorem new_resource_retains_second :
    Returns (Construction.createResource "Vault" Scenario.bothCoins) Scenario.paired
        Scenario.halfVault.toValue Scenario.halved
      ∧ (Scenario.halved.ledger.holding? ⟨1⟩ = some (.owned (.field ⟨3⟩ "coins"))
        ∧ ⟨1⟩ ∉ Scenario.halfVault.placings.map Prod.fst)
      ∧ Scenario.halved.ledger.holding? ⟨2⟩ = some (.owned (.field ⟨3⟩ "coins"))
        ∧ Scenario.halfVault.field? "coins" = some Scenario.otherCoin.toValue := by
  have made : Returns (Construction.createResource "Vault" Scenario.bothCoins) Scenario.paired
      Scenario.halfVault.toValue Scenario.halved := rfl
  obtain ⟨⟨id, typeName, fields⟩, same, -, -, -, retained⟩ := new_resource_retains made
  obtain ⟨rfl, rfl, rfl⟩ := Value.resource.inj same
  obtain ⟨-, first⟩ := retained [] "coins" Scenario.keptCoin.toValue
    [("coins", Scenario.otherCoin.toValue)] rfl
  obtain ⟨last, second⟩ := retained [("coins", Scenario.keptCoin.toValue)] "coins"
    Scenario.otherCoin.toValue [] rfl
  obtain ⟨recorded, -, lost⟩ := first (⟨1⟩, .field ⟨3⟩ "coins") (by decide)
  obtain ⟨recorded', -, -⟩ := second (⟨2⟩, .field ⟨3⟩ "coins") (by decide)
  exact ⟨made, ⟨recorded, lost (by decide)⟩, recorded', last (by decide)⟩

/-- **A coin is lost in the making** of a vault: it was in flight, it is not in
the vault that is handed out, and the transaction that saves the vault commits
without it. -/
theorem coin_lost_in_making :
    Scenario.paired.ledger.holding? ⟨1⟩ = some .inFlight
      ∧ Returns (Construction.createResource "Vault" Scenario.bothCoins) Scenario.paired
        Scenario.halfVault.toValue Scenario.halved
      ∧ ⟨1⟩ ∉ Scenario.halfVault.toValue.identities
      ∧ ∃ s, Returns Transactions.commit
          (Scenario.halved.after
            [.call (.save Scenario.alice Scenario.vaultPath Scenario.halfVault.toValue)]) () s
        ∧ s.identities [] = [⟨3⟩, ⟨2⟩]
        ∧ s.ledger.holding? ⟨1⟩ = some (.owned (.field ⟨3⟩ "coins")) :=
  ⟨rfl, rfl, by decide, _, rfl, rfl, rfl⟩

end Custody
