import Custody.Proofs.Indivisible
import Custody.Proofs.Reversal

/-!
# What settling and releasing do, exactly

A value settles at a place, or is released from it, by its roots: each has its
own place, which its keys lead to. Both look at every root before they enter
anything, and then enter one root after the other, and each entry is checked
again. What the look finds out is enough for all the entries
(`returns_settleValue_iff`, `returns_releaseValue_iff`), so they enter all or
nothing.

A settlement has to ask that no root is there twice. A release need not: no
two roots of a value are reached by the same keys, so they stand at different
places, and a resource is recorded at one. Each undoes the other, since each
finds recorded what the other one has to enter again.
-/

namespace Custody

open Ledger

namespace Ledger

variable {l l' : Ledger} {v : Value} {place : Place} {entries : Census}

/-- **The ledger is amended** by the entries listed: these are the records of the
resources listed, and all other records are as before; no identity has been
handed out. -/
structure Amends (l l' : Ledger) (entries : Census) : Prop where
  entered : ∀ e ∈ entries, l'.holding? e.1 = some e.2
  elsewhere : ∀ id ∉ entries.map Prod.fst, l'.holding? id = l.holding? id
  next : l'.next = l.next

theorem amends_recordAll (distinct : (entries.map Prod.fst).Nodup) :
    l.Amends (l.recordAll entries) entries where
  entered _ mem := holding?_recordAll_of_mem distinct mem
  elsewhere _ away := holding?_recordAll_of_not_mem away
  next := next_recordAll l entries

/-! ## Settling -/

/-- **A value settles** exactly if its roots are in flight and none is there
twice. -/
theorem exists_returns_settleValue_iff :
    (∃ l', Returns (settleValue v place) l () l')
      ↔ v.rootIds.Nodup ∧ ∀ id ∈ v.rootIds, l.holding? id = some .inFlight :=
  ⟨fun ⟨_, h⟩ => (returns_settleValue_iff.1 h).1,
    fun afloat => ⟨_, returns_settleValue_iff.2 ⟨afloat, rfl⟩⟩⟩

/-- What settles is recorded at its places, and nothing else changes. -/
theorem amends_settleValue (h : Returns (settleValue v place) l () l') :
    l.Amends l' (owning (v.placings place)) := by
  obtain ⟨⟨distinct, -⟩, rfl⟩ := returns_settleValue_iff.1 h
  exact amends_recordAll (by rwa [map_fst_owning, v.map_fst_placings])

/-- **A settlement is undone** by a release. -/
theorem releaseValue_of_settleValue (h : Returns (settleValue v place) l () l') :
    Returns (releaseValue v place) l' () l := by
  obtain ⟨⟨distinct, afloat⟩, -⟩ := returns_settleValue_iff.1 h
  obtain ⟨u, settled, released⟩ := exists_settle_release ⟨distinct, afloat⟩ place
  rwa [← (settled.unique h).2]

/-! ## Releasing -/

/-- **A readable value is released** exactly if each root is held where its keys
lead. -/
theorem exists_returns_releaseValue_iff (readable : v.Readable) :
    (∃ l', Returns (releaseValue v place) l () l')
      ↔ ∀ p ∈ v.placings place, l.holding? p.1 = some (.owned p.2) :=
  ⟨fun ⟨_, h⟩ => (returns_releaseValue_iff.1 h).1.2,
    fun held => exists_returns_releaseValue (readable.nodup_rootIds held) held⟩

/-- What is released is in flight, and nothing else changes. -/
theorem amends_releaseValue (h : Returns (releaseValue v place) l () l') :
    l.Amends l' (flying v.rootIds) := by
  obtain ⟨⟨distinct, -⟩, rfl⟩ := returns_releaseValue_iff.1 h
  exact amends_recordAll (by rwa [map_fst_flying])

/-- **A release is undone** by a settlement. -/
theorem settleValue_of_releaseValue (h : Returns (releaseValue v place) l () l') :
    Returns (settleValue v place) l' () l := by
  have afloat : ∀ id ∈ v.rootIds, l'.holding? id = some .inFlight := fun id hid =>
    (amends_releaseValue h).entered (id, .inFlight) (List.mem_map_of_mem hid)
  obtain ⟨⟨distinct, held⟩, rfl⟩ := returns_releaseValue_iff.1 h
  refine returns_settleValue_iff.2 ⟨⟨distinct, afloat⟩, recordAll_undo (by simp) ?_⟩
  exact List.forall_mem_map.2 held

end Ledger

/-- **Settling and releasing are exact, whole or not at all, and each undoes the
other.** A value settles if its roots are in flight and none is there twice, and
then these are recorded where their keys lead. It is released if each root is
held there, and then these are in flight. All other records stay. One that fails
has entered nothing, and after one that returns the other one returns and
restores the ledger. -/
theorem settlement_exact {v : Value} (readable : v.Readable) (place : Place) (l : Ledger) :
    (((∃ l', Returns (settleValue v place) l () l')
          ↔ v.rootIds.Nodup ∧ ∀ id ∈ v.rootIds, l.holding? id = some .inFlight)
        ∧ (∀ l', Returns (settleValue v place) l () l' →
          l.Amends l' (owning (v.placings place)) ∧ Returns (releaseValue v place) l' () l)
        ∧ ∀ e l', Fails (settleValue v place) l e l' → l' = l)
      ∧ ((∃ l', Returns (releaseValue v place) l () l')
          ↔ ∀ p ∈ v.placings place, l.holding? p.1 = some (.owned p.2))
        ∧ (∀ l', Returns (releaseValue v place) l () l' →
          l.Amends l' (flying v.rootIds) ∧ Returns (settleValue v place) l' () l)
        ∧ ∀ e l', Fails (releaseValue v place) l e l' → l' = l :=
  ⟨⟨exists_returns_settleValue_iff,
      fun _ h => ⟨amends_settleValue h, releaseValue_of_settleValue h⟩, allOrNothing_settleValue⟩,
    exists_returns_releaseValue_iff readable,
    fun _ h => ⟨amends_releaseValue h, settleValue_of_releaseValue h⟩,
    allOrNothing_releaseValue readable⟩

namespace Scenario

/-- A coin without fields. -/
def bareCoin (n : Nat) : Value := (Resource.mk ⟨n⟩ "Coin" []).toValue

/-- A coin in a box, under a key. -/
def boxedCoin : Value := .dict [(.str "gold", bareCoin 2)]

/-- Two coins, one of them in the box. -/
def boxedCoins : Value := .array [keptCoin.toValue, boxedCoin]

/-- The ledger after two coins have been made. -/
def coined : Ledger := Ledger.empty.mint.2.mint.2

/-- Where the coins go. -/
def tray : Place := .binding ⟨1⟩ "tray"

/-- The coins lie there. -/
def trayed : Ledger := (outcome (settleValue boxedCoins tray) coined).2

theorem readable_boxedCoins : boxedCoins.Readable := by
  have amount : (Value.uint 50).Readable :=
    ⟨show 50 < UInt64.size by decide, fun _ mem => nomatch mem⟩
  have kept : keptCoin.toValue.Readable := by
    refine Value.Everywhere.resource_iff.2 ⟨⟨by decide, by decide⟩, ?_⟩
    exact List.forall_mem_singleton.2 fun v hv => Option.some.inj hv ▸ amount
  have bare : (bareCoin 2).Readable :=
    Value.Everywhere.resource_iff.2 ⟨⟨by decide, by decide⟩, fun _ mem => nomatch mem⟩
  have inside : boxedCoin.Readable :=
    Value.Everywhere.dict_iff.2 ⟨⟨List.pairwise_singleton _ _,
      List.forall_mem_singleton.2 trivial⟩, List.forall_mem_singleton.2 bare⟩
  exact Value.Everywhere.array_iff.2 ⟨trivial,
    List.forall_mem_cons.2 ⟨kept, List.forall_mem_singleton.2 inside⟩⟩

end Scenario

/-- The coins settle in the tray, each in its own place, and are released from
there. -/
theorem settlement_exact_boxedCoins :
    Scenario.boxedCoins.Readable
      ∧ Returns (settleValue Scenario.boxedCoins Scenario.tray) Scenario.coined ()
        Scenario.trayed
      ∧ Scenario.trayed.holding? ⟨2⟩
        = some (.owned ((Scenario.tray.element (.uint 1)).element (.str "gold")))
      ∧ Returns (releaseValue Scenario.boxedCoins Scenario.tray) Scenario.trayed ()
        Scenario.coined := by
  have exact := settlement_exact Scenario.readable_boxedCoins Scenario.tray Scenario.coined
  have settled : Returns (settleValue Scenario.boxedCoins Scenario.tray) Scenario.coined ()
      Scenario.trayed := rfl
  obtain ⟨amended, released⟩ := exact.1.2.1 _ settled
  exact ⟨Scenario.readable_boxedCoins, settled,
    amended.entered _ (List.mem_cons_of_mem _ List.mem_cons_self), released⟩

end Custody
