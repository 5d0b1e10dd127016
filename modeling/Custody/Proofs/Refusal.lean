import Custody.Proofs.Indivisible
import Custody.Proofs.Retention

/-!
# What a refused creation leaves

A resource is made in two rounds. The first looks at the roots of everything
that is given, and each has to be in flight; then the identity is handed out,
and the second round settles the fields one after the other. A field settles
whole or not at all, and what the second round asks of a root the first one has
asked before, but for one thing: that the root comes only once. Settling sees a
root that comes again, within a field because it looks for it, and from an
earlier field because the root is owned by then. It stops there, and the
identity has been handed out and the fields before are settled, for an owner
that is never made.

So a creation that fails has changed nothing, unless a root is given twice
(`refused_creation`).
-/

namespace Custody

open Ledger CustodyM

/-! ## Where settling stops -/

namespace Ledger

variable {l l' : Ledger} {v : Value} {place : Place} {e : Fault}

/-- **The check in front of a settlement stops** at a root that is not in
flight, or at one that was seen before. -/
theorem exists_of_fails_expectDistinct {seen : List ResourceId}
    {placings : List (ResourceId × Place)} (h : Fails (expectDistinct seen placings) l e l') :
    ∃ p ∈ placings, Fails (expectInFlight p.1) l e l
      ∨ ¬((placings.map Prod.fst).Nodup ∧ ∀ q ∈ placings, q.1 ∉ seen)
        ∧ e = .alreadyOwned p.1 p.2 := by
  induction placings generalizing seen with
  | nil => exact (not_fails_pure h).elim
  | cons p placings ih =>
    rcases fails_bind.1 h with stopped | ⟨_, u, looked, h⟩
    · obtain rfl := (keeps_expectInFlight (R := Eq)).of_fails stopped
      exact ⟨p, List.mem_cons_self, .inl stopped⟩
    obtain ⟨-, rfl⟩ := returns_expectInFlight.1 looked
    by_cases again : p.1 ∈ seen
    · rw [if_pos again] at h
      obtain ⟨rfl, -⟩ := fails_throw.1 ((fails_bind.1 h).resolve_right
        fun ⟨_, _, returned, _⟩ => not_returns_throw returned)
      exact ⟨p, List.mem_cons_self, .inr ⟨fun all => all.2 p List.mem_cons_self again, rfl⟩⟩
    · rw [if_neg again] at h
      obtain ⟨q, hq, cause⟩ := ih h
      refine ⟨q, List.mem_cons_of_mem _ hq, cause.imp_right (And.imp_left fun twice all => ?_)⟩
      obtain ⟨alone, distinct⟩ := List.nodup_cons.1 all.1
      refine twice ⟨distinct, fun r hr mem => ?_⟩
      rcases List.mem_cons.1 mem with same | mem
      · exact alone (same ▸ List.mem_map_of_mem hr)
      · exact all.2 r (List.mem_cons_of_mem _ hr) mem

/-- **A settlement stops** before it settles anything, at a root that is not in
flight or at one that comes again. -/
theorem exists_of_fails_settleValue (h : Fails (settleValue v place) l e l') :
    l' = l ∧ ∃ p ∈ v.placings place, Fails (expectInFlight p.1) l e l
      ∨ ¬v.rootIds.Nodup ∧ e = .alreadyOwned p.1 p.2 := by
  refine ⟨allOrNothing_settleValue e l' h, ?_⟩
  rcases fails_bind.1 h with stopped | ⟨_, u, checked, failed⟩
  · obtain ⟨p, hp, cause⟩ := exists_of_fails_expectDistinct stopped
    refine ⟨p, hp, cause.imp_right (And.imp_left fun twice distinct => twice ⟨?_, ?_⟩)⟩
    · rwa [v.map_fst_placings]
    · exact fun _ _ mem => nomatch mem
  · obtain ⟨⟨afloat, distinct, -⟩, rfl⟩ := returns_expectDistinct.1 checked
    obtain ⟨_, settled⟩ := exists_returns_settles distinct afloat
    exact (settled.not_fails failed).elim

/-- A root that is owned is refused as owned. -/
theorem eq_of_fails_expectInFlight {id : ResourceId}
    (known : l.holding? id = some (.owned place)) (h : Fails (expectInFlight id) l e l') :
    e = .alreadyOwned id place := by
  unfold expectInFlight at h
  rw [fails_get_bind, known] at h
  exact (fails_throw.1 h).1.symm

end Ledger

namespace Construction

variable {l l' : Ledger} {s t : State} {owner : ResourceId} {typeName : String}
  {fields : List (String × Value)} {e : Fault}

/-- The places that the roots of the given values take in the owner's fields. -/
def berths (owner : ResourceId) (fields : List (String × Value)) : List (ResourceId × Place) :=
  fields.flatMap fun f => f.2.placings (.field owner f.1)

theorem map_fst_berths (owner : ResourceId) (fields : List (String × Value)) :
    (berths owner fields).map Prod.fst = fields.flatMap fun f => f.2.rootIds := by
  unfold berths
  rw [List.map_flatMap]
  simp only [Value.map_fst_placings]

/-- Fields that are settled from first to last stop at one of them. -/
theorem exists_of_fails_settleFields (h : Fails (settleFields owner fields) l e l') :
    ∃ before f after u, fields = before ++ f :: after
      ∧ Returns (settleFields owner before) l () u
      ∧ Fails (settleValue f.2 (.field owner f.1)) u e l' := by
  induction fields generalizing l with
  | nil => exact (not_fails_pure h).elim
  | cons f fields ih =>
    rcases fails_bind.1 h with h | ⟨_, w, first, h⟩
    · exact ⟨[], f, fields, l, rfl, returns_pure.2 ⟨rfl, rfl⟩, h⟩
    · obtain ⟨before, g, after, u, rfl, others, failed⟩ := ih h
      exact ⟨f :: before, g, after, u, rfl, returns_bind.2 ⟨(), w, first, others⟩, failed⟩

theorem berths_snoc {before : List (String × Value)} {f : String × Value} :
    berths owner (before ++ [f]) = berths owner before ++ f.2.placings (.field owner f.1) := by
  unfold berths
  rw [List.flatMap_append, List.flatMap_singleton]

/-- What was in flight and is refused behind settled fields is in one of them. -/
theorem exists_of_fails_behind {before : List (String × Value)} {id : ResourceId}
    (distinct : ((berths owner before).map Prod.fst).Nodup)
    (afloat : l.holding? id = some .inFlight)
    (h : Fails (expectInFlight id) (l.recordAll (owning (berths owner before))) e l') :
    ∃ place, (id, place) ∈ berths owner before ∧ e = .alreadyOwned id place := by
  by_cases mem : id ∈ (berths owner before).map Prod.fst
  · obtain ⟨⟨_, place⟩, there, rfl⟩ := List.mem_map.1 mem
    refine ⟨place, there, eq_of_fails_expectInFlight (holding?_recordAll_of_mem ?_ ?_) h⟩
    · rwa [map_fst_owning]
    · exact List.mem_map_of_mem (f := fun q : ResourceId × Place => (q.1, Holding.owned q.2)) there
  · have known : (l.recordAll (owning (berths owner before))).holding? id = some .inFlight := by
      rw [holding?_recordAll_of_not_mem (by rwa [map_fst_owning]), afloat]
    exact ((returns_expectInFlight (u := ())).2 ⟨known, rfl⟩).not_fails h |>.elim

/-- **Fields whose roots are in flight stop** at the first of them with a root
that was there before: in a field in front of it, or in itself. What is in front
is settled. -/
theorem exists_of_fails_settleFields_afloat
    (afloat : ∀ root ∈ fields.flatMap fun f => f.2.rootIds, l.holding? root = some .inFlight)
    (h : Fails (settleFields owner fields) l e l') :
    ∃ before f after, fields = before ++ f :: after
      ∧ (before.flatMap fun g => g.2.rootIds).Nodup
      ∧ ¬((before ++ [f]).flatMap fun g => g.2.rootIds).Nodup
      ∧ l' = l.recordAll (owning (berths owner before))
      ∧ ∃ p ∈ berths owner (before ++ [f]), p.1 ∈ f.2.rootIds ∧ e = .alreadyOwned p.1 p.2 := by
  obtain ⟨before, f, after, u, rfl, settled, stopped⟩ := exists_of_fails_settleFields h
  obtain ⟨⟨distinct, -⟩, rfl⟩ := returns_settles.1 (settles_of_settleFields settled)
  obtain ⟨rfl, p, hp, cause⟩ := exists_of_fails_settleValue stopped
  have root : p.1 ∈ f.2.rootIds := f.2.map_fst_placings _ ▸ List.mem_map_of_mem hp
  refine ⟨before, f, after, rfl, map_fst_berths owner before ▸ distinct, ?_⟩
  rw [← map_fst_berths owner, berths_snoc, List.map_append, List.nodup_append,
    Value.map_fst_placings]
  rcases cause with refused | ⟨twice, rfl⟩
  · obtain ⟨place, there, rfl⟩ := exists_of_fails_behind distinct (afloat p.1 (List.mem_flatMap.2
      ⟨f, List.mem_append_right _ List.mem_cons_self, root⟩)) refused
    exact ⟨fun all => all.2.2 _ (List.mem_map_of_mem there) _ root rfl, rfl,
      (p.1, place), List.mem_append_left _ there, root, rfl⟩
  · exact ⟨fun all => twice all.2.1, rfl, p, List.mem_append_right _ hp, root, rfl⟩

/-- **What a creation asks for** before it hands out the identity. -/
structure Cleared (s : State) (typeName : String) (fields : List (String × Value)) : Prop where
  running : s.transaction.isSome = true
  declared : ∃ d, s.registry.composite? typeName = some d ∧ d.kind = .resource
  afloat : ∀ root ∈ fields.flatMap fun f => f.2.rootIds, s.ledger.holding? root = some .inFlight

/-- A name is refused if no composite of that kind has it. -/
theorem not_declared_of_fails {kind : Kind} (h : Fails (requireComposite typeName kind) s e t) :
    ¬∃ d, s.registry.composite? typeName = some d ∧ d.kind = kind := by
  rintro ⟨d, declared, same⟩
  unfold requireComposite at h
  rw [fails_get_bind, declared] at h
  dsimp only at h
  rw [if_pos same] at h
  exact not_fails_pure h

theorem declared_of_returns {kind : Kind} {d : Declaration}
    (h : Returns (requireComposite typeName kind) s d t) :
    ∃ d, s.registry.composite? typeName = some d ∧ d.kind = kind := by
  by_contra none
  unfold requireComposite at h
  rw [returns_get_bind] at h
  split at h
  next d' known =>
    split at h
    next same => exact none ⟨d', known, same⟩
    next => exact not_returns_throw h
  next => exact not_returns_throw h

/-- The first round stops at a root that is not in flight. -/
theorem exists_of_fails_forM_expectInFlight {ids : List ResourceId}
    (h : Fails (ids.forM expectInFlight) l e l') :
    ∃ id ∈ ids, l.holding? id ≠ some .inFlight := by
  obtain ⟨before, id, after, u, rfl, looked, stopped⟩ := exists_of_fails_forM h
  obtain rfl := (Keeps.forM (R := Eq) (fun _ => keeps_expectInFlight) _).of_returns looked
  exact ⟨id, List.mem_append_right _ List.mem_cons_self, fun afloat =>
    ((returns_expectInFlight (u := ())).2 ⟨afloat, rfl⟩).not_fails stopped⟩

/-- **The entries for a new resource fail** in the first round, and then nothing
is entered; or in the second, and then the identity is handed out. -/
theorem exists_of_fails_enter (h : Fails (enter fields) l e l') :
    ((∃ root ∈ fields.flatMap fun f => f.2.rootIds, l.holding? root ≠ some .inFlight) ∧ l' = l)
      ∨ (∀ root ∈ fields.flatMap fun f => f.2.rootIds, l.holding? root = some .inFlight)
        ∧ Fails (settleFields ⟨l.next⟩ fields) l.mint.2 e l' := by
  rcases fails_bind.1 h with stopped | ⟨_, u, looked, h⟩
  · obtain rfl := (Keeps.forM (R := Eq) (fun _ => keeps_expectInFlight) _).of_fails stopped
    exact .inl ⟨exists_of_fails_forM_expectInFlight stopped, rfl⟩
  obtain rfl := (Keeps.forM (R := Eq) (fun _ => keeps_expectInFlight) _).of_returns looked
  rcases fails_bind.1 h with stopped | ⟨id, u, minted, h⟩
  · exact (not_fails_modifyGet stopped).elim
  obtain ⟨rfl, rfl⟩ := Prod.mk.inj (returns_modifyGet.1 minted)
  rcases fails_bind.1 h with stopped | ⟨_, u, -, h⟩
  · exact .inr ⟨returns_forM_expectInFlight looked, stopped⟩
  · exact (not_fails_pure h).elim

/-- **A creation fails** because something it asks for is not given, and then
nothing has happened; or behind the identity, in the fields. -/
theorem exists_of_fails_createResource (h : Fails (createResource typeName fields) s e t) :
    (¬Cleared s typeName fields ∧ t = s.note e)
      ∨ Cleared s typeName fields
        ∧ ∃ l, Fails (settleFields ⟨s.ledger.next⟩ fields) s.ledger.mint.2 e l
          ∧ t = State.note { s with ledger := l } e := by
  obtain ⟨w, failed, rfl⟩ := fails_guarded.1 h
  rcases fails_bind.1 failed with idle | ⟨tx, w, began, failed⟩
  · obtain ⟨none, -, rfl⟩ := fails_requireTransaction.1 idle
    exact .inl ⟨fun cleared => by simpa [none] using cleared.running, rfl⟩
  obtain ⟨running, rfl⟩ := returns_requireTransaction.1 began
  rcases fails_bind.1 failed with unknown | ⟨d, w, known, failed⟩
  · obtain rfl := (keeps_requireComposite (R := Eq)).of_fails unknown
    exact .inl ⟨fun cleared => not_declared_of_fails unknown cleared.declared, rfl⟩
  obtain rfl := (keeps_requireComposite (R := Eq)).of_returns known
  rcases fails_bind.1 failed with failed | ⟨_, _, -, failed⟩
  · obtain ⟨l, stopped, rfl⟩ := fails_onLedger.1 failed
    rcases exists_of_fails_enter stopped with ⟨⟨root, hroot, apart⟩, rfl⟩ | ⟨afloat, late⟩
    · exact .inl ⟨fun cleared => apart (cleared.afloat root hroot), rfl⟩
    · exact .inr ⟨⟨by rw [running]; rfl, declared_of_returns known, afloat⟩, l, late, rfl⟩
  · exact (not_fails_pure failed).elim

end Construction

/-- **A creation that fails has changed nothing**, unless a root is given twice:
if what it asks for is not given, the state is as before. If everything is given
and it fails all the same, then at the first field with a root that was there
before. The identity has been handed out then, and the roots of the fields in
front are recorded in the fields of an owner that is not made. -/
theorem refused_creation {s t : State} {typeName : String} {fields : List (String × Value)}
    {e : Fault} (h : Fails (Construction.createResource typeName fields) s e t) :
    (¬Construction.Cleared s typeName fields ∧ t = s.note e)
      ∨ Construction.Cleared s typeName fields
        ∧ ∃ before f after u, fields = before ++ f :: after
          ∧ ¬((before ++ [f]).flatMap fun g => g.2.rootIds).Nodup
          ∧ State.Enters { s with ledger := s.ledger.mint.2 } u
            (owning (Construction.berths ⟨s.ledger.next⟩ before))
          ∧ t = u.note e
          ∧ ∃ p ∈ Construction.berths ⟨s.ledger.next⟩ (before ++ [f]),
            p.1 ∈ f.2.rootIds ∧ e = .alreadyOwned p.1 p.2 := by
  rcases Construction.exists_of_fails_createResource h with early | ⟨cleared, l, late, rfl⟩
  · exact .inl early
  -- what was in flight still is when the identity is handed out
  have minted : ∀ root ∈ fields.flatMap fun f => f.2.rootIds,
      s.ledger.mint.2.holding? root = some .inFlight := by
    intro root hroot
    rw [holding?_mint, cleared.afloat root hroot, ite_self]
  obtain ⟨before, f, after, rfl, distinct, twice, rfl, cause⟩ :=
    Construction.exists_of_fails_settleFields_afloat minted late
  refine .inr ⟨cleared, before, f, after, _, rfl, twice,
    State.enters_recordAll (List.Perm.refl _) ?_ ?_, rfl, cause⟩
  · rwa [map_fst_owning, Construction.map_fst_berths]
  · refine List.forall_mem_map.2 fun q hq => ⟨_, minted q.1 ?_, rfl, Holding.noConfusion⟩
    obtain ⟨g, hg, inside⟩ := List.mem_flatMap.1 hq
    exact List.mem_flatMap.2 ⟨g, List.mem_append_left _ hg,
      g.2.map_fst_placings _ ▸ List.mem_map_of_mem inside⟩

namespace Scenario

/-- A vault is to be made of the coin that lies in the saved one. -/
def coinAgain : List (String × Value) := [("coins", keptCoin.toValue)]

/-- What the ledger says about that coin. -/
def coinKept : Fault := .alreadyOwned ⟨1⟩ ((Place.field ⟨2⟩ "coins").element (.uint 0))

/-- One coin, given for two fields. -/
def coinTwice : List (String × Value) :=
  [("coins", keptCoin.toValue), ("label", keptCoin.toValue)]

end Scenario

/-- No vault is made of a coin that lies in another one, and nothing happens. -/
theorem refused_creation_kept :
    Fails (Construction.createResource "Vault" Scenario.coinAgain) Scenario.saved
      Scenario.coinKept (Scenario.saved.note Scenario.coinKept) := by
  have refused : Fails (Construction.createResource "Vault" Scenario.coinAgain) Scenario.saved
      Scenario.coinKept
      (outcome (Construction.createResource "Vault" Scenario.coinAgain) Scenario.saved).2 := rfl
  have unchanged := ((refused_creation refused).resolve_right fun cleared => ?_).2
  · rwa [unchanged] at refused
  · have afloat := cleared.1.afloat ⟨1⟩ List.mem_cons_self
    contradiction

/-- **A vault is refused and leaves traces**: the coin that is given twice is
recorded in a field of the vault, which is on record and was never made. -/
theorem vault_half_made :
    ∃ t, Fails (Construction.createResource "Vault" Scenario.coinTwice) Scenario.paying
        (.alreadyOwned ⟨1⟩ (.field ⟨2⟩ "coins")) t
      ∧ (Scenario.paying.ledger.holding? ⟨1⟩ = some .inFlight
        ∧ t.ledger.holding? ⟨1⟩ = some (.owned (.field ⟨2⟩ "coins")))
      ∧ (Scenario.paying.ledger.holding? ⟨2⟩ = none ∧ t.ledger.holding? ⟨2⟩ = some .inFlight)
      ∧ Scenario.paying.ledger.next = 2 ∧ t.ledger.next = 3 :=
  ⟨_, rfl, ⟨rfl, rfl⟩, ⟨rfl, rfl⟩, rfl, rfl⟩

end Custody
