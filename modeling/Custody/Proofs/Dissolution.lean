import Custody.Proofs.Tracking

/-!
# What a teardown accounts for

A teardown that returns has found every resource in what it was given where it
has to be, and none of them twice. The order in which it destroys them lists
them all, so exactly these are destroyed and nothing else has happened.

A plan divides a resource: what stands in the fields it moves out is handed
back, its roots in flight and the rest as it was, and everything else at any
depth is destroyed with the resource itself. The two parts have nothing in
common, whoever made up the resource: what is moved out is held in a field of
the resource, and after it has been taken from there the order finds it no
more.
-/

namespace Custody

open Ledger

variable {s t : State} {v : Value} {r : Resource} {p : Plan} {moved : List (String × Value)}

/-- Destroying what exists is a change. -/
theorem Holding.ne_destroyed_of_isLive {h : Holding} (live : h.isLive = true) :
    h ≠ .destroyed := by
  rintro rfl
  cases live

/-- **The change from one state to the other enters records**: for every
resource listed a new one, and it existed and was recorded otherwise before.
All other records stay, and nothing changes but records. -/
structure State.Enters (s t : State) (entries : Census) : Prop where
  /-- No resource is listed twice. -/
  distinct : (entries.map Prod.fst).Nodup
  changed : ∀ e ∈ entries,
    ∃ h, s.ledger.holding? e.1 = some h ∧ h.isLive = true ∧ h ≠ e.2
  entered : ∀ e ∈ entries, t.ledger.holding? e.1 = some e.2
  elsewhere : ∀ id ∉ entries.map Prod.fst, t.ledger.holding? id = s.ledger.holding? id
  rest : t = { s with ledger := { s.ledger with records := t.ledger.records } }

theorem State.enters_recordAll {entries entries' : Census} (same : entries'.Perm entries)
    (distinct : (entries.map Prod.fst).Nodup)
    (changed : ∀ e ∈ entries,
      ∃ h, s.ledger.holding? e.1 = some h ∧ h.isLive = true ∧ h ≠ e.2) :
    s.Enters { s with ledger := s.ledger.recordAll entries' } entries where
  distinct := distinct
  changed := changed
  entered e he := holding?_recordAll_of_mem ((same.map _).nodup_iff.2 distinct) (same.mem_iff.2 he)
  elsewhere id away := holding?_recordAll_of_not_mem fun mem => away ((same.map _).mem_iff.1 mem)
  rest := by
    show _ = { s with ledger := ⟨s.ledger.next, (s.ledger.recordAll entries').records⟩ }
    rw [← next_recordAll s.ledger entries']

namespace Plan

/-- A plan passes the first check if it names fields that are there and
filled. -/
theorem checkNamed_eq_ok_iff {names : List String} :
    checkNamed r names = .ok ()
      ↔ ∀ name ∈ names, r.hasField name = true ∧ r.isFieldMoved name = false := by
  induction names with
  | nil => simp [checkNamed]
  | cons name names ih =>
    rw [checkNamed, List.forall_mem_cons]
    cases r.hasField name <;> cases r.isFieldMoved name <;> simp [ih]

/-- What a fitting plan moves out is in a field. -/
theorem exists_of_movesOut (fits : p.validate r = .ok ()) {name : String}
    (out : p.movesOut name = true) :
    ∃ v, (name, some v) ∈ r.fields := by
  obtain ⟨_, named, -⟩ := bind_eq_ok_iff.1 fits
  have fate : Table.get? p.fates name = some .moveOut := of_decide_eq_true out
  have among : name ∈ Table.keys p.fates :=
    List.mem_map_of_mem (Table.mem_of_get?_eq_some fate)
  obtain ⟨there, filled⟩ := checkNamed_eq_ok_iff.1 named name among
  obtain ⟨slot, found⟩ := Option.isSome_iff_exists.1 there
  cases slot with
  | none =>
    unfold Resource.isFieldMoved at filled
    rw [found] at filled
    cases filled
  | some v => exact ⟨v, Table.mem_of_get?_eq_some found⟩

end Plan

namespace Teardown

/-! ## Whole values -/

/-- What is expected by an order exists. -/
theorem live_of_mem_census {order : TeardownOrder} : ∀ e ∈ census order, e.2.isLive = true := by
  intro e he
  obtain ⟨⟨id, _ | place⟩, -, rfl⟩ := List.mem_map.1 he
  · rfl
  · rfl

/-- **A teardown destroys** each resource at any depth, once. -/
theorem enters_destroy (regular : v.Regular) (h : Returns (destroy v) s () t) :
    s.Enters t (razing v.identities) := by
  obtain ⟨l, razed, rfl⟩ := applied_of_destroy h
  obtain ⟨order, u, listed, applied⟩ := returns_bind.1 razed
  obtain rfl := (keeps_orderOf (R := Eq) _).of_returns listed
  obtain ⟨⟨distinct, held⟩, rfl⟩ := returns_apply_iff.1 applied
  have all : (ids order).Perm v.identities :=
    ((orderOf_ids listed).trans (List.Perm.of_eq v.map_fst_afoot)).trans
      (Value.identities_perm_ids regular).symm
  refine State.enters_recordAll (all.map _) ?_ fun e he => ?_
  · rw [map_fst_razing]
    exact all.nodup_iff.1 distinct
  · obtain ⟨id, hid, rfl⟩ := List.mem_map.1 he
    obtain ⟨step, hstep, rfl⟩ := List.mem_map.1 (all.mem_iff.2 hid)
    have live := live_of_mem_census _ (List.mem_map_of_mem hstep)
    exact ⟨_, held step hstep, live, Holding.ne_destroyed_of_isLive live⟩

/-! ## Plans -/

/-- **What a plan moves out** is what stands in the fields it moves out, in their
order. -/
theorem map_movedOut (filled : ∀ f ∈ r.fields, p.movesOut f.1 = true → f.2.isSome = true) :
    (movedOut p r).map (fun f => (f.1, some f.2)) = r.fields.filter fun f => p.movesOut f.1 := by
  unfold movedOut
  generalize r.fields = fields at filled
  induction fields with
  | nil => rfl
  | cons f fields ih =>
    obtain ⟨first, rest⟩ := List.forall_mem_cons.1 filled
    obtain ⟨name, _ | v⟩ := f <;> cases out : p.movesOut name <;> simp_all

/-- **What a planned teardown hands back**: the fields that the plan moves out,
as they were. -/
theorem movedOut_of_destroyWith (regular : r.toValue.Regular)
    (h : Returns (destroyWith r p) s moved t) :
    moved.map (fun f => (f.1, some f.2)) = r.fields.filter (fun f => p.movesOut f.1)
      ∧ ∀ name, p.movesOut name = true ↔ name ∈ moved.map Prod.fst := by
  have distinct := (Value.Regular.resource_iff.1 regular).1.2
  obtain ⟨rfl, fits, -⟩ := applied_of_destroyWith h
  have fields : (movedOut p r).map (fun f => (f.1, some f.2))
      = r.fields.filter fun f => p.movesOut f.1 := by
    refine map_movedOut fun f hf out => ?_
    obtain ⟨v, hv⟩ := Plan.exists_of_movesOut fits out
    rw [(Prod.mk.inj (List.inj_on_of_nodup_map distinct hf hv rfl)).2]
    rfl
  refine ⟨fields, fun name => ?_⟩
  have names : (movedOut p r).map Prod.fst
      = (r.fields.filter fun f => p.movesOut f.1).map Prod.fst := by
    rw [← fields, List.map_map]
    rfl
  rw [names]
  constructor
  · intro out
    obtain ⟨v, hv⟩ := Plan.exists_of_movesOut fits out
    exact List.mem_map.2 ⟨_, List.mem_filter.2 ⟨hv, out⟩, rfl⟩
  · intro mem
    obtain ⟨f, hf, rfl⟩ := List.mem_map.1 mem
    exact (List.mem_filter.1 hf).2

/-- What a plan tears down at any depth. -/
def dissolved (p : Plan) (r : Resource) : List ResourceId :=
  r.id :: (r.fields.filter fun f => !p.movesOut f.1).flatMap
    fun f => (f.2.map Value.identities).getD []

theorem dissolved_perm (regular : r.toValue.Regular) : (dissolved p r).Perm (tornDown p r) := by
  refine List.Perm.cons _ (List.Perm.flatMap_left _ fun f hf => ?_)
  obtain ⟨name, _ | v⟩ := f
  · exact List.Perm.refl _
  · exact Value.identities_perm_ids
      ((Value.Regular.resource_iff.1 regular).2 _ (List.mem_filter.1 hf).1 v rfl)

/-- What a plan tears down is in flight or held somewhere. -/
theorem mem_condemned {e : ResourceId × Holding} (he : e ∈ condemned p r) :
    e = (r.id, .inFlight) ∨ ∃ place, e.2 = .owned place := by
  refine (List.mem_cons.1 he).imp_right fun he => ?_
  obtain ⟨⟨name, _ | v⟩, -, he⟩ := List.mem_flatMap.1 he
  · cases he
  · obtain ⟨q, -, rfl⟩ := List.mem_map.1 he
    exact ⟨q.2, rfl⟩

theorem live_of_mem_condemned {e : ResourceId × Holding} (he : e ∈ condemned p r) :
    e.2.isLive = true := by
  rcases mem_condemned he with rfl | ⟨place, owns⟩
  · rfl
  · rw [owns]
    rfl

theorem exists_mem_condemned (regular : r.toValue.Regular) {id : ResourceId}
    (mem : id ∈ dissolved p r) : ∃ e ∈ condemned p r, e.1 = id := by
  have torn := (dissolved_perm regular).mem_iff.1 mem
  rw [← map_fst_condemned] at torn
  exact List.mem_map.1 torn

/-- Where a root stands in a field, the field can be told. -/
theorem base_of_mem_placings {place : Place} {q : ResourceId × Place} (hq : q ∈ v.placings place) :
    q.2.base = place.base := by
  obtain ⟨root, -, rfl⟩ := List.mem_map.1 hq
  exact Place.base_within _ _

/-- The roots of what stands in fields are held in one of them, where all of them
are held where they stand. -/
theorem owned_of_heldFields {l : Ledger} {owner : ResourceId} {fields : List (String × Value)}
    (held : ∀ f ∈ fields, ∀ e ∈ f.2.placings (.field owner f.1), l.holding? e.1 = some (.owned e.2))
    {id : ResourceId} (mem : id ∈ fields.flatMap fun f => f.2.rootIds) :
    ∃ f ∈ fields, ∃ place, l.holding? id = some (.owned place)
      ∧ place.base = .field owner f.1 := by
  obtain ⟨f, hf, root⟩ := List.mem_flatMap.1 mem
  rw [← f.2.map_fst_placings (.field owner f.1)] at root
  obtain ⟨e, he, rfl⟩ := List.mem_map.1 root
  exact ⟨f, hf, e.2, held f hf e he, base_of_mem_placings he⟩

/-- What is torn down after fields have been released was in none of them: what
was is in flight now, and not where the plan looks for it. -/
theorem apart_of_released {l : Ledger} {freed : List ResourceId}
    (afloat : l.holding? r.id = some .inFlight)
    (held : ∀ id ∈ freed, ∃ place, l.holding? id = some (.owned place)) (distinct : freed.Nodup)
    (later : ∀ e ∈ condemned p r, (l.recordAll (flying freed)).holding? e.1 = some e.2) :
    ∀ e ∈ condemned p r, e.1 ∉ freed := by
  intro e he mem
  obtain ⟨place, before⟩ := held e.1 mem
  rcases mem_condemned he with rfl | ⟨place', owns⟩
  · rw [afloat] at before
    cases before
  · have flown : (l.recordAll (flying freed)).holding? e.1 = some .inFlight :=
      holding?_recordAll_of_mem (by rwa [map_fst_flying]) (List.mem_map_of_mem mem)
    rw [later e he, owns] at flown
    cases flown

/-- **A planned teardown** destroys the resource with everything at any depth in
the fields it does not move out, and leaves the roots of the others in
flight. -/
theorem enters_destroyWith (regular : r.toValue.Regular)
    (h : Returns (destroyWith r p) s moved t) :
    s.Enters t (razing (dissolved p r) ++ flying (moved.flatMap fun f => f.2.rootIds)) := by
  obtain ⟨rfl, -, owned, u, l, checked, listed, released, applied, rfl⟩ := applied_of_destroyWith h
  obtain ⟨⟨distinctFreed, heldFields⟩, rfl⟩ := returns_releaseFields_iff.1 released
  obtain ⟨⟨distinctOrder, heldOrder⟩, rfl⟩ := returns_apply_iff.1 applied
  rw [← recordAll_append]
  have fieldsDistinct := (Value.Regular.resource_iff.1 regular).1.2
  have all : (ids (owned ++ [(r.id, none)])).Perm (dissolved p r) :=
    (ids_perm_tornDown fieldsDistinct listed).trans (dissolved_perm regular).symm
  have later : ∀ e ∈ condemned p r, (s.ledger.recordAll
      (flying ((movedOut p r).flatMap fun f => f.2.rootIds))).holding? e.1 = some e.2 := by
    intro e he
    obtain ⟨step, hstep, rfl⟩ :=
      List.mem_map.1 ((planned_census fieldsDistinct listed).mem_iff.2 he)
    exact heldOrder step hstep
  have owns : ∀ id ∈ (movedOut p r).flatMap (fun f => f.2.rootIds),
      ∃ place, s.ledger.holding? id = some (.owned place) := by
    intro id mem
    obtain ⟨_, -, place, held, -⟩ := owned_of_heldFields heldFields mem
    exact ⟨place, held⟩
  have apart := apart_of_released (returns_checkDestroy.1 checked).1 owns distinctFreed later
  refine State.enters_recordAll (List.perm_append_comm.trans ((all.map _).append_right _)) ?_ ?_
  · rw [List.map_append, map_fst_razing, map_fst_flying, List.nodup_append]
    refine ⟨all.nodup_iff.1 distinctOrder, distinctFreed, ?_⟩
    rintro id mem _ mem' rfl
    obtain ⟨e, he, rfl⟩ := exists_mem_condemned regular mem
    exact apart e he mem'
  · refine List.forall_mem_append.2 ⟨List.forall_mem_map.2 fun id mem => ?_,
      List.forall_mem_map.2 fun id mem => ?_⟩
    · obtain ⟨e, he, rfl⟩ := exists_mem_condemned regular mem
      have known := later e he
      rw [holding?_recordAll_of_not_mem (by rw [map_fst_flying]; exact apart e he)] at known
      have live := live_of_mem_condemned he
      exact ⟨e.2, known, live, Holding.ne_destroyed_of_isLive live⟩
    · obtain ⟨place, before⟩ := owns id mem
      exact ⟨_, before, rfl, Holding.noConfusion⟩

end Teardown

/-- **A teardown accounts for every resource once.** Whatever the state and
whoever made up what is torn down: a teardown of a value destroys the resources
found in it at any depth, and a planned teardown of a resource destroys it with
those found in the fields that are not moved out and leaves the roots of the
others in flight. No resource is listed twice, each existed before, and no other
record changes, nor anything but records. What is handed back are the fields
that the plan moves out, filled as they were. -/
theorem teardown_accounts {s t : State} :
    (∀ v : Value, v.Regular → Returns (Teardown.destroy v) s () t →
        s.Enters t (razing v.identities))
      ∧ ∀ (r : Resource) (p : Plan) (moved : List (String × Value)), r.toValue.Regular →
        Returns (Teardown.destroyWith r p) s moved t →
          s.Enters t (razing (Teardown.dissolved p r)
              ++ flying (moved.flatMap fun f => f.2.rootIds))
            ∧ moved.map (fun f => (f.1, some f.2)) = r.fields.filter (fun f => p.movesOut f.1)
            ∧ ∀ name, p.movesOut name = true ↔ name ∈ moved.map Prod.fst :=
  ⟨fun _ regular h => Teardown.enters_destroy regular h, fun _ _ _ regular h =>
    ⟨Teardown.enters_destroyWith regular h, Teardown.movedOut_of_destroyWith regular h⟩⟩

namespace Scenario

/-- Alice has made a vault with a coin in it and holds on to it. -/
def vaulting : State := begun.after [.call makeCoin, .call makeVault]

/-- The vault goes, and the coin with it. -/
def leveled : State := (outcome (Teardown.destroy keptVault.toValue) vaulting).2

/-- The plan that moves the coins out. -/
def rescue : Plan := Plan.empty.assign "coins" .moveOut

/-- The vault goes without the coin. -/
def rescued : State := (outcome (Teardown.destroyWith keptVault rescue) vaulting).2

end Scenario

/-- The vault is torn down with the coin in it, and without. -/
theorem teardown_accounts_vault :
    (Returns (Teardown.destroy Scenario.keptVault.toValue) Scenario.vaulting () Scenario.leveled
        ∧ Scenario.vaulting.Enters Scenario.leveled (razing [⟨2⟩, ⟨1⟩]))
      ∧ Returns (Teardown.destroyWith Scenario.keptVault Scenario.rescue) Scenario.vaulting
          [("coins", .array [Scenario.keptCoin.toValue])] Scenario.rescued
        ∧ Scenario.vaulting.Enters Scenario.rescued (razing [⟨2⟩] ++ flying [⟨1⟩]) := by
  have torn : Returns (Teardown.destroy Scenario.keptVault.toValue) Scenario.vaulting ()
      Scenario.leveled := rfl
  have planned : Returns (Teardown.destroyWith Scenario.keptVault Scenario.rescue)
      Scenario.vaulting [("coins", .array [Scenario.keptCoin.toValue])] Scenario.rescued := rfl
  exact ⟨⟨torn, teardown_accounts.1 _ Scenario.regular_keptVault torn⟩, planned,
    (teardown_accounts.2 _ _ _ Scenario.regular_keptVault planned).1⟩

end Custody
