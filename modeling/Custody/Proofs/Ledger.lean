import Custody.Elements
import Custody.Operations.Construction
import Custody.Operations.Teardown
import Custody.Proofs.Conduct
import Custody.Proofs.Inventory

/-!
# What the ledger records

Every action on the ledger checks first and then records: a settlement
records its roots as owned, a release as in flight, a teardown as destroyed.
So an action that returns has the effect of a list of **entries**
(`Ledger.recordAll`), and the lemmas of this module say which list it is.

All that an action does it does by settling, releasing and destroying single
resources, by relocating and by minting. So a preorder on ledgers that is kept
by these five (`Ledger.Lawful`) is kept by every action, however it ends; that
identities are handed out in increasing order (`Ledger.Grows`) is the first
example. A preorder may also be kept only as long as some resources stay where
they are (`Ledger.LawfulWhere`); then the lemmas say of every action which
places it takes resources out of. The faults of the ledger are fatal.
-/

namespace Custody

namespace Ledger

/-- **No identity is handed out twice**: the number of the next one does not
fall. -/
def Grows (l l' : Ledger) : Prop := l.next ≤ l'.next

instance : IsPreorder Ledger Grows where
  refl l := Nat.le_refl l.next
  trans _ _ _ := Nat.le_trans

/-- **What every entry keeps** that takes a resource from where it is free to
go. A relocation takes it from wherever it is. -/
structure LawfulWhere (free : ResourceId → Place → Prop) (R : Ledger → Ledger → Prop) : Prop where
  settle : ∀ id place, Keeps R (settle id place)
  release : ∀ id place, free id place → Keeps R (release id place)
  destroy : ∀ id place?, (∀ place ∈ place?, free id place) → Keeps R (destroy id place?)
  relocate : ∀ l id place, (∀ spot, free id spot) → R l (l.relocate id place)
  mint : ∀ l, R l l.mint.2

/-- **What every action on the ledger keeps**, it keeps entry by entry. -/
abbrev Lawful (R : Ledger → Ledger → Prop) : Prop := LawfulWhere (fun _ _ => True) R

/-- **The place is open**: whatever is there, or in a container there, is free
to go. -/
def Open (free : ResourceId → Place → Prop) (place : Place) : Prop :=
  ∀ id spot, spot.base = place.base → free id spot

/-- Enters records, one after the other. -/
def recordAll (l : Ledger) (entries : List (ResourceId × Holding)) : Ledger :=
  entries.foldl (fun l e => l.record e.1 e.2) l

/-- The entries that identities are owned at places. -/
def owning (placings : List (ResourceId × Place)) : List (ResourceId × Holding) :=
  placings.map fun p => (p.1, .owned p.2)

/-- The entries that identities are in flight. -/
def flying (ids : List ResourceId) : List (ResourceId × Holding) :=
  ids.map fun id => (id, .inFlight)

/-- The entries that identities are destroyed. -/
def razing (ids : List ResourceId) : List (ResourceId × Holding) :=
  ids.map fun id => (id, .destroyed)

/-- The first entry is made first. -/
@[simp] theorem recordAll_cons (l : Ledger) (e : ResourceId × Holding)
    (entries : List (ResourceId × Holding)) :
    l.recordAll (e :: entries) = (l.record e.1 e.2).recordAll entries := rfl

/-- Entries are made one list after the other. -/
theorem recordAll_append (l : Ledger) (entries entries' : List (ResourceId × Holding)) :
    l.recordAll (entries ++ entries') = (l.recordAll entries).recordAll entries' :=
  List.foldl_append

/-- Entries hand out no number. -/
@[simp] theorem next_recordAll (l : Ledger) (entries : List (ResourceId × Holding)) :
    (l.recordAll entries).next = l.next := by
  induction entries generalizing l with
  | nil => rfl
  | cons e entries ih => exact ih _

/-- **An entry is looked up** under its identity, and all others stand as
before. -/
theorem holding?_record (l : Ledger) (id other : ResourceId) (h : Holding) :
    (l.record id h).holding? other = if other = id then some h else l.holding? other :=
  SortedMap.get?_insert l.records id other h

/-- What two lists of placings own is owned in their order, -/
@[simp] theorem owning_append (ps ps' : List (ResourceId × Place)) :
    owning (ps ++ ps') = owning ps ++ owning ps' := List.map_append

/-- and so is what flies. -/
@[simp] theorem flying_append (ids ids' : List ResourceId) :
    flying (ids ++ ids') = flying ids ++ flying ids' := List.map_append

/-! ## Single entries -/

variable {R : Ledger → Ledger → Prop} {l l' : Ledger} {id : ResourceId} {place : Place}

theorem keeps_expectInFlight [IsPreorder Ledger R] : Keeps R (expectInFlight id) := by
  refine Keeps.get.bind fun l => ?_
  split
  · exact Keeps.pure
  all_goals exact Keeps.throw

/-- A resource that is not in flight is refused fatally. -/
theorem firm_expectInFlight : Firm (expectInFlight id) := by
  refine Firm.get.bind fun l => ?_
  split
  · exact Firm.pure
  all_goals exact Firm.throw rfl

/-- **To expect a resource in flight** is to look up its record. -/
theorem returns_expectInFlight {u : Unit} :
    Returns (expectInFlight id) l u l' ↔ l.holding? id = some .inFlight ∧ l = l' := by
  unfold expectInFlight
  rw [returns_get_bind]
  rcases l.holding? id with _ | _ | _ | _ <;> simp

/-- **Settling** takes a resource that is in flight, and records its place. -/
theorem returns_settle :
    Returns (settle id place) l () l' ↔
      l.holding? id = some .inFlight ∧ l.record id (.owned place) = l' := by
  unfold settle
  rw [returns_bind]
  simp only [returns_expectInFlight, returns_modify]
  constructor
  · rintro ⟨_, _, ⟨h, rfl⟩, h'⟩
    exact ⟨h, h'⟩
  · rintro ⟨h, h'⟩
    exact ⟨(), _, ⟨h, rfl⟩, h'⟩

/-- Settling hands out no number, -/
theorem grows_settle : Keeps Grows (settle id place) :=
  keeps_expectInFlight.bind fun _ => Keeps.modify fun _ => Nat.le_refl _

/-- and fails fatally. -/
theorem firm_settle : Firm (settle id place) := firm_expectInFlight.bind fun _ => Firm.modify

/-- **Releasing** takes a resource from where it is recorded, and records it in
flight. -/
theorem returns_release :
    Returns (release id place) l () l' ↔
      l.holding? id = some (.owned place) ∧ l.record id .inFlight = l' := by
  unfold release
  rw [returns_get_bind]
  rcases l.holding? id with _ | holder | _ | _
  · simp
  · by_cases h : holder = place <;> simp [h]
  · simp
  · simp

/-- Releasing hands out no number, -/
theorem grows_release : Keeps Grows (release id place) := by
  refine Keeps.get.bind fun l => ?_
  split
  · split
    · exact Keeps.modify fun _ => Nat.le_refl _
    · exact Keeps.throw
  all_goals exact Keeps.throw

/-- and fails fatally. -/
theorem firm_release : Firm (release id place) := by
  refine Firm.get.bind fun l => ?_
  split
  · split
    · exact Firm.modify
    · exact Firm.throw rfl
  all_goals exact Firm.throw rfl

/-- The check before a destruction only looks. -/
theorem keeps_checkDestroy [IsPreorder Ledger R] {place? : Option Place} :
    Keeps R (checkDestroy id place?) := by
  refine Keeps.get.bind fun l => ?_
  split
  · exact Keeps.throw
  · exact Keeps.pure
  · exact Keeps.throw
  · exact Keeps.pure.ite Keeps.throw
  · exact Keeps.throw

/-- It fails fatally. -/
theorem firm_checkDestroy {place? : Option Place} : Firm (checkDestroy id place?) := by
  refine Firm.get.bind fun l => ?_
  split
  · exact Firm.throw rfl
  · exact Firm.pure
  · exact Firm.throw rfl
  · split
    · exact Firm.pure
    · exact Firm.throw rfl
  · exact Firm.throw rfl

/-- A resource may be destroyed where it is held, or in flight. -/
theorem returns_checkDestroy {place? : Option Place} {u : Unit} :
    Returns (checkDestroy id place?) l u l'
      ↔ l.holding? id = some ((place?.map .owned).getD .inFlight) ∧ l = l' := by
  unfold checkDestroy
  rw [returns_get_bind]
  rcases l.holding? id with _ | holder | _ | _
  · simp
  · rcases place? with _ | place
    · simp
    · by_cases h : holder = place <;> simp [h, eq_comm]
  · cases place? <;> simp
  · cases place? <;> simp

/-- **Destroying** takes a resource from where it should be, and records the end
of it. -/
theorem returns_destroy {place? : Option Place} :
    Returns (destroy id place?) l () l'
      ↔ l.holding? id = some ((place?.map .owned).getD .inFlight)
        ∧ l.record id .destroyed = l' := by
  unfold destroy
  rw [returns_bind]
  simp only [returns_checkDestroy, returns_modify]
  constructor
  · rintro ⟨_, _, ⟨h, rfl⟩, h'⟩
    exact ⟨h, h'⟩
  · rintro ⟨h, h'⟩
    exact ⟨(), _, ⟨h, rfl⟩, h'⟩

/-- Destroying hands out no number, -/
theorem grows_destroy {place? : Option Place} : Keeps Grows (destroy id place?) :=
  keeps_checkDestroy.bind fun _ => Keeps.modify fun _ => Nat.le_refl _

/-- and fails fatally. -/
theorem firm_destroy {place? : Option Place} : Firm (destroy id place?) :=
  firm_checkDestroy.bind fun _ => Firm.modify

/-! ## Whole values -/

variable {v : Value} {free : ResourceId → Place → Prop}

/-- What stands at an open place is free to go. -/
theorem Open.placings (isOpen : Open free place) :
    ∀ p ∈ v.placings place, free p.1 p.2 := by
  intro p mem
  obtain ⟨root, -, rfl⟩ := List.mem_map.1 mem
  exact isOpen _ _ (Place.base_within place root.2)

/-- **Entries one after the other**, when none of them leaves a record that
another one asks for: all are made if every record is as its entry asks and no
identity is entered twice. -/
theorem returns_forM_iff {γ : Type} {f : γ → LedgerM Unit} {id : γ → ResourceId}
    {before after : γ → Holding}
    (hf : ∀ x l l', Returns (f x) l () l'
      ↔ l.holding? (id x) = some (before x) ∧ l.record (id x) (after x) = l')
    (differ : ∀ x y, after x ≠ before y) {xs : List γ} :
    Returns (xs.forM f) l () l'
      ↔ ((xs.map id).Nodup ∧ ∀ x ∈ xs, l.holding? (id x) = some (before x))
        ∧ l.recordAll (xs.map fun x => (id x, after x)) = l' := by
  induction xs generalizing l with
  | nil => exact returns_pure.trans (by simp [recordAll])
  | cons x xs ih =>
    -- what is asked of the later records, the first entry has not provided
    have later : ((xs.map id).Nodup
          ∧ ∀ y ∈ xs, (l.record (id x) (after x)).holding? (id y) = some (before y))
        ↔ (id x ∉ xs.map id ∧ (xs.map id).Nodup)
          ∧ ∀ y ∈ xs, l.holding? (id y) = some (before y) := by
      constructor
      · rintro ⟨distinct, asked⟩
        have apart : id x ∉ xs.map id := by
          intro mem
          obtain ⟨y, hy, same⟩ := List.mem_map.1 mem
          have known := asked y hy
          rw [holding?_record, if_pos same] at known
          exact differ x y (Option.some.inj known)
        refine ⟨⟨apart, distinct⟩, fun y hy => ?_⟩
        have known := asked y hy
        rwa [holding?_record, if_neg fun same => apart (List.mem_map.2 ⟨y, hy, same⟩)] at known
      · rintro ⟨⟨apart, distinct⟩, asked⟩
        refine ⟨distinct, fun y hy => ?_⟩
        rw [holding?_record, if_neg fun same => apart (List.mem_map.2 ⟨y, hy, same⟩)]
        exact asked y hy
    rw [List.map_cons, List.nodup_cons, List.forall_mem_cons, List.map_cons, recordAll_cons]
    refine returns_bind.trans ⟨?_, ?_⟩
    · rintro ⟨_, u, first, others⟩
      obtain ⟨asked, rfl⟩ := (hf x l u).1 first
      obtain ⟨all, entered⟩ := ih.1 others
      obtain ⟨distinct, rest⟩ := later.1 all
      exact ⟨⟨distinct, asked, rest⟩, entered⟩
    · rintro ⟨⟨distinct, asked, rest⟩, entered⟩
      exact ⟨(), _, (hf x l _).2 ⟨asked, rfl⟩, ih.2 ⟨later.2 ⟨distinct, rest⟩, entered⟩⟩

/-- **Settlements one after the other.** -/
theorem returns_settles {placings : List (ResourceId × Place)} :
    Returns (placings.forM fun p => settle p.1 p.2) l () l'
      ↔ ((placings.map Prod.fst).Nodup ∧ ∀ p ∈ placings, l.holding? p.1 = some .inFlight)
        ∧ l.recordAll (owning placings) = l' :=
  returns_forM_iff (fun _ _ _ => returns_settle) fun _ _ => Holding.noConfusion

/-- **Releases one after the other.** -/
theorem returns_releases {placings : List (ResourceId × Place)} :
    Returns (placings.forM fun p => release p.1 p.2) l () l'
      ↔ ((placings.map Prod.fst).Nodup ∧ ∀ p ∈ placings, l.holding? p.1 = some (.owned p.2))
        ∧ l.recordAll (flying (placings.map Prod.fst)) = l' := by
  rw [flying, List.map_map]
  exact returns_forM_iff (fun _ _ _ => returns_release) fun _ _ => Holding.noConfusion

/-- To expect distinct roots in flight is to look. -/
theorem keeps_expectDistinct [IsPreorder Ledger R] {seen : List ResourceId}
    {placings : List (ResourceId × Place)} : Keeps R (expectDistinct seen placings) := by
  induction placings generalizing seen with
  | nil => exact Keeps.pure
  | cons p placings ih =>
    refine keeps_expectInFlight.bind fun _ => ?_
    split
    · exact Keeps.throw
    · exact ih

/-- A root that is not in flight, or comes twice, is refused fatally. -/
theorem firm_expectDistinct {seen : List ResourceId} {placings : List (ResourceId × Place)} :
    Firm (expectDistinct seen placings) := by
  induction placings generalizing seen with
  | nil => exact Firm.pure
  | cons p placings ih =>
    refine firm_expectInFlight.bind fun _ => ?_
    split
    · exact Firm.throw rfl
    · exact ih

/-- What passes the check is in flight and distinct, also from what was seen
before. -/
theorem returns_expectDistinct {seen : List ResourceId} {placings : List (ResourceId × Place)} :
    Returns (expectDistinct seen placings) l () l'
      ↔ ((∀ p ∈ placings, l.holding? p.1 = some .inFlight) ∧ (placings.map Prod.fst).Nodup
          ∧ ∀ p ∈ placings, p.1 ∉ seen) ∧ l = l' := by
  induction placings generalizing seen with
  | nil => exact returns_pure.trans (by simp)
  | cons p placings ih =>
    refine returns_bind.trans ⟨?_, ?_⟩
    · rintro ⟨_, u, first, others⟩
      obtain ⟨afloat, rfl⟩ := returns_expectInFlight.1 first
      obtain ⟨fresh, others⟩ := returns_refusal_bind.1 others
      obtain ⟨⟨inFlight, distinct, apart⟩, rfl⟩ := ih.1 others
      refine ⟨⟨List.forall_mem_cons.2 ⟨afloat, inFlight⟩,
        List.nodup_cons.2 ⟨fun mem => ?_, distinct⟩, List.forall_mem_cons.2
          ⟨fresh, fun q hq => (not_or.1 (apart q hq ∘ List.mem_cons.2)).2⟩⟩, rfl⟩
      obtain ⟨q, hq, same⟩ := List.mem_map.1 mem
      exact apart q hq (same ▸ List.mem_cons_self)
    · rintro ⟨⟨inFlight, distinct, apart⟩, rfl⟩
      obtain ⟨afloat, inFlight⟩ := List.forall_mem_cons.1 inFlight
      obtain ⟨alone, distinct⟩ := List.nodup_cons.1 distinct
      obtain ⟨fresh, apart⟩ := List.forall_mem_cons.1 apart
      refine ⟨(), l, returns_expectInFlight.2 ⟨afloat, rfl⟩, returns_refusal_bind.2 ⟨fresh, ?_⟩⟩
      refine ih.2 ⟨⟨inFlight, distinct, fun q hq mem => ?_⟩, rfl⟩
      rcases List.mem_cons.1 mem with same | mem
      · exact alone (same ▸ List.mem_map_of_mem hq)
      · exact apart q hq mem

/-- The check in front of a settlement asks for nothing that the settlements do
not ask for. -/
theorem returns_settleValue_iff_settles :
    Returns (settleValue v place) l () l'
      ↔ Returns ((v.placings place).forM fun p => settle p.1 p.2) l () l' := by
  refine returns_bind.trans ⟨?_, fun settled => ?_⟩
  · rintro ⟨_, u, checked, settled⟩
    obtain ⟨-, rfl⟩ := returns_expectDistinct.1 checked
    exact settled
  · obtain ⟨distinct, afloat⟩ := (returns_settles.1 settled).1
    exact ⟨(), l, returns_expectDistinct.2
      ⟨⟨afloat, distinct, fun _ _ mem => nomatch mem⟩, rfl⟩, settled⟩

/-- **A settlement returns** if the roots of the value are in flight and none is
there twice. -/
theorem returns_settleValue_iff :
    Returns (settleValue v place) l () l'
      ↔ (v.rootIds.Nodup ∧ ∀ id ∈ v.rootIds, l.holding? id = some .inFlight)
        ∧ l.recordAll (owning (v.placings place)) = l' := by
  rw [returns_settleValue_iff_settles, returns_settles, ← v.map_fst_placings place,
    List.forall_mem_map]

/-- **A settlement records** the roots of the value as owned. -/
theorem returns_settleValue (h : Returns (settleValue v place) l () l') :
    l.recordAll (owning (v.placings place)) = l' :=
  (returns_settleValue_iff.1 h).2

/-- **Settling a value** keeps what entries for its roots keep. -/
theorem keeps_settleValue [IsPreorder Ledger R] (law : LawfulWhere free R) :
    Keeps R (settleValue v place) :=
  keeps_expectDistinct.bind fun _ => Keeps.forM (fun _ => law.settle _ _) _

/-- It fails fatally. -/
theorem firm_settleValue : Firm (settleValue v place) :=
  firm_expectDistinct.bind fun _ => Firm.forM (fun _ => firm_settle) _

/-- To expect that roots are held keeps what releasing the first that is not
would keep. -/
theorem keeps_expectHeld [IsPreorder Ledger R] (law : LawfulWhere free R)
    {placings : List (ResourceId × Place)} (goes : ∀ p ∈ placings, free p.1 p.2) :
    Keeps R (expectHeld placings) := by
  induction placings with
  | nil => exact Keeps.pure
  | cons p placings ih =>
    refine Keeps.get.bind fun l => ?_
    split
    · exact ih fun q mem => goes q (List.mem_cons_of_mem _ mem)
    · exact law.release _ _ (goes p List.mem_cons_self)

/-- A root that is held elsewhere is refused fatally. -/
theorem firm_expectHeld {placings : List (ResourceId × Place)} : Firm (expectHeld placings) := by
  induction placings with
  | nil => exact Firm.pure
  | cons p placings ih =>
    refine Firm.get.bind fun l => ?_
    split
    · exact ih
    · exact firm_release

/-- A check that all are held records nothing: where one is not, releasing
it would fail. -/
theorem returns_expectHeld {placings : List (ResourceId × Place)} :
    Returns (expectHeld placings) l () l'
      ↔ (∀ e ∈ placings, l.holding? e.1 = some (.owned e.2)) ∧ l = l' := by
  induction placings with
  | nil => exact returns_pure.trans (by simp)
  | cons p placings ih =>
    unfold expectHeld
    rw [returns_get_bind, List.forall_mem_cons]
    split
    next held => rw [ih, and_iff_right held]
    next apart =>
      exact iff_of_false (fun h => apart (returns_release.1 h).1) fun h => apart h.1.1

/-- The check in front of a release asks for nothing that the releases do not
ask for. -/
theorem returns_releaseValue_iff_releases :
    Returns (releaseValue v place) l () l'
      ↔ Returns ((v.placings place).forM fun p => release p.1 p.2) l () l' := by
  refine returns_bind.trans ⟨?_, fun released => ?_⟩
  · rintro ⟨_, u, checked, released⟩
    obtain ⟨-, rfl⟩ := returns_expectHeld.1 checked
    exact released
  · exact ⟨(), l, returns_expectHeld.2 ⟨(returns_releases.1 released).1.2, rfl⟩, released⟩

/-- **A release returns** if the roots of the value are held where they stand
and none is there twice. -/
theorem returns_releaseValue_iff :
    Returns (releaseValue v place) l () l'
      ↔ (v.rootIds.Nodup ∧ ∀ e ∈ v.placings place, l.holding? e.1 = some (.owned e.2))
        ∧ l.recordAll (flying v.rootIds) = l' := by
  rw [returns_releaseValue_iff_releases, returns_releases, v.map_fst_placings]

/-- **A release records** the roots of the value as in flight. -/
theorem returns_releaseValue (h : Returns (releaseValue v place) l () l') :
    l.recordAll (flying v.rootIds) = l' :=
  (returns_releaseValue_iff.1 h).2

/-- **Releasing a value** keeps what entries for its roots keep, if they may be
made there. -/
theorem keeps_releaseValue [IsPreorder Ledger R] (law : LawfulWhere free R)
    (isOpen : Open free place) : Keeps R (releaseValue v place) :=
  (keeps_expectHeld law isOpen.placings).bind fun _ =>
    Keeps.forM_mem fun p mem => law.release _ _ (isOpen.placings p mem)

/-- It fails fatally. -/
theorem firm_releaseValue : Firm (releaseValue v place) :=
  firm_expectHeld.bind fun _ => Firm.forM (fun _ => firm_release) _

/-- The new identity is in flight. -/
theorem holding?_mint (l : Ledger) (id : ResourceId) :
    l.mint.2.holding? id = if id = ⟨l.next⟩ then some .inFlight else l.holding? id :=
  SortedMap.get?_insert l.records _ id _

/-- What is not forgotten still exists. -/
theorem holding?_forgetDestroyed {h : Holding} :
    l.forgetDestroyed.holding? id = some h ↔ l.holding? id = some h ∧ h.isLive = true := by
  show (l.records.filter _).get? id = some h ↔ _
  rw [SortedMap.get?_filter, Option.filter_eq_some_iff]
  rfl

/-- What is in flight can be settled, one resource after the other. -/
theorem exists_returns_settles {placings : List (ResourceId × Place)}
    (distinct : (placings.map Prod.fst).Nodup)
    (afloat : ∀ p ∈ placings, l.holding? p.1 = some .inFlight) :
    ∃ l', Returns (placings.forM fun p => settle p.1 p.2) l () l' :=
  ⟨_, returns_settles.2 ⟨⟨distinct, afloat⟩, rfl⟩⟩

/-- What is held where it stands can be released, if no root is there twice. -/
theorem exists_returns_releaseValue (distinct : v.rootIds.Nodup)
    (held : ∀ e ∈ v.placings place, l.holding? e.1 = some (.owned e.2)) :
    ∃ l', Returns (releaseValue v place) l () l' :=
  ⟨_, returns_releaseValue_iff.2 ⟨⟨distinct, held⟩, rfl⟩⟩

/-! ## Relocation -/

/-- Relocating what is owned records the new places. -/
theorem relocate_eq_recordAll {placings : List (ResourceId × Place)}
    (owned : ∀ p ∈ placings, ∃ place, l.holding? p.1 = some (.owned place)) :
    placings.foldl (fun l p => l.relocate p.1 p.2) l = l.recordAll (owning placings) := by
  induction placings generalizing l with
  | nil => rfl
  | cons p placings ih =>
    obtain ⟨place, h⟩ := owned p List.mem_cons_self
    have first : l.relocate p.1 p.2 = l.record p.1 (.owned p.2) := by
      unfold relocate
      rw [h]
    rw [List.foldl_cons, first]
    refine ih fun q mem => ?_
    rw [holding?_record]
    split
    · exact ⟨p.2, rfl⟩
    · exact owned q (List.mem_cons_of_mem _ mem)

/-- Entries hand out no number. -/
theorem lawful_grows : Lawful Grows where
  settle _ _ := grows_settle
  release _ _ _ := grows_release
  destroy _ _ _ := grows_destroy
  relocate l id place _ := by
    unfold relocate
    split
    · exact Nat.le_refl _
    · exact Nat.le_refl _
  mint l := Nat.le_succ l.next

end Ledger

/-! ## Elements and fields -/

namespace Elements

open Ledger

variable {container v : Value} {place : Place} {name field : String} {key : Key} {r : Resource}
  {free : ResourceId → Place → Prop} {R : Ledger → Ledger → Prop} [IsPreorder Ledger R]

/-- The roots of the elements of an array behind the one that the key stands
for, or from it on when nothing is skipped. -/
def behind (container : Value) (key : Key) (skip : Nat) : List ResourceId :=
  match container, key.position? with
  | .array elements, some i => (elements.drop (i + skip)).flatMap Value.rootIds
  | _, _ => []

/-- What stands behind a position of an array, some elements further on. -/
theorem behind_array {elements : List Value} {i bound : Nat}
    (position : positionBelow? key bound = some i) (skip : Nat) :
    behind (.array elements) key skip = (elements.drop (i + skip)).flatMap Value.rootIds := by
  have known : key.position? = some i := (Option.filter_eq_some_iff.1 position).1
  unfold behind
  rw [known]

/-- Elements that shift are recorded anew, which keeps what any entry for them
keeps. -/
theorem keeps_relocateFrom (law : LawfulWhere free R) {start : Nat} {elements : List Value}
    (goes : ∀ id ∈ elements.flatMap Value.rootIds, ∀ spot, free id spot) :
    Keeps R (relocateFrom place start elements) := by
  refine Keeps.modify fun l => ?_
  rw [← map_fst_placingsFrom place start] at goes
  replace goes : ∀ p ∈ placingsFrom place start elements, ∀ spot, free p.1 spot :=
    fun p mem => goes p.1 (List.mem_map_of_mem mem)
  generalize placingsFrom place start elements = placings at goes
  induction placings generalizing l with
  | nil => exact Std.Refl.refl l
  | cons p placings ih =>
    exact IsTrans.trans _ _ _ (law.relocate l p.1 p.2 (goes p List.mem_cons_self))
      (ih _ fun q mem => goes q (List.mem_cons_of_mem _ mem))

/-- **Putting an element in** keeps what entries for it and for what stands
behind it keep. -/
theorem keeps_insert (law : LawfulWhere free R)
    (goes : ∀ id ∈ behind container key 0, ∀ spot, free id spot) :
    Keeps R (insert container place name key v) := by
  unfold insert
  split
  · split
    next i position =>
      rw [behind_array position] at goes
      exact (keeps_settleValue law).bind fun _ =>
        (keeps_relocateFrom law goes).bind fun _ => Keeps.pure
    · exact Keeps.throw
  · split
    · exact Keeps.throw
    · exact (keeps_settleValue law).bind fun _ => Keeps.pure
  · exact Keeps.throw

/-- It recovers from a key that stands for nothing, since it looks at that
first. -/
theorem careful_insert : Careful (insert container place name key v) := by
  unfold insert
  split
  · split
    · exact .of_firm (firm_settleValue.bind fun _ => Firm.modify.bind fun _ => Firm.pure)
    · exact .of_reads Keeps.throw
  · split
    · exact .of_reads Keeps.throw
    · exact .of_firm (firm_settleValue.bind fun _ => Firm.pure)
  · exact .of_reads Keeps.throw

/-- Putting an element at the end keeps what entries for it keep. -/
theorem keeps_push (law : LawfulWhere free R) : Keeps R (push container place name v) := by
  unfold push
  split
  · exact (keeps_settleValue law).bind fun _ => Keeps.pure
  · exact Keeps.throw

theorem careful_push : Careful (push container place name v) := by
  unfold push
  split
  · exact .of_firm (firm_settleValue.bind fun _ => Firm.pure)
  · exact .of_reads Keeps.throw

/-- **Taking an element out** keeps what entries for it and for what stands
behind it keep. -/
theorem keeps_remove (law : LawfulWhere free R) (isOpen : Open free place)
    (goes : ∀ id ∈ behind container key 1, ∀ spot, free id spot) :
    Keeps R (remove container place name key) := by
  have releases {k : Key} {w : Value} : Keeps R (releaseValue w (place.element k)) :=
    keeps_releaseValue law isOpen
  unfold remove
  split
  · split
    next i position =>
      rw [behind_array position] at goes
      split
      · exact releases.bind fun _ => (keeps_relocateFrom law goes).bind fun _ => Keeps.pure
      · exact Keeps.pure
    · exact Keeps.pure
  · split
    · exact releases.bind fun _ => Keeps.pure
    · exact Keeps.pure
  · exact Keeps.throw

/-- Where there is nothing to take out, nothing has happened. -/
theorem careful_remove : Careful (remove container place name key) := by
  unfold remove
  split
  · split
    · split
      · exact .of_firm (firm_releaseValue.bind fun _ => Firm.modify.bind fun _ => Firm.pure)
      · exact .of_reads Keeps.pure
    · exact .of_reads Keeps.pure
  · split
    · exact .of_firm (firm_releaseValue.bind fun _ => Firm.pure)
    · exact .of_reads Keeps.pure
  · exact .of_reads Keeps.throw

/-- **Taking a field out** keeps what entries for what is in it keep. -/
theorem keeps_takeField (law : LawfulWhere free R) (isOpen : Open free (.field r.id field)) :
    Keeps R (takeField r name field) := by
  unfold takeField
  split
  · split
    · exact (keeps_releaseValue law isOpen).bind fun _ => Keeps.pure
    · exact Keeps.throw
  · exact Keeps.throw

/-- A field that is not there is noticed before anything is released. -/
theorem careful_takeField : Careful (takeField r name field) := by
  unfold takeField
  split
  · split
    · exact .of_firm (firm_releaseValue.bind fun _ => Firm.pure)
    · exact .of_reads Keeps.throw
  · exact .of_reads Keeps.throw

/-- **Filling a field** keeps what entries for what goes into it keep. -/
theorem keeps_putField (law : LawfulWhere free R) : Keeps R (putField r name field v) := by
  unfold putField
  split
  · dsimp only
    split
    · exact Keeps.throw
    · exact (keeps_settleValue law).bind fun _ => Keeps.pure
  · exact Keeps.throw

/-- A field that cannot be filled is noticed before anything settles. -/
theorem careful_putField : Careful (putField r name field v) := by
  unfold putField
  split
  · dsimp only
    split
    · exact .of_reads Keeps.throw
    · exact .of_firm (firm_settleValue.bind fun _ => Firm.pure)
  · exact .of_reads Keeps.throw

end Elements

/-! ## Making and tearing down -/

namespace Construction

open Ledger

variable {owner : ResourceId} {fields : List (String × Value)} {l l' : Ledger}
  {free : ResourceId → Place → Prop} {R : Ledger → Ledger → Prop} [IsPreorder Ledger R]

/-- Fields that settle one after the other keep what entries keep. -/
theorem keeps_settleFields (law : LawfulWhere free R) : Keeps R (settleFields owner fields) := by
  induction fields with
  | nil => exact Keeps.pure
  | cons f fields ih => exact (keeps_settleValue law).bind fun _ => ih

/-- They fail fatally. -/
theorem firm_settleFields : Firm (settleFields owner fields) := by
  induction fields with
  | nil => exact Firm.pure
  | cons f fields ih => exact firm_settleValue.bind fun _ => ih

/-- Settling fields settles the roots in them, one after the other. -/
theorem settles_of_settleFields (h : Returns (settleFields owner fields) l () l') :
    Returns ((fields.flatMap fun f => f.2.placings (.field owner f.1)).forM
      fun p => settle p.1 p.2) l () l' := by
  induction fields generalizing l with
  | nil => exact h
  | cons f fields ih =>
    obtain ⟨_, u, first, others⟩ := returns_bind.1 h
    exact returns_forM_append.2 ⟨u, returns_settleValue_iff_settles.1 first, ih others⟩

/-- **A new resource** gets the next identity, and then the values of its
fields settle. -/
theorem returns_enter {id : ResourceId} (h : Returns (enter fields) l id l') :
    id = ⟨l.next⟩ ∧ Returns (settleFields id fields) l.mint.2 () l' := by
  obtain ⟨_, u, checked, h⟩ := returns_bind.1 h
  obtain rfl := (Keeps.forM (R := Eq) (fun _ => keeps_expectInFlight) _).of_returns checked
  obtain ⟨minted, u, hm, h⟩ := returns_bind.1 h
  obtain ⟨rfl, rfl⟩ := Prod.mk.inj (returns_modifyGet.1 hm)
  obtain ⟨_, u, settled, h⟩ := returns_bind.1 h
  obtain ⟨rfl, rfl⟩ := returns_pure.1 h
  exact ⟨rfl, settled⟩

/-- Entering a resource and its fields keeps what entries keep. -/
theorem keeps_enter (law : LawfulWhere free R) : Keeps R (enter fields) :=
  (Keeps.forM (fun _ => keeps_expectInFlight) _).bind fun _ =>
    (Keeps.modifyGet law.mint).bind fun _ =>
      (keeps_settleFields law).bind fun _ => Keeps.pure

/-- It fails fatally. -/
theorem firm_enter : Firm (enter fields) :=
  (Firm.forM (fun _ => firm_expectInFlight) _).bind fun _ =>
    Firm.modifyGet.bind fun _ => firm_settleFields.bind fun _ => Firm.pure

end Construction

namespace Teardown

open Ledger

variable {order : TeardownOrder} {owner : ResourceId} {fields : List (String × Value)}
  {l l' : Ledger} {free : ResourceId → Place → Prop} {R : Ledger → Ledger → Prop}
  [IsPreorder Ledger R]

/-- The identities of a teardown order. -/
def ids (order : TeardownOrder) : List ResourceId := order.map Prod.fst

/-- The check of a plan only looks. -/
theorem keeps_check : Keeps R (check order) := Keeps.forM (fun _ => keeps_checkDestroy) _

/-- It fails fatally. -/
theorem firm_check : Firm (check order) := Firm.forM (fun _ => firm_checkDestroy) _

/-- A check looks for everything where the order says it is. -/
theorem returns_check {u : Unit} :
    Returns (check order) l u l'
      ↔ (∀ step ∈ order, l.holding? step.1 = some ((step.2.map .owned).getD .inFlight))
        ∧ l = l' := by
  unfold check
  induction order with
  | nil => exact returns_pure.trans (by simp)
  | cons step order ih =>
    rw [List.forall_mem_cons]
    refine returns_bind.trans ⟨?_, ?_⟩
    · rintro ⟨_, w, first, others⟩
      obtain ⟨there, rfl⟩ := returns_checkDestroy.1 first
      obtain ⟨rest, rfl⟩ := ih.1 others
      exact ⟨⟨there, rest⟩, rfl⟩
    · rintro ⟨⟨there, rest⟩, rfl⟩
      exact ⟨(), l, returns_checkDestroy.2 ⟨there, rfl⟩, ih.2 ⟨rest, rfl⟩⟩

/-- **Destructions one after the other.** -/
theorem returns_destroys :
    Returns (order.forM fun step => Ledger.destroy step.1 step.2) l () l'
      ↔ ((ids order).Nodup
          ∧ ∀ step ∈ order, l.holding? step.1 = some ((step.2.map .owned).getD .inFlight))
        ∧ l.recordAll (razing (ids order)) = l' := by
  have gone (place? : Option Place) :
      Holding.destroyed ≠ (place?.map Holding.owned).getD .inFlight := by
    cases place? <;> exact Holding.noConfusion
  rw [razing, ids, List.map_map]
  exact returns_forM_iff (fun _ _ _ => returns_destroy) fun _ step => gone step.2

/-- **A teardown returns** if everything is where its order says and nothing is
there twice. -/
theorem returns_apply_iff :
    Returns (apply order) l () l'
      ↔ ((ids order).Nodup
          ∧ ∀ step ∈ order, l.holding? step.1 = some ((step.2.map .owned).getD .inFlight))
        ∧ l.recordAll (razing (ids order)) = l' := by
  refine returns_bind.trans (Iff.trans ⟨?_, fun applied => ?_⟩ returns_destroys)
  · rintro ⟨_, u, checked, applied⟩
    obtain ⟨-, rfl⟩ := returns_check.1 checked
    exact applied
  · exact ⟨(), l, returns_check.2 ⟨(returns_destroys.1 applied).1.2, rfl⟩, applied⟩

/-- **A teardown records** everything in its order as destroyed. -/
theorem returns_apply (h : Returns (apply order) l () l') :
    l.recordAll (razing (ids order)) = l' :=
  (returns_apply_iff.1 h).2

/-- Carrying a plan out keeps what the entries of its steps keep. -/
theorem keeps_apply (law : LawfulWhere free R)
    (goes : ∀ step ∈ order, ∀ place ∈ step.2, free step.1 place) : Keeps R (apply order) :=
  keeps_check.bind fun _ => Keeps.forM_mem fun step mem => law.destroy _ _ (goes step mem)

/-- It fails fatally. -/
theorem firm_apply : Firm (apply order) :=
  firm_check.bind fun _ => Firm.forM (fun _ => firm_destroy) _

/-- The order of a teardown is found by looking. -/
theorem keeps_orderOf (resources : List Resource) : Keeps R (orderOf resources) := by
  induction resources with
  | nil => exact Keeps.pure
  | cons r resources ih =>
    exact keeps_checkDestroy.bind fun _ => Keeps.ofExcept.bind fun _ => ih.bind fun _ => Keeps.pure

/-- Releasing fields releases the roots in them, one after the other. -/
theorem returns_releaseFields_iff_releases :
    Returns (releaseFields owner fields) l () l'
      ↔ Returns ((fields.flatMap fun f => f.2.placings (.field owner f.1)).forM
        fun p => release p.1 p.2) l () l' := by
  induction fields generalizing l with
  | nil => exact Iff.rfl
  | cons f fields ih =>
    refine returns_bind.trans (Iff.trans ⟨?_, ?_⟩ returns_forM_append.symm)
    · rintro ⟨_, u, first, others⟩
      exact ⟨u, returns_releaseValue_iff_releases.1 first, ih.1 others⟩
    · rintro ⟨u, first, others⟩
      exact ⟨(), u, returns_releaseValue_iff_releases.2 first, ih.2 others⟩

/-- **Fields are released** if their roots are held where they stand and none is
there twice. -/
theorem returns_releaseFields_iff :
    Returns (releaseFields owner fields) l () l'
      ↔ ((fields.flatMap fun f => f.2.rootIds).Nodup
          ∧ ∀ f ∈ fields, ∀ e ∈ f.2.placings (.field owner f.1),
            l.holding? e.1 = some (.owned e.2))
        ∧ l.recordAll (flying (fields.flatMap fun f => f.2.rootIds)) = l' := by
  have roots : (fields.flatMap fun f => f.2.placings (.field owner f.1)).map Prod.fst
      = fields.flatMap fun f => f.2.rootIds := by
    rw [List.map_flatMap]
    exact List.flatMap_congr fun f _ => f.2.map_fst_placings _
  rw [returns_releaseFields_iff_releases, returns_releases, roots, List.forall_mem_flatMap]

/-- Fields fail to be released at one of them, when those before it have
been. -/
theorem exists_of_fails_releaseFields {e : Fault} (h : Fails (releaseFields owner fields) l e l') :
    ∃ before f after u, fields = before ++ f :: after
      ∧ Returns (releaseFields owner before) l () u
      ∧ Fails (releaseValue f.2 (.field owner f.1)) u e l' := by
  induction fields generalizing l with
  | nil => exact (not_fails_pure h).elim
  | cons f fields ih =>
    rcases fails_bind.1 h with h | ⟨_, w, first, h⟩
    · exact ⟨[], f, fields, l, rfl, returns_pure.2 ⟨rfl, rfl⟩, h⟩
    · obtain ⟨before, g, after, u, rfl, others, failed⟩ := ih h
      exact ⟨f :: before, g, after, u, rfl, returns_bind.2 ⟨(), w, first, others⟩, failed⟩

/-- Fields that are released one after the other keep what entries keep, where
these may be made. -/
theorem keeps_releaseFields (law : LawfulWhere free R)
    (isOpen : ∀ field, Open free (.field owner field)) : Keeps R (releaseFields owner fields) := by
  induction fields with
  | nil => exact Keeps.pure
  | cons f fields ih => exact (keeps_releaseValue law (isOpen f.1)).bind fun _ => ih

/-- They fail fatally. -/
theorem firm_releaseFields : Firm (releaseFields owner fields) := by
  induction fields with
  | nil => exact Firm.pure
  | cons f fields ih => exact firm_releaseValue.bind fun _ => ih

end Teardown

end Custody
