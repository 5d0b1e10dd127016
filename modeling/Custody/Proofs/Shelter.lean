import Custody.Proofs.Contents
import Custody.Proofs.Turns

/-!
# What stays on record where it lies

Take what an account stores at one time. A resource lies there directly at a
path, or inside what is stored, at whatever depth (`Store.Lodges`). While it
stays there, another party works with resources of its own, rebuilt at will.
Can the ledger come to record one that lies there somewhere else?

All entries but one are checked against the record. What settles is in flight,
and what is released or destroyed is recorded at the place that it is taken
from. Places in the account's storage are its paths, and fields of resources
that lie there. So as long as all of these are on record where they lie
(`Ledger.Shelters`), nothing that is done at other places concerns them: in
locals, at paths of other accounts, in fields of resources that lie elsewhere.

Relocation is the exception. It follows elements of an array to their new
positions and goes by their identity alone, so it is harmless only for
elements that do not lie in the account's storage.
-/

namespace Custody

open Ledger CustodyM

variable {home : Store} {A : Address} {id : ResourceId} {place : Place} {v : Value}
  {l l' : Ledger}

/-! ## What lies in storage -/

namespace Store

/-- **The resource lies in the account's storage** at the place. -/
def Lodges (s : Store) (A : Address) (id : ResourceId) (place : Place) : Prop :=
  ∃ path v, s.value? A path = some v ∧ v.Found (.stored A path) id place

/-- The resource lies in the account's storage, wherever. -/
def Lodger (s : Store) (A : Address) (id : ResourceId) : Prop := ∃ place, s.Lodges A id place

/-- The account's storage has no claim on the resource at the place. -/
def Frees (s : Store) (A : Address) (id : ResourceId) (place : Place) : Prop :=
  ¬s.Lodges A id place

/-- **A place in the account's storage** is below one of its paths, or in a
field of a resource that lies there. -/
theorem Lodges.base (h : home.Lodges A id place) :
    (∃ path, place.base = .stored A path)
      ∨ ∃ owner name, home.Lodger A owner ∧ place.base = .field owner name := by
  obtain ⟨path, v, there, found⟩ := h
  rcases found.base with same | ⟨owner, spot, name, outer, same⟩
  · exact .inl ⟨path, same⟩
  · exact .inr ⟨owner, name, ⟨spot, path, v, there, outer⟩, same⟩

/-- A place frees every identity that does not lodge at the home. -/
theorem frees_of_not_lodger (away : ¬home.Lodger A id) (place : Place) : home.Frees A id place :=
  fun lodges => away ⟨place, lodges⟩

/-- Locals are outside storage. -/
theorem open_binding (frame : FrameId) (name : String) :
    Open (home.Frees A) (.binding frame name) := by
  intro id spot same lodges
  rcases lodges.base with ⟨path, base⟩ | ⟨owner, field, -, base⟩
  · exact nomatch base.symm.trans same
  · exact nomatch base.symm.trans same

/-- So is what another account stores, -/
theorem open_stored {address : Address} (foreign : address ≠ A) (path : Path) :
    Open (home.Frees A) (.stored address path) := by
  intro id spot same lodges
  rcases lodges.base with ⟨path', base⟩ | ⟨owner, field, -, base⟩
  · exact foreign (Place.stored.inj (base.symm.trans same)).1.symm
  · exact nomatch base.symm.trans same

/-- and so are the fields of a resource that lies elsewhere. -/
theorem open_field {owner : ResourceId} (away : ¬home.Lodger A owner) (name : String) :
    Open (home.Frees A) (.field owner name) := by
  intro id spot same lodges
  rcases lodges.base with ⟨path, base⟩ | ⟨owner', field, there, base⟩
  · exact nomatch base.symm.trans same
  · exact away ((Place.field.inj (base.symm.trans same)).1 ▸ there)

end Store

open Store

/-! ## The records -/

/-- **The ledger shelters what lies in the account's storage**: it has it on
record where it lies. -/
structure Ledger.Shelters (home : Store) (A : Address) (l : Ledger) : Prop where
  numbered : l.Numbered
  recorded : ∀ id place, home.Lodges A id place → l.holding? id = some (.owned place)

namespace Ledger.Shelters

/-- What is in flight does not lodge at the home. -/
theorem not_lodger_of_inFlight (h : l.Shelters home A) (afloat : l.holding? id = some .inFlight) :
    ¬home.Lodger A id := by
  rintro ⟨place, lodges⟩
  rw [h.recorded id place lodges] at afloat
  cases afloat

/-- What is owned at a place outside the home does not lodge there. -/
theorem not_lodger_of_owned (h : l.Shelters home A) (held : l.holding? id = some (.owned place))
    (free : home.Frees A id place) : ¬home.Lodger A id := by
  rintro ⟨spot, lodges⟩
  obtain rfl := Holding.owned.inj (Option.some.inj (held.symm.trans (h.recorded id spot lodges)))
  exact free lodges

/-- What lies elsewhere may be recorded anew. -/
theorem record (h : l.Shelters home A) {known : Holding} (recorded : l.holding? id = some known)
    (away : ¬home.Lodger A id) (holding : Holding) : (l.record id holding).Shelters home A where
  numbered := h.numbered.record recorded holding
  recorded other place lodges := by
    have apart : other ≠ id := fun same => away ⟨place, same ▸ lodges⟩
    rw [holding?_record, if_neg apart]
    exact h.recorded other place lodges

/-- A fresh identity lodges nowhere yet. -/
theorem mint (h : l.Shelters home A) : l.mint.2.Shelters home A where
  numbered := h.numbered.mint
  recorded other place lodges := by
    -- the new identity is not on record yet
    have known := h.recorded other place lodges
    have old : other ≠ ⟨l.next⟩ := by
      rintro rfl
      exact Nat.lt_irrefl l.next (h.numbered _ _ known)
    exact (holding?_mint l other).trans ((if_neg old).trans known)

/-- Forgetting what was destroyed concerns nothing that lies anywhere. -/
theorem forgetDestroyed (h : l.Shelters home A) : l.forgetDestroyed.Shelters home A where
  numbered := h.numbered.forgetDestroyed
  recorded id place lodges :=
    holding?_forgetDestroyed.2 ⟨h.recorded id place lodges, rfl⟩

/-- The records of an earlier time shelter the same at a later one. -/
theorem mono (h : l.Shelters home A) {next : Nat} (le : l.next ≤ next) :
    Shelters home A ⟨next, l.records⟩ :=
  ⟨h.numbered.mono le, h.recorded⟩

end Ledger.Shelters

/-- If the earlier ledger shelters what lies in the account's storage, so does
the later one. -/
def Store.Sheltering (home : Store) (A : Address) (l l' : Ledger) : Prop :=
  l.Shelters home A → l'.Shelters home A

instance : IsPreorder Ledger (home.Sheltering A) where
  refl _ h := h
  trans _ _ _ h h' := h' ∘ h

/-- **Every entry shelters what lies in the account's storage**, if it takes
nothing from there. -/
theorem lawful_sheltering : LawfulWhere (home.Frees A) (home.Sheltering A) where
  settle id place l := by
    refine Keeps.reads_bind keeps_expectInFlight fun _ checked shelters => ?_
    have afloat := (returns_expectInFlight.1 checked).1
    exact shelters.record afloat (shelters.not_lodger_of_inFlight afloat) _
  release id place free l := by
    refine Keeps.get_bind (fun l => ?_) l
    split
    next holder held =>
      split
      next here =>
        subst here
        exact fun shelters => shelters.record held (shelters.not_lodger_of_owned held free) _
      · exact Std.Refl.refl l
    all_goals exact Std.Refl.refl l
  destroy id place? free l := by
    refine Keeps.reads_bind keeps_checkDestroy fun _ checked shelters => ?_
    have held := (returns_checkDestroy.1 checked).1
    refine shelters.record held ?_ _
    cases place? with
    | none => exact shelters.not_lodger_of_inFlight held
    | some place => exact shelters.not_lodger_of_owned held (free place rfl)
  relocate l id place free := by
    unfold relocate
    split
    next holder held =>
      exact fun shelters =>
        shelters.record held (shelters.not_lodger_of_owned held (free holder)) _
    · exact Std.Refl.refl l
  mint _ := Shelters.mint

/-! ## Values from elsewhere -/

/-- **The value is from elsewhere**: none of its roots lies in the account's
storage. -/
def Value.Foreign (home : Store) (A : Address) (v : Value) : Prop :=
  ∀ id ∈ v.rootIds, ¬home.Lodger A id

namespace Value

/-- A value without resources is foreign to every home. -/
theorem foreign_of_resources_eq_nil (h : v.resources = []) : v.Foreign home A := by
  unfold Foreign
  rw [rootIds_eq, h]
  exact fun _ mem => nomatch mem

/-- A resource is foreign exactly when its identity does not lodge at the home.
-/
theorem foreign_resource {r : Resource} : r.toValue.Foreign home A ↔ ¬home.Lodger A r.id := by
  unfold Foreign
  rw [rootIds_eq, resources_resource]
  exact List.forall_mem_singleton

/-- An array is foreign exactly when its elements are. -/
theorem foreign_array {elements : List Value} :
    (Value.array elements).Foreign home A ↔ ∀ e ∈ elements, e.Foreign home A := by
  unfold Foreign
  simp only [rootIds_eq, resources_array, List.map_flatMap, List.mem_flatMap]
  exact ⟨fun h e he id mem => h id ⟨e, he, mem⟩, fun h id ⟨e, he, mem⟩ => h e he id mem⟩

/-- A dictionary is foreign exactly when its entries are. -/
theorem foreign_dict {entries : List (Key × Value)} :
    (Value.dict entries).Foreign home A ↔ ∀ e ∈ entries, e.2.Foreign home A := by
  unfold Foreign
  simp only [rootIds_eq, resources_dict, List.map_flatMap, List.mem_flatMap]
  exact ⟨fun h e he id mem => h id ⟨e, he, mem⟩, fun h id ⟨e, he, mem⟩ => h e he id mem⟩

/-- What is on record elsewhere is from elsewhere. -/
theorem foreign_of_recorded (shelters : l.Shelters home A) (isOpen : Open (home.Frees A) place)
    (recorded : ∀ e ∈ v.placings place, l.holding? e.1 = some (.owned e.2)) :
    v.Foreign home A := by
  intro id mem
  rw [← v.map_fst_placings place] at mem
  obtain ⟨e, he, rfl⟩ := List.mem_map.1 mem
  exact shelters.not_lodger_of_owned (recorded e he) (isOpen.placings e he)

/-- What a call takes in is from elsewhere. -/
theorem foreign_of_turns (shelters : l.Shelters home A) (turns : l.Turns l' (takeIn v.rootIds)) :
    v.Foreign home A := by
  rw [← List.append_nil (takeIn v.rootIds)] at turns
  exact fun id mem => shelters.not_lodger_of_inFlight (turns.of_takeIn.2 id mem)

end Value

namespace Elements

variable {container container' : Value} {key : Key}

/-- No resource behind a position of a foreign container lodges at the home. -/
theorem not_lodger_of_behind (foreign : container.Foreign home A) {skip : Nat} :
    ∀ id ∈ behind container key skip, ¬home.Lodger A id := by
  intro id mem
  unfold behind at mem
  split at mem
  next elements i _ =>
    obtain ⟨e, he, mem⟩ := List.mem_flatMap.1 mem
    exact Value.foreign_array.1 foreign e (List.mem_of_mem_drop he) id mem
  · cases mem

/-- What is put in settles, so it is from elsewhere as well. -/
theorem Inserted.foreign (h : Inserted place key v l l' container container')
    (shelters : l.Shelters home A) (foreign : container.Foreign home A) :
    container'.Foreign home A := by
  have given : v.Foreign home A := Value.foreign_of_turns shelters h.turns
  cases h with
  | array =>
    refine Value.foreign_array.2 fun e he => ?_
    rcases List.mem_append.1 he with he | he
    · exact Value.foreign_array.1 foreign e (List.mem_append_left _ he)
    · rcases List.mem_cons.1 he with rfl | he
      · exact given
      · exact Value.foreign_array.1 foreign e (List.mem_append_right _ he)
  | dict =>
    refine Value.foreign_dict.2 fun e he => ?_
    rcases Table.mem_place he with rfl | he
    · exact given
    · exact Value.foreign_dict.1 foreign e he

/-- What is left of a foreign container after a removal is foreign. -/
theorem Removed.foreign {taken : Option Value}
    (h : Removed place key l l' container taken container')
    (foreign : container.Foreign home A) : container'.Foreign home A := by
  cases h with
  | nothing => exact foreign
  | array =>
    refine Value.foreign_array.2 fun e he => Value.foreign_array.1 foreign e ?_
    rcases List.mem_append.1 he with he | he
    · exact List.mem_append_left _ he
    · exact List.mem_append_right _ (List.mem_cons_of_mem _ he)
  | dict =>
    exact Value.foreign_dict.2 fun e he => Value.foreign_dict.1 foreign e (List.mem_filter.1 he).1

variable {name : String} {e : Fault}

/-- Putting an element in fails before it acts, or while the element
settles. -/
theorem fails_insert (h : Fails (insert container place name key v) l e l') :
    l = l' ∨ ∃ spot, Fails (settleValue v spot) l e l' := by
  unfold insert at h
  split at h
  · split at h
    · rcases fails_bind.1 h with h | ⟨_, u, -, h⟩
      · exact .inr ⟨_, h⟩
      · rcases fails_bind.1 h with h | ⟨_, w, -, h⟩
        · exact (not_fails_modify h).elim
        · exact (not_fails_pure h).elim
    · exact .inl (fails_throw.1 h).2
  · dsimp only at h
    split at h
    · exact .inl (fails_throw.1 h).2
    · rcases fails_bind.1 h with h | ⟨_, u, -, h⟩
      · exact .inr ⟨_, h⟩
      · exact (not_fails_pure h).elim
  · exact .inl (fails_throw.1 h).2

/-- Taking an element out fails before it acts, or while the element is
released. -/
theorem fails_remove (h : Fails (remove container place name key) l e l') :
    l = l' ∨ ∃ (w : Value) (k : Key), Fails (releaseValue w (place.element k)) l e l' := by
  unfold remove at h
  split at h
  · split at h
    · split at h
      · rcases fails_bind.1 h with h | ⟨_, u, -, h⟩
        · exact .inr ⟨_, _, h⟩
        · rcases fails_bind.1 h with h | ⟨_, w, -, h⟩
          · exact (not_fails_modify h).elim
          · exact (not_fails_pure h).elim
      · exact (not_fails_pure h).elim
    · exact (not_fails_pure h).elim
  · split at h
    · rcases fails_bind.1 h with h | ⟨_, u, -, h⟩
      · exact .inr ⟨_, _, h⟩
      · exact (not_fails_pure h).elim
    · exact (not_fails_pure h).elim
  · exact .inl (fails_throw.1 h).2

end Elements

/-! ## Tearing down

The host makes up what it has torn down. That every step of the order is
checked before the first is taken is what matters here: a root is in flight, so
it lies elsewhere; then so do its fields, and what is held in these; and so on
inwards. -/

namespace Ledger.Shelters

/-- **What passes the checks lies elsewhere**, if it is torn down at a place
that does. -/
theorem not_lodger_of_teardown {place? : Option Place} {order : TeardownOrder}
    (h : l.Shelters home A) (planned : v.teardown place? = .ok order)
    (isOpen : ∀ place ∈ place?, Open (home.Frees A) place)
    (held : ∀ step ∈ order, l.holding? step.1 = some ((step.2.map .owned).getD .inFlight)) :
    ∀ step ∈ order, ¬home.Lodger A step.1 := by
  induction v using Value.sortInduction generalizing place? order with
  | flat v flat =>
    rw [Value.teardown_flat flat] at planned
    obtain rfl := Except.ok.inj planned
    exact fun _ mem => nomatch mem
  | container v hv ih =>
    -- the parts of arrays and dictionaries stand at places in that of the whole
    rw [Value.teardown_container hv] at planned
    intro step mem
    obtain ⟨e, he, o, ho, inside, among⟩ := Value.exists_of_mem_joinOrders planned mem
    refine ih e.2 (Value.mem_parts_of_mem_keyed he) ho (fun spot hspot => ?_)
      (fun other hother => held other (among other hother)) step inside
    obtain ⟨place, there, rfl⟩ := Option.map_eq_some_iff.1 hspot
    exact isOpen place there
  | struct typeName fields _ =>
    rw [Value.teardown_struct] at planned
    obtain rfl := Except.ok.inj planned
    exact fun _ mem => nomatch mem
  | resource r ih =>
    rw [Value.teardown_resource] at planned
    obtain ⟨owned, hfields, same⟩ := bind_eq_ok_iff.1 planned
    obtain rfl := Except.ok.inj same
    obtain ⟨heldOwned, heldHere⟩ := List.forall_mem_append.1 held
    have away : ¬home.Lodger A r.id := by
      have here := heldHere _ List.mem_cons_self
      cases place? with
      | none => exact h.not_lodger_of_inFlight here
      | some place => exact h.not_lodger_of_owned here (isOpen place rfl r.id place rfl)
    refine List.forall_mem_append.2 ⟨fun step mem => ?_, List.forall_mem_singleton.2 away⟩
    obtain ⟨⟨name, slot⟩, hf, o, ho, inside, among⟩ := Value.exists_of_mem_joinOrders hfields mem
    cases slot with
    | none => cases ho
    | some w =>
      refine ih _ hf w rfl ho (fun spot hspot => ?_)
        (fun other hother => heldOwned other (among other hother)) step inside
      exact Option.some.inj hspot ▸ open_field away name

/-- What a resource that lies elsewhere owns does so, too. -/
theorem not_lodger_of_teardownFields {r : Resource} {skip : String → Bool} {order : TeardownOrder}
    (h : l.Shelters home A) (away : ¬home.Lodger A r.id)
    (planned : r.teardownFields skip = .ok order)
    (held : ∀ step ∈ order, l.holding? step.1 = some ((step.2.map .owned).getD .inFlight)) :
    ∀ step ∈ order, ¬home.Lodger A step.1 := by
  intro step mem
  obtain ⟨⟨name, slot⟩, -, o, ho, inside, among⟩ := Value.exists_of_mem_joinOrders planned mem
  cases slot with
  | none => cases ho
  | some w =>
    refine h.not_lodger_of_teardown ho (fun spot hspot => ?_)
      (fun other hother => held other (among other hother)) step inside
    exact Option.some.inj hspot ▸ open_field away name

/-- A planned teardown whose records hold names no lodger. -/
theorem not_lodger_of_orderOf {resources : List Resource} {order : TeardownOrder} {u w : Ledger}
    (h : l.Shelters home A) (planned : Returns (Teardown.orderOf resources) u order w)
    (held : ∀ step ∈ order, l.holding? step.1 = some ((step.2.map .owned).getD .inFlight)) :
    ∀ step ∈ order, ¬home.Lodger A step.1 := by
  obtain ⟨-, joined, -⟩ := Teardown.returns_orderOf_iff.1 planned
  intro step mem
  obtain ⟨r, -, o, ho, inside, among⟩ := Value.exists_of_mem_joinOrders joined mem
  exact h.not_lodger_of_teardown ho (fun _ there => nomatch there)
    (fun other hother => held other (among other hother)) step inside

end Ledger.Shelters

namespace Teardown

variable {order : TeardownOrder} {r : Resource} {p : Plan}

/-- Tearing a value down leaves the records of the lodgers alone. -/
theorem sheltering_razeValue : Keeps (home.Sheltering A) (razeValue v) := by
  refine fun l => Keeps.reads_bind (keeps_orderOf _) fun order planned => ?_
  refine Keeps.reads_bind keeps_check fun _ checked shelters => ?_
  have away := shelters.not_lodger_of_orderOf planned (returns_check.1 checked).1
  have kept : Keeps (home.Sheltering A) (order.forM fun step => Ledger.destroy step.1 step.2) :=
    Keeps.forM_mem fun step mem => lawful_sheltering.destroy _ _ fun place _ =>
      frees_of_not_lodger (away step mem) place
  exact kept l shelters

/-- A planned teardown leaves the records of the lodgers alone. -/
theorem sheltering_razePlanned : Keeps (home.Sheltering A) (razePlanned r p) := by
  refine fun l => Keeps.reads_bind keeps_checkDestroy fun _ afloat => ?_
  refine Keeps.reads_bind Keeps.ofExcept fun _ _ => Keeps.reads_bind Keeps.ofExcept
    fun owned planned => Keeps.reads_bind keeps_check fun _ checked shelters => ?_
  have away := shelters.not_lodger_of_inFlight (returns_checkDestroy.1 afloat).1
  have heldOwned := (List.forall_mem_append.1 (returns_check.1 checked).1).1
  have awayOwned :=
    shelters.not_lodger_of_teardownFields away (returns_ofExcept.1 planned).1 heldOwned
  have all : ∀ step ∈ owned ++ [(r.id, none)], ¬home.Lodger A step.1 :=
    List.forall_mem_append.2 ⟨awayOwned, List.forall_mem_singleton.2 away⟩
  have released : Keeps (home.Sheltering A) (releaseFields r.id (movedOut p r)) :=
    keeps_releaseFields lawful_sheltering (open_field away)
  have kept := released.bind fun _ => keeps_apply lawful_sheltering fun step mem place _ =>
    frees_of_not_lodger (all step mem) place
  exact kept l shelters

end Teardown

end Custody
