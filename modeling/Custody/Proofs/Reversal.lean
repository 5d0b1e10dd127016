import Custody.Proofs.Contents
import Custody.Proofs.Layout
import Custody.Proofs.Targets

/-!
# Putting a value in and taking it out again

A value goes into storage, into a container or into an empty field, and the next call
takes it out again. Then everything is as it was: not only is the value the same,
nothing else shows that it had been there (`take_undoes_put`).

Each of the three has a reason of its own. Storage is what it was because removing an
entry also removes the maps that the entry needed; this is where storage must not have
had empty maps to begin with. A container is what it was because its other elements
keep their order. And the records are what they were although the elements of an array
behind the value were recorded anew twice, one position further and back: they are
entered where they were found, so the records must have agreed with the data
(`State.Agrees`), and none of them is a root of the value, since that is in flight.
On the records all of this is one lemma: entries are undone by entering again what was
recorded before (`Ledger.recordAll_undo`).
-/

namespace Custody

open Ledger CustodyM

/-! ## Storage -/

/-- **No map of the store is empty.** -/
structure Store.Pruned (s : Store) : Prop where
  /-- Every account has a domain, -/
  accounts : ∀ address domains, s.accounts.get? address = some domains → domains.isEmpty = false
  /-- and every domain of an account an entry. -/
  domains : ∀ address domains domain slots, s.accounts.get? address = some domains →
    domains.get? domain = some slots → slots.isEmpty = false

/-- Whatever has been put in the place of a map, the map can be put back: it is
inserted unless it is empty, and then its key is erased. -/
theorem SortedMap.restore {κ κ' α : Type} [Ord κ] [Std.LawfulEqOrd κ] [Std.TransOrd κ]
    [DecidableEq κ] [Ord κ'] {m : SortedMap κ (SortedMap κ' α)} {key : κ}
    (full : ∀ n, m.get? key = some n → n.isEmpty = false) (n : SortedMap κ' α) :
    let old := (m.get? key).getD SortedMap.empty
    (if old.isEmpty then (m.insert key n).erase key else (m.insert key n).insert key old) = m := by
  cases found : m.get? key with
  | none => exact erase_insert found n
  | some old =>
    show (if old.isEmpty then _ else _) = m
    rw [full old found]
    exact (insert_insert m key n old).trans (insert_eq_self found)

namespace Store

variable {s : Store} {address : Address} {path : Path} {e : Entry}

/-- Storage in its layout has no empty maps. -/
theorem Tidy.pruned (tidy : s.Tidy) : s.Pruned := ⟨tidy.accounts, tidy.domains⟩

/-- Of two entries stored at a path the later one stays. -/
theorem insert_insert (s : Store) (address : Address) (path : Path) (e e' : Entry) :
    (s.insert address path e).insert address path e' = s.insert address path e' := by
  show Store.mk (SortedMap.insert (SortedMap.insert _ _ _) _ (SortedMap.insert _ _ _)) = Store.mk _
  rw [domains_insert, if_pos rfl, slots_insert, if_pos ⟨rfl, rfl⟩]
  simp only [SortedMap.insert_insert]

/-- Storing the entry that is there changes nothing. -/
theorem insert_eq_self (there : s.get? address path = some e) : s.insert address path e = s := by
  have inSlots : (s.slots address path.domain).insert path.identifier e
      = s.slots address path.domain := SortedMap.insert_eq_self there
  have inDomains : (s.domains address).get? path.domain = some (s.slots address path.domain) := by
    unfold get? slots at there
    unfold slots
    cases found : (s.domains address).get? path.domain with
    | none => rw [found] at there; cases there
    | some slots => rfl
  show Store.mk (s.accounts.insert address ((s.domains address).insert path.domain _)) = s
  rw [inSlots, SortedMap.insert_eq_self inDomains,
    SortedMap.insert_eq_self (get?_accounts_of_domains inDomains)]

/-- **An entry stored at a free path can be removed again**, and then the store is
what it was, if it had no empty maps. -/
theorem erase_insert (pruned : s.Pruned) (free : s.contains address path = false) (e : Entry) :
    (s.insert address path e).erase address path = s := by
  have inSlots : (s.slots address path.domain).get? path.identifier = none := by
    simpa [contains, get?] using free
  have inDomains (new : Slots) : withSlots ((s.domains address).insert path.domain new) path.domain
      (s.slots address path.domain) = s.domains address :=
    SortedMap.restore (fun slots found =>
      pruned.domains address _ _ slots (get?_accounts_of_domains found) found) new
  have inAccounts (new : SortedMap Domain Slots) :
      withDomains ⟨s.accounts.insert address new⟩ address (s.domains address) = s := by
    unfold withDomains
    rw [← apply_ite Store.mk]
    exact congrArg Store.mk (SortedMap.restore (pruned.accounts address) new)
  show (s.insert address path e).withDomains address (withSlots _ _ (SortedMap.erase _ _)) = s
  rw [domains_insert, if_pos rfl, slots_insert, if_pos ⟨rfl, rfl⟩, SortedMap.erase_insert inSlots,
    inDomains]
  exact inAccounts _

end Store

/-! ## Records -/

/-- **The value is afloat**: its roots are in flight, and none of them is in it twice. -/
structure Value.Afloat (v : Value) (l : Ledger) : Prop where
  distinct : v.rootIds.Nodup
  inFlight : ∀ id ∈ v.rootIds, l.holding? id = some .inFlight

namespace Ledger

variable {l : Ledger} {v : Value} {id : ResourceId} {done undo : Census}

/-- What is recorded of a resource in the end is one of the entries made for it. -/
theorem exists_holding?_recordAll {entries : Census} (mem : id ∈ entries.map Prod.fst) :
    ∃ h, (id, h) ∈ entries ∧ (l.recordAll entries).holding? id = some h := by
  induction entries generalizing l with
  | nil => cases mem
  | cons e entries ih =>
    rw [recordAll_cons]
    by_cases later : id ∈ entries.map Prod.fst
    · obtain ⟨h, among, known⟩ := ih later
      exact ⟨h, List.mem_cons_of_mem _ among, known⟩
    · obtain rfl : id = e.1 := (List.mem_cons.1 mem).resolve_right later
      refine ⟨e.2, List.mem_cons_self, ?_⟩
      rw [holding?_recordAll_of_not_mem later, holding?_record, if_pos rfl]

/-- **Entries are undone** by entering again what was recorded before of the same
resources. -/
theorem recordAll_undo (ids : undo.map Prod.fst = done.map Prod.fst)
    (was : ∀ e ∈ undo, l.holding? e.1 = some e.2) : (l.recordAll done).recordAll undo = l := by
  have records : ((l.recordAll done).recordAll undo).records = l.records := by
    refine SortedMap.ext fun id => ?_
    show ((l.recordAll done).recordAll undo).holding? id = l.holding? id
    by_cases listed : id ∈ undo.map Prod.fst
    · obtain ⟨h, among, known⟩ := exists_holding?_recordAll (l := l.recordAll done) listed
      rw [known, was _ among]
    · rw [holding?_recordAll_of_not_mem listed, holding?_recordAll_of_not_mem (ids ▸ listed)]
  exact congrArg₂ Ledger.mk ((next_recordAll _ _).trans (next_recordAll _ _)) records

/-- What has settled is recorded at its places. -/
theorem holding?_recordAll_placings {place : Place} {e : ResourceId × Place}
    (distinct : v.rootIds.Nodup) (mem : e ∈ v.placings place) :
    (l.recordAll (owning (v.placings place))).holding? e.1 = some (.owned e.2) :=
  holding?_recordAll_of_mem (by simpa) (List.mem_map_of_mem mem)

/-- **What settles can be released again.** -/
theorem exists_settle_release (afloat : v.Afloat l) (place : Place) :
    ∃ u, Returns (settleValue v place) l () u ∧ Returns (releaseValue v place) u () l := by
  obtain ⟨distinct, inFlight⟩ := afloat
  refine ⟨_, returns_settleValue_iff.2 ⟨⟨distinct, inFlight⟩, rfl⟩,
    returns_releaseValue_iff.2 ⟨⟨distinct, fun _ mem => ?_⟩, recordAll_undo (by simp) ?_⟩⟩
  · exact holding?_recordAll_placings distinct mem
  · exact List.forall_mem_map.2 inFlight

end Ledger

/-! ## Elements and fields -/

namespace Elements

variable {l l' u : Ledger} {v container : Value} {place : Place} {name field : String}
  {key key' : Key} {front back : List Value} {start n : Nat} {r : Resource}

/-- What stands at places is relocated by entering the new ones. -/
theorem returns_relocateFrom
    (owned : ∀ id ∈ back.flatMap Value.rootIds, ∃ spot, l.holding? id = some (.owned spot)) :
    Returns (relocateFrom place start back) l ()
      (l.recordAll (owning (placingsFrom place start back))) := by
  refine returns_modify.2 (relocate_eq_recordAll fun p mem => owned p.1 ?_)
  rw [← map_fst_placingsFrom place start back]
  exact List.mem_map_of_mem mem

/-- What has been relocated is recorded at some place. -/
theorem exists_holding?_relocated {id : ResourceId} (mem : id ∈ back.flatMap Value.rootIds) :
    ∃ spot, (l.recordAll (owning (placingsFrom place start back))).holding? id
      = some (.owned spot) := by
  have among : id ∈ (owning (placingsFrom place start back)).map Prod.fst := by
    simpa [map_fst_placingsFrom] using mem
  obtain ⟨h, entered, known⟩ := exists_holding?_recordAll (l := l) among
  obtain ⟨e, -, same⟩ := List.mem_map.1 entered
  exact ⟨e.2, known.trans (congrArg some (Prod.mk.inj same).2.symm)⟩

/-- **A value goes into an array and comes out again**: it settles and what stands
behind it moves up; then it is released and what stands behind it moves down. -/
theorem exists_settle_relocate (afloat : v.Afloat l)
    (recorded : ∀ e ∈ placingsFrom place n back, l.holding? e.1 = some (.owned e.2)) :
    ∃ u w x, Returns (settleValue v (place.element (.uint n))) l () u
      ∧ Returns (relocateFrom place (n + 1) back) u () w
      ∧ Returns (releaseValue v (place.element (.uint n))) w () x
      ∧ Returns (relocateFrom place n back) x () l := by
  obtain ⟨distinct, inFlight⟩ := afloat
  have owned : ∀ id ∈ back.flatMap Value.rootIds, ∃ spot, l.holding? id = some (.owned spot) := by
    intro id mem
    rw [← map_fst_placingsFrom place n back] at mem
    obtain ⟨e, he, rfl⟩ := List.mem_map.1 mem
    exact ⟨e.2, recorded e he⟩
  -- what is in flight stands nowhere
  have apart : ∀ id ∈ v.rootIds, id ∉ back.flatMap Value.rootIds := by
    intro id mem behind
    obtain ⟨spot, known⟩ := owned id behind
    cases (inFlight id mem).symm.trans known
  let u := l.recordAll (owning (v.placings (place.element (.uint n))))
  let w := u.recordAll (owning (placingsFrom place (n + 1) back))
  let x := w.recordAll (flying v.rootIds)
  have settled : Returns (settleValue v (place.element (.uint n))) l () u :=
    returns_settleValue_iff.2 ⟨⟨distinct, inFlight⟩, rfl⟩
  have up : Returns (relocateFrom place (n + 1) back) u () w := by
    refine returns_relocateFrom fun id mem => ?_
    rw [holding?_recordAll_of_not_mem fun among => apart id (by simpa using among) mem]
    exact owned id mem
  have released : Returns (releaseValue v (place.element (.uint n))) w () x := by
    refine returns_releaseValue_iff.2 ⟨⟨distinct, fun e mem => ?_⟩, rfl⟩
    have root : e.1 ∈ v.rootIds := by
      rw [← v.map_fst_placings (place.element (.uint n))]
      exact List.mem_map_of_mem mem
    rw [holding?_recordAll_of_not_mem (by simpa [map_fst_placingsFrom] using apart _ root)]
    exact holding?_recordAll_placings distinct mem
  have down : Returns (relocateFrom place n back) x ()
      (x.recordAll (owning (placingsFrom place n back))) := by
    refine returns_relocateFrom fun id mem => ?_
    rw [holding?_recordAll_of_not_mem (by simpa using fun root => apart id root mem)]
    exact exists_holding?_relocated mem
  have undone : x.recordAll (owning (placingsFrom place n back)) = l := by
    show (((l.recordAll _).recordAll _).recordAll _).recordAll _ = l
    rw [← recordAll_append l, ← recordAll_append]
    exact recordAll_undo (by simp [map_fst_placingsFrom])
      (List.forall_mem_append.2 ⟨List.forall_mem_map.2 inFlight, List.forall_mem_map.2 recorded⟩)
  exact ⟨u, w, x, settled, up, released, undone ▸ down⟩

/-- Inserting into an array settles the value and then moves up what stands
behind it. -/
theorem returns_insert_array
    (position : positionBelow? key ((front ++ back).length + 1) = some front.length)
    (settled : Returns (settleValue v (place.element (.uint front.length))) l () u)
    (moved : Returns (relocateFrom place (front.length + 1) back) u () l') :
    Returns (insert (.array (front ++ back)) place name key v) l
      (.array (front ++ v :: back)) l' := by
  unfold insert
  dsimp only
  rw [position]
  dsimp only
  rw [List.drop_left, insertIdx_length]
  exact returns_bind.2 ⟨(), u, settled, returns_bind.2 ⟨(), l', moved, returns_pure.2 ⟨rfl, rfl⟩⟩⟩

/-- Removing from an array releases the value and then moves down what stood
behind it. -/
theorem returns_remove_array
    (position : positionBelow? key (front ++ v :: back).length = some front.length)
    (released : Returns (releaseValue v (place.element (.uint front.length))) l () u)
    (moved : Returns (relocateFrom place front.length back) u () l') :
    Returns (remove (.array (front ++ v :: back)) place name key) l
      (some v, .array (front ++ back)) l' := by
  have there : (front ++ v :: back)[front.length]? = some v := by simp
  have behind : (front ++ v :: back).drop (front.length + 1) = back := by simp
  unfold remove
  dsimp only
  rw [position]
  dsimp only
  rw [there]
  dsimp only
  rw [behind, eraseIdx_length]
  exact returns_bind.2 ⟨(), u, released, returns_bind.2 ⟨(), l', moved, returns_pure.2 ⟨rfl, rfl⟩⟩⟩

/-- **A gap of a container**: under `key` a value can be put in without replacing
another, and `key'` is where it then stands. -/
inductive Gap : (container : Value) → (key key' : Key) → Prop where
  /-- In front of a position of an array, or at its end. -/
  | position {elements : List Value} {key key' : Key} {i : Nat}
      (into : positionBelow? key (elements.length + 1) = some i)
      (out : positionBelow? key' (elements.length + 1) = some i) :
      Gap (.array elements) key key'
  /-- Under a key of a dictionary that is not in use. -/
  | absent {entries : List (Key × Value)} {key : Key} (ascending : Table.Ascending entries)
      (absent : Table.get? entries key = none) : Gap (.dict entries) key key

/-- **What is inserted can be removed again**, and then the container and the
records are what they were. -/
theorem exists_insert_remove (place : Place) (name : String) (gap : Gap container key key')
    (afloat : v.Afloat l)
    (recorded : ∀ e ∈ container.placings place, l.holding? e.1 = some (.owned e.2)) :
    ∃ new u, Returns (insert container place name key v) l new u
      ∧ Returns (remove new place name key') u (some v, container) l := by
  cases gap with
  | @position elements _ _ i into out =>
    have le : i ≤ elements.length := Nat.le_of_lt_succ (positionBelow?_eq_some into)
    obtain ⟨front, back, rfl, rfl⟩ := exists_append_of_le le
    rw [placings_array, placingsFrom_append, Nat.zero_add] at recorded
    obtain ⟨u, w, x, settled, up, released, down⟩ := exists_settle_relocate afloat
      (List.forall_mem_append.1 recorded).2
    have longer : (front ++ v :: back).length = (front ++ back).length + 1 := by
      simp only [List.length_append, List.length_cons]
      omega
    exact ⟨_, w, returns_insert_array into settled up,
      returns_remove_array (longer ▸ out) released down⟩
  | @absent entries _ ascending absent =>
    obtain ⟨u, settled, released⟩ := exists_settle_release afloat (place.element key)
    refine ⟨.dict (Table.place entries key v), u, ?_, ?_⟩
    · unfold insert
      dsimp only
      rw [absent]
      exact returns_bind.2 ⟨(), u, settled, returns_pure.2 ⟨rfl, rfl⟩⟩
    · unfold remove
      dsimp only
      rw [Table.get?_place, if_pos rfl]
      dsimp only
      rw [ascending.erase_place absent]
      exact returns_bind.2 ⟨(), l, released, returns_pure.2 ⟨rfl, rfl⟩⟩

/-- **What is pushed can be removed again** by the position it was pushed to. -/
theorem exists_push_remove {elements : List Value} (place : Place) (name : String)
    (last : positionBelow? key (elements.length + 1) = some elements.length)
    (afloat : v.Afloat l) :
    ∃ new u, Returns (push (.array elements) place name v) l new u
      ∧ Returns (remove new place name key) u (some v, .array elements) l := by
  obtain ⟨u, settled, released⟩ :=
    exists_settle_release afloat (place.element (.uint elements.length))
  have out : positionBelow? key (elements ++ [v]).length = some elements.length := by
    rw [List.length_append]
    exact last
  have nothing : Returns (relocateFrom place elements.length []) l () l := returns_modify.2 rfl
  have removed : Returns (remove (.array (elements ++ [v])) place name key) u
      (some v, .array (elements ++ [])) l := returns_remove_array out released nothing
  rw [List.append_nil] at removed
  exact ⟨_, u, returns_bind.2 ⟨(), u, settled, returns_pure.2 ⟨rfl, rfl⟩⟩, removed⟩

/-- **What is put into an empty field can be taken out again.** -/
theorem exists_putField_takeField (name : String) (has : r.hasField field = true)
    (empty : r.field? field = none) (afloat : v.Afloat l) :
    ∃ filled u, Returns (putField r name field v) l filled u
      ∧ Returns (takeField filled name field) u (v, r) l := by
  obtain ⟨u, settled, released⟩ := exists_settle_release afloat (.field r.id field)
  have there := Resource.field?_putField r field v
  refine ⟨r.putField field v, u, ?_, ?_⟩
  · unfold putField
    rw [if_pos has, empty]
    exact returns_bind.2 ⟨(), u, settled, returns_pure.2 ⟨rfl, rfl⟩⟩
  · unfold takeField
    rw [if_pos (Resource.hasField_of_field? there), there]
    refine returns_bind.2 ⟨(), l, released, returns_pure.2 ⟨congrArg _ ?_, rfl⟩⟩
    exact Resource.emptyField_putField has empty v

end Elements

/-! ## Records that agree with the data -/

namespace State

variable {s : State} {id : ResourceId} {spot : Place} {target : Target} {v : Value}

/-- **The records agree with the data**: every resource in a local, in a container or
in storage is recorded where it stands. -/
def Agrees (s : State) : Prop :=
  ∀ id place, s.Found [] id place → s.ledger.holding? id = some (.owned place)

/-- The records agree with the data whenever everything is in order. -/
theorem InOrder.agrees {hands : List Resource} (o : s.InOrder hands) : s.Agrees :=
  fun _ place found => o.reflects.holding?
    (List.mem_append_left _ (mem_standing_iff.2 ⟨place, rfl, found⟩))

/-- What is found in the value at a target is found in the custodian. -/
theorem found_of_target (there : Members.targetValue? s target = some v)
    (inside : v.Found target.place id spot) : s.Found [] id spot := by
  cases target with
  | stored address path => exact .stored there inside
  | binding frame name =>
    obtain ⟨f, opened, bound⟩ := CallStack.value_eq_ok (Members.value_of_targetValue? there)
    obtain rfl := CallStack.id_of_frame_eq_ok opened
    exact .bound (CallStack.mem_of_frame_eq_ok opened) (Table.mem_of_get?_eq_some bound) inside

end State

/-! ## Storage, locals and members -/

section Calls

variable {α β : Type} {s : State} {v old new container : Value} {l : Ledger} {a : α} {b : β}
  {name field : String} {key key' : Key}

/-- **What is saved at a free path can be loaded again**, at every type that it has. -/
theorem Storage.exists_save_load {address : Address} {path : Path} {expected : Ty}
    (pruned : s.store.Pruned) (storable : v.isStorable = true) (afloat : v.Afloat s.ledger)
    (may : s.Authorizes address) (values : path.domain.holdsValues = true)
    (vacant : s.store.contains address path = false)
    (free : s.loans.isBorrowed (.stored address path) = false)
    (fits : s.registry.isSubtype v.ty expected = true) :
    ∃ t, Returns (save address path v) s () t
      ∧ Returns (load address path expected) t (some v) s := by
  obtain ⟨l, settled, released⟩ := exists_settle_release afloat (.stored address path)
  have there : (s.store.insert address path (.value v)).value? address path = some v := by
    rw [Store.value?, Store.get?_insert, if_pos rfl]
    rfl
  refine ⟨{ s with ledger := l, store := s.store.insert address path (.value v) },
    returns_save_iff.2 ⟨⟨may, values⟩, storable, vacant, l, settled, rfl⟩,
    returns_load_some_iff.2 ⟨⟨may, values⟩, there, fits, free, s.ledger, released, ?_⟩⟩
  rw [Store.erase_insert pruned vacant]

namespace Members

variable {target : Target} {r : Reference} {member : String} {owner : Resource}

@[simp] theorem loans_replaced (s : State) (target : Target) (l : Ledger) (v : Value) :
    (replaced s target l v).loans = s.loans := by
  cases target <;> rfl

@[simp] theorem registry_replaced (s : State) (target : Target) (l : Ledger) (v : Value) :
    (replaced s target l v).registry = s.registry := by
  cases target <;> rfl

/-- What was put at a target is found there. -/
theorem targetValue?_replaced (found : targetValue? s target = some old) (l : Ledger) (v : Value) :
    targetValue? (replaced s target l v) target = some v := by
  rw [replaced_eq_writeAt]
  refine targetValue?_writeAt_self (v := old) ?_ v
  cases target <;> exact found

/-- What was at a target can be put back. -/
theorem replaced_replaced (found : targetValue? s target = some old) (l : Ledger) (v : Value) :
    replaced (replaced s target l v) target s.ledger old = s := by
  cases target with
  | stored address path =>
    show { s with store := (s.store.insert address path _).insert address path _ } = s
    rw [Store.insert_insert, Store.insert_eq_self (Storage.standingAt_of_value? found).2]
  | binding frame name =>
    show { s with stack := (s.stack.setLocal frame name _).setLocal frame name _ } = s
    rw [CallStack.setLocal_setLocal, CallStack.setLocal_eq_self (value_of_targetValue? found)]

end Members

namespace Locals

variable {frame : FrameId}

/-- **A local that can be changed**, with its value: a transaction is running and no
reference is onto the local. -/
structure Offers (s : State) (frame : FrameId) (name : String) (v : Value) : Prop where
  running : s.inTransaction = true
  free : s.loans.isBorrowed (.binding frame name) = false
  bound : s.stack.value frame name = .ok v

/-- The value on offer is what a reference onto the local would lead to. -/
theorem Offers.targetValue? (offers : Offers s frame name v) :
    Members.targetValue? s (.binding frame name) = some v := by
  show (s.stack.value frame name).toOption = _
  rw [offers.bound]
  rfl

/-- A change of a local that is offered writes back what the action leaves. -/
theorem returns_change {action : Value → LedgerM (α × Value)} (offers : Offers s frame name old)
    (acted : Returns (action old) s.ledger (a, new) l) :
    Returns (change frame name action) s a (Members.replaced s (.binding frame name) l new) := by
  obtain ⟨tx, running⟩ := Option.isSome_iff_exists.1 offers.running
  refine returns_guarded.2 (returns_bind.2 ⟨tx, s, returns_requireTransaction.2 ⟨running, rfl⟩, ?_⟩)
  refine returns_bind.2 ⟨(), s, returns_ensureNotBorrowed.2 ⟨offers.free, rfl⟩, ?_⟩
  refine returns_get_bind.2 (returns_bind.2 ⟨old, s, returns_ofExcept.2 ⟨offers.bound, rfl⟩, ?_⟩)
  refine returns_bind.2 ⟨(a, new), _, returns_onLedger.2 ⟨l, acted, rfl⟩, ?_⟩
  exact returns_bind.2 ⟨(), _, returns_modify.2 rfl, returns_pure.2 ⟨rfl, rfl⟩⟩

/-- **Two changes of a local that cancel** leave everything as it was. -/
theorem exists_change_change {put : Value → LedgerM (α × Value)}
    {take : Value → LedgerM (β × Value)}
    (offers : Offers s frame name old) (there : Returns (put old) s.ledger (a, new) l)
    (back : Returns (take new) l (b, old) s.ledger) :
    ∃ t, Returns (change frame name put) s a t ∧ Returns (change frame name take) t b s := by
  have changed : Offers (Members.replaced s (.binding frame name) l new) frame name new :=
    ⟨offers.running, offers.free, CallStack.value_setLocal_self offers.bound new⟩
  have restored := returns_change changed back
  rw [Members.replaced_replaced offers.targetValue?] at restored
  exact ⟨_, returns_change offers there, restored⟩

/-- What was inserted into a gap of a local is removed from it again. -/
theorem exists_insert_remove (agrees : s.Agrees) (offers : Offers s frame name container)
    (gap : Elements.Gap container key key') (afloat : v.Afloat s.ledger) :
    ∃ t, Returns (insert frame name key v) s () t
      ∧ Returns (remove frame name key') t (some v) s := by
  obtain ⟨new, l, inserted, removed⟩ := Elements.exists_insert_remove (place frame name) name gap
    afloat fun e he => agrees _ _
      (State.found_of_target offers.targetValue? (Value.found_of_mem_placings he))
  exact exists_change_change offers
    (returns_bind.2 ⟨new, l, inserted, returns_pure.2 ⟨rfl, rfl⟩⟩) removed

/-- What was appended to an array in a local is removed from its end again. -/
theorem exists_push_remove {elements : List Value} (offers : Offers s frame name (.array elements))
    (last : Elements.positionBelow? key (elements.length + 1) = some elements.length)
    (afloat : v.Afloat s.ledger) :
    ∃ t, Returns (push frame name v) s () t ∧ Returns (remove frame name key) t (some v) s := by
  obtain ⟨new, l, pushed, removed⟩ :=
    Elements.exists_push_remove (place frame name) name last afloat
  exact exists_change_change offers
    (returns_bind.2 ⟨new, l, pushed, returns_pure.2 ⟨rfl, rfl⟩⟩) removed

/-- What was put into an empty field of a local is taken out again. -/
theorem exists_putField_takeField {r : Resource} (offers : Offers s frame name r.toValue)
    (has : r.hasField field = true) (empty : r.field? field = none) (afloat : v.Afloat s.ledger) :
    ∃ t, Returns (putField frame name field v) s () t
      ∧ Returns (takeField frame name field) t v s := by
  obtain ⟨filled, l, put, took⟩ :=
    Elements.exists_putField_takeField name has empty afloat
  exact exists_change_change offers
    (returns_bind.2 ⟨((), filled), l, returns_bind.2 ⟨filled, l, put, returns_pure.2 ⟨rfl, rfl⟩⟩,
      returns_pure.2 ⟨rfl, rfl⟩⟩)
    (returns_bind.2 ⟨(v, r), s.ledger, took, returns_pure.2 ⟨rfl, rfl⟩⟩)

end Locals

namespace Members

variable {r : Reference} {member : String} {owner : Resource}

/-- **A container that a live reference reaches**: it is in a member that the reference
shows, of the resource that it was issued for. -/
structure Reaches (r : Reference) (member : String) (s : State) (owner : Resource)
    (container : Value) : Prop where
  seen : Sees r s owner.toValue
  issued : r.identity = some owner.id
  shown : Grants r s member
  held : owner.field? member = some container

/-- A live reference that shows the member has access to it. -/
theorem returns_checkAccess (live : s.loans.isLive r = true) (shown : Grants r s member) :
    Returns (checkAccess r member) s () s := by
  unfold Grants at shown
  unfold checkAccess
  rw [returns_get_bind]
  dsimp only
  rw [live, shown]
  exact returns_pure.2 ⟨rfl, rfl⟩

/-- A change through a reference writes back what the action leaves in the
member. -/
theorem returns_change {action : Value → Place → String → LedgerM (α × Value)}
    (reached : Reaches r member s owner container)
    (acted : Returns (action container (.field owner.id member) (owner.typeName ++ "." ++ member))
      s.ledger (a, new) l) :
    Returns (change r member action) s a
      (replaced s r.target l (owner.putField member new).toValue) := by
  have found : Returns (value r) s owner.toValue s := by
    unfold value
    rw [returns_get_bind, reached.seen.2]
    dsimp only
    rw [show owner.toValue.resourceId? = r.identity from reached.issued.symm, if_pos rfl]
    exact returns_pure.2 ⟨rfl, rfl⟩
  refine returns_bind.2 ⟨(), s, returns_checkAccess reached.seen.1 reached.shown, ?_⟩
  refine returns_bind.2 ⟨_, s, found, ?_⟩
  refine returns_refusal_bind.2 ⟨by simp [Resource.hasField_of_field? reached.held], ?_⟩
  dsimp only
  rw [reached.held]
  refine returns_bind.2 ⟨(a, new), _, returns_onLedger.2 ⟨l, acted, rfl⟩, ?_⟩
  refine returns_bind.2 ⟨(), _, ?_, returns_pure.2 ⟨rfl, rfl⟩⟩
  rw [replaced_eq_writeAt]
  exact outcome_replace _

/-- **Two changes of a container in a member that cancel** leave everything as it was. -/
theorem exists_change_change (put : Value → Place → String → LedgerM (α × Value))
    (take : Value → Place → String → LedgerM (β × Value))
    (reached : Reaches r member s owner container)
    (there : Returns (put container (.field owner.id member) (owner.typeName ++ "." ++ member))
      s.ledger (a, new) l)
    (back : Returns (take new (.field owner.id member) (owner.typeName ++ "." ++ member))
      l (b, container) s.ledger) :
    ∃ t, Returns (change r member put) s a t ∧ Returns (change r member take) t b s := by
  let t := replaced s r.target l (owner.putField member new).toValue
  have changed : Reaches r member t (owner.putField member new) new := by
    refine ⟨⟨?_, targetValue?_replaced reached.seen.2 _ _⟩, reached.issued, ?_,
      Resource.field?_putField owner member new⟩
    · rw [loans_replaced]
      exact reached.seen.1
    · unfold Grants
      rw [registry_replaced]
      exact reached.shown
  rw [← ledger_replaced s r.target l (owner.putField member new).toValue] at back
  have restored := returns_change changed back
  rw [Resource.putField_putField reached.held, replaced_replaced reached.seen.2] at restored
  exact ⟨t, returns_change reached there, restored⟩

/-- What can be stored may be put behind a reference. -/
theorem exists_guarded_ensureStorable {put : CustodyM α} {take : CustodyM β}
    (storable : v.isStorable = true) (calls : ∃ t, Returns put s a t ∧ Returns take t b s) :
    ∃ t, Returns (guarded (Storage.ensureStorable v >>= fun _ => put)) s a t
      ∧ Returns (guarded take) t b s := by
  obtain ⟨t, done, took⟩ := calls
  have accepted : Returns (Storage.ensureStorable v) s () s :=
    Storage.returns_ensureStorable_iff.2 ⟨storable, rfl⟩
  exact ⟨t, returns_guarded.2 (returns_bind.2 ⟨(), s, accepted, done⟩), returns_guarded.2 took⟩

/-- What was inserted into a gap through a reference is removed through it
again. -/
theorem exists_insert_remove (agrees : s.Agrees) (reached : Reaches r member s owner container)
    (gap : Elements.Gap container key key') (storable : v.isStorable = true)
    (afloat : v.Afloat s.ledger) :
    ∃ t, Returns (insert r member key v) s () t ∧ Returns (remove r member key') t (some v) s := by
  have inField : (member, some container) ∈ owner.fields :=
    Table.mem_of_get?_eq_some (Option.join_eq_some_iff.1 reached.held)
  obtain ⟨new, l, inserted, removed⟩ := Elements.exists_insert_remove (.field owner.id member)
    (owner.typeName ++ "." ++ member) gap afloat fun e he => agrees _ _
      (State.found_of_target reached.seen.2 (.field inField (Value.found_of_mem_placings he)))
  exact exists_guarded_ensureStorable storable <| exists_change_change
    (fun container place name => do return ((), ← Elements.insert container place name key v))
    (fun container place name => Elements.remove container place name key') reached
    (returns_bind.2 ⟨new, l, inserted, returns_pure.2 ⟨rfl, rfl⟩⟩) removed

/-- What was appended to an array through a reference is removed through it
again. -/
theorem exists_push_remove {elements : List Value}
    (reached : Reaches r member s owner (.array elements))
    (last : Elements.positionBelow? key (elements.length + 1) = some elements.length)
    (storable : v.isStorable = true) (afloat : v.Afloat s.ledger) :
    ∃ t, Returns (push r member v) s () t ∧ Returns (remove r member key) t (some v) s := by
  obtain ⟨new, l, pushed, removed⟩ := Elements.exists_push_remove (.field owner.id member)
    (owner.typeName ++ "." ++ member) last afloat
  exact exists_guarded_ensureStorable storable <| exists_change_change
    (fun container place name => do return ((), ← Elements.push container place name v))
    (fun container place name => Elements.remove container place name key) reached
    (returns_bind.2 ⟨new, l, pushed, returns_pure.2 ⟨rfl, rfl⟩⟩) removed

end Members

end Calls

/-! ## Putting in and taking out -/

/-- **The second call takes out what the first puts in**: both can be made, and they
are about the same place, which holds nothing yet. -/
inductive Operation.Reverses (s : State) (v : Value) : (put take : Operation) → Prop where
  /-- At a path for values that is free, at a type that the value has. -/
  | stored {address : Address} {path : Path} {expected : Ty} (may : s.Authorizes address)
      (values : path.domain.holdsValues = true) (vacant : s.store.contains address path = false)
      (free : s.loans.isBorrowed (.stored address path) = false)
      (fits : s.registry.isSubtype v.ty expected = true) :
      Reverses s v (.save address path v) (.load address path expected)
  /-- In a gap of a local container. -/
  | inserted {frame : FrameId} {name : String} {container : Value} {key key' : Key}
      (offers : Locals.Offers s frame name container) (gap : Elements.Gap container key key') :
      Reverses s v (.insert frame name key v) (.remove frame name key')
  /-- At the end of a local array. -/
  | pushed {frame : FrameId} {name : String} {elements : List Value} {key : Key}
      (offers : Locals.Offers s frame name (.array elements))
      (last : Elements.positionBelow? key (elements.length + 1) = some elements.length) :
      Reverses s v (.push frame name v) (.remove frame name key)
  /-- In an empty field of a local resource. -/
  | filled {frame : FrameId} {name field : String} {r : Resource}
      (offers : Locals.Offers s frame name r.toValue) (has : r.hasField field = true)
      (empty : r.field? field = none) :
      Reverses s v (.putField frame name field v) (.takeField frame name field)
  /-- In a gap of a container behind a reference. -/
  | insertedMember {r : Reference} {member : String} {owner : Resource} {container : Value}
      {key key' : Key} (reached : Members.Reaches r member s owner container)
      (gap : Elements.Gap container key key') :
      Reverses s v (.insertMember r member key v) (.removeMember r member key')
  /-- At the end of an array behind a reference. -/
  | pushedMember {r : Reference} {member : String} {owner : Resource} {elements : List Value}
      {key : Key} (reached : Members.Reaches r member s owner (.array elements))
      (last : Elements.positionBelow? key (elements.length + 1) = some elements.length) :
      Reverses s v (.pushMember r member v) (.removeMember r member key)

/-- **Taking out undoes putting in.** In every state in which the records agree with
the data and storage has no empty maps, a storable value whose roots are in flight and
distinct can be put into storage, into a container or into an empty field, and taken out
again: both calls return, the second returns the value, and it leaves the custodian,
with its storage, its frames, its references and its records, as the first found it. -/
theorem take_undoes_put {s : State} {v : Value} {put take : Operation} (agrees : s.Agrees)
    (pruned : s.store.Pruned) (storable : v.isStorable = true) (afloat : v.Afloat s.ledger)
    (reverses : Operation.Reverses s v put take) :
    ∃ t, Returns put.perform s .done t ∧ Returns take.perform t (.value (some v)) s := by
  have report {put : CustodyM Unit} {take : CustodyM (Option Value)}
      (calls : ∃ t, Returns put s () t ∧ Returns take t (some v) s) :
      ∃ t, Returns (Reply.ofUnit put) s .done t
        ∧ Returns (do return Reply.value (← take)) t (Reply.value (some v)) s := by
    obtain ⟨t, done, took⟩ := calls
    exact ⟨t, Reply.returns_ofUnit.2 ⟨done, rfl⟩,
      returns_bind.2 ⟨some v, s, took, returns_pure.2 ⟨rfl, rfl⟩⟩⟩
  cases reverses with
  | stored may values vacant free fits =>
    exact report (Storage.exists_save_load pruned storable afloat may values vacant free fits)
  | inserted offers gap => exact report (Locals.exists_insert_remove agrees offers gap afloat)
  | pushed offers last => exact report (Locals.exists_push_remove offers last afloat)
  | filled offers has empty =>
    obtain ⟨t, done, took⟩ := Locals.exists_putField_takeField offers has empty afloat
    exact ⟨t, Reply.returns_ofUnit.2 ⟨done, rfl⟩,
      returns_bind.2 ⟨v, s, took, returns_pure.2 ⟨rfl, rfl⟩⟩⟩
  | insertedMember reached gap =>
    exact report (Members.exists_insert_remove agrees reached gap storable afloat)
  | pushedMember reached last =>
    exact report (Members.exists_push_remove reached last storable afloat)

namespace Scenario

/-- Alice borrows the vault. -/
def lendVault : Operation := .borrowStored alice vaultPath ⟨false, .composite "Vault"⟩

/-- The reference that she gets. -/
def vaultRef : Reference :=
  ⟨⟨1⟩, .stored alice vaultPath, some ⟨2⟩, ⟨false, .composite "Vault"⟩, FrameId.transaction⟩

/-- A vault with a coin is stored and borrowed, and another coin is in hand. -/
def onLoan : State := keeping.after [.call lendVault]

/-- She puts the coin in front of the one in the vault, -/
def putFirst : Operation := .insertMember vaultRef "coins" (.uint 0) looseCoin.toValue

/-- and takes the first coin out. -/
def takeFirst : Operation := .removeMember vaultRef "coins" (.int 0)

/-- She saves the coin, -/
def putAside : Operation := .save alice spendingPath looseCoin.toValue

/-- and loads it. -/
def takeBack : Operation := .load alice spendingPath (.composite "Coin")

/-- The vault was lent in a disciplined run, with the coin in hand. -/
theorem reachable_onLoan : Reachable Settings.standard registry onLoan [looseCoin] :=
  (run_keeping.snoc (@Step.returned keeping [looseCoin] lendVault [looseCoin] (.reference vaultRef)
    _ rfl (.of_few (Nat.zero_le 1) rfl (List.forall_mem_nil _)) (by decide) (List.Perm.refl _)
    rfl)).reachable (Reachable.start .fresh [alice] writable_fresh)

/-- No map of the store is empty. -/
theorem pruned_onLoan : onLoan.store.Pruned := by
  have stored : (Store.empty.insert alice vaultPath (.value keptVault.toValue)).Tidy :=
    Store.Tidy.empty.insert ⟨rfl, rfl⟩
  exact stored.pruned

/-- The coin is in flight. -/
theorem afloat_looseCoin : looseCoin.toValue.Afloat onLoan.ledger where
  distinct := List.nodup_singleton (⟨3⟩ : ResourceId)
  inFlight id mem := by
    obtain rfl := List.mem_singleton.1 (show id ∈ [(⟨3⟩ : ResourceId)] from mem)
    rfl

/-- The reference reaches the coins of the vault. -/
theorem reaches_coins :
    Members.Reaches vaultRef "coins" onLoan keptVault (.array [keptCoin.toValue]) :=
  ⟨⟨rfl, rfl⟩, rfl, rfl, rfl⟩

end Scenario

/-- While the coin in hand is in front of the one in the vault, that one is a position
further back. -/
theorem take_undoes_put_vault :
    (∃ t, Returns Scenario.putFirst.perform Scenario.onLoan .done t
        ∧ Returns Scenario.takeFirst.perform t (.value (some Scenario.looseCoin.toValue))
          Scenario.onLoan
        ∧ t.ledger.holding? ⟨1⟩ = some (.owned ((Place.field ⟨2⟩ "coins").element (.uint 1))))
      ∧ ∃ t, Returns Scenario.putAside.perform Scenario.onLoan .done t
        ∧ Returns Scenario.takeBack.perform t (.value (some Scenario.looseCoin.toValue))
          Scenario.onLoan := by
  have clean : Scenario.onLoan.isPoisoned = false := rfl
  have agrees := (Scenario.reachable_onLoan.sound.inOrder clean).agrees
  have may : Scenario.onLoan.Authorizes Scenario.alice := ⟨_, rfl, fun _ => rfl⟩
  have first : Operation.Reverses Scenario.onLoan Scenario.looseCoin.toValue Scenario.putFirst
      Scenario.takeFirst := .insertedMember Scenario.reaches_coins (.position rfl rfl)
  have aside : Operation.Reverses Scenario.onLoan Scenario.looseCoin.toValue Scenario.putAside
      Scenario.takeBack := .stored may rfl rfl rfl rfl
  obtain ⟨t, put, took⟩ :=
    take_undoes_put agrees Scenario.pruned_onLoan rfl Scenario.afloat_looseCoin first
  refine ⟨⟨t, put, took, ?_⟩,
    take_undoes_put agrees Scenario.pruned_onLoan rfl Scenario.afloat_looseCoin aside⟩
  have there : Returns Scenario.putFirst.perform Scenario.onLoan .done _ := rfl
  rw [(put.unique there).2]
  rfl

end Custody
