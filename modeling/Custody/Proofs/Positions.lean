import Custody.Proofs.Refusal
import Custody.Proofs.Resumption
import Custody.Proofs.Settlement

/-!
# Records that follow the positions of elements

The roots of a container are recorded at the places of its elements, so when an
element comes in or goes out, the records of others may have to change: an array
moves what stands behind up or down by one position. The data is moved first and
the records afterwards, each to where its resource stands now, whatever the
record said before.

That this is right is a matter of keeping the parts apart. What comes in was in
flight, so it is nothing that stands in the container; and of what stands there
nothing is there twice, since each root is recorded where it stands and no two
stand in one place. So an entry made for one part leaves the records of the
others alone (`Ledger.Amends.trans`, `Ledger.Amends.beside`), and the parts
together are the container as it is afterwards.

A dictionary has no positions to move. But an entry that comes in may take the
place of another, and that is refused if resources would be lost. The check looks
for roots. So an entry is **overlooked** if all the resources in it are buried in
structs, as they can be in what was decoded, and it is overwritten with all that is
in it (`boxed_coin_overwritten`). Every other entry with a resource in it is safe.
-/

namespace Custody

open Ledger

namespace Value

/-- The element that a key stands for. -/
def element? : Value → Key → Option Value
  | .array elements, key => key.position?.bind fun i => elements[i]?
  | .dict entries, key => Table.get? entries key
  | _, _ => none

/-- **The container with a value put in**: into an array in front of a position,
or at its end; into a dictionary under a key, and all other keys stand for what
they stood for. -/
inductive PutIn (key : Key) (v : Value) : (container container' : Value) → Prop where
  | array {front back : List Value} (position : key.position? = some front.length) :
      PutIn key v (.array (front ++ back)) (.array (front ++ v :: back))
  | dict {entries entries' : List (Key × Value)} (ascending : Table.Ascending entries')
      (lookup : ∀ other, Table.get? entries' other
        = if other = key then some v else Table.get? entries other) :
      PutIn key v (.dict entries) (.dict entries')

/-- **The container with an element taken out**, if the key stands for one. -/
inductive TakenOut (key : Key) :
    (container : Value) → (taken : Option Value) → (container' : Value) → Prop where
  | array {front back : List Value} {v : Value} (position : key.position? = some front.length) :
      TakenOut key (.array (front ++ v :: back)) (some v) (.array (front ++ back))
  | dict {entries entries' : List (Key × Value)} {v : Value}
      (found : Table.get? entries key = some v) (ascending : Table.Ascending entries')
      (lookup : ∀ other, Table.get? entries' other
        = if other = key then none else Table.get? entries other) :
      TakenOut key (.dict entries) (some v) (.dict entries')
  | missing {container : Value} (absent : container.element? key = none) :
      TakenOut key container none container

theorem rootIds_array (elements : List Value) :
    (Value.array elements).rootIds = elements.flatMap Value.rootIds := by
  rw [rootIds_eq, resources_array, List.map_flatMap]
  exact List.flatMap_congr fun v _ => v.rootIds_eq.symm

theorem rootIds_dict (entries : List (Key × Value)) :
    (Value.dict entries).rootIds = entries.flatMap fun e => e.2.rootIds := by
  rw [rootIds_eq, resources_dict, List.map_flatMap]
  exact List.flatMap_congr fun e _ => e.2.rootIds_eq.symm

theorem placings_dict (entries : List (Key × Value)) (place : Place) :
    (Value.dict entries).placings place
      = entries.flatMap fun e => e.2.placings (place.element e.1) :=
  placings_container (v := .dict entries) trivial place

/-- Where a resource is found there is a root. -/
theorem Found.rootIds_ne_nil {v : Value} {place spot : Place} {id : ResourceId}
    (h : v.Found place id spot) : v.rootIds ≠ [] := by
  induction h with
  | root | field =>
    rw [rootIds_eq, resources_resource]
    exact List.cons_ne_nil _ _
  | element there _ ih =>
    rw [rootIds_array]
    exact fun none => ih (List.flatMap_eq_nil_iff.1 none _ (List.mem_of_getElem? there))
  | entry there _ ih =>
    rw [rootIds_dict]
    exact fun none => ih (List.flatMap_eq_nil_iff.1 none _ there)

/-- A root is among the resources that a value contains. -/
theorem identities_ne_nil_of_rootIds {v : Value} (h : v.rootIds ≠ []) : v.identities ≠ [] := by
  obtain ⟨id, root⟩ := List.exists_mem_of_ne_nil _ h
  rw [← v.map_fst_placings (.field id "")] at root
  obtain ⟨p, stands, rfl⟩ := List.mem_map.1 root
  exact List.ne_nil_of_mem (found_of_mem_placings stands).mem_identities

/-- In a value without a root, all resources are buried. -/
theorem exists_buried {v : Value} (rootless : v.rootIds = []) (h : v.identities ≠ []) :
    ∃ id, v.Buried id := by
  obtain ⟨id, inside⟩ := List.exists_mem_of_ne_nil _ h
  rcases (mem_identities_iff (.field id "")).1 inside with ⟨_, found⟩ | buried
  · exact (found.rootIds_ne_nil rootless).elim
  · exact ⟨id, buried⟩

/-- **An entry of a dictionary contains a resource**, at whatever depth. -/
def Holds (container : Value) (key : Key) : Prop :=
  ∃ entries old, container = .dict entries ∧ Table.get? entries key = some old
    ∧ old.identities ≠ []

/-- **An entry of a dictionary is overlooked**: it has no root, and yet a resource is
in it, buried in a struct. -/
def Overlooks (container : Value) (key : Key) : Prop :=
  ∃ entries old, container = .dict entries ∧ Table.get? entries key = some old
    ∧ old.rootIds = [] ∧ ∃ id, old.Buried id

/-- An entry has a root exactly if a resource is in it and it is not overlooked. -/
theorem exists_root_iff {container : Value} {key : Key} :
    (∃ entries old, container = .dict entries ∧ Table.get? entries key = some old
        ∧ old.rootIds ≠ [])
      ↔ container.Holds key ∧ ¬container.Overlooks key := by
  constructor
  · rintro ⟨entries, old, rfl, there, rooted⟩
    refine ⟨⟨entries, old, rfl, there, identities_ne_nil_of_rootIds rooted⟩, ?_⟩
    rintro ⟨_, old', ⟨⟩, there', rootless, -⟩
    obtain rfl := Option.some.inj (there.symm.trans there')
    exact rooted rootless
  · rintro ⟨⟨entries, old, rfl, there, holds⟩, safe⟩
    exact ⟨entries, old, rfl, there, fun rootless =>
      safe ⟨entries, old, rfl, there, rootless, exists_buried rootless holds⟩⟩

end Value

/-! ## Amendments in parts -/

namespace Ledger

variable {l l' u : Ledger} {entries entries' stay : Census}

theorem Amends.refl (l : Ledger) : l.Amends l [] where
  entered _ mem := nomatch mem
  elsewhere _ _ := rfl
  next := rfl

theorem Amends.perm (h : l.Amends l' entries) (p : entries.Perm entries') :
    l.Amends l' entries' where
  entered e he := h.entered e (p.mem_iff.2 he)
  elsewhere id away := h.elsewhere id fun mem => away ((p.map Prod.fst).mem_iff.1 mem)
  next := h.next

/-- What is recorded of other resources stays beside the entries. -/
theorem Amends.beside (h : l.Amends l' entries) (known : ∀ e ∈ stay, l.holding? e.1 = some e.2)
    (distinct : ((stay ++ entries).map Prod.fst).Nodup) : l.Amends l' (stay ++ entries) := by
  rw [List.map_append] at distinct
  obtain ⟨-, -, apart⟩ := List.nodup_append.1 distinct
  refine ⟨List.forall_mem_append.2 ⟨fun e he => ?_, h.entered⟩, fun id away => ?_, h.next⟩
  · rw [h.elsewhere e.1 fun mem => apart _ (List.mem_map_of_mem he) _ mem rfl]
    exact known e he
  · rw [List.map_append, List.mem_append, not_or] at away
    exact h.elsewhere id away.2

/-- What stands at places is on record there. -/
theorem entered_of_held {placings : List (ResourceId × Place)}
    (held : ∀ p ∈ placings, l.holding? p.1 = some (.owned p.2)) :
    ∀ e ∈ owning placings, l.holding? e.1 = some e.2 :=
  List.forall_mem_map.2 held

/-- **Amendments one after the other** are one, if they have nothing in common. -/
theorem Amends.trans (h : l.Amends u entries) (h' : u.Amends l' entries')
    (distinct : ((entries ++ entries').map Prod.fst).Nodup) :
    l.Amends l' (entries ++ entries') where
  entered := (h'.beside h.entered distinct).entered
  elsewhere id away := by
    rw [List.map_append, List.mem_append, not_or] at away
    rw [h'.elsewhere id away.2, h.elsewhere id away.1]
  next := h'.next.trans h.next

end Ledger

namespace Elements

variable {container container' v : Value} {place : Place} {name : String} {key : Key}
  {l l' : Ledger} {taken : Option Value} {elements front back : List Value} {start : Nat}

/-! ## What the container becomes -/

theorem putIn_of_insert (readable : container.Readable)
    (h : Returns (insert container place name key v) l container' l') :
    Value.PutIn key v container container' := by
  unfold insert at h
  split at h
  next elements =>
    split at h
    next i position =>
      obtain ⟨_, u, -, h⟩ := returns_bind.1 h
      obtain ⟨_, w, -, h⟩ := returns_bind.1 h
      obtain ⟨rfl, -⟩ := returns_pure.1 h
      have le : i ≤ elements.length := Nat.le_of_lt_succ (positionBelow?_eq_some position)
      obtain ⟨front, back, rfl, rfl⟩ := exists_append_of_le le
      rw [insertIdx_length]
      exact .array (Option.filter_eq_some_iff.1 position).1
    · exact (not_returns_throw h).elim
  next entries =>
    dsimp only at h
    split at h
    · exact (not_returns_throw h).elim
    · obtain ⟨_, u, -, h⟩ := returns_bind.1 h
      obtain ⟨rfl, -⟩ := returns_pure.1 h
      exact .dict (readable.here.1.place key v) fun other => Table.get?_place entries key other v
  · exact (not_returns_throw h).elim

theorem putIn_of_push (h : Returns (push container place name v) l container' l') :
    ∃ elements, container = .array elements
      ∧ Value.PutIn (.uint elements.length) v container container' := by
  unfold push at h
  split at h
  next elements =>
    obtain ⟨_, u, -, h⟩ := returns_bind.1 h
    obtain ⟨rfl, -⟩ := returns_pure.1 h
    have last : Value.PutIn (.uint elements.length) v (.array (elements ++ []))
        (.array (elements ++ [v])) := .array rfl
    rw [List.append_nil] at last
    exact ⟨elements, rfl, last⟩
  · exact (not_returns_throw h).elim

theorem takenOut_of_remove (readable : container.Readable)
    (h : Returns (remove container place name key) l (taken, container') l') :
    Value.TakenOut key container taken container' := by
  have missing {container : Value} (absent : container.element? key = none)
      (h : Returns (pure (none, container) : LedgerM (Option Value × Value)) l
        (taken, container') l') : Value.TakenOut key container taken container' := by
    obtain ⟨rfl, rfl⟩ := Prod.mk.inj (returns_pure.1 h).1
    exact .missing absent
  unfold remove at h
  split at h
  next elements =>
    split at h
    next i position =>
      have known := (Option.filter_eq_some_iff.1 position).1
      split at h
      next v found =>
        obtain ⟨_, u, -, h⟩ := returns_bind.1 h
        obtain ⟨_, w, -, h⟩ := returns_bind.1 h
        obtain ⟨rfl, rfl⟩ := Prod.mk.inj (returns_pure.1 h).1
        obtain ⟨front, back, rfl, rfl⟩ := exists_append_of_getElem? found
        rw [eraseIdx_length]
        exact .array known
      next absent =>
        refine missing ?_ h
        show key.position?.bind (fun i => elements[i]?) = none
        rw [known]
        exact absent
    next outside =>
      refine missing (Option.bind_eq_none_iff.2 fun i known => ?_) h
      refine List.getElem?_eq_none (Nat.le_of_not_lt fun lt => ?_)
      rw [positionBelow?, known, Option.filter_some, if_pos (decide_eq_true lt)] at outside
      cases outside
  next entries =>
    split at h
    next v found =>
      obtain ⟨_, u, -, h⟩ := returns_bind.1 h
      obtain ⟨rfl, rfl⟩ := Prod.mk.inj (returns_pure.1 h).1
      exact .dict found (readable.here.1.filter _) fun other => Table.get?_erase entries key other
    next absent => exact missing absent h
  · exact (not_returns_throw h).elim

/-! ## What becomes of the roots -/

/-- **The roots of a container** with a value put in are those of the container
and of the value. -/
theorem Inserted.rootIds_perm (h : Inserted place key v l l' container container')
    (readable : container.Readable) :
    container'.rootIds.Perm (container.rootIds ++ v.rootIds) := by
  cases h with
  | @array front back =>
    rw [Value.rootIds_array, Value.rootIds_array, List.flatMap_append, List.flatMap_append,
      List.flatMap_cons, List.append_assoc]
    exact List.perm_append_comm.append_left _
  | @dict entries vacant =>
    obtain ⟨rest, before, after⟩ := Table.exists_perm_place readable.here.1 key v
    -- what stood under the key before has no roots
    have nothing := flatMap_entryAt_of_vacant (f := fun e => e.2.rootIds) vacant
      fun old bare => by rw [old.rootIds_eq, bare, List.map_nil]
    have stood := before.flatMap_right fun e => e.2.rootIds
    rw [List.flatMap_append, nothing] at stood
    rw [Value.rootIds_dict, Value.rootIds_dict]
    exact ((after.flatMap_right _).trans List.perm_append_comm).trans (stood.symm.append_right _)

/-- **The roots of a container** are those of what remains and of what is taken
out. -/
theorem Removed.rootIds_perm (h : Removed place key l l' container taken container')
    (readable : container.Readable) :
    (container'.rootIds ++ taken.toList.flatMap Value.rootIds).Perm container.rootIds := by
  cases h with
  | nothing => exact List.Perm.of_eq (List.append_nil _)
  | @array front back v =>
    rw [Value.rootIds_array, Value.rootIds_array, List.flatMap_append, List.flatMap_append,
      List.flatMap_cons, Option.toList_some, List.flatMap_singleton, List.append_assoc]
    exact List.perm_append_comm.append_left _
  | @dict entries v _ found =>
    have parts := (Table.perm_erase readable.here.1.nodup_keys key).flatMap_right
      fun e => e.2.rootIds
    rw [Table.entryAt, found] at parts
    rw [Value.rootIds_dict, Value.rootIds_dict, Option.toList_some, List.flatMap_singleton]
    exact List.perm_append_comm.trans parts.symm

/-! ## What becomes of the records -/

theorem amends_relocateFrom (distinct : (back.flatMap Value.rootIds).Nodup)
    (owned : ∀ id ∈ back.flatMap Value.rootIds, ∃ spot, l.holding? id = some (.owned spot))
    (h : Returns (relocateFrom place start back) l () l') :
    l.Amends l' (owning (placingsFrom place start back)) := by
  obtain rfl := ((returns_relocateFrom owned).unique h).2
  exact amends_recordAll (by rwa [map_fst_owning, map_fst_placingsFrom])

/-- What is recorded at its position is owned. -/
theorem owned_of_placingsFrom
    (held : ∀ p ∈ placingsFrom place start back, l.holding? p.1 = some (.owned p.2)) :
    ∀ id ∈ back.flatMap Value.rootIds, ∃ spot, l.holding? id = some (.owned spot) := by
  intro id mem
  rw [← map_fst_placingsFrom place start] at mem
  obtain ⟨p, hp, rfl⟩ := List.mem_map.1 mem
  exact ⟨p.2, held p hp⟩

/-- **An array is amended part by part**: what comes in or goes out is entered, and
then what stands behind it moves. What stands in front stays. -/
theorem amends_parts {part : Census} {u : Ledger} {before : Nat} (first : l.Amends u part)
    (inFront : ∀ p ∈ placingsFrom place 0 front, l.holding? p.1 = some (.owned p.2))
    (atBack : ∀ p ∈ placingsFrom place before back, l.holding? p.1 = some (.owned p.2))
    (moved : Returns (relocateFrom place start back) u () l')
    (distinct : ((owning (placingsFrom place 0 front)
      ++ (part ++ owning (placingsFrom place start back))).map Prod.fst).Nodup) :
    l.Amends l' (owning (placingsFrom place 0 front)
      ++ (part ++ owning (placingsFrom place start back))) := by
  have behind : ((part ++ owning (placingsFrom place start back)).map Prod.fst).Nodup :=
    distinct.sublist ((List.sublist_append_right _ _).map _)
  have parts := behind
  rw [List.map_append, map_fst_owning, map_fst_placingsFrom] at parts
  obtain ⟨-, moving, apart⟩ := List.nodup_append.1 parts
  have moves : u.Amends l' (owning (placingsFrom place start back)) := by
    refine amends_relocateFrom moving (fun id mem => ?_) moved
    rw [first.elsewhere id fun entered => apart id entered id mem rfl]
    exact owned_of_placingsFrom atBack id mem
  exact (first.trans moves behind).beside (entered_of_held inFront) distinct

/-- What stands in an array, part by part. -/
theorem owning_placings_array (place : Place) (front back : List Value) :
    owning ((Value.array (front ++ back)).placings place)
      = owning (placingsFrom place 0 front) ++ owning (placingsFrom place front.length back) := by
  rw [placings_array, placingsFrom_append, owning_append, Nat.zero_add]

/-- What comes in was in flight, so it is nothing that stands in the container. -/
theorem Inserted.nodup_rootIds (h : Inserted place key v l l' container container')
    (readable : container.Readable)
    (held : ∀ p ∈ container.placings place, l.holding? p.1 = some (.owned p.2)) :
    container'.rootIds.Nodup := by
  have settled : ∃ spot u, Returns (settleValue v spot) l () u := by
    cases h with
    | array settled => exact ⟨_, _, settled⟩
    | dict _ settled => exact ⟨_, _, settled⟩
  obtain ⟨spot, settled⟩ := settled
  obtain ⟨distinct, afloat⟩ := exists_returns_settleValue_iff.1 settled
  refine (h.rootIds_perm readable).nodup_iff.2
    (List.nodup_append.2
      ⟨readable.nodup_rootIds held, distinct, fun id stands id' comes same => ?_⟩)
  rw [← container.map_fst_placings place] at stands
  obtain ⟨p, hp, rfl⟩ := List.mem_map.1 stands
  cases (held p hp).symm.trans (same ▸ afloat id' comes)

/-- **A value that comes in** is recorded in its place, and so is everything else
in the container. -/
theorem Inserted.amends (h : Inserted place key v l l' container container')
    (readable : container.Readable)
    (held : ∀ p ∈ container.placings place, l.holding? p.1 = some (.owned p.2)) :
    l.Amends l' (owning (container'.placings place)) := by
  have distinct := h.nodup_rootIds readable held
  cases h with
  | @array front back u settled moved =>
    rw [placings_array, placingsFrom_append, Nat.zero_add] at held
    obtain ⟨inFront, atBack⟩ := List.forall_mem_append.1 held
    rw [owning_placings_array, placingsFrom_cons, owning_append]
    refine amends_parts (amends_settleValue settled) inFront atBack moved ?_
    rw [Value.rootIds_array, List.flatMap_append, List.flatMap_cons] at distinct
    simpa [map_fst_placingsFrom] using distinct
  | @dict entries _ settled =>
    obtain ⟨rest, before, after⟩ := Table.exists_perm_place readable.here.1 key v
    let spots := fun e : Key × Value => e.2.placings (place.element e.1)
    rw [Value.placings_dict] at held
    have parts : (owning (rest.flatMap spots) ++ owning (v.placings (place.element key))).Perm
        (owning ((Value.dict (Table.place entries key v)).placings place)) := by
      rw [Value.placings_dict, ← owning_append]
      exact ((after.flatMap_right spots).trans List.perm_append_comm).symm.map _
    refine ((amends_settleValue settled).beside (entered_of_held fun p hp => ?_) ?_).perm parts
    · obtain ⟨e, he, inside⟩ := List.mem_flatMap.1 hp
      exact held p (List.mem_flatMap.2 ⟨e, before.mem_iff.2 (List.mem_append_right _ he), inside⟩)
    · rw [(parts.map Prod.fst).nodup_iff, map_fst_owning, Value.map_fst_placings]
      exact distinct

/-- **A value that is taken out** is in flight, and what remains in the container
is recorded where it stands. -/
theorem Removed.amends (h : Removed place key l l' container taken container')
    (readable : container.Readable)
    (held : ∀ p ∈ container.placings place, l.holding? p.1 = some (.owned p.2)) :
    l.Amends l' (owning (container'.placings place)
      ++ flying (taken.toList.flatMap Value.rootIds)) := by
  have distinct : (container'.rootIds ++ taken.toList.flatMap Value.rootIds).Nodup :=
    (h.rootIds_perm readable).nodup_iff.2 (readable.nodup_rootIds held)
  cases h with
  | nothing =>
    exact (Amends.refl l).beside (entered_of_held held) (by simpa using distinct)
  | @array front back v u _ released moved =>
    rw [placings_array, placingsFrom_append, placingsFrom_cons, Nat.zero_add] at held
    obtain ⟨inFront, others⟩ := List.forall_mem_append.1 held
    obtain ⟨-, atBack⟩ := List.forall_mem_append.1 others
    have parts : (owning (placingsFrom place 0 front)
        ++ (flying v.rootIds ++ owning (placingsFrom place front.length back))).Perm
        (owning ((Value.array (front ++ back)).placings place)
          ++ flying ((some v).toList.flatMap Value.rootIds)) := by
      rw [owning_placings_array, Option.toList_some, List.flatMap_singleton, List.append_assoc]
      exact List.perm_append_comm.append_left _
    refine (amends_parts (amends_releaseValue released) inFront atBack moved ?_).perm parts
    rw [(parts.map Prod.fst).nodup_iff]
    simpa using distinct
  | @dict entries v _ found released =>
    rw [Option.toList_some, List.flatMap_singleton] at distinct ⊢
    refine (amends_releaseValue released).beside (entered_of_held fun p hp => held p ?_)
      (by simpa using distinct)
    rw [Value.placings_dict] at hp ⊢
    obtain ⟨e, he, inside⟩ := List.mem_flatMap.1 hp
    exact List.mem_flatMap.2 ⟨e, (List.mem_filter.1 he).1, inside⟩

/-! ## What is refused -/

/-- A settlement overwrites nothing, so it never fails because a resource would be
lost. -/
theorem not_fails_settleValue_resourceLoss {id : ResourceId} {spot : Place} :
    ¬Fails (settleValue v place) l (.resourceLoss id spot) l' := by
  intro h
  obtain ⟨-, p, -, refused | ⟨-, other⟩⟩ := exists_of_fails_settleValue h
  · unfold expectInFlight at refused
    rw [fails_get_bind] at refused
    split at refused
    · exact not_fails_pure refused
    all_goals cases (fails_throw.1 refused).1
  · cases other

/-- **Putting an element in would lose a resource** exactly if it would replace an
entry of a dictionary that has a root. The first of its roots is named, and
nothing has changed. -/
theorem fails_insert_resourceLoss_iff {id : ResourceId} {spot : Place} :
    Fails (insert container place name key v) l (.resourceLoss id spot) l'
      ↔ (∃ entries old, container = .dict entries ∧ Table.get? entries key = some old
          ∧ old.rootIds.head? = some id)
        ∧ spot = place.element key ∧ l' = l := by
  unfold insert
  split
  next elements =>
    refine iff_of_false (fun h => ?_) (by rintro ⟨⟨_, _, ⟨⟩, -⟩, -⟩)
    split at h
    · rcases fails_bind.1 h with h | ⟨_, u, -, h⟩
      · exact not_fails_settleValue_resourceLoss h
      · rcases fails_bind.1 h with h | ⟨_, w, -, h⟩
        · exact not_fails_modify h
        · exact not_fails_pure h
    · cases (fails_throw.1 h).1
  next entries =>
    dsimp only
    split
    next first found =>
      constructor
      · intro h
        obtain ⟨⟨⟩, rfl⟩ := fails_throw.1 h
        obtain ⟨old, there, root⟩ := Option.bind_eq_some_iff.1 found
        exact ⟨⟨entries, old, rfl, there, root⟩, rfl, rfl⟩
      · rintro ⟨⟨_, old, ⟨⟩, there, root⟩, rfl, rfl⟩
        rw [there, Option.bind_some, firstRoot?, root] at found
        obtain rfl := Option.some.inj found
        exact fails_throw.2 ⟨rfl, rfl⟩
    next vacant =>
      refine iff_of_false (fun h => ?_) ?_
      · rcases fails_bind.1 h with h | ⟨_, u, -, h⟩
        · exact not_fails_settleValue_resourceLoss h
        · exact not_fails_pure h
      · rintro ⟨⟨_, old, ⟨⟩, there, root⟩, -⟩
        rw [there, Option.bind_some, firstRoot?, root] at vacant
        cases vacant
  next noArray noDict =>
    refine iff_of_false (fun h => ?_) ?_
    · cases (fails_throw.1 h).1
    · rintro ⟨⟨entries, _, same, -⟩, -⟩
      exact noDict entries same

/-- Whether a resource would be lost is a matter of the roots in the entry, whatever
the records say. -/
theorem exists_fails_insert_resourceLoss_iff :
    (∃ id spot l', Fails (insert container place name key v) l (.resourceLoss id spot) l')
      ↔ ∃ entries old, container = .dict entries ∧ Table.get? entries key = some old
        ∧ old.rootIds ≠ [] := by
  constructor
  · rintro ⟨id, spot, l', h⟩
    obtain ⟨⟨entries, old, same, there, root⟩, -, -⟩ := fails_insert_resourceLoss_iff.1 h
    exact ⟨entries, old, same, there, List.ne_nil_of_mem (List.mem_of_mem_head? root)⟩
  · rintro ⟨entries, old, same, there, holds⟩
    obtain ⟨id, root⟩ := Option.ne_none_iff_exists'.1 (mt List.head?_eq_none_iff.1 holds)
    exact ⟨id, place.element key, l,
      fails_insert_resourceLoss_iff.2 ⟨⟨entries, old, same, there, root⟩, rfl, rfl⟩⟩

end Elements

/-- **The records of a container follow the positions of its elements.** After a
value has been put in, the container is the old one with the value at that
position or key, and each of its roots is recorded where it stands now. After an
element has been taken out, so is each root of what remains, and the roots of the
element are in flight. The roots are those of the old container and of the value,
and all other records stay. What is put in is refused for the sake of a resource
exactly if it would replace an entry of a dictionary that has one as a root. So it
is refused for every entry that contains a resource, at any depth, but those that
are overlooked. -/
theorem positions_recorded {container : Value} {place : Place} {l : Ledger}
    (readable : container.Readable)
    (held : ∀ p ∈ container.placings place, l.holding? p.1 = some (.owned p.2))
    (name : String) (key : Key) (v : Value) :
    (∀ container' l', Returns (Elements.insert container place name key v) l container' l' →
        Value.PutIn key v container container'
          ∧ container'.rootIds.Perm (container.rootIds ++ v.rootIds)
          ∧ l.Amends l' (owning (container'.placings place)))
      ∧ (∀ container' l', Returns (Elements.push container place name v) l container' l' →
        (∃ elements, container = .array elements
            ∧ Value.PutIn (.uint elements.length) v container container')
          ∧ container'.rootIds.Perm (container.rootIds ++ v.rootIds)
          ∧ l.Amends l' (owning (container'.placings place)))
      ∧ (∀ taken container' l',
        Returns (Elements.remove container place name key) l (taken, container') l' →
        Value.TakenOut key container taken container'
          ∧ (container'.rootIds ++ taken.toList.flatMap Value.rootIds).Perm container.rootIds
          ∧ l.Amends l' (owning (container'.placings place)
            ++ flying (taken.toList.flatMap Value.rootIds)))
      ∧ ((∃ id spot l', Fails (Elements.insert container place name key v) l
            (.resourceLoss id spot) l')
          ↔ ∃ entries old, container = .dict entries ∧ Table.get? entries key = some old
            ∧ old.rootIds ≠ [])
      ∧ ((∃ id spot l', Fails (Elements.insert container place name key v) l
            (.resourceLoss id spot) l')
          ↔ container.Holds key ∧ ¬container.Overlooks key) := by
  refine ⟨fun container' l' h => ?_, fun container' l' h => ?_, fun taken container' l' h => ?_,
    Elements.exists_fails_insert_resourceLoss_iff,
    Elements.exists_fails_insert_resourceLoss_iff.trans Value.exists_root_iff⟩
  · have inserted := Elements.inserted_insert h
    exact ⟨Elements.putIn_of_insert readable h, inserted.rootIds_perm readable,
      inserted.amends readable held⟩
  · have inserted : Elements.Inserted place key v l l' container container' :=
      Elements.inserted_push h
    exact ⟨Elements.putIn_of_push h, inserted.rootIds_perm readable,
      inserted.amends readable held⟩
  · have removed := Elements.removed_remove h
    exact ⟨Elements.takenOut_of_remove readable h, removed.rootIds_perm readable,
      removed.amends readable held⟩

namespace Scenario

/-- A third coin has been made, and it is in flight. -/
def minted : Ledger := trayed.mint.2

/-- What lies in the tray when the third coin has been put in front. -/
def fuller : Value := .array [bareCoin 3, keptCoin.toValue, boxedCoin]

/-- What lies in the tray when the first coin has been taken. -/
def emptier : Value := .array [boxedCoin]

/-- Where the coin in the box is recorded when the box is at the position. -/
def boxedAt (i : Nat) : Holding := .owned ((tray.element (.uint i)).element (.str "gold"))

theorem held_boxedCoins :
    ∀ p ∈ boxedCoins.placings tray, minted.holding? p.1 = some (.owned p.2) := by decide

end Scenario

/-- A coin is put into the tray in front, and the box with another coin moves up: that
coin is recorded one position further. When the first coin is taken out instead,
the box moves down. -/
theorem positions_recorded_boxedCoins :
    (Scenario.boxedCoins.Readable
        ∧ ∀ p ∈ Scenario.boxedCoins.placings Scenario.tray,
          Scenario.minted.holding? p.1 = some (.owned p.2))
      ∧ Scenario.minted.holding? ⟨2⟩ = some (Scenario.boxedAt 1)
      ∧ (∃ l', Returns (Elements.insert Scenario.boxedCoins Scenario.tray "tray" (.int 0)
            (Scenario.bareCoin 3)) Scenario.minted Scenario.fuller l'
          ∧ l'.holding? ⟨2⟩ = some (Scenario.boxedAt 2))
      ∧ ∃ l', Returns (Elements.remove Scenario.boxedCoins Scenario.tray "tray" (.int 0))
            Scenario.minted (some Scenario.keptCoin.toValue, Scenario.emptier) l'
          ∧ l'.holding? ⟨1⟩ = some .inFlight ∧ l'.holding? ⟨2⟩ = some (Scenario.boxedAt 0) := by
  obtain ⟨inserts, -, removes, -⟩ := positions_recorded Scenario.readable_boxedCoins
    Scenario.held_boxedCoins "tray" (.int 0) (Scenario.bareCoin 3)
  obtain ⟨-, -, up⟩ := inserts Scenario.fuller _ rfl
  obtain ⟨-, -, down⟩ := removes (some Scenario.keptCoin.toValue) Scenario.emptier _ rfl
  have raised := up.entered (⟨2⟩, Scenario.boxedAt 2)
    (List.mem_cons_of_mem _ (List.mem_cons_of_mem _ List.mem_cons_self))
  have lowered := down.entered (⟨2⟩, Scenario.boxedAt 0) List.mem_cons_self
  have freed := down.entered (⟨1⟩, .inFlight) (List.mem_cons_of_mem _ List.mem_cons_self)
  exact ⟨⟨Scenario.readable_boxedCoins, Scenario.held_boxedCoins⟩, rfl, ⟨_, rfl, raised⟩,
    _, rfl, freed, lowered⟩

namespace Scenario

/-- A bag with the box and another coin. -/
def bag : Value := .dict [(.str "a", box), (.str "b", bareCoin 5)]

/-- The bag with a number in place of the box. -/
def lighterBag : Value := .dict [(.str "a", .uint 7), (.str "b", bareCoin 5)]

/-- Alice's storage with the bag. -/
def baggage : Store := Store.empty.insert alice vaultPath (.value bag)

theorem readable_baggage : baggage.Readable := by
  have coin : (bareCoin 5).Readable :=
    Value.Everywhere.resource_iff.2 ⟨⟨by decide, by decide⟩, fun _ mem => nomatch mem⟩
  have ascending : Table.Ascending [(Key.str "a", box), (.str "b", bareCoin 5)] :=
    List.pairwise_pair.2 rfl
  have inRange : ∀ e ∈ [(Key.str "a", box), (.str "b", bareCoin 5)], e.1.InRange :=
    List.forall_mem_cons.2 ⟨trivial, List.forall_mem_singleton.2 trivial⟩
  refine Store.forall_entries_insert (fun _ mem => nomatch mem) _ _
    (Value.Everywhere.dict_iff.2 ⟨⟨ascending, inRange⟩, ?_⟩)
  exact List.forall_mem_cons.2 ⟨readable_box, List.forall_mem_singleton.2 coin⟩

theorem exists_bytes_baggage : ∃ bytes, Store.ofBytes bytes = .ok baggage := by
  obtain ⟨bytes, written⟩ : ∃ bytes, baggage.toBytes = .ok bytes := ⟨_, rfl⟩
  have whole := Store.writable_of_length (n := 190) rfl (by decide) bytes written
  exact ⟨bytes, readable_baggage.ofBytes_toBytes written whole⟩

/-- A custodian resumes from it, and Alice moves the bag to a local. -/
def unpacked : State :=
  (State.ofStore baggage Settings.standard registry).after [.call (.start [alice]),
    .call .pushFrame, .call (.load alice vaultPath (.dict .string .any)),
    .call (.bind ⟨1⟩ "bag" bag)]

end Scenario

/-- **The coin in the box is overwritten.** The bag came out of decoded bytes, it lies
in a local, and its roots are recorded where they stand. A number that is put in
place of the box is not refused, and the coin in the box is gone. -/
theorem boxed_coin_overwritten :
    (∃ bytes, Store.ofBytes bytes = .ok Scenario.baggage)
      ∧ Scenario.unpacked.stack.value ⟨1⟩ "bag" = .ok Scenario.bag
      ∧ (∀ p ∈ Scenario.bag.placings (.binding ⟨1⟩ "bag"),
        Scenario.unpacked.ledger.holding? p.1 = some (.owned p.2))
      ∧ Scenario.bag.Holds (.str "a") ∧ Scenario.bag.identities = [⟨1000⟩, ⟨5⟩]
      ∧ Returns (Elements.insert Scenario.bag (.binding ⟨1⟩ "bag") "bag" (.str "a") (.uint 7))
        Scenario.unpacked.ledger Scenario.lighterBag Scenario.unpacked.ledger
      ∧ Scenario.lighterBag.identities = [⟨5⟩]
      ∧ ¬∃ id spot l', Fails (Elements.insert Scenario.bag (.binding ⟨1⟩ "bag") "bag" (.str "a")
          (.uint 7)) Scenario.unpacked.ledger (.resourceLoss id spot) l' := by
  have returned : Returns (Elements.insert Scenario.bag (.binding ⟨1⟩ "bag") "bag" (.str "a")
      (.uint 7)) Scenario.unpacked.ledger Scenario.lighterBag Scenario.unpacked.ledger := rfl
  refine ⟨Scenario.exists_bytes_baggage, rfl, by decide,
    ⟨_, Scenario.box, rfl, rfl, by decide⟩, rfl,
    returned, rfl, ?_⟩
  rintro ⟨id, spot, l', failed⟩
  exact returned.not_fails failed

end Custody
