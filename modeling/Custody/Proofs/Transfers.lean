import Custody.Proofs.Reflection

/-!
# Moves into and out of containers

A value that settles at a place turns from resources in flight into a value
standing there, and a value that is released turns back. Inserting into,
removing from and changing a container moves one element so, and points the
records of the elements behind it at their new positions. `Inserted` and
`Removed` say once what the operations on containers can do; what part of the
census they carry into what other part (`Ledger.Carries`), and that they make
regular values of regular ones, is read off these.
-/

namespace Custody

open Ledger

/-! ## Censuses of values -/

/-- The census of resources in flight does not depend on their order. -/
theorem afoot_perm {rs rs' : List Resource} (h : rs.Perm rs') : (afoot rs).Perm (afoot rs') :=
  List.Perm.append ((h.map _).map _) ((h.flatMap_right _).map _)

/-- What is afoot in two lists is afoot in both together. -/
theorem afoot_append (rs rs' : List Resource) :
    (afoot (rs ++ rs')).Perm (afoot rs ++ afoot rs') := by
  unfold afoot
  rw [List.map_append, List.flatMap_append, flying_append, owning_append,
    List.append_assoc, List.append_assoc]
  refine List.Perm.append_left _ ?_
  rw [← List.append_assoc, ← List.append_assoc]
  exact List.perm_append_comm.append_right _

@[simp] theorem afoot_nil : afoot [] = [] := rfl

namespace Value

/-- What a value brings in hand is its roots in flight and what these own. -/
theorem afoot_resources (v : Value) :
    afoot v.resources = flying v.rootIds ++ owning v.possessions := by
  rw [rootIds_eq]
  rfl

/-- What stands at a place is its roots there and what these own. -/
theorem standing_eq (v : Value) (place : Place) :
    v.standing place = owning (v.placings place) ++ owning v.possessions := by
  rw [standing, inventory_eq, owning_append]

/-- Without roots nothing stands there. -/
theorem standing_of_resources_eq_nil {v : Value} (h : v.resources = []) (place : Place) :
    v.standing place = [] := by
  rw [standing, inventory_of_resources_eq_nil h]
  rfl

/-- What stands in an array stands at its positions. -/
theorem standing_array (elements : List Value) (place : Place) :
    (Value.array elements).standing place
      = owning (Elements.placingsFrom place 0 elements)
        ++ owning (elements.flatMap possessions) := by
  rw [standing_eq, Elements.placings_array, possessions, resources_array, List.flatMap_assoc]
  rfl

/-- The census of a container is that of its elements, up to order. -/
theorem standing_container_perm {v : Value} (h : v.IsContainer) (place : Place) :
    (v.standing place).Perm (v.keyed.flatMap fun e => e.2.standing (place.element e.1)) := by
  rw [standing_eq, placings_container h, possessions, resources_container h,
    List.flatMap_assoc, owning, owning, List.map_flatMap, List.map_flatMap]
  refine (List.flatMap_append_perm _ _ _).trans (List.Perm.of_eq ?_)
  exact List.flatMap_congr fun e _ => (standing_eq e.2 _).symm

/-- What stands in a dictionary stands under its keys. -/
theorem standing_dict_perm (entries : List (Key × Value)) (place : Place) :
    ((Value.dict entries).standing place).Perm
      (entries.flatMap fun e => e.2.standing (place.element e.1)) :=
  standing_container_perm (v := .dict entries) trivial place

/-- A resource stands at its place, with what it owns. -/
theorem standing_resource (r : Resource) (place : Place) :
    r.toValue.standing place = (r.id, .owned place) :: owning r.possessions := by
  rw [standing_eq, placings_resource, possessions_resource]
  rfl

end Value

/-! ## Settling and releasing -/

variable {l l' : Ledger} {v container container' : Value} {place : Place} {name field : String}
  {key : Key}

/-- **A settlement carries** resources in flight into their places. -/
theorem carries_settleValue (h : Returns (settleValue v place) l () l') :
    l.Carries l' (afoot v.resources) (v.standing place) := by
  rw [v.afoot_resources, v.standing_eq, ← returns_settleValue h]
  refine (Carries.recordAll ?_ live_of_mem_owning).frame _
  rw [map_fst_owning, map_fst_flying, Value.map_fst_placings]

/-- **A release carries** resources out of their places into flight. -/
theorem carries_releaseValue (h : Returns (releaseValue v place) l () l') :
    l.Carries l' (v.standing place) (afoot v.resources) := by
  rw [v.afoot_resources, v.standing_eq, ← returns_releaseValue h]
  refine (Carries.recordAll ?_ live_of_mem_flying).frame _
  rw [map_fst_owning, map_fst_flying, Value.map_fst_placings]

namespace Elements

/-- The elements behind a position are counted on from there. -/
theorem placingsFrom_append (place : Place) (start : Nat) (front back : List Value) :
    placingsFrom place start (front ++ back)
      = placingsFrom place start front ++ placingsFrom place (start + front.length) back := by
  unfold placingsFrom
  rw [List.zipIdx_append, List.flatMap_append]

/-- **A relocation carries** the roots of elements to their new positions. -/
theorem carries_relocateFrom {start : Nat} {elements : List Value} (before : Nat)
    (h : Returns (relocateFrom place start elements) l () l') :
    l.Carries l' (owning (placingsFrom place before elements))
      (owning (placingsFrom place start elements)) := by
  have same : ((owning (placingsFrom place start elements)).map Prod.fst).Perm
      ((owning (placingsFrom place before elements)).map Prod.fst) := by
    rw [map_fst_owning, map_fst_owning, map_fst_placingsFrom, map_fst_placingsFrom]
  refine ⟨same, fun rest r => ?_⟩
  have owned : ∀ p ∈ placingsFrom place start elements,
      ∃ place, l.holding? p.1 = some (.owned place) := by
    intro p hp
    have mem : p.1 ∈ (owning (placingsFrom place before elements)).map Prod.fst :=
      same.mem_iff.1 (by rw [map_fst_owning]; exact List.mem_map_of_mem hp)
    obtain ⟨e, he, id⟩ := List.mem_map.1 mem
    obtain ⟨q, -, rfl⟩ := List.mem_map.1 he
    exact ⟨q.2, id ▸ r.holding? (List.mem_append_left _ he)⟩
  rw [← returns_modify.1 h, relocate_eq_recordAll owned]
  exact (Carries.recordAll same live_of_mem_owning).reflects rest r

/-! ## Elements -/

theorem insertIdx_length (front back : List Value) (v : Value) :
    (front ++ back).insertIdx front.length v = front ++ v :: back := by
  induction front with
  | nil => rfl
  | cons w front ih => exact congrArg _ ih

theorem eraseIdx_length (front back : List Value) (v : Value) :
    (front ++ v :: back).eraseIdx front.length = front ++ back := by
  induction front with
  | nil => rfl
  | cons w front ih => exact congrArg _ ih

/-- A position in front of an element or at the end divides a list. -/
theorem exists_append_of_le {elements : List Value} {i : Nat} (le : i ≤ elements.length) :
    ∃ front back, elements = front ++ back ∧ i = front.length :=
  ⟨elements.take i, elements.drop i, (List.take_append_drop i elements).symm,
    (List.length_take_of_le le).symm⟩

/-- An element stands between a front and a back. -/
theorem exists_append_of_getElem? {elements : List Value} {i : Nat} {v : Value}
    (found : elements[i]? = some v) :
    ∃ front back, elements = front ++ v :: back ∧ i = front.length := by
  obtain ⟨lt, there⟩ := List.getElem?_eq_some_iff.1 found
  refine ⟨elements.take i, elements.drop (i + 1), ?_,
    (List.length_take_of_le (Nat.le_of_lt lt)).symm⟩
  rw [← there, List.getElem_cons_drop, List.take_append_drop]

/-- A position that was found is below the bound. -/
theorem positionBelow?_eq_some {bound i : Nat} (h : positionBelow? key bound = some i) :
    i < bound := by
  unfold positionBelow? at h
  simpa using (Option.filter_eq_some_iff.1 h).2

/-- What an array holds beside the roots of the elements at the back. -/
def besideBack (place : Place) (front back : List Value) : Census :=
  owning (placingsFrom place 0 front) ++ owning ((front ++ back).flatMap Value.possessions)

/-- The census of an array, seen from the gap between two of its elements. -/
theorem standing_gap_perm (place : Place) (front back : List Value) :
    ((Value.array (front ++ back)).standing place).Perm
      (owning (placingsFrom place front.length back) ++ besideBack place front back) := by
  rw [Value.standing_array, placingsFrom_append, owning_append, Nat.zero_add, besideBack,
    ← List.append_assoc]
  exact List.perm_append_comm.append_right _

/-- The census of an array, seen from one of its elements. -/
theorem standing_element_perm (place : Place) (front back : List Value) (v : Value) :
    ((Value.array (front ++ v :: back)).standing place).Perm
      (owning (placingsFrom place (front.length + 1) back)
        ++ (v.standing (place.element (.uint front.length)) ++ besideBack place front back)) := by
  refine (standing_gap_perm place front (v :: back)).trans (List.perm_iff_count.2 fun e => ?_)
  simp only [besideBack, Value.standing_eq, placingsFrom_cons, owning_append,
    List.flatMap_append, List.flatMap_cons, List.count_append]
  omega

/-- **An element comes into an array**: it settles, and those behind it move
up. -/
theorem carries_insert_array {front back : List Value} {u w : Ledger}
    (settled : Returns (settleValue v (place.element (.uint front.length))) l () u)
    (moved : Returns (relocateFrom place (front.length + 1) back) u () w) :
    l.Carries w ((Value.array (front ++ back)).standing place ++ afoot v.resources)
      ((Value.array (front ++ v :: back)).standing place) := by
  have first := (carries_settleValue settled).frame
    (owning (placingsFrom place front.length back) ++ besideBack place front back)
  have second := (carries_relocateFrom front.length moved).frame
    (v.standing (place.element (.uint front.length)) ++ besideBack place front back)
  refine ((first.perm ?_ ?_).trans second).perm (List.Perm.refl _)
    (standing_element_perm place front back v).symm
  · exact ((standing_gap_perm place front back).append_right _).trans List.perm_append_comm
  · rw [← List.append_assoc, ← List.append_assoc]
    exact List.perm_append_comm.append_right _

/-- **An element leaves an array**: it is released, and those behind it move
down. -/
theorem carries_remove_array {front back : List Value} {u w : Ledger}
    (released : Returns (releaseValue v (place.element (.uint front.length))) l () u)
    (moved : Returns (relocateFrom place front.length back) u () w) :
    l.Carries w ((Value.array (front ++ v :: back)).standing place)
      ((Value.array (front ++ back)).standing place ++ afoot v.resources) := by
  have first := (carries_releaseValue released).frame
    (owning (placingsFrom place (front.length + 1) back) ++ besideBack place front back)
  have second := (carries_relocateFrom (front.length + 1) moved).frame
    (afoot v.resources ++ besideBack place front back)
  refine ((first.perm ?_ ?_).trans second).perm (List.Perm.refl _) ?_
  · refine (standing_element_perm place front back v).trans ?_
    rw [← List.append_assoc, ← List.append_assoc]
    exact List.perm_append_comm.append_right _
  · rw [← List.append_assoc, ← List.append_assoc]
    exact List.perm_append_comm.append_right _
  · refine List.Perm.trans ?_ ((standing_gap_perm place front back).symm.append_right _)
    rw [List.append_assoc]
    exact List.perm_append_comm.append_left _

/-! ### Dictionaries -/

/-- What is empty for every value without resources is empty for the entry of a
vacant key. -/
theorem flatMap_entryAt_of_vacant {α : Type} {entries : List (Key × Value)}
    {f : Key × Value → List α} (vacant : (Table.get? entries key).bind firstRoot? = none)
    (bare : ∀ v : Value, v.resources = [] → f (key, v) = []) :
    (Table.entryAt entries key).flatMap f = [] := by
  unfold Table.entryAt
  cases found : Table.get? entries key with
  | none => rfl
  | some old =>
    rw [found] at vacant
    exact (List.append_nil _).trans (bare old (Value.firstRoot?_eq_none_iff.1 vacant))

/-- **An entry comes in** under a key without roots, and what was in hand stands
there. -/
theorem carries_insert_dict {entries : List (Key × Value)} (ascending : Table.Ascending entries)
    (vacant : (Table.get? entries key).bind firstRoot? = none)
    (settled : Returns (settleValue v (place.element key)) l () l') :
    l.Carries l' ((Value.dict entries).standing place ++ afoot v.resources)
      ((Value.dict (Table.place entries key v)).standing place) := by
  obtain ⟨rest, before, after⟩ := Table.exists_perm_place ascending key v
  -- what stood under the key before has no roots
  have nothing := flatMap_entryAt_of_vacant (f := fun e => e.2.standing (place.element e.1))
    vacant fun old bare => Value.standing_of_resources_eq_nil bare _
  refine ((carries_settleValue settled).frame
    (rest.flatMap fun e => e.2.standing (place.element e.1))).perm ?_ ?_
  · refine (List.Perm.append_right _ ((Value.standing_dict_perm entries place).trans
      (before.flatMap_right _))).trans ?_
    rw [List.flatMap_append, nothing]
    exact List.perm_append_comm
  · exact ((Value.standing_dict_perm _ place).trans (after.flatMap_right _)).symm

/-- **An entry goes out**, and what stood there is in hand. -/
theorem carries_remove_dict {entries : List (Key × Value)} (ascending : Table.Ascending entries)
    (found : Table.get? entries key = some v)
    (released : Returns (releaseValue v (place.element key)) l () l') :
    l.Carries l' ((Value.dict entries).standing place)
      ((Value.dict (Table.erase entries key)).standing place ++ afoot v.resources) := by
  refine ((carries_releaseValue released).frame
    ((Table.erase entries key).flatMap fun e => e.2.standing (place.element e.1))).perm ?_ ?_
  · refine (Value.standing_dict_perm entries place).trans
      (((Table.perm_erase ascending.nodup_keys key).flatMap_right _).trans ?_)
    rw [List.flatMap_append, Table.entryAt, found, Option.map_some, Option.toList_some,
      List.flatMap_singleton]
  · refine List.perm_append_comm.trans (List.Perm.append_right _ ?_)
    exact (Value.standing_dict_perm _ place).symm

/-! ### Any container -/

/-- **What putting an element in does**: in an array it comes between two
parts, and the part behind it moves up; in a dictionary it takes the place of
something without roots. -/
inductive Inserted (place : Place) (key : Key) (v : Value) (l l' : Ledger) :
    (container container' : Value) → Prop where
  | array {front back : List Value} {u : Ledger}
      (settled : Returns (settleValue v (place.element (.uint front.length))) l () u)
      (moved : Returns (relocateFrom place (front.length + 1) back) u () l') :
      Inserted place key v l l' (.array (front ++ back)) (.array (front ++ v :: back))
  | dict {entries : List (Key × Value)}
      (vacant : (Table.get? entries key).bind firstRoot? = none)
      (settled : Returns (settleValue v (place.element key)) l () l') :
      Inserted place key v l l' (.dict entries) (.dict (Table.place entries key v))

/-- What an insertion did, if it returned. -/
theorem inserted_insert (h : Returns (insert container place name key v) l container' l') :
    Inserted place key v l l' container container' := by
  unfold insert at h
  split at h
  next elements =>
    split at h
    next i position =>
      obtain ⟨_, u, settled, h⟩ := returns_bind.1 h
      obtain ⟨_, w, moved, h⟩ := returns_bind.1 h
      obtain ⟨rfl, rfl⟩ := returns_pure.1 h
      have le : i ≤ elements.length := Nat.le_of_lt_succ (positionBelow?_eq_some position)
      obtain ⟨front, back, rfl, rfl⟩ := exists_append_of_le le
      rw [List.drop_left] at moved
      rw [insertIdx_length]
      exact .array settled moved
    · exact (not_returns_throw h).elim
  next entries =>
    dsimp only at h
    split at h
    · exact (not_returns_throw h).elim
    next vacant =>
      obtain ⟨_, u, settled, h⟩ := returns_bind.1 h
      obtain ⟨rfl, rfl⟩ := returns_pure.1 h
      exact .dict vacant settled
  · exact (not_returns_throw h).elim

/-- Pushing puts an element in at the end, in front of nothing. -/
theorem inserted_push (h : Returns (push container place name v) l container' l') :
    Inserted place key v l l' container container' := by
  unfold push at h
  split at h
  next elements =>
    obtain ⟨_, u, settled, h⟩ := returns_bind.1 h
    obtain ⟨rfl, rfl⟩ := returns_pure.1 h
    have moved : Returns (relocateFrom place (elements.length + 1) []) u () u :=
      returns_modify.2 rfl
    have := @Inserted.array place key v l u elements [] u settled moved
    rwa [List.append_nil] at this
  · exact (not_returns_throw h).elim

/-- **An element that is put in is carried** into the container. -/
theorem Inserted.carries (h : Inserted place key v l l' container container')
    (regular : container.Regular) :
    l.Carries l' (container.standing place ++ afoot v.resources) (container'.standing place) := by
  cases h with
  | array settled moved => exact carries_insert_array settled moved
  | dict vacant settled =>
    exact carries_insert_dict (Value.Regular.dict_iff.1 regular).1.1 vacant settled

/-- What holds everywhere in the container and in the value holds everywhere in
the new container. -/
theorem Inserted.everywhere {P : Value → Prop} (enduring : Value.Enduring P)
    (h : Inserted place key v l l' container container') (all : Value.Everywhere P container)
    (hv : Value.Everywhere P v) (range : key.InRange) : Value.Everywhere P container' := by
  cases h with
  | array =>
    have inside := (Value.Everywhere.array_iff.1 all).2
    refine Value.Everywhere.array_iff.2 ⟨enduring.array _, fun x hx => ?_⟩
    rcases List.mem_append.1 hx with hx | hx
    · exact inside x (List.mem_append_left _ hx)
    · rcases List.mem_cons.1 hx with rfl | hx
      · exact hv
      · exact inside x (List.mem_append_right _ hx)
  | dict =>
    obtain ⟨here, inside⟩ := Value.Everywhere.dict_iff.1 all
    refine Value.Everywhere.dict_iff.2 ⟨enduring.place _ key v range here, fun e he => ?_⟩
    rcases Table.mem_place he with rfl | he
    · exact hv
    · exact inside e he

/-- So the new container is regular if both were. -/
theorem Inserted.regular (h : Inserted place key v l l' container container')
    (regular : container.Regular) (hv : v.Regular) (range : key.InRange) :
    container'.Regular :=
  h.everywhere Value.enduring_wellFormed regular hv range

/-- **What taking an element out does**: nothing where there is none; in an
array the part behind it moves down; in a dictionary its entry goes. -/
inductive Removed (place : Place) (key : Key) (l : Ledger) :
    Ledger → (container : Value) → (taken : Option Value) → (container' : Value) → Prop where
  | nothing {container : Value} : Removed place key l l container none container
  | array {front back : List Value} {v : Value} {u l' : Ledger}
      (released : Returns (releaseValue v (place.element (.uint front.length))) l () u)
      (moved : Returns (relocateFrom place front.length back) u () l') :
      Removed place key l l' (.array (front ++ v :: back)) (some v) (.array (front ++ back))
  | dict {entries : List (Key × Value)} {v : Value} {l' : Ledger}
      (found : Table.get? entries key = some v)
      (released : Returns (releaseValue v (place.element key)) l () l') :
      Removed place key l l' (.dict entries) (some v) (.dict (Table.erase entries key))

/-- What a removal did, if it returned. -/
theorem removed_remove {taken : Option Value}
    (h : Returns (remove container place name key) l (taken, container') l') :
    Removed place key l l' container taken container' := by
  have nothing (h : Returns (pure (none, container) : LedgerM (Option Value × Value)) l
      (taken, container') l') : Removed place key l l' container taken container' := by
    obtain ⟨pair, rfl⟩ := returns_pure.1 h
    obtain ⟨rfl, rfl⟩ := Prod.mk.inj pair
    exact .nothing
  unfold remove at h
  split at h
  next elements =>
    split at h
    next i position =>
      split at h
      next v found =>
        obtain ⟨_, u, released, h⟩ := returns_bind.1 h
        obtain ⟨_, w, moved, h⟩ := returns_bind.1 h
        obtain ⟨pair, rfl⟩ := returns_pure.1 h
        obtain ⟨rfl, rfl⟩ := Prod.mk.inj pair
        obtain ⟨front, back, rfl, rfl⟩ := exists_append_of_getElem? found
        have behind : (front ++ v :: back).drop (front.length + 1) = back := by
          rw [← List.drop_drop, List.drop_left]
          rfl
        rw [behind] at moved
        rw [eraseIdx_length]
        exact .array released moved
      · exact nothing h
    · exact nothing h
  next entries =>
    split at h
    next v found =>
      obtain ⟨_, u, released, h⟩ := returns_bind.1 h
      obtain ⟨pair, rfl⟩ := returns_pure.1 h
      obtain ⟨rfl, rfl⟩ := Prod.mk.inj pair
      exact .dict found released
    · exact nothing h
  · exact (not_returns_throw h).elim

/-- **An element that is taken out is carried** into flight. -/
theorem Removed.carries {taken : Option Value}
    (h : Removed place key l l' container taken container') (regular : container.Regular) :
    l.Carries l' (container.standing place)
      (container'.standing place ++ afoot (taken.toList.flatMap Value.resources)) := by
  cases h with
  | nothing => exact (Carries.refl l _).perm (List.Perm.refl _) (by simp)
  | array released moved => simpa using carries_remove_array released moved
  | dict found released =>
    simpa using carries_remove_dict (Value.Regular.dict_iff.1 regular).1.1 found released

/-- What holds everywhere in the container holds everywhere in both parts. -/
theorem Removed.everywhere {P : Value → Prop} (enduring : Value.Enduring P)
    {taken : Option Value} (h : Removed place key l l' container taken container')
    (all : Value.Everywhere P container) :
    Value.Everywhere P container' ∧ ∀ v ∈ taken, Value.Everywhere P v := by
  cases h with
  | nothing => exact ⟨all, fun v hv => nomatch hv⟩
  | array =>
    have inside := (Value.Everywhere.array_iff.1 all).2
    refine ⟨Value.Everywhere.array_iff.2 ⟨enduring.array _, fun x hx => inside x ?_⟩, ?_⟩
    · rcases List.mem_append.1 hx with hx | hx
      · exact List.mem_append_left _ hx
      · exact List.mem_append_right _ (List.mem_cons_of_mem _ hx)
    · rintro _ ⟨⟩
      exact inside _ (List.mem_append_right _ List.mem_cons_self)
  | dict found =>
    obtain ⟨here, inside⟩ := Value.Everywhere.dict_iff.1 all
    refine ⟨Value.Everywhere.dict_iff.2 ⟨enduring.erase _ key here, fun e he => ?_⟩, ?_⟩
    · exact inside e (List.mem_filter.1 he).1
    · rintro _ ⟨⟩
      exact inside _ (Table.mem_of_get?_eq_some found)

/-- So both parts are regular if the container was. -/
theorem Removed.regular {taken : Option Value}
    (h : Removed place key l l' container taken container') (regular : container.Regular) :
    container'.Regular ∧ ∀ v ∈ taken, v.Regular :=
  h.everywhere Value.enduring_wellFormed regular

end Elements

/-! ## Fields -/

namespace Resource

variable {r r' : Resource} {owner : ResourceId} {A B : Census}

/-- A field with a value in it is there. -/
theorem hasField_of_field? {field : String} {v : Value} (held : r.field? field = some v) :
    r.hasField field = true := by
  unfold hasField Table.contains
  rw [Option.join_eq_some_iff.1 held]
  rfl

@[simp] theorem field?_putField (r : Resource) (field : String) (v : Value) :
    (r.putField field v).field? field = some v := by
  simp [field?, putField]

/-- What was in a field can be put back. -/
theorem putField_putField {field : String} {v : Value} (held : r.field? field = some v)
    (w : Value) : (r.putField field w).putField field v = r := by
  show { r with fields := Table.put (Table.put r.fields field _) field _ } = r
  rw [Table.put_put, Table.put_eq_self (Option.join_eq_some_iff.1 held)]

/-- A field that was empty can be emptied again. -/
theorem emptyField_putField {field : String} (has : r.hasField field = true)
    (empty : r.field? field = none) (v : Value) : (r.putField field v).emptyField field = r := by
  have there : Table.get? r.fields field = some none := by
    obtain ⟨slot, found⟩ := Option.isSome_iff_exists.1 has
    unfold field? at empty
    rw [found] at empty ⊢
    exact congrArg some empty
  unfold emptyField
  rw [if_pos (hasField_of_field? (field?_putField r field v))]
  show { r with fields := Table.put (Table.put r.fields field _) field _ } = r
  rw [Table.put_put, Table.put_eq_self there]

/-- The census of what stands in a slot of a resource. -/
def slotStanding (owner : ResourceId) (f : String × Option Value) : Census :=
  (f.2.map fun v => v.standing (.field owner f.1)).getD []

/-- What a resource owns stands in its fields. -/
theorem owning_possessions (r : Resource) :
    owning r.possessions = r.fields.flatMap (slotStanding r.id) := by
  rw [possessions, owning, List.map_flatMap]
  refine List.flatMap_congr fun f _ => ?_
  obtain ⟨name, _ | v⟩ := f <;> rfl

/-- **A field of a resource** and what stands in the others: the census of
what the resource owns, before and after the contents of the field
change. -/
theorem exists_perm_setSlot (r : Resource) (field : String) (slot : Option Value) :
    ∃ rest, (owning r.possessions).Perm (slotStanding r.id (field, r.field? field) ++ rest)
      ∧ (owning (Resource.possessions { r with fields := Table.put r.fields field slot })).Perm
        (slotStanding r.id (field, slot) ++ rest) := by
  obtain ⟨rest, before, after⟩ := Table.exists_perm_put r.fields field slot
  refine ⟨rest.flatMap (slotStanding r.id), ?_, ?_⟩
  · rw [owning_possessions]
    refine (before.flatMap_right _).trans (List.Perm.of_eq ?_)
    rw [List.flatMap_append]
    refine congrArg₂ _ ?_ rfl
    unfold Table.entryAt field?
    cases Table.get? r.fields field with
    | none => rfl
    | some slot => exact List.append_nil _
  · rw [owning_possessions]
    exact after.flatMap_right _

/-- **What is carried in a field is carried in the resource**, wherever it
stands. -/
theorem carries_field {field : String} {w w' : Value} {place : Place}
    (found : r.field? field = some w)
    (h : l.Carries l' (w.standing (.field r.id field) ++ A)
      (w'.standing (.field r.id field) ++ B)) :
    l.Carries l' (r.toValue.standing place ++ A)
      ((r.putField field w').toValue.standing place ++ B) := by
  obtain ⟨rest, before, after⟩ := r.exists_perm_setSlot field (some w')
  rw [found] at before
  rw [Value.standing_resource, Value.standing_resource]
  have framed := (h.frame rest).frame [(r.id, .owned place)]
  refine framed.perm ?_ ?_ <;> refine List.perm_iff_count.2 fun e => ?_
  · have := before.count_eq e
    simp only [slotStanding, Option.map_some, Option.getD_some, List.count_append,
      List.count_cons, List.count_nil] at this ⊢
    omega
  · have := after.count_eq e
    simp only [putField, slotStanding, Option.map_some, Option.getD_some, List.count_append,
      List.count_cons, List.count_nil] at this ⊢
    omega

end Resource

namespace Elements

variable {r r' : Resource}

/-- A field is taken out by emptying its slot and releasing what was in it. -/
theorem returns_takeField (h : Returns (takeField r name field) l (v, r') l') :
    r.field? field = some v ∧ r' = { r with fields := Table.put r.fields field none }
      ∧ Returns (releaseValue v (.field r.id field)) l () l' := by
  unfold takeField at h
  split at h
  next there =>
    split at h
    next w found =>
      obtain ⟨_, u, released, h⟩ := returns_bind.1 h
      obtain ⟨pair, rfl⟩ := returns_pure.1 h
      obtain ⟨rfl, rfl⟩ := Prod.mk.inj pair
      refine ⟨found, ?_, released⟩
      unfold Resource.emptyField
      rw [if_pos there]
    · exact (not_returns_throw h).elim
  · exact (not_returns_throw h).elim

/-- A field is filled, if it holds no root, by settling the value and writing
the slot. -/
theorem returns_putField (h : Returns (putField r name field v) l r' l') :
    (r.field? field).bind firstRoot? = none ∧ r' = r.putField field v
      ∧ Returns (settleValue v (.field r.id field)) l () l' := by
  unfold putField at h
  split at h
  · dsimp only at h
    split at h
    · exact (not_returns_throw h).elim
    next vacant =>
      obtain ⟨_, u, settled, h⟩ := returns_bind.1 h
      obtain ⟨rfl, rfl⟩ := returns_pure.1 h
      exact ⟨vacant, rfl, settled⟩
  · exact (not_returns_throw h).elim

/-- Only a field that is there is given a value. -/
theorem hasField_of_putField (h : Returns (putField r name field v) l r' l') :
    r.hasField field = true := by
  unfold putField at h
  split at h
  next there => exact there
  · exact (not_returns_throw h).elim

/-- **Taking the value of a field carries** it out of the resource into
flight. -/
theorem carries_takeField (h : Returns (takeField r name field) l (v, r') l') :
    l.Carries l' (r.toValue.standing place)
      (r'.toValue.standing place ++ afoot v.resources) := by
  obtain ⟨found, rfl, released⟩ := returns_takeField h
  obtain ⟨rest, before, after⟩ := r.exists_perm_setSlot field none
  rw [found] at before
  rw [Value.standing_resource, Value.standing_resource]
  refine ((carries_releaseValue released).frame ((r.id, .owned place) :: rest)).perm ?_ ?_ <;>
    refine List.perm_iff_count.2 fun e => ?_
  · have := before.count_eq e
    simp only [Resource.slotStanding, Option.map_some, Option.getD_some, List.count_append,
      List.count_cons] at this ⊢
    omega
  · have := after.count_eq e
    simp only [Resource.slotStanding, Option.map_none, Option.getD_none, List.count_append,
      List.count_cons, List.count_nil] at this ⊢
    omega

/-- **Filling a field carries** a value in flight into the resource. -/
theorem carries_putField (h : Returns (putField r name field v) l r' l') :
    l.Carries l' (r.toValue.standing place ++ afoot v.resources)
      (r'.toValue.standing place) := by
  obtain ⟨vacant, rfl, settled⟩ := returns_putField h
  obtain ⟨rest, before, after⟩ := r.exists_perm_setSlot field (some v)
  -- what was in the field before has no roots
  have nothing : Resource.slotStanding r.id (field, r.field? field) = [] := by
    unfold Resource.slotStanding
    cases found : r.field? field with
    | none => rfl
    | some old =>
      rw [found] at vacant
      exact Value.standing_of_resources_eq_nil (Value.firstRoot?_eq_none_iff.1 vacant) _
  rw [nothing] at before
  rw [Value.standing_resource, Value.standing_resource]
  refine ((carries_settleValue settled).frame ((r.id, .owned place) :: rest)).perm ?_ ?_ <;>
    refine List.perm_iff_count.2 fun e => ?_
  · have := before.count_eq e
    simp only [List.nil_append, List.count_append, List.count_cons] at this ⊢
    omega
  · have := after.count_eq e
    simp only [Resource.putField, Resource.slotStanding, Option.map_some, Option.getD_some,
      List.count_append, List.count_cons] at this ⊢
    omega

end Elements

end Custody
