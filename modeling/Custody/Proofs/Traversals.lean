import Custody.Proofs.Duplication
import Custody.Proofs.Lifetimes

/-!
# Three ways through a value

A value is gone through in three ways. A walk reports what the value holds and owns, level
by level, when it is settled or when storage is read back. The roots are visited in order,
with the keys that lead to them, when it moves. A teardown lists, innermost first, what is
destroyed with it, from the resources collected in the value and in field after field of
these. Whatever is found one way has to be found the other ways, or it would be destroyed
and still be recorded, or recorded and never destroyed.

The common measure is the list of all **occurrences** (`Value.occurrences`). Since a
resource is not told from an equal one by what it is, an occurrence has a trail, the numbers
of the parts to go to, and the list is shown to enumerate what the inductive
`Value.OccursAt` says there is. The walk reports the occurrences in another order; the
teardown order is that of the list.
-/

namespace Custody

/-! ## Occurrences -/

/-- **An occurrence** of a resource in a value. -/
structure Occurrence where
  /-- Which part to go to from the value, which from there, and so on. -/
  trail : List Nat
  /-- The resource found there. -/
  resource : Resource
  /-- The place that holds it, none for a resource in flight. -/
  place? : Option Place

namespace Occurrence

/-- The occurrence, seen from a value whose part with the given number it is in. -/
def under (o : Occurrence) (i : Nat) : Occurrence := { o with trail := i :: o.trail }

/-- What is reported of an occurrence. -/
def entry (o : Occurrence) : ResourceId × Option Place := (o.resource.id, o.place?)

/-- A list with the reports of some occurrences reports these in some order. -/
theorem exists_perm_of_perm {l : List (ResourceId × Option Place)} {found : List Occurrence}
    (h : l.Perm (found.map entry)) :
    ∃ found' : List Occurrence, found'.Perm found ∧ l = found'.map entry := by
  have each : List.Forall₂ (fun e o => e = entry o) (found.map entry) found :=
    List.forall₂_map_left_iff.2 (List.forall₂_same.2 fun _ _ => rfl)
  obtain ⟨found', same, perm⟩ := List.perm_comp_forall₂ h each
  exact ⟨found', perm, List.forall₂_eq_eq_eq ▸ List.forall₂_map_right_iff.2 same⟩

end Occurrence

namespace Value

variable {v part : Value} {place? spot : Option Place} {o : Occurrence}

/-- **The spots of a value**: its parts, each with the place that holds it. The fields of a
struct have no places of their own. -/
def spots (v : Value) (place? : Option Place) : List (Option Place × Value) :=
  match v with
  | .struct _ fields => fields.map fun f => (place?, f.2)
  | .resource id _ fields => fields.filterMap fun f => f.2.map fun w => (some (.field id f.1), w)
  | v => v.keyed.map fun e => (place?.map fun place => place.element e.1, e.2)

/-- The spots of a container are its elements, each at its key. -/
theorem spots_container (h : v.IsContainer) :
    v.spots place? = v.keyed.map fun e => (place?.map fun place => place.element e.1, e.2) := by
  cases v with
  | array | dict => rfl
  | _ => exact h.elim

/-- The spots of a resource are its filled slots. -/
theorem flatMap_spots_resource {β : Type} {r : Resource} (g : Option Place × Value → List β) :
    (r.toValue.spots place?).flatMap g
      = r.fields.flatMap fun f =>
        match f.2 with
        | some w => g (some (.field r.id f.1), w)
        | none => [] := by
  show (List.filterMap _ r.fields).flatMap g = _
  induction r.fields with
  | nil => rfl
  | cons f fields ih => obtain ⟨name, _ | w⟩ := f <;> simp [ih]

/-- Every part stands in one spot. -/
theorem map_snd_spots (v : Value) (place? : Option Place) :
    (v.spots place?).map Prod.snd = v.parts := by
  cases v with
  | array elements =>
    show (List.map _ (positions elements)).map Prod.snd = elements
    unfold positions
    rw [List.map_map, List.map_map]
    exact List.zipIdx_map_fst 0 elements
  | dict entries => exact List.map_map
  | struct typeName fields => exact List.map_map
  | resource id typeName fields =>
    show (List.filterMap _ fields).map Prod.snd = fields.filterMap Prod.snd
    rw [List.map_filterMap]
    refine List.filterMap_congr fun f _ => ?_
    cases f.2 <;> rfl
  | _ => rfl

/-- What lies at a spot is a part of the value. -/
theorem mem_parts_of_mem_spots (h : (spot, part) ∈ v.spots place?) : part ∈ v.parts :=
  map_snd_spots v place? ▸ List.mem_map_of_mem h

/-- **The occurrences of resources** in a value at a place: the value itself, and what
occurs in a spot of it. -/
inductive OccursAt : Value → Option Place → Occurrence → Prop where
  | itself {v : Value} {r : Resource} {place? : Option Place} (h : v.resource? = some r) :
    OccursAt v place? ⟨[], r, place?⟩
  | inside {v part : Value} {place? spot : Option Place} {i : Nat} {o : Occurrence}
      (there : (v.spots place?)[i]? = some (spot, part)) (h : OccursAt part spot o) :
    OccursAt v place? (o.under i)

/-- What occurs in the resource of an occurrence occurs in the whole value. -/
theorem OccursAt.trans {inner : Occurrence} (h : v.OccursAt place? o)
    (within : o.resource.toValue.OccursAt o.place? inner) :
    v.OccursAt place? { inner with trail := o.trail ++ inner.trail } := by
  induction h with
  | @itself v r place? h =>
    cases v with
    | resource => exact Option.some.inj h ▸ within
    | _ => cases h
  | inside there _ ih => exact .inside there (ih within)

/-- **A resource inside a value** has an occurrence there. -/
theorem occurs_iff_exists_occursAt {r : Resource} :
    Occurs r.toValue v ↔ ∃ o, v.OccursAt place? o ∧ o.resource = r := by
  constructor
  · intro occurs
    induction occurs generalizing place? with
    | here => exact ⟨_, .itself rfl, rfl⟩
    | @inside v part mem _ ih =>
      rw [← map_snd_spots v place?] at mem
      obtain ⟨⟨spot, part⟩, hspot, rfl⟩ := List.mem_map.1 mem
      obtain ⟨i, there⟩ := List.getElem?_of_mem hspot
      obtain ⟨o, ho, same⟩ := @ih spot
      exact ⟨o.under i, .inside there ho, same⟩
  · rintro ⟨o, ho, rfl⟩
    induction ho with
    | @itself v r place? h =>
      cases v with
      | resource => exact Option.some.inj h ▸ .here
      | _ => cases h
    | inside there _ ih => exact .inside (mem_parts_of_mem_spots (List.mem_of_getElem? there)) ih

end Value

/-- **The resource of an occurrence owns** what occurs further inside it. -/
def Occurrence.Owns (o owned : Occurrence) : Prop :=
  ∃ inner, inner.trail ≠ [] ∧ o.resource.toValue.OccursAt o.place? inner
    ∧ owned = { inner with trail := o.trail ++ inner.trail }

namespace Value

variable {v : Value} {place? : Option Place} {o : Occurrence}

/-- **A list enumerates the occurrences** in a value when it has each of them once. -/
structure Enumerates (v : Value) (place? : Option Place) (found : List Occurrence) : Prop where
  once : (found.map Occurrence.trail).Nodup
  mem_iff : ∀ o, o ∈ found ↔ v.OccursAt place? o

/-- **The occurrences in a value**, each after those that it owns. -/
def occurrences (v : Value) (place? : Option Place) : List Occurrence :=
  ((v.spots place?).zipIdx.attach.flatMap fun e =>
      (occurrences e.1.1.2 e.1.1.1).map fun o => o.under e.1.2)
    ++ (v.resource?.map fun r => ⟨[], r, place?⟩).toList
termination_by v
decreasing_by
  exact sizeOf_lt_of_mem_parts (mem_parts_of_mem_spots (List.fst_mem_of_mem_zipIdx e.2))

/-- The occurrences in a value are those at its spots, and after them the value
itself if it is a resource. -/
theorem occurrences_eq (v : Value) (place? : Option Place) :
    v.occurrences place?
      = ((v.spots place?).zipIdx.flatMap fun e =>
          (e.1.2.occurrences e.1.1).map fun o => o.under e.2)
        ++ (v.resource?.map fun r => ⟨[], r, place?⟩).toList := by
  rw [occurrences, List.flatMap_subtype (g := fun e =>
    (e.1.2.occurrences e.1.1).map fun o => o.under e.2) fun _ _ => rfl, List.unattach_attach]

/-- The occurrences are what occurs, and where. -/
theorem mem_occurrences_iff : o ∈ v.occurrences place? ↔ v.OccursAt place? o := by
  induction v using Value.induction generalizing place? o with
  | step v ih =>
  rw [occurrences_eq, List.mem_append, List.mem_flatMap]
  constructor
  · rintro (⟨⟨⟨spot, part⟩, i⟩, mem, found⟩ | own)
    · obtain ⟨o, ho, rfl⟩ := List.mem_map.1 found
      have there := List.mem_zipIdx_iff_getElem?.1 mem
      have isPart := mem_parts_of_mem_spots (List.mem_of_getElem? there)
      exact .inside there ((ih part isPart).1 ho)
    · obtain ⟨r, h, rfl⟩ := Option.map_eq_some_iff.1 (Option.mem_toList.1 own)
      exact .itself h
  · intro occurs
    cases occurs with
    | itself h => exact .inr (Option.mem_toList.2 (Option.map_eq_some_iff.2 ⟨_, h, rfl⟩))
    | @inside _ part _ spot i o there h =>
      have isPart := mem_parts_of_mem_spots (List.mem_of_getElem? there)
      exact .inl ⟨((spot, part), i), List.mem_zipIdx_iff_getElem?.2 there,
        List.mem_map_of_mem ((ih part isPart).2 h)⟩

/-- No occurrence stands before one that its trail leads to. -/
theorem pairwise_occurrences (v : Value) (place? : Option Place) :
    (v.occurrences place?).Pairwise fun o o' => ¬o.trail <+: o'.trail := by
  induction v using Value.induction generalizing place? with
  | step v ih =>
  rw [occurrences_eq, List.pairwise_append, List.pairwise_flatMap]
  refine ⟨⟨fun ⟨⟨spot, part⟩, i⟩ mem => ?_, ?_⟩, ?_, fun o ho o' own => ?_⟩
  · rw [List.pairwise_map]
    refine (ih part (mem_parts_of_mem_spots (List.fst_mem_of_mem_zipIdx mem)) spot).imp ?_
    exact fun before leads => before ((List.prefix_cons_inj i).1 leads)
  · -- trails into different parts differ in the first number
    have distinct : (((v.spots place?).zipIdx).map Prod.snd).Nodup := by
      rw [List.zipIdx_map_snd]
      exact List.nodup_range'
    rw [List.Nodup, List.pairwise_map] at distinct
    refine distinct.imp fun {e e'} apart o ho o' ho' leads => ?_
    obtain ⟨_, -, rfl⟩ := List.mem_map.1 ho
    obtain ⟨_, -, rfl⟩ := List.mem_map.1 ho'
    exact apart (List.cons_prefix_cons.1 leads).1
  · cases v.resource? with
    | none => exact List.Pairwise.nil
    | some r => exact List.pairwise_singleton _ _
  · obtain ⟨e, -, ho⟩ := List.mem_flatMap.1 ho
    obtain ⟨_, -, rfl⟩ := List.mem_map.1 ho
    obtain ⟨r, -, rfl⟩ := Option.map_eq_some_iff.1 (Option.mem_toList.1 own)
    exact fun leads => nomatch List.prefix_nil.1 leads

/-- The occurrences enumerate what occurs in the value. -/
theorem enumerates_occurrences (v : Value) (place? : Option Place) :
    v.Enumerates place? (v.occurrences place?) where
  once := by
    refine List.pairwise_map.2 ((pairwise_occurrences v place?).imp fun {o o'} before same => ?_)
    exact before (same ▸ List.prefix_rfl)
  mem_iff _ := mem_occurrences_iff

/-- **What a resource owns comes before it.** -/
theorem mem_of_owns {before after : List Occurrence} {owned : Occurrence}
    (h : v.occurrences place? = before ++ o :: after) (owns : o.Owns owned) :
    owned ∈ before := by
  obtain ⟨inner, further, within, rfl⟩ := owns
  have here : o ∈ v.occurrences place? := h ▸ List.mem_append_right _ List.mem_cons_self
  have listed := mem_occurrences_iff.2 ((mem_occurrences_iff.1 here).trans within)
  have ordered := pairwise_occurrences v place?
  rw [h, List.pairwise_append] at ordered
  rw [h] at listed
  rcases List.mem_append.1 listed with early | late
  · exact early
  rcases List.mem_cons.1 late with same | late
  · exact absurd (List.append_right_eq_self.1 (congrArg Occurrence.trail same)) further
  · exact absurd ⟨_, rfl⟩ ((List.pairwise_cons.1 ordered.2.1).1 _ late)

/-- A list with the same occurrences in another order enumerates them, too. -/
theorem Enumerates.perm {found found' : List Occurrence} (h : v.Enumerates place? found)
    (same : found'.Perm found) : v.Enumerates place? found' where
  once := (same.map _).nodup_iff.2 h.once
  mem_iff o := same.mem_iff.trans (h.mem_iff o)

/-- A shielded copyable value has no occurrences. -/
theorem occurrences_of_copyable (shielded : v.Shielded) (copyable : v.isLinear = false) :
    v.occurrences place? = [] :=
  List.eq_nil_iff_forall_not_mem.2 fun o mem =>
    not_occurs_of_copyable shielded copyable o.resource
      (occurs_iff_exists_occursAt.2 ⟨o, mem_occurrences_iff.1 mem, rfl⟩)

/-! ## What is reported -/

/-- What is reported of the occurrences in a value. -/
def entries (v : Value) (place? : Option Place) : List (ResourceId × Option Place) :=
  (v.occurrences place?).map Occurrence.entry

/-- The entries of a value are those of its spots, and its own. -/
theorem entries_eq (v : Value) (place? : Option Place) :
    v.entries place?
      = ((v.spots place?).flatMap fun e => e.2.entries e.1)
        ++ (v.resource?.map fun r => (r.id, place?)).toList := by
  unfold entries
  rw [occurrences_eq, List.map_append, List.map_flatMap]
  refine congrArg₂ _ ?_ ?_
  · conv_rhs => rw [← List.zipIdx_map_fst 0 (v.spots place?), List.flatMap_map]
    refine List.flatMap_congr fun e _ => ?_
    rw [List.map_map]
    rfl
  · cases v.resource? <;> rfl

/-- A copyable value whose structs hold no resources has no entries. -/
theorem entries_of_copyable (shielded : v.Shielded) (copyable : v.isLinear = false) :
    v.entries place? = [] := by
  unfold entries
  rw [occurrences_of_copyable shielded copyable]
  rfl

/-- The entries of a container are those of its elements. -/
theorem entries_container (h : v.IsContainer) :
    v.entries place?
      = v.keyed.flatMap fun e => e.2.entries (place?.map fun place => place.element e.1) := by
  rw [entries_eq, spots_container h, List.flatMap_map]
  cases v with
  | array | dict => exact List.append_nil _
  | _ => exact h.elim

/-- The entries of a resource are those of its fields, and then its own. -/
theorem entries_resource (r : Resource) :
    r.toValue.entries place?
      = (r.fields.flatMap fun f =>
          match f.2 with
          | some w => w.entries (some (.field r.id f.1))
          | none => [])
        ++ [(r.id, place?)] := by
  rw [entries_eq, flatMap_spots_resource]
  rfl

/-- **The entries of the roots** of a value at a place, or in flight, followed by those of
what they own. -/
def levels (v : Value) (place? : Option Place) : List (ResourceId × Option Place) :=
  (v.held.map fun root => (root.2.id, place?.map fun place => place.within root.1))
    ++ v.possessions.map fun e => (e.1, some e.2)

/-- The walk of a value at a place reports its levels. -/
theorem levels_some (v : Value) (place : Place) :
    v.levels (some place) = (v.inventory place).map fun e => (e.1, some e.2) := by
  rw [levels, inventory_eq, List.map_append, placings_eq, List.map_map]
  rfl

/-- The levels of a container are those of its elements, up to their order. -/
theorem levels_container_perm (h : v.IsContainer) :
    (v.levels place?).Perm
      (v.keyed.flatMap fun e => e.2.levels (place?.map fun place => place.element e.1)) := by
  unfold levels possessions
  rw [held_container h, resources_container h, List.map_flatMap, List.flatMap_assoc,
    List.map_flatMap]
  refine (List.flatMap_append_perm _ _ _).trans (List.Perm.of_eq ?_)
  refine List.flatMap_congr fun e _ => congrArg₂ _ ?_ rfl
  rw [List.map_map]
  cases place? <;> rfl

/-- **The levels of a value report its occurrences**, in another order. -/
theorem entries_perm_levels (shielded : v.Shielded) :
    (v.entries place?).Perm (v.levels place?) := by
  have copyable (v : Value) (place? : Option Place) (shielded : v.Shielded)
      (h : v.resources = []) : (v.entries place?).Perm (v.levels place?) := by
    rw [entries_of_copyable shielded (isLinear_eq_false_iff.2 h), levels,
      possessions_of_resources_eq_nil h, resources_eq_nil_iff.1 h]
    exact List.Perm.refl _
  induction v using Value.sortInduction generalizing place? with
  | flat v flat => exact copyable v place? shielded (resources_flat flat)
  | struct typeName fields _ => exact copyable _ place? shielded (resources_struct typeName fields)
  | container v h ih =>
    rw [entries_container h]
    refine List.Perm.trans ?_ (levels_container_perm h).symm
    refine List.Perm.flatMap_left _ fun e he => ?_
    have isPart := mem_parts_of_mem_keyed he
    exact ih e.2 isPart (shielded.inside e.2 isPart)
  | resource r ih =>
    rw [entries_resource, levels, possessions_resource, Resource.possessions, List.map_flatMap,
      held_resource]
    refine List.perm_append_comm.trans (List.Perm.append (List.Perm.of_eq ?_) ?_)
    · cases place? <;> rfl
    · refine List.Perm.flatMap_left _ fun f hf => ?_
      obtain ⟨name, _ | w⟩ := f
      · exact List.Perm.refl _
      · show (w.entries _).Perm ((w.inventory _).map _)
        rw [← levels_some]
        exact ih _ hf w rfl ((Everywhere.resource_iff.1 shielded).2 _ hf w rfl)

/-! ## What is collected -/

/-- What is collected from keyed parts, the part's key behind the place of the whole. -/
def collectParts (parts : List (Key × (Option Place → List (Resource × Option Place))))
    (place? : Option Place) : List (Resource × Option Place) :=
  parts.flatMap fun part => part.2 (place?.map fun place => place.element part.1)

/-- The reading behind `collect`. -/
def collectReading : Reading (Option Place → List (Resource × Option Place)) where
  scalar _ _ := []
  array parts := collectParts (positions parts)
  dict entries := collectParts entries
  struct _ _ _ := []
  resource r _ place? := [(r, place?)]

/-- **The resources directly in a value**, looking through arrays and dictionaries but not
into fields, each with the place that holds it. -/
def collect : Value → Option Place → List (Resource × Option Place) := fold collectReading

/-- Collecting from a container collects from its elements. -/
theorem collect_container (h : v.IsContainer) :
    v.collect place?
      = v.keyed.flatMap fun e => e.2.collect (place?.map fun place => place.element e.1) := by
  cases v with
  | array elements =>
    unfold collect
    rw [fold_array]
    show (positions (elements.map _)).flatMap _ = _
    rw [positions_map, List.flatMap_map]
    rfl
  | dict entries =>
    unfold collect
    rw [fold_dict]
    exact List.flatMap_map _ _ _
  | _ => exact h.elim

/-- Nothing is collected from a flat value. -/
theorem collect_flat (h : v.IsFlat) : v.collect place? = [] := by
  unfold collect
  rw [fold_flat h]
  rfl

/-- Nothing is collected from a struct, whatever its fields hold. -/
theorem collect_struct (typeName : String) (fields : List (String × Value)) :
    (Value.struct typeName fields).collect place? = [] := by
  unfold collect
  rw [fold_struct]
  rfl

/-- A resource is collected whole. -/
theorem collect_resource (r : Resource) : r.toValue.collect place? = [(r, place?)] := by
  unfold collect Resource.toValue
  rw [fold_resource]
  rfl

/-- **What is collected** are the roots, each at the place that its keys lead to. -/
theorem collect_eq (v : Value) (place? : Option Place) :
    v.collect place?
      = v.held.map fun root => (root.2, place?.map fun place => place.within root.1) := by
  induction v using Value.sortInduction generalizing place? with
  | flat v flat =>
    rw [collect_flat flat, resources_eq_nil_iff.1 (resources_flat flat)]
    rfl
  | container v h ih =>
    rw [collect_container h, held_container h, List.map_flatMap]
    refine List.flatMap_congr fun e he => ?_
    rw [ih e.2 (mem_parts_of_mem_keyed he), List.map_map]
    cases place? <;> rfl
  | struct typeName fields _ =>
    rw [collect_struct, resources_eq_nil_iff.1 (resources_struct _ _)]
    rfl
  | resource r _ =>
    rw [collect_resource, held_resource]
    cases place? <;> rfl

/-- **A teardown goes by what is collected**, one resource after the other. -/
theorem teardown_eq_collect (v : Value) (place? : Option Place) :
    v.teardown place?
      = joinOrders ((v.collect place?).map fun e => e.1.toValue.teardown e.2) := by
  induction v using Value.sortInduction generalizing place? with
  | flat v flat => rw [teardown_flat flat, collect_flat flat]; rfl
  | container v h ih =>
    rw [teardown_container h, collect_container h, List.map_flatMap, joinOrders_flatMap]
    exact congrArg joinOrders <| List.map_congr_left fun e he =>
      ih e.2 (mem_parts_of_mem_keyed he) _
  | struct typeName fields _ => rw [teardown_struct, collect_struct]; rfl
  | resource r _ =>
    rw [collect_resource, List.map_singleton, joinOrders]
    show _ = _ >>= fun order => pure (order ++ [])
    simp only [List.append_nil, bind_pure]

/-! ## Teardown orders -/

/-- A resource has something in each of its fields. -/
def FilledFields : Value → Prop
  | .resource _ _ fields => ∀ f ∈ fields, f.2.isSome = true
  | _ => True

/-- **A value is filled** when no field of any resource in it is empty. -/
def Filled (v : Value) : Prop := Everywhere FilledFields v

/-- **A filled value can be torn down**, and the order lists its occurrences, each after
those that it owns. -/
theorem teardown_eq_ok (shielded : v.Shielded) (filled : v.Filled) :
    v.teardown place? = .ok (v.entries place?) := by
  induction v using Value.sortInduction generalizing place? with
  | flat v flat =>
    rw [teardown_flat flat, entries_of_copyable shielded (isLinear_flat flat)]
  | container v h ih =>
    rw [teardown_container h, entries_container h]
    refine joinOrders_eq_ok fun e he => ?_
    have isPart := mem_parts_of_mem_keyed he
    exact ih e.2 isPart (shielded.inside e.2 isPart) (filled.inside e.2 isPart)
  | struct typeName fields _ =>
    rw [teardown_struct, entries_of_copyable shielded
      (isLinear_eq_false_iff.2 (resources_struct typeName fields))]
  | resource r ih =>
    rw [teardown_resource, entries_resource, joinOrders_eq_ok fun f hf => ?_]
    · rfl
    · obtain ⟨name, _ | w⟩ := f
      · cases filled.here _ hf
      · exact ih _ hf w rfl ((Everywhere.resource_iff.1 shielded).2 _ hf w rfl)
          ((Everywhere.resource_iff.1 filled).2 _ hf w rfl)

end Value

/-- **The three ways through a value agree.** Of a value that can be built, standing at any
place: a walk reports the occurrences of resources in it, each once with the place that
holds it. Its first reports are the roots, in the order in which they are visited and at the
places that their keys lead to; the same resources at the same places are collected for a
teardown, which lists for each what it owns and then itself. If no field in the value is
empty, the order of a teardown is found as soon as the roots are in flight; it has the
reports of the walk, the roots without their places, and every resource after all that it
owns. -/
theorem traversals_agree {v : Value} (built : v.Built) (place : Place) :
    (∃ found, v.Enumerates (some place) found
        ∧ (v.inventory place).map (fun e => (e.1, some e.2)) = found.map Occurrence.entry)
      ∧ (v.inventory place).take v.roots.length
        = v.roots.map (fun root => (root.1, place.within root.2))
      ∧ (v.collect (some place)).map (fun e => (e.1.id, e.2))
        = ((v.inventory place).take v.roots.length).map (fun e => (e.1, some e.2))
      ∧ (∀ place?, v.collect place?
        = v.held.map fun root => (root.2, place?.map fun place => place.within root.1))
      ∧ (∀ place?, v.teardown place?
        = Value.joinOrders ((v.collect place?).map fun e => do
          let owned ← e.1.teardownFields fun _ => false
          return owned ++ [(e.1.id, e.2)]))
      ∧ (v.Filled → ∃ order,
        (∀ l order' l', Returns (Teardown.orderOf (v.held.map Prod.snd)) l order' l'
          ↔ (∀ id ∈ v.rootIds, l.holding? id = some .inFlight) ∧ order' = order ∧ l' = l)
        ∧ order.Perm (((v.inventory place).take v.roots.length).map (fun e => (e.1, none))
          ++ ((v.inventory place).drop v.roots.length).map fun e => (e.1, some e.2))
        ∧ ∃ found, v.Enumerates none found ∧ order = found.map Occurrence.entry
          ∧ ∀ before o after, found = before ++ o :: after →
            ∀ owned, o.Owns owned → owned ∈ before) := by
  have shielded := built.shielded
  have long : (v.placings place).length = v.roots.length := List.length_map _
  have first : (v.inventory place).take v.roots.length = v.placings place := by
    rw [v.inventory_eq]
    exact List.take_left' long
  have rest : (v.inventory place).drop v.roots.length = v.possessions := by
    rw [v.inventory_eq]
    exact List.drop_left' long
  refine ⟨?_, first, ?_, v.collect_eq, fun place? => ?_, fun filled => ?_⟩
  · rw [← v.levels_some]
    obtain ⟨found, perm, same⟩ :=
      Occurrence.exists_perm_of_perm (Value.entries_perm_levels shielded).symm
    exact ⟨found, (v.enumerates_occurrences _).perm perm, same⟩
  · rw [first, v.collect_eq, v.placings_eq, List.map_map, List.map_map]
    rfl
  · rw [v.teardown_eq_collect]
    simp only [Resource.teardown_toValue]
  · have joined : Value.joinOrders ((v.held.map Prod.snd).map fun r => r.toValue.teardown none)
        = .ok (v.entries none) := by
      rw [← Value.teardown_eq_ok shielded filled, v.teardown_eq_collect, v.collect_eq,
        List.map_map, List.map_map]
      rfl
    refine ⟨v.entries none, fun l order l' => ?_, ?_, v.occurrences none,
      v.enumerates_occurrences none, rfl, fun _ _ _ split _ => Value.mem_of_owns split⟩
    · rw [Teardown.returns_orderOf_iff, joined, Value.rootIds, List.forall_mem_map,
        List.forall_mem_map, Except.ok.injEq, eq_comm (a := l), eq_comm (a := order)]
    · rw [first, rest, v.placings_eq, List.map_map]
      exact Value.entries_perm_levels shielded

namespace Scenario

/-- A label and a vault in a bag. -/
def packedBag : Value := .array [tagged.toValue, keptVault.toValue]

/-- The packed bag can be built with the constructors. -/
theorem built_packedBag : packedBag.Built := by
  refine .array fun v hv => ?_
  rcases List.mem_cons.1 hv with rfl | hv
  · exact built_tagged
  · exact List.mem_singleton.1 hv ▸ built_keptVault

/-- No field of the packed bag is empty. -/
theorem filled_packedBag : packedBag.Filled := by
  have flat (v : Value) (h : v.IsFlat) : Value.Everywhere Value.FilledFields v := by
    cases v with
    | array | dict | struct | resource => exact h.elim
    | _ => exact .intro trivial fun _ mem => nomatch mem
  have label := flat (.str "alice") trivial
  have tag := flat .nil trivial
  have amount := flat (.uint 50) trivial
  simp [packedBag, tagged, keptVault, keptCoin, Struct.toValue, Resource.toValue,
    Value.Filled, Value.FilledFields, Value.Everywhere.array_iff, Value.Everywhere.dict_iff,
    Value.Everywhere.struct_iff, Value.Everywhere.resource_iff, label, tag, amount]

end Scenario

/-- In the bag stands a vault with a coin in it: the walk reports the vault and then the
coin, and both are torn down. -/
theorem traversals_agree_packedBag :
    Scenario.packedBag.Built ∧ Scenario.packedBag.Filled
      ∧ Scenario.packedBag.inventory (.binding ⟨0⟩ "bag")
        = [(⟨2⟩, .element (.binding ⟨0⟩ "bag") (.uint 1)),
          (⟨1⟩, .element (.field ⟨2⟩ "coins") (.uint 0))]
      ∧ ∃ order : TeardownOrder,
        (∀ l, l.holding? ⟨2⟩ = some .inFlight
          → Returns (Teardown.orderOf [Scenario.keptVault]) l order l)
        ∧ order.Perm [(⟨2⟩, none),
          (⟨1⟩, some (.element (.field ⟨2⟩ "coins") (.uint 0)))] := by
  obtain ⟨-, -, -, -, -, destroyed⟩ :=
    traversals_agree Scenario.built_packedBag (.binding ⟨0⟩ "bag")
  obtain ⟨order, returned, reports, -⟩ := destroyed Scenario.filled_packedBag
  refine ⟨Scenario.built_packedBag, Scenario.filled_packedBag, rfl, order, fun l held => ?_,
    reports⟩
  exact (returned l order l).2 ⟨fun id mem => List.mem_singleton.1 mem ▸ held, rfl, rfl⟩

end Custody
