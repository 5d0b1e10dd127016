import Custody.Proofs.Numbering
import Custody.Proofs.Tracking

/-!
# What lies inside what a host hands over

When a value is put somewhere, the ledger is asked about its roots and about
nothing inside them. A host that made the value up can have put into its
fields whatever it likes.

Suppose that it has not: that the ledger records every resource inside where
it stands (`Resource.Genuine`). Then the roots alone decide. A resource inside
stands in a field of its owner, and the ledger knows one place for it. If it
were also in storage, it would stand there in a field of the same owner, who
would be in storage too; and so on outwards up to a root, which is in flight
and nowhere. In the same way nothing is inside twice. So what is handed over
can be listed with what there is, and nothing is listed twice
(`State.Accounted.offer`).
-/

namespace Custody

open Ledger

/-! ## Places in fields -/

namespace Place

/-- The keys that lead to a place from its base, outermost first. -/
def keys : Place → List Key
  | element container key => container.keys ++ [key]
  | _ => []

/-- Keys that are added come after those of the place. -/
@[simp] theorem keys_within (p : Place) (ks : List Key) : (p.within ks).keys = p.keys ++ ks := by
  induction ks generalizing p with
  | nil => exact (List.append_nil _).symm
  | cons key ks ih =>
    rw [within_cons, ih]
    exact List.append_assoc _ _ _

/-- A place in a field tells the field and the keys. -/
theorem within_field_inj {owner : ResourceId} {name name' : String} {ks ks' : List Key}
    (same : (field owner name).within ks = (field owner name').within ks') :
    name = name' ∧ ks = ks' := by
  have bases := congrArg base same
  have keys := congrArg keys same
  rw [base_within, base_within] at bases
  rw [keys_within, keys_within] at keys
  exact ⟨(Place.field.inj bases).2, keys⟩

/-- **The owner** of the field that a place lies in. -/
def owner? (p : Place) : Option ResourceId :=
  match p.base with
  | field owner _ => some owner
  | _ => none

/-- Keys do not change whose field a place is in. -/
theorem owner?_within (p : Place) (ks : List Key) : (p.within ks).owner? = p.owner? := by
  unfold owner?
  rw [base_within]

end Place

/-- What is recorded to lie in a field has the owner of the field. -/
def Holding.owner? : Holding → Option ResourceId
  | owned place => place.owner?
  | _ => none

/-- Inside a value, a resource lies where the value does, or in a field of one
that is inside as well. -/
theorem Value.Found.base {v : Value} {place spot : Place} {id : ResourceId}
    (h : v.Found place id spot) :
    spot.base = place.base
      ∨ ∃ owner there name, v.Found place owner there ∧ spot.base = .field owner name := by
  induction h with
  | root r place => exact .inl rfl
  | element there _ ih =>
    refine ih.imp_right fun ⟨owner, spot', name, found, same⟩ => ?_
    exact ⟨owner, spot', name, .element there found, same⟩
  | entry there _ ih =>
    refine ih.imp_right fun ⟨owner, spot', name, found, same⟩ => ?_
    exact ⟨owner, spot', name, .entry there found, same⟩
  | @field r name w place spot id there _ ih =>
    rcases ih with same | ⟨owner, spot', name', found, same⟩
    · exact .inr ⟨r.id, place, name, .root r place, same⟩
    · exact .inr ⟨owner, spot', name', .field there found, same⟩

/-- What is found in a value lies in the field its place lies in, or in a field
of what is found too. -/
theorem Value.Found.owner {v : Value} {place spot : Place} {id : ResourceId}
    (h : v.Found place id spot) :
    spot.owner? = place.owner?
      ∨ ∃ owner there, v.Found place owner there ∧ spot.owner? = some owner := by
  rcases h.base with same | ⟨owner, there, name, found, same⟩
  · refine .inl ?_
    unfold Place.owner?
    rw [same]
  · refine .inr ⟨owner, there, found, ?_⟩
    unfold Place.owner?
    rw [same]

/-! ## Censuses that are closed -/

/-- **The census is closed**: whose field something lies in, that is listed. -/
def Closed (c : Census) : Prop := ∀ e ∈ c, ∀ owner ∈ e.2.owner?, owner ∈ c.map Prod.fst

/-- What stands is what is found in the store and in the locals, with its place.
-/
theorem State.mem_standing_iff {s : State} {id : ResourceId} {h : Holding} :
    (id, h) ∈ s.standing ↔ ∃ place, h = .owned place ∧ s.Found [] id place := by
  have listed := @State.mem_census_iff s [] id h
  unfold State.census at listed
  simpa using listed

/-- **What is stored and bound is closed.** -/
theorem State.closed_standing (s : State) : Closed s.standing := by
  rintro ⟨id, h⟩ mem owner owns
  obtain ⟨spot, rfl, placed⟩ := State.mem_standing_iff.1 mem
  have among {spot' : Place} (found : s.Found [] owner spot') :
      owner ∈ s.standing.map Prod.fst :=
    List.mem_map_of_mem (State.mem_standing_iff.2 ⟨spot', rfl, found⟩)
  replace owns : spot.owner? = some owner := owns
  -- neither a local nor a slot of storage is in a field
  cases placed with
  | stored there inside =>
    rcases inside.owner with outer | ⟨owner', spot', found, same⟩
    · rw [outer] at owns
      cases owns
    · obtain rfl := Option.some.inj (same.symm.trans owns)
      exact among (.stored there found)
  | bound opened there inside =>
    rcases inside.owner with outer | ⟨owner', spot', found, same⟩
    · rw [outer] at owns
      cases owns
    · obtain rfl := Option.some.inj (same.symm.trans owns)
      exact among (.bound opened there found)
  | inHand held => cases held

/-! ## What stands directly in the fields -/

namespace Resource

/-- The resources that stand directly in the fields. -/
def contents (r : Resource) : List Resource := r.fields.flatMap fun f => Value.resourcesOf f.2

/-- The same, with where they stand. -/
def placings (r : Resource) : List (ResourceId × Place) :=
  r.fields.flatMap fun f => (f.2.map fun v => v.placings (.field r.id f.1)).getD []

/-- The placings of a resource are of its contents. -/
theorem map_fst_placings (r : Resource) : r.placings.map Prod.fst = r.contents.map Resource.id := by
  unfold placings contents
  rw [List.map_flatMap, List.map_flatMap]
  refine List.flatMap_congr fun f _ => ?_
  obtain ⟨name, _ | v⟩ := f
  · rfl
  · rw [Value.resourcesOf_some, ← v.rootIds_eq]
    exact v.map_fst_placings _

/-- **What a resource owns** stands directly in its fields or inside what
does. -/
theorem possessions_perm (r : Resource) :
    r.possessions.Perm (r.placings ++ r.contents.flatMap possessions) := by
  unfold possessions placings contents
  rw [List.flatMap_assoc]
  refine List.Perm.trans (List.Perm.of_eq (List.flatMap_congr fun f _ => ?_))
    (List.flatMap_append_perm _ _ _).symm
  obtain ⟨name, _ | v⟩ := f
  · rfl
  · show v.inventory _ = v.placings _ ++ (Value.resourcesOf (some v)).flatMap possessions
    rw [v.inventory_eq, Value.resourcesOf_some]
    rfl

/-- What is placed in a resource lies in a field of it. -/
theorem owner?_of_mem_placings {r : Resource} {e : ResourceId × Place} (h : e ∈ r.placings) :
    e.2.owner? = some r.id := by
  obtain ⟨⟨name, _ | v⟩, -, he⟩ := List.mem_flatMap.1 h
  · cases he
  · replace he : e ∈ v.placings (.field r.id name) := he
    rw [v.placings_eq] at he
    obtain ⟨root, -, rfl⟩ := List.mem_map.1 he
    exact Place.owner?_within _ _

end Resource

namespace Value

/-- The elements of a readable container have distinct keys. -/
theorem Readable.nodup_keyed {v : Value} (readable : v.Readable) : (Table.keys v.keyed).Nodup := by
  cases v with
  | array elements =>
    have keys : Table.keys (positions elements)
        = (elements.zipIdx.map Prod.snd).map Key.uint := by
      unfold Table.keys positions
      rw [List.map_map, List.map_map]
      rfl
    show (Table.keys (positions elements)).Nodup
    have range : (List.range' 0 elements.length).Nodup := List.nodup_range'
    rw [keys, List.zipIdx_map_snd]
    exact range.map fun _ _ => Key.uint.inj
  | dict entries => exact readable.here.1.nodup_keys
  | _ => exact List.nodup_nil

/-- **The roots of a readable value** are reached by different keys. -/
theorem Readable.nodup_held {v : Value} (readable : v.Readable) : (v.held.map Prod.fst).Nodup := by
  induction v using Value.sortInduction with
  | flat v flat =>
    rw [resources_eq_nil_iff.1 (resources_flat flat)]
    exact List.nodup_nil
  | container v hv ih =>
    have keys : v.held.map Prod.fst
        = v.keyed.flatMap fun e => (e.2.held.map Prod.fst).map (List.cons e.1) := by
      rw [held_container hv, List.map_flatMap]
      refine List.flatMap_congr fun e _ => ?_
      rw [List.map_map, List.map_map]
      rfl
    rw [keys]
    exact Table.nodup_flatMap (g := fun w => w.held.map Prod.fst) readable.nodup_keyed
      (fun e he => ih e.2 (mem_parts_of_mem_keyed he)
        (readable.inside e.2 (mem_parts_of_mem_keyed he))) List.cons.inj
  | struct typeName fields _ =>
    rw [resources_eq_nil_iff.1 (resources_struct typeName fields)]
    exact List.nodup_nil
  | resource r _ =>
    rw [held_resource]
    exact List.nodup_singleton []

/-- **Held where they stand**, the roots of a readable value are all there once:
the ledger has one place for each. -/
theorem Readable.nodup_rootIds {v : Value} (readable : v.Readable) {l : Ledger} {place : Place}
    (held : ∀ e ∈ v.placings place, l.holding? e.1 = some (.owned e.2)) : v.rootIds.Nodup := by
  have recorded : ∀ root ∈ v.held, l.holding? root.2.id = some (.owned (place.within root.1)) := by
    intro root mem
    refine held (root.2.id, place.within root.1) ?_
    rw [v.placings_eq]
    exact List.mem_map_of_mem mem
  refine (List.Nodup.of_map _ readable.nodup_held).map_on fun root mem root' mem' same => ?_
  have places := (recorded root mem).symm.trans (same ▸ recorded root' mem')
  have keys := congrArg Place.keys (Holding.owned.inj (Option.some.inj places))
  rw [Place.keys_within, Place.keys_within] at keys
  exact List.inj_on_of_nodup_map readable.nodup_held mem mem' (List.append_cancel_left keys)

/-- A resource among the roots is no larger than the value. -/
theorem sizeOf_le_of_mem_resources {v : Value} {r : Resource} (h : r ∈ v.resources) :
    sizeOf r.toValue ≤ sizeOf v := by
  induction v using Value.sortInduction with
  | flat v flat =>
    rw [resources_flat flat] at h
    cases h
  | container v hv ih =>
    rw [resources_container hv] at h
    obtain ⟨e, he, hr⟩ := List.mem_flatMap.1 h
    have part := mem_parts_of_mem_keyed he
    exact Nat.le_trans (ih e.2 part hr) (Nat.le_of_lt (sizeOf_lt_of_mem_parts part))
  | struct typeName fields _ =>
    rw [resources_struct] at h
    cases h
  | resource root _ =>
    rw [resources_resource] at h
    exact List.mem_singleton.1 h ▸ Nat.le_refl _

end Value

namespace Resource

variable {r : Resource}

/-- What stands in the fields of a readable resource stands in different
places. -/
theorem nodup_placings (readable : r.toValue.Readable) : (r.placings.map Prod.snd).Nodup := by
  obtain ⟨⟨-, distinct⟩, inside⟩ := Value.Everywhere.resource_iff.1 readable
  have places : r.placings.map Prod.snd = r.fields.flatMap fun f =>
      ((f.2.map fun v => v.held.map Prod.fst).getD []).map (Place.field r.id f.1).within := by
    unfold placings
    rw [List.map_flatMap]
    refine List.flatMap_congr fun f _ => ?_
    obtain ⟨name, _ | v⟩ := f
    · rfl
    · show (v.placings _).map Prod.snd = (v.held.map Prod.fst).map _
      rw [v.placings_eq, List.map_map, List.map_map]
      rfl
  rw [places]
  refine Table.nodup_flatMap (f := fun name => (Place.field r.id name).within)
    (g := fun slot => (slot.map fun v => v.held.map Prod.fst).getD []) distinct
    (fun f hf => ?_) Place.within_field_inj
  obtain ⟨name, _ | v⟩ := f
  · exact List.nodup_nil
  · exact Value.Readable.nodup_held (inside _ hf v rfl)

/-- What holds everywhere in a resource holds everywhere in its contents. -/
theorem everywhere_contents {P : Value → Prop} (everywhere : Value.Everywhere P r.toValue) :
    ∀ c ∈ r.contents, Value.Everywhere P c.toValue := by
  intro c hc
  obtain ⟨f, hf, hc⟩ := List.mem_flatMap.1 hc
  obtain ⟨v, hv, hc⟩ := List.mem_flatMap.1 hc
  exact ((Value.Everywhere.resource_iff.1 everywhere).2 f hf v (Option.mem_toList.1 hv)).resources
    c hc

/-- What stands in a field is smaller than the whole. -/
theorem sizeOf_lt_of_mem_contents {c : Resource} (h : c ∈ r.contents) :
    sizeOf c.toValue < sizeOf r.toValue := by
  obtain ⟨f, hf, hc⟩ := List.mem_flatMap.1 h
  obtain ⟨v, hv, hc⟩ := List.mem_flatMap.1 hc
  have part : v ∈ r.toValue.parts := List.mem_filterMap.2 ⟨f, hf, Option.mem_toList.1 hv⟩
  exact Nat.lt_of_le_of_lt (Value.sizeOf_le_of_mem_resources hc) (Value.sizeOf_lt_of_mem_parts part)

end Resource

/-- **What stands directly in the fields** of different resources stands in
different places; so none is there twice, if the ledger has each where it
stands. -/
theorem Resource.nodup_flatMap_placings {l : Ledger} {rs : List Resource}
    (distinct : (rs.map Resource.id).Nodup) (readable : ∀ r ∈ rs, r.toValue.Readable)
    (recorded : ∀ e ∈ rs.flatMap Resource.placings, l.holding? e.1 = some (.owned e.2)) :
    ((rs.flatMap Resource.placings).map Prod.fst).Nodup := by
  have apart : (rs.flatMap Resource.placings).Nodup := by
    refine List.nodup_flatMap.2 ⟨fun r hr => (Resource.nodup_placings (readable r hr)).of_map, ?_⟩
    refine (List.pairwise_map.1 distinct).imp fun ne e he he' => ne ?_
    exact Option.some.inj
      ((Resource.owner?_of_mem_placings he).symm.trans (Resource.owner?_of_mem_placings he'))
  refine apart.map_on fun e he e' he' same => Prod.ext same ?_
  have known := recorded e he
  rw [same, recorded e' he'] at known
  exact (Holding.owned.inj (Option.some.inj known)).symm

/-! ## Attesting to a census -/

namespace Ledger

variable {l : Ledger} {c rest : Census}

/-- **The ledger attests to a census**: nothing is listed twice, and every
entry is a record. -/
structure Attests (l : Ledger) (c : Census) : Prop where
  distinct : (c.map Prod.fst).Nodup
  recorded : ∀ e ∈ c, l.holding? e.1 = some e.2

/-- The order of what a ledger attests to does not matter. -/
theorem Attests.perm {c' : Census} (h : l.Attests c) (p : c.Perm c') : l.Attests c' :=
  ⟨(p.map _).nodup_iff.1 h.distinct, fun e he => h.recorded e (p.mem_iff.2 he)⟩

/-- A ledger attests to any part of what it reflects. -/
theorem Reflects.attests (h : l.Reflects (c ++ rest)) : l.Attests c := by
  refine ⟨?_, fun e he => h.holding? (List.mem_append_left _ he)⟩
  have distinct := h.distinct
  rw [List.map_append] at distinct
  exact (List.nodup_append.1 distinct).1

/-- What else is on record of live resources. -/
def unlisted (l : Ledger) (c : Census) : Census :=
  l.records.entries.filter fun e => e.2.isLive ∧ e.1 ∉ c.map Prod.fst

/-- What is unlisted is on record as live, and not in the census. -/
theorem mem_unlisted {e : ResourceId × Holding} : e ∈ l.unlisted c
    ↔ l.holding? e.1 = some e.2 ∧ e.2.isLive = true ∧ e.1 ∉ c.map Prod.fst := by
  unfold unlisted
  rw [List.mem_filter, mem_records, decide_eq_true_iff]

/-- **What a ledger attests to** is part of what it reflects. -/
theorem Attests.reflects (h : l.Attests c) (live : ∀ e ∈ c, e.2.isLive = true)
    (numbered : l.Numbered) : l.Reflects (c ++ l.unlisted c) := by
  refine ⟨?_, fun id holding => ⟨fun mem => ?_, fun ⟨known, alive⟩ => ?_⟩, numbered⟩
  · rw [List.map_append, List.nodup_append]
    refine ⟨h.distinct, ?_, ?_⟩
    · exact l.records.ascending.nodup_keys.sublist (List.filter_sublist.map _)
    · rintro id mem _ mem' rfl
      obtain ⟨e, he, rfl⟩ := List.mem_map.1 mem'
      exact (mem_unlisted.1 he).2.2 mem
  · rcases List.mem_append.1 mem with mem | mem
    · exact ⟨h.recorded _ mem, live _ mem⟩
    · exact ⟨(mem_unlisted.1 mem).1, (mem_unlisted.1 mem).2.1⟩
  · by_cases listed : id ∈ c.map Prod.fst
    · obtain ⟨e, he, rfl⟩ := List.mem_map.1 listed
      obtain rfl := Option.some.inj ((h.recorded e he).symm.trans known)
      exact List.mem_append_left _ he
    · exact List.mem_append_right _ (mem_unlisted.2 ⟨known, alive, listed⟩)

end Ledger

/-! ## Genuine contents -/

/-- **The contents of a resource are genuine**: whatever is inside is recorded
where it stands. -/
def Resource.Genuine (l : Ledger) (r : Resource) : Prop :=
  ∀ e ∈ r.possessions, l.holding? e.1 = some (.owned e.2)

instance (l : Ledger) (r : Resource) : Decidable (r.Genuine l) :=
  inferInstanceAs (Decidable (∀ e ∈ r.possessions, l.holding? e.1 = some (.owned e.2)))

/-- The contents of a genuine resource are genuine. -/
theorem Resource.Genuine.contents {l : Ledger} {r : Resource} (h : r.Genuine l) :
    ∀ c ∈ r.contents, c.Genuine l := fun c hc e he =>
  h e (r.possessions_perm.mem_iff.2 (List.mem_append_right _ (List.mem_flatMap.2 ⟨c, hc, he⟩)))

/-! ## Inwards

The census of what there is grows by one layer of contents at a time: first
by what stands directly in the fields of the resources handed over, then by
what stands in the fields of these, and so on. What is still to be listed
stands in fields of the last layer, and what is listed already stands in
fields of earlier ones or in none; since the ledger has one place for each,
the two have nothing in common. -/

/-- **Resources whose contents are still to be listed**: they are listed
themselves, and nothing is listed yet that stands in a field of theirs. -/
structure Frontier (l : Ledger) (c : Census) (rs : List Resource) : Prop where
  attests : l.Attests c
  closed : Closed c
  listed : ∀ r ∈ rs, r.id ∈ c.map Prod.fst
  empty : ∀ e ∈ c, ∀ r ∈ rs, r.id ∉ e.2.owner?
  distinct : (rs.map Resource.id).Nodup
  regular : ∀ r ∈ rs, r.toValue.Regular
  genuine : ∀ r ∈ rs, r.Genuine l

namespace Frontier

variable {l : Ledger} {c : Census} {rs : List Resource}

/-- What is placed in the frontier is on record there. -/
theorem recorded (h : Frontier l c rs) {e : ResourceId × Place}
    (he : e ∈ rs.flatMap Resource.placings) : l.holding? e.1 = some (.owned e.2) := by
  obtain ⟨r, hr, he⟩ := List.mem_flatMap.1 he
  exact h.genuine r hr e (r.possessions_perm.mem_iff.2 (List.mem_append_left _ he))

/-- Nothing is placed in the frontier twice. -/
theorem nodup_placings (h : Frontier l c rs) :
    ((rs.flatMap Resource.placings).map Prod.fst).Nodup :=
  Resource.nodup_flatMap_placings h.distinct (fun r hr => (h.regular r hr).readable)
    fun _ => h.recorded

/-- It may be listed with the rest. -/
theorem attests_placings (h : Frontier l c rs) :
    l.Attests (c ++ owning (rs.flatMap Resource.placings)) := by
  refine ⟨?_, fun e he => ?_⟩
  · rw [List.map_append, map_fst_owning, List.nodup_append]
    refine ⟨h.attests.distinct, h.nodup_placings, ?_⟩
    rintro id mem _ mem' rfl
    obtain ⟨e, he, rfl⟩ := List.mem_map.1 mem
    obtain ⟨e', he', same⟩ := List.mem_map.1 mem'
    -- listed twice, it would be listed in a field before
    have known := h.recorded he'
    rw [same, h.attests.recorded e he] at known
    obtain ⟨r, hr, he'⟩ := List.mem_flatMap.1 he'
    refine h.empty e he r hr ?_
    rw [Option.some.inj known]
    exact Resource.owner?_of_mem_placings he'
  · rcases List.mem_append.1 he with he | he
    · exact h.attests.recorded e he
    · obtain ⟨e', inside, rfl⟩ := List.mem_map.1 he
      exact h.recorded inside

/-- The placings of resources are of their contents. -/
theorem map_fst_placings (rs : List Resource) :
    (rs.flatMap Resource.placings).map Prod.fst
      = (rs.flatMap Resource.contents).map Resource.id := by
  rw [List.map_flatMap, List.map_flatMap]
  exact List.flatMap_congr fun r _ => r.map_fst_placings

/-- Whoever owns a field in which something is listed then was listed
before. -/
theorem owner_listed (h : Frontier l c rs) :
    ∀ e ∈ c ++ owning (rs.flatMap Resource.placings), ∀ owner ∈ e.2.owner?,
      owner ∈ c.map Prod.fst := by
  intro e he owner owns
  rcases List.mem_append.1 he with he | he
  · exact h.closed e he owner owns
  · obtain ⟨e', inside, rfl⟩ := List.mem_map.1 he
    obtain ⟨r, hr, inside⟩ := List.mem_flatMap.1 inside
    obtain rfl := Option.some.inj ((Resource.owner?_of_mem_placings inside).symm.trans owns)
    exact h.listed r hr

/-- **One step inwards**: what stands directly in the fields is listed, and
its contents are next. -/
theorem inwards (h : Frontier l c rs) :
    Frontier l (c ++ owning (rs.flatMap Resource.placings)) (rs.flatMap Resource.contents) := by
  have attests := h.attests_placings
  have split := attests.distinct
  rw [List.map_append, map_fst_owning, map_fst_placings, List.nodup_append] at split
  obtain ⟨-, distinct, apart⟩ := split
  refine ⟨attests, fun e he owner owns => ?_, fun r' hr' => ?_, fun e he r' hr' owns => ?_,
    distinct, fun r' hr' => ?_, fun r' hr' => ?_⟩
  · rw [List.map_append]
    exact List.mem_append_left _ (h.owner_listed e he owner owns)
  · rw [List.map_append, map_fst_owning, map_fst_placings]
    exact List.mem_append_right _ (List.mem_map_of_mem hr')
  · exact apart _ (h.owner_listed e he _ owns) _ (List.mem_map_of_mem hr') rfl
  · obtain ⟨r, hr, hr'⟩ := List.mem_flatMap.1 hr'
    exact Resource.everywhere_contents (h.regular r hr) r' hr'
  · obtain ⟨r, hr, hr'⟩ := List.mem_flatMap.1 hr'
    exact (h.genuine r hr).contents r' hr'

/-- **Whatever lies inside may be listed** with what there is. -/
theorem possessions (h : Frontier l c rs) :
    l.Attests (c ++ owning (rs.flatMap Resource.possessions)) := by
  -- the contents of a resource are smaller than it is
  suffices ∀ n c rs, (∀ r ∈ rs, sizeOf r.toValue < n) → Frontier l c rs →
      l.Attests (c ++ owning (rs.flatMap Resource.possessions)) from
    this (sizeOf (rs.map Resource.toValue)) c rs
      (fun r hr => List.sizeOf_lt_of_mem (List.mem_map_of_mem hr)) h
  intro n
  induction n with
  | zero =>
    intro c rs small h
    have none : rs = [] :=
      List.eq_nil_iff_forall_not_mem.2 fun r hr => Nat.not_lt_zero _ (small r hr)
    rw [none]
    exact (List.append_nil c).symm ▸ h.attests
  | succ n ih =>
    intro c rs small h
    refine (ih _ _ (fun r' hr' => ?_) h.inwards).perm ?_
    · obtain ⟨r, hr, hr'⟩ := List.mem_flatMap.1 hr'
      have := small r hr
      have := Resource.sizeOf_lt_of_mem_contents hr'
      omega
    · rw [List.append_assoc, ← owning_append, List.flatMap_assoc]
      refine List.Perm.append_left _ (List.Perm.map _ ?_)
      refine (List.flatMap_append_perm _ _ _).trans ?_
      exact List.Perm.flatMap_left _ fun r _ => r.possessions_perm.symm

end Frontier

/-! ## What is handed over -/

/-- **Resources in flight** may be listed with what is held somewhere, and
their contents are next. -/
theorem Frontier.of_flying {l : Ledger} {c : Census} {rs : List Resource} (attests : l.Attests c)
    (closed : Closed c) (held : ∀ e ∈ c, e.2 ≠ .inFlight) (distinct : (rs.map Resource.id).Nodup)
    (afloat : ∀ r ∈ rs, l.holding? r.id = some .inFlight)
    (regular : ∀ r ∈ rs, r.toValue.Regular) (genuine : ∀ r ∈ rs, r.Genuine l) :
    Frontier l (c ++ flying (rs.map Resource.id)) rs := by
  have away : ∀ r ∈ rs, r.id ∉ c.map Prod.fst := by
    intro r hr mem
    obtain ⟨e, he, same⟩ := List.mem_map.1 mem
    have known := attests.recorded e he
    rw [same, afloat r hr] at known
    exact held e he (Option.some.inj known).symm
  refine ⟨⟨?_, fun e he => ?_⟩, fun e he owner owns => ?_, fun r hr => ?_,
    fun e he r hr owns => ?_, distinct, regular, genuine⟩
  · rw [List.map_append, map_fst_flying, List.nodup_append]
    refine ⟨attests.distinct, distinct, ?_⟩
    rintro id mem _ mem' rfl
    obtain ⟨r, hr, rfl⟩ := List.mem_map.1 mem'
    exact away r hr mem
  · rcases List.mem_append.1 he with he | he
    · exact attests.recorded e he
    · obtain ⟨id, mem, rfl⟩ := List.mem_map.1 he
      obtain ⟨r, hr, rfl⟩ := List.mem_map.1 mem
      exact afloat r hr
  · rw [List.map_append]
    rcases List.mem_append.1 he with he | he
    · exact List.mem_append_left _ (closed e he owner owns)
    · obtain ⟨id, -, rfl⟩ := List.mem_map.1 he
      cases owns
  · rw [List.map_append, map_fst_flying]
    exact List.mem_append_right _ (List.mem_map_of_mem hr)
  · rcases List.mem_append.1 he with he | he
    · exact away r hr (closed e he _ owns)
    · obtain ⟨id, -, rfl⟩ := List.mem_map.1 he
      cases owns

/-- **Resources in flight with genuine contents** come on top of what is
stored and bound, whatever else is on record. -/
theorem State.Accounted.offer {s : State} {rest : Census} {rs : List Resource}
    (a : s.Accounted [] rest) (distinct : (rs.map Resource.id).Nodup)
    (afloat : ∀ r ∈ rs, s.ledger.holding? r.id = some .inFlight)
    (regular : ∀ r ∈ rs, r.toValue.Regular) (genuine : ∀ r ∈ rs, r.Genuine s.ledger) :
    ∃ rest', s.Accounted rs rest' := by
  have standing : s.ledger.Attests s.standing := by
    have reflects := a.reflects
    rw [afoot_nil, List.append_nil] at reflects
    exact reflects.attests
  have held : ∀ e ∈ s.standing, ∃ place, e.2 = .owned place := fun e he =>
    (State.mem_standing_iff.1 he).imp fun _ h => h.1
  have frontier := Frontier.of_flying standing s.closed_standing
    (fun e he => by
      obtain ⟨place, same⟩ := held e he
      rw [same]
      exact Holding.noConfusion) distinct afloat regular genuine
  have attests : s.ledger.Attests (s.standing ++ afoot rs) := by
    have all := frontier.possessions
    rwa [List.append_assoc] at all
  have live : ∀ e ∈ s.standing ++ afoot rs, e.2.isLive = true := by
    intro e he
    rcases List.mem_append.1 he with he | he
    · obtain ⟨place, same⟩ := held e he
      rw [same]
      rfl
    · rcases List.mem_append.1 he with he | he
      · exact live_of_mem_flying e he
      · exact live_of_mem_owning e he
  exact ⟨_, attests.reflects live a.reflects.bounded, a.store, a.locals, regular⟩

end Custody
