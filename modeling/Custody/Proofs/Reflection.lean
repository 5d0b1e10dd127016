import Custody.Proofs.Inventory
import Custody.Proofs.Ledger

/-!
# When a ledger reflects what is there

A **census** lists resources with what the ledger should record of them. A
ledger **reflects** a census when no resource is listed twice and the records
of live resources are exactly the entries of the census; the order of the
entries means nothing.

A change of the ledger is described by what it does to a part of the census
whatever the rest is: it **carries** the old part into a new part when a
ledger that reflected the old part and any rest reflects the new part and the
same rest afterwards, and both parts list the same resources. Changes that
carry can be put in sequence and next to each other, so the effect of an
operation is put together from those of its steps.
-/

namespace Custody

/-- **A census**: resources with what is to be recorded of them. -/
abbrev Census := List (ResourceId × Holding)

/-- The census of a value standing at a place. -/
def Value.standing (v : Value) (place : Place) : Census := Ledger.owning (v.inventory place)

/-- The census of resources in flight, with what they own. -/
def afoot (resources : List Resource) : Census :=
  Ledger.flying (resources.map Resource.id)
    ++ Ledger.owning (resources.flatMap Resource.possessions)

namespace Ledger

variable {l l' l'' : Ledger} {c c' old new old' new' rest : Census}

/-- **The ledger reflects the census.** -/
structure Reflects (l : Ledger) (c : Census) : Prop where
  /-- No resource is listed twice. -/
  distinct : (c.map Prod.fst).Nodup
  /-- The entries are the records of live resources. -/
  recorded : ∀ id h, (id, h) ∈ c ↔ l.holding? id = some h ∧ h.isLive = true
  /-- Every identity known was handed out. -/
  bounded : ∀ id h, l.holding? id = some h → id.number < l.next

/-- A census may be told in any order. -/
theorem Reflects.perm (h : l.Reflects c) (p : c.Perm c') : l.Reflects c' where
  distinct := (p.map _).nodup_iff.1 h.distinct
  recorded id h' := p.mem_iff.symm.trans (h.recorded id h')
  bounded := h.bounded

/-- What is in a census is recorded so. -/
theorem Reflects.holding? (h : l.Reflects c) {id : ResourceId} {holding : Holding}
    (mem : (id, holding) ∈ c) : l.holding? id = some holding :=
  ((h.recorded id holding).1 mem).1

/-- A ledger that hands out later identities reflects the same. -/
theorem Reflects.of_records (h : l.Reflects c) (records : l'.records = l.records)
    (le : l.next ≤ l'.next) : l'.Reflects c where
  distinct := h.distinct
  recorded id h' := by
    rw [h.recorded, Ledger.holding?, Ledger.holding?, records]
  bounded id h' recorded := by
    rw [Ledger.holding?, records] at recorded
    exact Nat.lt_of_lt_of_le (h.bounded id h' recorded) le

/-! ## Entering records -/

/-- An identity without an entry is recorded as before, -/
theorem holding?_recordAll_of_not_mem {entries : Census} {id : ResourceId}
    (h : id ∉ entries.map Prod.fst) : (l.recordAll entries).holding? id = l.holding? id := by
  induction entries generalizing l with
  | nil => rfl
  | cons e entries ih =>
    obtain ⟨ne, h⟩ := not_or.1 (fun mem => h (List.mem_cons.2 mem))
    rw [recordAll_cons, ih h, holding?_record, if_neg ne]

/-- and one with an entry as the entry says. -/
theorem holding?_recordAll_of_mem {entries : Census} {id : ResourceId} {h : Holding}
    (distinct : (entries.map Prod.fst).Nodup) (mem : (id, h) ∈ entries) :
    (l.recordAll entries).holding? id = some h := by
  induction entries generalizing l with
  | nil => cases mem
  | cons e entries ih =>
    obtain ⟨apart, others⟩ := List.nodup_cons.1 distinct
    rw [recordAll_cons]
    rcases List.mem_cons.1 mem with rfl | mem
    · rw [holding?_recordAll_of_not_mem apart, holding?_record, if_pos rfl]
    · exact ih others mem

/-- **Entering records anew** for some of the resources listed replaces their
entries, and drops those that are destroyed. -/
theorem Reflects.recordAll (h : l.Reflects (old ++ rest))
    (same : (new.map Prod.fst).Perm (old.map Prod.fst)) :
    (l.recordAll new).Reflects (new.filter (fun e => e.2.isLive) ++ rest) := by
  have ids : ((new ++ rest).map Prod.fst).Nodup := by
    rw [List.map_append]
    refine ((same.append_right _).nodup_iff).2 ?_
    rw [← List.map_append]
    exact h.distinct
  have distinct : (new.map Prod.fst).Nodup := by
    rw [List.map_append] at ids
    exact (List.nodup_append.1 ids).1
  refine ⟨?_, fun id holding => ?_, fun id holding known => ?_⟩
  · refine List.Nodup.sublist (List.Sublist.map _ ?_) ids
    exact List.filter_sublist.append_right rest
  · -- an identity among the new entries is in no entry of the rest
    by_cases mem : id ∈ new.map Prod.fst
    · obtain ⟨⟨_, holding'⟩, hmem, rfl⟩ := List.mem_map.1 mem
      have apart : ∀ holding, (_, holding) ∉ rest := fun holding hrest => by
        rw [List.map_append] at ids
        exact (List.nodup_append.1 ids).2.2 _ mem _ (List.mem_map_of_mem hrest) rfl
      rw [holding?_recordAll_of_mem distinct hmem, Option.some.injEq, List.mem_append,
        or_iff_left (apart holding), List.mem_filter]
      constructor
      · rintro ⟨hmem', live⟩
        exact ⟨(Prod.mk.inj (List.inj_on_of_nodup_map distinct hmem hmem' rfl)).2, live⟩
      · rintro ⟨rfl, live⟩
        exact ⟨hmem, live⟩
    · have away : ∀ holding, (id, holding) ∉ new := fun holding hnew =>
        mem (List.mem_map.2 ⟨_, hnew, rfl⟩)
      have away' : (id, holding) ∉ old := fun hold =>
        mem (same.mem_iff.2 (List.mem_map.2 ⟨_, hold, rfl⟩))
      rw [holding?_recordAll_of_not_mem mem, ← h.recorded, List.mem_append, List.mem_append,
        or_iff_right fun hmem => away holding (List.mem_filter.1 hmem).1, or_iff_right away']
  · rw [next_recordAll]
    by_cases mem : id ∈ new.map Prod.fst
    · obtain ⟨⟨_, before⟩, hmem, rfl⟩ := List.mem_map.1 (same.mem_iff.1 mem)
      exact h.bounded _ before (h.holding? (List.mem_append_left _ hmem))
    · rw [holding?_recordAll_of_not_mem mem] at known
      exact h.bounded id holding known

/-- **A new identity** is listed in flight. -/
theorem Reflects.mint (h : l.Reflects c) :
    l.mint.2.Reflects ((⟨l.next⟩, .inFlight) :: c) := by
  have fresh : ∀ holding, l.holding? ⟨l.next⟩ ≠ some holding := fun holding known =>
    Nat.lt_irrefl _ (h.bounded _ holding known)
  refine ⟨List.nodup_cons.2 ⟨fun mem => ?_, h.distinct⟩, fun id holding => ?_,
    fun id holding known => ?_⟩
  · obtain ⟨⟨_, holding⟩, hmem, rfl⟩ := List.mem_map.1 mem
    exact fresh holding (h.holding? hmem)
  · rw [holding?_mint, List.mem_cons, Prod.mk.injEq]
    split
    next same =>
      subst same
      rw [Option.some.injEq, or_iff_left fun mem => fresh holding (h.holding? mem)]
      constructor
      · rintro ⟨-, rfl⟩
        exact ⟨rfl, rfl⟩
      · rintro ⟨rfl, -⟩
        exact ⟨rfl, rfl⟩
    next ne => rw [← h.recorded, or_iff_right fun same => ne same.1]
  · rw [holding?_mint] at known
    split at known
    next same => exact same ▸ Nat.lt_succ_self _
    next => exact Nat.lt_succ_of_lt (h.bounded id holding known)

/-- Forgetting what was destroyed changes nothing that is listed. -/
theorem Reflects.forgetDestroyed (h : l.Reflects c) : l.forgetDestroyed.Reflects c where
  distinct := h.distinct
  recorded id holding := by
    rw [h.recorded, holding?_forgetDestroyed]
    exact ⟨fun h => ⟨h, h.2⟩, fun h => h.1⟩
  bounded id holding known := h.bounded id holding (holding?_forgetDestroyed.1 known).1

/-! ## Carrying a part of the census -/

/-- **The change from one ledger to the other carries** a part of the
census, whatever the rest is. -/
structure Carries (l l' : Ledger) (old new : Census) : Prop where
  /-- The same resources are listed. -/
  ids : (new.map Prod.fst).Perm (old.map Prod.fst)
  /-- What was reflected before is reflected with the new part instead. -/
  reflects : ∀ rest, l.Reflects (old ++ rest) → l'.Reflects (new ++ rest)

namespace Carries

/-- Where nothing happens everything is carried over. -/
theorem refl (l : Ledger) (c : Census) : l.Carries l c c :=
  ⟨List.Perm.refl _, fun _ h => h⟩

/-- **What is carried over twice is carried over.** -/
theorem trans (h : l.Carries l' c c') (h' : l'.Carries l'' c' new) : l.Carries l'' c new :=
  ⟨h'.ids.trans h.ids, fun rest r => h'.reflects rest (h.reflects rest r)⟩

/-- The parts may be listed in any order. -/
theorem perm (h : l.Carries l' old new) (hold : old'.Perm old) (hnew : new.Perm new') :
    l.Carries l' old' new' where
  ids := (hnew.symm.map _).trans (h.ids.trans (hold.symm.map _))
  reflects rest r := (h.reflects rest (r.perm (hold.append_right _))).perm (hnew.append_right _)

/-- **The frame rule**: more may be listed beside. -/
theorem frame (h : l.Carries l' old new) (c : Census) : l.Carries l' (old ++ c) (new ++ c) where
  ids := by
    rw [List.map_append, List.map_append]
    exact h.ids.append_right _
  reflects rest r := by
    rw [List.append_assoc] at r ⊢
    exact h.reflects _ r

/-- Entering records anew for all that is listed. -/
theorem recordAll (same : (new.map Prod.fst).Perm (old.map Prod.fst))
    (live : ∀ e ∈ new, e.2.isLive = true) : l.Carries (l.recordAll new) old new where
  ids := same
  reflects rest r := by
    have := r.recordAll same
    rwa [List.filter_eq_self.2 live] at this

end Carries

/-- What is owned is live, -/
theorem live_of_mem_owning {placings : List (ResourceId × Place)} :
    ∀ e ∈ owning placings, e.2.isLive = true := by
  intro e he
  obtain ⟨p, -, rfl⟩ := List.mem_map.1 he
  rfl

/-- and so is what flies. -/
theorem live_of_mem_flying {ids : List ResourceId} : ∀ e ∈ flying ids, e.2.isLive = true := by
  intro e he
  obtain ⟨id, -, rfl⟩ := List.mem_map.1 he
  rfl

/-- Owning changes no identity. -/
@[simp] theorem map_fst_owning (placings : List (ResourceId × Place)) :
    (owning placings).map Prod.fst = placings.map Prod.fst := by
  unfold owning
  rw [List.map_map]
  rfl

/-- Flying changes none, -/
@[simp] theorem map_fst_flying (ids : List ResourceId) : (flying ids).map Prod.fst = ids := by
  unfold flying
  rw [List.map_map]
  exact List.map_id _

/-- and neither does tearing down. -/
@[simp] theorem map_fst_razing (ids : List ResourceId) : (razing ids).map Prod.fst = ids := by
  unfold razing
  rw [List.map_map]
  exact List.map_id _

/-- **Destroying** what is listed leaves the rest. -/
theorem Reflects.raze {ids : List ResourceId} (h : l.Reflects (old ++ rest))
    (same : ids.Perm (old.map Prod.fst)) : (l.recordAll (razing ids)).Reflects rest := by
  have listed : ((razing ids).map Prod.fst).Perm (old.map Prod.fst) := by rwa [map_fst_razing]
  have := h.recordAll listed
  have none : (razing ids).filter (fun e => e.2.isLive) = [] := by
    rw [List.filter_eq_nil_iff]
    intro e he
    obtain ⟨id, -, rfl⟩ := List.mem_map.1 he
    exact Bool.noConfusion
  rwa [none] at this

end Ledger

end Custody
