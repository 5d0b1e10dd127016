import Custody.Proofs.Dissolution
import Custody.Proofs.Indivisible

/-!
# What an interrupted teardown leaves

A teardown looks at everything in its order before it destroys the first
resource, and destroying what has been found can fail in one way only: that a
resource is in the order twice. The ledger has one place for each, so of what
lies in fields nothing is there twice (`Ledger.attests_afoot`): the owner of its
field lies one level further out, and resources on different levels or in
fields of different owners are different. Only the roots are in no field. A host
that gives one of them twice has passed the checks, and the teardown stops when
it comes to what it has destroyed itself.

A planned teardown looks at what it destroys, but not at what it moves out. It
releases the fields one after the other, and each release happens whole or not
at all. So it stops between two fields, if what a host made up has something in
the second that is recorded elsewhere. Behind the last field nothing can fail,
since what was moved out and what is torn down have nothing in common.

In all other cases a teardown that fails has changed nothing
(`failed_teardown`).
-/

namespace Custody

open Ledger CustodyM

/-! ## How deep resources lie -/

namespace Ledger

variable {l : Ledger} {id : ResourceId} {n m : Nat}

/-- **How deep a resource lies**: in flight on the surface, and otherwise one
level below the owner of the field that holds it. -/
inductive Depth (l : Ledger) : ResourceId → Nat → Prop where
  | surface {id : ResourceId} (afloat : l.holding? id = some .inFlight) : Depth l id 0
  | under {id owner : ResourceId} {place : Place} {n : Nat}
    (held : l.holding? id = some (.owned place)) (inside : place.owner? = some owner)
    (outer : Depth l owner n) : Depth l id (n + 1)

theorem Depth.unique (h : l.Depth id n) (h' : l.Depth id m) : n = m := by
  induction h generalizing m with
  | surface afloat =>
    cases h' with
    | surface => rfl
    | under held =>
      rw [afloat] at held
      cases held
  | under held inside _ ih =>
    cases h' with
    | surface afloat =>
      rw [afloat] at held
      cases held
    | under held' inside' outer' =>
      obtain rfl := Holding.owned.inj (Option.some.inj (held.symm.trans held'))
      obtain rfl := Option.some.inj (inside.symm.trans inside')
      rw [ih outer']

/-- **Different resources on one level**, with genuine contents. -/
structure Layer (l : Ledger) (n : Nat) (rs : List Resource) : Prop where
  level : ∀ r ∈ rs, l.Depth r.id n
  distinct : (rs.map Resource.id).Nodup
  readable : ∀ r ∈ rs, r.toValue.Readable
  genuine : ∀ r ∈ rs, r.Genuine l

namespace Layer

variable {rs : List Resource}

theorem recorded (h : l.Layer n rs) :
    ∀ e ∈ rs.flatMap Resource.placings, l.holding? e.1 = some (.owned e.2) := by
  intro e he
  obtain ⟨r, hr, he⟩ := List.mem_flatMap.1 he
  exact h.genuine r hr e (r.possessions_perm.mem_iff.2 (List.mem_append_left _ he))

/-- **One level further in**: what stands directly in the fields. -/
theorem inwards (h : l.Layer n rs) : l.Layer (n + 1) (rs.flatMap Resource.contents) := by
  have distinct := Resource.nodup_flatMap_placings h.distinct h.readable h.recorded
  rw [Frontier.map_fst_placings] at distinct
  refine ⟨fun c hc => ?_, distinct, fun c hc => ?_, fun c hc => ?_⟩
  · have mem := List.mem_map_of_mem (f := Resource.id) hc
    rw [← Frontier.map_fst_placings] at mem
    obtain ⟨e, he, same⟩ := List.mem_map.1 mem
    obtain ⟨r, hr, inside⟩ := List.mem_flatMap.1 he
    exact same ▸ .under (h.recorded e he) (Resource.owner?_of_mem_placings inside) (h.level r hr)
  · obtain ⟨r, hr, hc⟩ := List.mem_flatMap.1 hc
    exact Resource.everywhere_contents (h.readable r hr) c hc
  · obtain ⟨r, hr, hc⟩ := List.mem_flatMap.1 hc
    exact (h.genuine r hr).contents c hc

/-- What the resources of a layer own is the next layer and what that owns. -/
theorem possessions_perm (rs : List Resource) :
    ((rs.flatMap Resource.possessions).map Prod.fst).Perm
      ((rs.flatMap Resource.contents).map Resource.id
        ++ ((rs.flatMap Resource.contents).flatMap Resource.possessions).map Prod.fst) := by
  rw [← Frontier.map_fst_placings, ← List.map_append, List.flatMap_assoc]
  refine List.Perm.map _ (List.Perm.trans ?_ (List.flatMap_append_perm _ _ _).symm)
  exact List.Perm.flatMap_left _ fun r _ => r.possessions_perm

/-- **Nothing is twice in a layer** or below it, and what is below lies
deeper. -/
theorem nodup (h : l.Layer n rs) :
    (rs.map Resource.id ++ (rs.flatMap Resource.possessions).map Prod.fst).Nodup
      ∧ ∀ id ∈ (rs.flatMap Resource.possessions).map Prod.fst, ∃ m, n < m ∧ l.Depth id m := by
  -- the contents of a resource are smaller than it is
  generalize bound : sizeOf (rs.map Resource.toValue) = size
  replace bound : ∀ r ∈ rs, sizeOf r.toValue < size := fun r hr =>
    bound ▸ List.sizeOf_lt_of_mem (List.mem_map_of_mem hr)
  induction size generalizing n rs with
  | zero =>
    obtain rfl : rs = [] :=
      List.eq_nil_iff_forall_not_mem.2 fun r hr => Nat.not_lt_zero _ (bound r hr)
    exact ⟨List.nodup_nil, fun _ mem => nomatch mem⟩
  | succ size ih =>
    obtain ⟨all, depths⟩ := ih h.inwards fun c hc => by
      obtain ⟨r, hr, hc⟩ := List.mem_flatMap.1 hc
      have := bound r hr
      have := Resource.sizeOf_lt_of_mem_contents hc
      omega
    have split := possessions_perm rs
    have deeper : ∀ id ∈ (rs.flatMap Resource.possessions).map Prod.fst,
        ∃ m, n < m ∧ l.Depth id m := by
      intro id mem
      rcases List.mem_append.1 (split.mem_iff.1 mem) with mem | mem
      · obtain ⟨c, hc, rfl⟩ := List.mem_map.1 mem
        exact ⟨n + 1, Nat.lt_succ_self n, h.inwards.level c hc⟩
      · obtain ⟨m, lt, depth⟩ := depths id mem
        exact ⟨m, Nat.lt_of_succ_lt lt, depth⟩
    refine ⟨List.nodup_append.2 ⟨h.distinct, split.nodup_iff.2 all, ?_⟩, deeper⟩
    rintro id mem _ mem' rfl
    obtain ⟨r, hr, rfl⟩ := List.mem_map.1 mem
    obtain ⟨m, lt, depth⟩ := deeper _ mem'
    exact Nat.ne_of_lt lt ((h.level r hr).unique depth)

end Layer

/-- **The ledger attests to what it records** of different resources in flight
and of their contents: nothing is there twice. -/
theorem attests_afoot {rs : List Resource} (distinct : (rs.map Resource.id).Nodup)
    (readable : ∀ r ∈ rs, r.toValue.Readable)
    (recorded : ∀ e ∈ afoot rs, l.holding? e.1 = some e.2) : l.Attests (afoot rs) := by
  have layer : l.Layer 0 rs := by
    refine ⟨fun r hr => .surface ?_, distinct, readable, fun r hr e he => ?_⟩
    · exact recorded (r.id, .inFlight)
        (List.mem_append_left _ (List.mem_map_of_mem (List.mem_map_of_mem hr)))
    · exact recorded (e.1, .owned e.2)
        (List.mem_append_right _ (List.mem_map_of_mem (List.mem_flatMap.2 ⟨r, hr, he⟩)))
  refine ⟨?_, recorded⟩
  unfold afoot
  rw [List.map_append, map_fst_flying, map_fst_owning]
  exact layer.nodup.1

end Ledger

namespace Teardown

variable {s t : State} {e : Fault} {v : Value} {r : Resource} {p : Plan} {l l' : Ledger}
  {order : TeardownOrder}

/-! ## Whole values -/

theorem fails_destroy_of_destroyed {id : ResourceId} {place? : Option Place}
    (gone : l.holding? id = some .destroyed) (h : Fails (Ledger.destroy id place?) l e l') :
    e = .doubleDestroy id ∧ l' = l := by
  rcases fails_bind.1 h with h | ⟨_, u, checked, -⟩
  · unfold Ledger.checkDestroy at h
    rw [fails_get_bind, gone] at h
    obtain ⟨rfl, rfl⟩ := fails_throw.1 h
    exact ⟨rfl, rfl⟩
  · have known := (returns_checkDestroy.1 checked).1
    rw [gone] at known
    cases place? <;> cases known

/-- **Destructions stop** at what has been destroyed before, if everything has
been found in its place. -/
theorem exists_of_fails_destroys
    (held : ∀ step ∈ order, l.holding? step.1 = some ((step.2.map .owned).getD .inFlight))
    (h : Fails (order.forM fun step => Ledger.destroy step.1 step.2) l e l') :
    ∃ gone : List ResourceId, gone.Nodup ∧ (∀ id ∈ gone, id ∈ ids order)
      ∧ l' = l.recordAll (razing gone) ∧ ∃ id ∈ gone, e = .doubleDestroy id := by
  obtain ⟨before, step, after, u, rfl, destroyed, stopped⟩ := exists_of_fails_forM h
  obtain ⟨⟨distinct, -⟩, rfl⟩ := returns_destroys.1 destroyed
  have again : step.1 ∈ ids before := by
    by_contra first
    have untouched : (l.recordAll (razing (ids before))).holding? step.1 = l.holding? step.1 :=
      holding?_recordAll_of_not_mem (by rwa [map_fst_razing])
    have found := untouched.trans (held step (List.mem_append_right _ List.mem_cons_self))
    exact (returns_destroy.2 ⟨found, rfl⟩).not_fails stopped
  have razed : (l.recordAll (razing (ids before))).holding? step.1 = some .destroyed :=
    holding?_recordAll_of_mem (by rwa [map_fst_razing]) (List.mem_map_of_mem again)
  obtain ⟨rfl, rfl⟩ := fails_destroy_of_destroyed razed stopped
  refine ⟨ids before, distinct, fun id mem => ?_, rfl, step.1, again, rfl⟩
  rw [ids, List.map_append]
  exact List.mem_append_left _ mem

/-- **Tearing down a value fails** and changes nothing, or a root was given
twice. -/
theorem exists_of_fails_razeValue (readable : v.Readable) (h : Fails (razeValue v) l e l') :
    l' = l
      ∨ ¬v.rootIds.Nodup ∧ ∃ gone : List ResourceId, gone.Nodup
        ∧ (∀ id ∈ gone, id ∈ v.ids ∧ ∃ h, l.holding? id = some h ∧ h.isLive = true)
        ∧ l' = l.recordAll (razing gone) ∧ ∃ id ∈ gone, e = .doubleDestroy id := by
  rcases (keeps_orderOf _).fails_reads_bind h with rfl | ⟨order, listed, failed⟩
  · exact .inl rfl
  rcases keeps_check.fails_reads_bind failed with rfl | ⟨_, checked, failed⟩
  · exact .inl rfl
  have held := (returns_check.1 checked).1
  obtain ⟨gone, distinct, among, rfl, stopped⟩ := exists_of_fails_destroys held failed
  replace listed : Returns (orderOf v.resources) l order l := listed
  refine .inr ⟨fun roots => ?_, gone, distinct, fun id mem => ⟨?_, ?_⟩, rfl, stopped⟩
  · -- with different roots, nothing would be in the order twice
    have census := orderOf_census listed
    rw [v.rootIds_eq] at roots
    have attests := attests_afoot roots readable.resources fun e he => by
      obtain ⟨step, hstep, rfl⟩ := List.mem_map.1 (census.mem_iff.2 he)
      exact held step hstep
    have once : (ids order).Nodup := by
      rw [← map_fst_census]
      exact (census.map _).nodup_iff.2 attests.distinct
    exact (returns_destroys.2 ⟨⟨once, held⟩, rfl⟩).not_fails failed
  · rw [← v.map_fst_afoot]
    exact (orderOf_ids listed).mem_iff.1 (among id mem)
  · obtain ⟨step, hstep, rfl⟩ := List.mem_map.1 (among id mem)
    exact ⟨_, held step hstep, live_of_mem_census _ (List.mem_map_of_mem hstep)⟩

/-! ## Plans -/

/-- What a plan moves out stands in a field that it moves out. -/
theorem mem_movedOut {f : String × Value} :
    f ∈ movedOut p r ↔ (f.1, some f.2) ∈ r.fields ∧ p.movesOut f.1 = true := by
  unfold movedOut
  rw [List.mem_filterMap]
  constructor
  · rintro ⟨⟨name, slot⟩, there, filled⟩
    split at filled
    next out =>
      obtain ⟨v, rfl, rfl⟩ := Option.map_eq_some_iff.1 filled
      exact ⟨there, out⟩
    next => cases filled
  · rintro ⟨there, out⟩
    exact ⟨_, there, if_pos out⟩

theorem nodup_movedOut (distinct : (Table.keys r.fields).Nodup) :
    ((movedOut p r).map Prod.fst).Nodup := by
  refine distinct.sublist ?_
  unfold movedOut Table.keys
  induction r.fields with
  | nil => exact List.Sublist.refl _
  | cons f fields ih =>
    obtain ⟨name, _ | v⟩ := f <;> cases out : p.movesOut name <;> simp [out, ih]

/-- The resource with the fields that the plan does not move out. -/
def remnant (p : Plan) (r : Resource) : Resource :=
  { r with fields := r.fields.filter fun f => !p.movesOut f.1 }

theorem condemned_eq (p : Plan) (r : Resource) : condemned p r = afoot [remnant p r] := by
  unfold afoot
  rw [List.flatMap_singleton, Resource.owning_possessions]
  rfl

theorem readable_remnant (readable : r.toValue.Readable) : (remnant p r).toValue.Readable := by
  obtain ⟨⟨range, distinct⟩, inside⟩ := Value.Everywhere.resource_iff.1 readable
  refine Value.Everywhere.resource_iff.2
    ⟨⟨range, ?_⟩, fun f hf => inside f (List.mem_filter.1 hf).1⟩
  exact distinct.sublist (List.filter_sublist.map _)

/-- **What is moved out and what is torn down** have nothing in common, if the
ledger has everything where it stands. -/
theorem apart_of_recorded (condemns : ∀ q ∈ condemned p r, l.holding? q.1 = some q.2)
    (held : ∀ f ∈ movedOut p r, ∀ q ∈ f.2.placings (.field r.id f.1),
      l.holding? q.1 = some (.owned q.2)) :
    ∀ q ∈ condemned p r, q.1 ∉ (movedOut p r).flatMap fun f => f.2.rootIds := by
  intro q hq mem
  have afloat : l.holding? r.id = some .inFlight := condemns (r.id, .inFlight) List.mem_cons_self
  obtain ⟨f, hf, place, known, here⟩ := owned_of_heldFields held mem
  rw [condemns q hq] at known
  rcases List.mem_cons.1 hq with rfl | hq
  · cases known
  obtain ⟨⟨name, _ | w⟩, hg, hq⟩ := List.mem_flatMap.1 hq
  · cases hq
  obtain ⟨⟨id, spot⟩, found, rfl⟩ := List.mem_map.1 hq
  obtain rfl := Holding.owned.inj (Option.some.inj known)
  rcases (Value.mem_inventory_iff.1 found).base with base | ⟨owner, there, name', outer, base⟩
  · -- it would be in a field that is moved out and in one that is not
    obtain ⟨-, rfl⟩ := Place.field.inj (here.symm.trans base)
    have kept := (List.mem_filter.1 hg).2
    rw [(mem_movedOut.1 hf).2] at kept
    cases kept
  · -- the resource would be inside itself
    obtain ⟨rfl, -⟩ := Place.field.inj (here.symm.trans base)
    have inside : (r.id, Holding.owned there) ∈ condemned p r :=
      List.mem_cons_of_mem _ (List.mem_flatMap.2
        ⟨_, hg, List.mem_map.2 ⟨_, Value.mem_inventory_iff.2 outer, rfl⟩⟩)
    have elsewhere := condemns _ inside
    rw [afloat] at elsewhere
    cases elsewhere

/-- Fields that are released from first to last stop at one that holds what is
recorded elsewhere. -/
theorem exists_of_fails_movedOut (readable : r.toValue.Readable)
    (h : Fails (releaseFields r.id (movedOut p r)) l e l') :
    ∃ before f after, movedOut p r = before ++ f :: after
      ∧ Returns (releaseFields r.id before) l () l'
      ∧ ∃ q ∈ f.2.placings (.field r.id f.1), l.holding? q.1 ≠ some (.owned q.2) := by
  obtain ⟨before, f, after, u, split, released, stopped⟩ := exists_of_fails_releaseFields h
  obtain ⟨⟨-, distinct⟩, inside⟩ := Value.Everywhere.resource_iff.1 readable
  have hf : f ∈ movedOut p r := split ▸ List.mem_append_right _ List.mem_cons_self
  have readableField : f.2.Readable := inside _ (mem_movedOut.1 hf).1 _ rfl
  obtain rfl := allOrNothing_releaseValue readableField e l' stopped
  refine ⟨before, f, after, split, released, ?_⟩
  by_contra none
  have all : ∀ q ∈ f.2.placings (.field r.id f.1), l.holding? q.1 = some (.owned q.2) :=
    fun q hq => by_contra fun apart => none ⟨q, hq, apart⟩
  obtain ⟨⟨-, heldBefore⟩, rfl⟩ := returns_releaseFields_iff.1 released
  -- what the fields before it held, stood in other fields
  have held : ∀ q ∈ f.2.placings (.field r.id f.1), (l.recordAll
      (flying (before.flatMap fun g => g.2.rootIds))).holding? q.1 = some (.owned q.2) := by
    intro q hq
    rw [holding?_recordAll_of_not_mem, all q hq]
    rw [map_fst_flying]
    intro mem
    obtain ⟨g, hg, place, known, here⟩ := owned_of_heldFields heldBefore mem
    rw [all q hq] at known
    obtain rfl := Holding.owned.inj (Option.some.inj known)
    rw [base_of_mem_placings hq] at here
    have names := nodup_movedOut (p := p) distinct
    rw [split, List.map_append, List.nodup_append] at names
    exact names.2.2 _ (List.mem_map_of_mem hg) _ List.mem_cons_self (Place.field.inj here).2.symm
  exact (returns_releaseValue_iff.2 ⟨⟨readableField.nodup_rootIds held, held⟩, rfl⟩).not_fails
    stopped

/-- The order of a planned teardown lists nothing twice, if the ledger has
everything where the order looks for it. -/
theorem nodup_planned {owned : TeardownOrder} (readable : r.toValue.Readable)
    (census : (census (owned ++ [(r.id, none)])).Perm (condemned p r))
    (condemns : ∀ q ∈ condemned p r, l.holding? q.1 = some q.2) :
    (ids (owned ++ [(r.id, none)])).Nodup := by
  have attests : l.Attests (afoot [remnant p r]) :=
    attests_afoot (List.nodup_singleton _)
      (fun _ hr => List.mem_singleton.1 hr ▸ readable_remnant readable)
      (condemned_eq p r ▸ condemns)
  rw [← map_fst_census, (census.map _).nodup_iff, condemned_eq]
  exact attests.distinct

/-- **Tearing down as planned fails** and changes nothing, or it stops between
two fields that are moved out. -/
theorem exists_of_fails_razePlanned (readable : r.toValue.Readable)
    (h : Fails (razePlanned r p) l e l') :
    l' = l
      ∨ ∃ before f after, movedOut p r = before ++ f :: after
        ∧ Returns (releaseFields r.id before) l () l'
        ∧ ∃ q ∈ f.2.placings (.field r.id f.1), l.holding? q.1 ≠ some (.owned q.2) := by
  rcases keeps_checkDestroy.fails_reads_bind h with rfl | ⟨_, afloat, failed⟩
  · exact .inl rfl
  rcases Keeps.ofExcept.fails_reads_bind failed with rfl | ⟨_, fits, failed⟩
  · exact .inl rfl
  rcases Keeps.ofExcept.fails_reads_bind failed with rfl | ⟨owned, listed, failed⟩
  · exact .inl rfl
  rcases keeps_check.fails_reads_bind failed with rfl | ⟨_, checked, failed⟩
  · exact .inl rfl
  have held := (returns_check.1 checked).1
  rcases fails_bind.1 failed with failed | ⟨_, u, released, failed⟩
  · exact .inr (exists_of_fails_movedOut readable failed)
  -- behind the last field nothing can fail
  exfalso
  obtain ⟨⟨-, heldOut⟩, rfl⟩ := returns_releaseFields_iff.1 released
  have census := planned_census (Value.Everywhere.resource_iff.1 readable).1.2
    (returns_ofExcept.1 listed).1
  have condemns : ∀ q ∈ condemned p r, l.holding? q.1 = some q.2 := by
    intro q hq
    obtain ⟨step, hstep, rfl⟩ := List.mem_map.1 (census.mem_iff.2 hq)
    exact held step hstep
  have stays : ∀ step ∈ owned ++ [(r.id, none)],
      (l.recordAll (flying ((movedOut p r).flatMap fun f => f.2.rootIds))).holding? step.1
        = some ((step.2.map .owned).getD .inFlight) := by
    intro step hstep
    have apart := apart_of_recorded condemns heldOut _
      (census.mem_iff.1 (List.mem_map_of_mem hstep))
    rw [holding?_recordAll_of_not_mem (by rwa [map_fst_flying])]
    exact held step hstep
  exact (returns_apply_iff.2 ⟨⟨nodup_planned readable census condemns, stays⟩, rfl⟩).not_fails
    failed

end Teardown

/-! ## Calls -/

/-- What acts on the ledger and then cannot fail fails there or has changed
nothing. -/
theorem exists_of_fails_acting {α β : Type} {action : LedgerM α} {k : α → CustodyM β}
    {s t : State} {e : Fault} (unfailing : ∀ a, Unfailing (k a))
    (h : Fails (guarded (requireTransaction >>= fun _ => onLedger action >>= k)) s e t) :
    t = s.note e ∨ ∃ l, Fails action s.ledger e l ∧ t = State.note { s with ledger := l } e := by
  obtain ⟨u, failed, rfl⟩ := fails_guarded.1 h
  rcases keeps_requireTransaction.fails_reads_bind failed with rfl | ⟨_, -, failed⟩
  · exact .inl rfl
  rcases fails_bind.1 failed with failed | ⟨a, w, -, failed⟩
  · obtain ⟨l, stopped, rfl⟩ := fails_onLedger.1 failed
    exact .inr ⟨l, stopped, rfl⟩
  · exact (unfailing a w e u failed).elim

/-- **A teardown that fails has changed nothing**, unless it was given what is
not there: the same root twice, and then it stops with the second and has
destroyed what was in front of it; or a field to move out that holds what is not
recorded there, and then the fields moved out before have been released. -/
theorem failed_teardown {s t : State} {e : Fault} :
    (∀ v : Value, v.Readable → Fails (Teardown.destroy v) s e t →
        t = s.note e
          ∨ ¬v.rootIds.Nodup ∧ ∃ gone u, s.Enters u (razing gone) ∧ t = u.note e
            ∧ (∀ id ∈ gone, id ∈ v.ids) ∧ ∃ id ∈ gone, e = .doubleDestroy id)
      ∧ ∀ (r : Resource) (p : Plan), r.toValue.Readable → Fails (Teardown.destroyWith r p) s e t →
        t = s.note e
          ∨ ∃ before f after u, Teardown.movedOut p r = before ++ f :: after
            ∧ (before.flatMap fun g => g.2.rootIds) ≠ []
            ∧ s.Enters u (flying (before.flatMap fun g => g.2.rootIds)) ∧ t = u.note e
            ∧ ∃ q ∈ f.2.placings (.field r.id f.1), s.ledger.holding? q.1 ≠ some (.owned q.2) := by
  refine ⟨fun v readable h => ?_, fun r p readable h => ?_⟩
  · have acting : Fails (guarded (requireTransaction >>= fun _ =>
        onLedger (Teardown.razeValue v) >>= pure)) s e t := by
      simp only [bind_pure]
      exact h
    rcases exists_of_fails_acting (fun _ => .pure) acting with same | ⟨l, failed, rfl⟩
    · exact .inl same
    rcases Teardown.exists_of_fails_razeValue readable failed with
      rfl | ⟨twice, gone, distinct, among, rfl, stopped⟩
    · exact .inl rfl
    refine .inr ⟨twice, gone, _, State.enters_recordAll (List.Perm.refl _)
      (by rwa [map_fst_razing]) (List.forall_mem_map.2 fun id mem => ?_), rfl,
      fun id mem => (among id mem).1, stopped⟩
    obtain ⟨h, known, live⟩ := (among id mem).2
    exact ⟨h, known, live, Holding.ne_destroyed_of_isLive live⟩
  · rcases exists_of_fails_acting (fun _ => .pure) h with same | ⟨l, failed, rfl⟩
    · exact .inl same
    rcases Teardown.exists_of_fails_razePlanned readable failed with
      rfl | ⟨before, f, after, split, released, apart⟩
    · exact .inl rfl
    obtain ⟨⟨distinct, held⟩, rfl⟩ := Teardown.returns_releaseFields_iff.1 released
    by_cases none : (before.flatMap fun g => g.2.rootIds) = []
    · rw [none]
      exact .inl rfl
    refine .inr ⟨before, f, after, _, split, none, State.enters_recordAll (List.Perm.refl _)
      (by rwa [map_fst_flying]) (List.forall_mem_map.2 fun id mem => ?_), rfl, apart⟩
    obtain ⟨_, -, place, owned, -⟩ := Teardown.owned_of_heldFields held mem
    exact ⟨_, owned, rfl, Holding.noConfusion⟩

namespace Scenario

/-- What the ledger says to whoever holds the vault that is saved. -/
def savedAlready : Fault := .alreadyOwned ⟨2⟩ (.stored alice vaultPath)

/-- A vault that has the coin in two fields. -/
def crossed : Resource :=
  ⟨⟨2⟩, "Vault", [("coins", some (.array [keptCoin.toValue])), ("label", some keptCoin.toValue)]⟩

/-- The plan that moves both out. -/
def rescueAll : Plan := rescue.assign "label" .moveOut

end Scenario

/-- The vault that is saved is not torn down where it is not. -/
theorem failed_teardown_saved :
    Fails (Teardown.destroy Scenario.keptVault.toValue) Scenario.saved Scenario.savedAlready
        (Scenario.saved.note Scenario.savedAlready)
      ∧ Fails (Teardown.destroyWith Scenario.keptVault Scenario.rescue) Scenario.saved
        Scenario.savedAlready (Scenario.saved.note Scenario.savedAlready) := by
  have readable := Scenario.regular_keptVault.readable
  have torn : Fails (Teardown.destroy Scenario.keptVault.toValue) Scenario.saved
      Scenario.savedAlready
      (outcome (Teardown.destroy Scenario.keptVault.toValue) Scenario.saved).2 := rfl
  have planned : Fails (Teardown.destroyWith Scenario.keptVault Scenario.rescue) Scenario.saved
      Scenario.savedAlready
      (outcome (Teardown.destroyWith Scenario.keptVault Scenario.rescue) Scenario.saved).2 := rfl
  constructor
  · rwa [(failed_teardown.1 _ readable torn).resolve_right fun h => h.1 (by decide)] at torn
  · refine ((failed_teardown.2 _ _ readable planned).resolve_right ?_) ▸ planned
    -- only one field is moved out
    rintro ⟨before, f, after, u, split, some, -⟩
    have alone : Teardown.movedOut Scenario.rescue Scenario.keptVault
        = [("coins", .array [Scenario.keptCoin.toValue])] := rfl
    rw [alone] at split
    cases before with
    | nil => exact some rfl
    | cons g before =>
      have length := congrArg List.length split
      simp at length

/-- **A teardown stops halfway**: the coin that is given twice is destroyed when
the teardown fails, and the coin that the vault is said to have in two fields is
taken from the first when moving out the second fails. -/
theorem teardown_stops_halfway :
    (∃ t, Fails (Teardown.destroy Scenario.doubled) Scenario.paying (.doubleDestroy ⟨1⟩) t
        ∧ Scenario.paying.ledger.holding? ⟨1⟩ = some .inFlight
        ∧ t.ledger.holding? ⟨1⟩ = some .destroyed)
      ∧ ∃ t, Fails (Teardown.destroyWith Scenario.crossed Scenario.rescueAll) Scenario.vaulting
          (.alreadyInFlight ⟨1⟩) t
        ∧ Scenario.vaulting.ledger.holding? ⟨1⟩
          = some (.owned ((Place.field ⟨2⟩ "coins").element (.uint 0)))
        ∧ t.ledger.holding? ⟨1⟩ = some .inFlight :=
  ⟨⟨_, rfl, rfl, rfl⟩, _, rfl, rfl, rfl⟩

end Custody
