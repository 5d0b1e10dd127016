import Custody.Proofs.Atomicity
import Custody.Proofs.Effects

/-!
# The effects of making, destroying, and closing frames

Making a resource adds one to the resources there are, a teardown takes away
what it tore down, and everything else stays. Closing a frame returns only
when the ledger records nothing in a local of it; since the ledger says where
everything is, the frame held nothing.
-/

namespace Custody

open Ledger CustodyM

variable {s s' : State} {v : Value}

/-! ## Making -/

namespace Construction

variable {typeName : String} {fields : List (String × Value)}

/-- What was made has been entered. -/
theorem entered_of_createResource (h : Returns (createResource typeName fields) s v s') :
    ∃ id l, Returns (enter fields) s.ledger id l ∧ s' = { s with ledger := l }
      ∧ v = (Resource.ofAssignments id typeName fields).toValue := by
  unfold createResource at h
  obtain ⟨_, t, required, h⟩ := returns_bind.1 (returns_guarded.1 h)
  obtain ⟨-, rfl⟩ := returns_requireTransaction.1 required
  obtain ⟨_, t, declared, h⟩ := returns_bind.1 h
  obtain rfl := (keeps_requireComposite (R := Eq)).of_returns declared
  obtain ⟨id, t, acted, h⟩ := returns_bind.1 h
  obtain ⟨l, entered, rfl⟩ := returns_onLedger.1 acted
  obtain ⟨rfl, rfl⟩ := returns_pure.1 h
  exact ⟨id, l, entered, rfl, rfl⟩

/-- **A new resource** is minted and takes the values of its fields. -/
theorem effect_createResource (distinct : (fields.map Prod.fst).Nodup)
    (regular : ∀ f ∈ fields, f.2.Regular) (room : s.ledger.next < UInt64.size)
    (h : Returns (createResource typeName fields) s v s') :
    Effect s s' (fields.flatMap fun f => f.2.resources) v.resources v.resourceId?.toList [] := by
  obtain ⟨id, l, entered, rfl, rfl⟩ := entered_of_createResource h
  rw [Value.resources_resource]
  refine Effect.of_ledger (fun _ rest before => reflects_enter distinct entered before)
    (fun _ => ?_) (fun _ r hr => ?_) ⟨List.nodup_singleton _, fun id' mem => ?_⟩
  · rw [List.append_nil]
    exact (ids_enter distinct entered).trans (List.perm_append_singleton _ _).symm
  · obtain ⟨rfl, -⟩ := returns_enter entered
    obtain rfl := List.mem_singleton.1 hr
    exact regular_ofAssignments room regular
  · obtain ⟨rfl, settled⟩ := returns_enter entered
    obtain rfl := List.mem_singleton.1 mem
    have grown : s.ledger.next + 1 ≤ l.next := (keeps_settleFields lawful_grows).of_returns settled
    exact ⟨Nat.le_refl _, grown⟩

end Construction

/-! ## Destroying -/

theorem Value.map_fst_afoot (v : Value) : (afoot v.resources).map Prod.fst = v.ids := by
  rw [afoot_resources, List.map_append, map_fst_flying, map_fst_owning]
  rfl

theorem map_fst_afoot_flatMap (fields : List (String × Value)) :
    ((afoot (fields.flatMap fun f => f.2.resources)).map Prod.fst).Perm
      (fields.flatMap fun f => f.2.ids) := by
  induction fields with
  | nil => exact List.Perm.nil
  | cons f fields ih =>
    refine ((afoot_append _ _).map _).trans ?_
    rw [List.map_append, Value.map_fst_afoot, List.flatMap_cons]
    exact ih.append_left _

namespace Teardown

variable {r : Resource} {p : Plan}

/-- What was destroyed has been torn down in the order of its roots. -/
theorem applied_of_destroy (h : Returns (destroy v) s () s') :
    ∃ l, Returns (do apply (← orderOf v.resources)) s.ledger () l
      ∧ s' = { s with ledger := l } := by
  unfold destroy at h
  obtain ⟨_, t, required, h⟩ := returns_bind.1 (returns_guarded.1 h)
  obtain ⟨-, rfl⟩ := returns_requireTransaction.1 required
  obtain ⟨l, razed, rfl⟩ := returns_onLedger.1 h
  exact ⟨l, razed, rfl⟩

/-- **A teardown** takes away what it is given. -/
theorem effect_destroy (h : Returns (destroy v) s () s') :
    Effect s s' v.resources [] [] v.ids := by
  obtain ⟨l, razed, rfl⟩ := applied_of_destroy h
  refine Effect.of_ledger (fun _ rest before => reflects_destroy razed before) (fun _ => ?_)
    (fun _ _ hr => nomatch hr) ⟨List.nodup_nil, fun _ h => nomatch h⟩
  rw [v.map_fst_afoot, List.append_nil]
  exact List.Perm.refl _

/-- What was destroyed as planned was in flight, and the plan fits it; what the
plan moves out has been released, and the rest torn down. -/
theorem applied_of_destroyWith {moved : List (String × Value)}
    (h : Returns (destroyWith r p) s moved s') :
    moved = movedOut p r ∧ p.validate r = .ok () ∧ ∃ owned u l,
      Returns (Ledger.checkDestroy r.id none) s.ledger () s.ledger
      ∧ r.teardownFields (fun field => p.movesOut field || r.isFieldMoved field) = .ok owned
      ∧ Returns (releaseFields r.id (movedOut p r)) s.ledger () u
      ∧ Returns (apply (owned ++ [(r.id, none)])) u () l
      ∧ s' = { s with ledger := l } := by
  unfold destroyWith at h
  obtain ⟨_, t, required, h⟩ := returns_bind.1 (returns_guarded.1 h)
  obtain ⟨-, rfl⟩ := returns_requireTransaction.1 required
  obtain ⟨_, t, acted, h⟩ := returns_bind.1 h
  obtain ⟨l, razed, rfl⟩ := returns_onLedger.1 acted
  obtain ⟨rfl, rfl⟩ := returns_pure.1 h
  obtain ⟨_, u, checked, razed⟩ := returns_bind.1 razed
  obtain rfl := (keeps_checkDestroy (R := Eq)).of_returns checked
  obtain ⟨_, fits, razed⟩ := returns_ofExcept_bind.1 razed
  obtain ⟨owned, listed, razed⟩ := returns_ofExcept_bind.1 razed
  obtain ⟨_, u, checked', razed⟩ := returns_bind.1 razed
  obtain rfl := (keeps_check (R := Eq)).of_returns checked'
  obtain ⟨_, u, released, applied⟩ := returns_bind.1 razed
  exact ⟨rfl, fits, owned, u, l, checked, listed, released, applied, rfl⟩

/-- **A planned teardown** takes away what it tears down and hands back what
it moves out. -/
theorem effect_destroyWith {moved : List (String × Value)}
    (h : Returns (destroyWith r p) s moved s') :
    Effect s s' [r] (moved.flatMap fun f => f.2.resources) [] (tornDown p r) := by
  obtain ⟨rfl, -, owned, u, l, -, listed, released, applied, rfl⟩ := applied_of_destroyWith h
  refine Effect.of_ledger
    (fun regular rest before => reflects_destroyWith (regular r (List.mem_singleton_self r))
      listed released applied before)
    (fun _ => ?_) (fun regular root hr => ?_) ⟨List.nodup_nil, fun _ h => nomatch h⟩
  · rw [List.append_nil]
    refine ((map_fst_afoot_flatMap _).append_right _).trans ?_
    exact List.perm_append_comm.trans (tornDown_perm p r).symm
  · obtain ⟨f, hf, root'⟩ := List.mem_flatMap.1 hr
    obtain ⟨slot, hslot, filled⟩ := List.mem_filterMap.1 hf
    obtain ⟨-, inside⟩ := Value.Regular.resource_iff.1 (regular r (List.mem_singleton_self r))
    split at filled
    · obtain ⟨w, found, rfl⟩ := Option.map_eq_some_iff.1 filled
      exact (inside slot hslot w found).resources root root'
    · cases filled

end Teardown

/-! ## Closing frames -/

/-- A value whose roots are recorded in locals of a frame of which nothing is
recorded has no roots. -/
theorem Value.resources_eq_nil_of_heldIn {l : Ledger} {frame : FrameId} {place : Place}
    (there : place.frame? = some frame) (none : l.heldIn frame = [])
    (recorded : ∀ e ∈ v.placings place, l.holding? e.1 = some (.owned e.2)) :
    v.resources = [] := by
  refine resources_eq_nil_iff.2 (List.eq_nil_iff_forall_not_mem.2 fun root mem => ?_)
  have placed : (root.2.id, place.within root.1) ∈ v.placings place := by
    rw [placings_eq]
    exact List.mem_map_of_mem mem
  have inFrame : (place.within root.1).frame? = some frame := by
    unfold Place.frame? at there ⊢
    rwa [Place.base_within]
  have held := mem_heldIn_iff.2 ⟨recorded _ placed, inFrame⟩
  rw [none] at held
  cases held

/-- **A frame of which nothing is recorded** holds nothing. -/
theorem Frame.standing_eq_nil {l : Ledger} {f : Frame}
    (recorded : ∀ e ∈ f.standing, l.holding? e.1 = some e.2) (none : l.heldIn f.id = []) :
    f.standing = [] := by
  refine List.flatMap_eq_nil_iff.2 fun b hb => ?_
  obtain ⟨name, v | _⟩ := b
  · have there : (Place.binding f.id name).frame? = some f.id := rfl
    refine Value.standing_of_resources_eq_nil
      (Value.resources_eq_nil_of_heldIn there none fun e he => recorded (e.1, .owned e.2) ?_) _
    refine List.mem_flatMap.2 ⟨_, hb, ?_⟩
    show _ ∈ v.standing _
    rw [Value.standing_eq]
    exact List.mem_append_left _ (List.mem_map_of_mem he)
  · rfl

namespace Frames

variable {frame : FrameId}

theorem returns_pop_iff (h : Returns (pop frame) s () s') :
    ∃ f stack, s.stack.pop frame = .ok (f, stack) ∧ s.ledger.heldIn frame = []
      ∧ s' = { s with stack := stack, loans := s.loans.releaseFrame frame } := by
  unfold pop at h
  rw [returns_guarded, returns_get_bind] at h
  obtain ⟨⟨f, stack⟩, popped, h⟩ := returns_ofExcept_bind.1 h
  dsimp only at h
  rw [returns_modify_bind, returns_get_bind] at h
  refine ⟨f, stack, popped, ?_⟩
  split at h
  · exact (not_returns_throw h).elim
  next none =>
    obtain ⟨-, rfl⟩ := returns_pure.1 h
    exact ⟨List.head?_eq_none_iff.1 none, rfl⟩

/-- **Closing a frame** takes nothing away. -/
theorem effect_pop (h : Returns (pop frame) s () s') : Effect s s' [] [] [] [] := by
  obtain ⟨f, stack, popped, none, rfl⟩ := returns_pop_iff h
  obtain ⟨rfl, frames, -⟩ := CallStack.pop_eq_ok popped
  have standing : s.stack.standing = f.standing ++ stack.standing := by
    unfold CallStack.standing
    rw [frames, List.flatMap_cons]
  -- a frame closes only when no record names it, so nothing stands in it
  have same {rest : Census} (h : s.ledger.Reflects (s.standing ++ rest)) :
      State.standing { s with stack := stack, loans := s.loans.releaseFrame f.id }
        = s.standing := by
    have empty : f.standing = [] := by
      refine Frame.standing_eq_nil (fun e he => h.holding? ?_) none
      refine List.mem_append_left _ (List.mem_append_right _ ?_)
      rw [standing]
      exact List.mem_append_left _ he
    unfold State.standing
    rw [standing, empty]
    rfl
  refine ⟨fun rest a => ⟨?_, a.store, fun g hg => ?_, a.hands⟩, fun hands o => ?_,
    List.nodup_nil, fun _ h => nomatch h⟩
  · show s.ledger.Reflects _
    have reflects := a.reflects
    rw [afoot_nil, List.append_nil] at reflects ⊢
    rwa [same reflects]
  · exact a.locals g (frames ▸ List.mem_cons_of_mem _ hg)
  · unfold State.ids State.census
    rw [same o.reflects]

theorem effect_popAll {frames : List FrameId} (h : Returns (popAll frames) s () s') :
    Effect s s' [] [] [] [] := by
  induction frames generalizing s with
  | nil =>
    obtain ⟨-, rfl⟩ := returns_pure.1 h
    exact Effect.refl s []
  | cons frame frames ih =>
    unfold popAll at h
    rw [returns_observing_bind] at h
    rw [returns_observing_bind] at h
    obtain ⟨_, first, h⟩ := returns_ofExcept_bind.1 h
    obtain ⟨others, rfl⟩ := returns_ofExcept.1 h
    exact (effect_pop (Prod.ext first rfl)).trans (ih (Prod.ext others rfl))

/-- **Unwinding** takes nothing away. -/
theorem effect_unwind (h : Returns (unwind frame) s () s') : Effect s s' [] [] [] [] := by
  unfold unwind at h
  rw [returns_get_bind] at h
  dsimp only at h
  split at h
  · exact effect_popAll h
  · exact (not_returns_throw (returns_guarded.1 h)).elim

end Frames

end Custody
