import Custody.Proofs.Dissolution

/-!
# Destroying outright and by a covering plan

There are two ways to destroy a whole resource: to give it up as a value, and
to give it up with the plan that names each of its filled fields for
destruction. They are written apart. The first looks for the roots of a value
and checks each before it looks at what it owns. The second checks its plan
against the resource, leaves fields out, releases what is moved out, and looks
twice at what it is going to destroy.

They agree on every resource that has no empty field of its own, whoever made
it up and whatever lies in its fields: a covering plan fits and leaves nothing
out (`Plan.validate_covering`), it moves nothing out, and looking twice is
looking once. So the two are one action, up to the list of fields that a plan
hands back, which is empty (`Teardown.destroyWith_covering`).
-/

namespace Custody

open Ledger CustodyM

variable {r : Resource} {name : String}

/-- A field that no entry leaves empty has not been moved out. -/
theorem Resource.isFieldMoved_of_filled (filled : ∀ f ∈ r.fields, f.2.isSome = true)
    (name : String) : r.isFieldMoved name = false := by
  unfold isFieldMoved
  cases found : Table.get? r.fields name with
  | none => rfl
  | some slot =>
    obtain ⟨v, rfl⟩ := Option.isSome_iff_exists.1 (filled _ (Table.mem_of_get?_eq_some found))
    rfl

/-! ## The covering plan -/

namespace Plan

theorem fates_covering (r : Resource) :
    (covering r).fates
      = Table.ofList ((r.fields.filter fun f => f.2.isSome).map fun f => (f.1, .destroy)) := by
  unfold covering Table.ofList
  rw [List.foldl_map]
  exact (List.foldl_hom fates fun _ _ => rfl).symm

/-- **A covering plan destroys** exactly the fields that are filled. -/
theorem fate?_covering {fate : FieldFate} :
    (covering r).fate? name = some fate
      ↔ fate = .destroy ∧ ∃ f ∈ r.fields, f.2.isSome = true ∧ f.1 = name := by
  unfold fate?
  rw [fates_covering]
  generalize assigned : (r.fields.filter fun f => f.2.isSome).map
    (fun f => (f.1, FieldFate.destroy)) = assignments
  have mem_iff (fate : FieldFate) : (name, fate) ∈ assignments
      ↔ fate = .destroy ∧ ∃ f ∈ r.fields, f.2.isSome = true ∧ f.1 = name := by
    rw [← assigned, List.mem_map]
    constructor
    · rintro ⟨f, hf, same⟩
      obtain ⟨rfl, rfl⟩ := Prod.mk.inj same
      exact ⟨rfl, f, (List.mem_filter.1 hf).1, (List.mem_filter.1 hf).2, rfl⟩
    · rintro ⟨rfl, f, hf, full, rfl⟩
      exact ⟨f, List.mem_filter.2 ⟨hf, full⟩, rfl⟩
  constructor
  · intro found
    obtain ⟨first, later, rfl, -⟩ := Table.get?_ofList_eq_some_iff.1 found
    exact (mem_iff fate).1 (List.mem_append_right _ List.mem_cons_self)
  · rintro ⟨rfl, full⟩
    obtain ⟨first, fate, later, rfl, last⟩ :=
      Table.exists_last (List.mem_map_of_mem ((mem_iff .destroy).2 ⟨rfl, full⟩))
    -- whatever is assigned to the field last, it is destruction
    obtain rfl := ((mem_iff fate).1 (List.mem_append_right _ List.mem_cons_self)).1
    exact Table.get?_ofList first last

theorem movesOut_covering (r : Resource) (name : String) :
    (covering r).movesOut name = false :=
  decide_eq_false fun fate => nomatch (fate?_covering.1 fate).1

/-- A plan passes the second check if every field it does not name is
copyable. -/
theorem checkUnnamed_eq_ok_iff {p : Plan} {id : ResourceId}
    {fields : List (String × Option Value)} :
    checkUnnamed p id fields = .ok ()
      ↔ ∀ f ∈ fields, p.fate? f.1 = none → f.2.any Value.isLinear = false := by
  induction fields with
  | nil => simp [checkUnnamed]
  | cons f fields ih =>
    rw [checkUnnamed, List.forall_mem_cons]
    cases p.fate? f.1 <;> cases f.2.any Value.isLinear <;> simp [ih]

/-- **A covering plan fits** a resource without empty fields. -/
theorem validate_covering (filled : ∀ f ∈ r.fields, f.2.isSome = true) :
    (covering r).validate r = .ok () := by
  refine bind_eq_ok_iff.2 ⟨(), checkNamed_eq_ok_iff.2 fun name named => ⟨?_, ?_⟩,
    checkUnnamed_eq_ok_iff.2 fun f hf unnamed => ?_⟩
  · obtain ⟨fate, assigned⟩ := Option.isSome_iff_exists.1
      ((Table.contains_iff_mem_keys _ name).2 named)
    obtain ⟨-, f, hf, -, rfl⟩ := fate?_covering.1 assigned
    exact (Table.contains_iff_mem_keys _ _).2 (List.mem_map_of_mem hf)
  · exact Resource.isFieldMoved_of_filled filled name
  · have assigned := fate?_covering.2 ⟨rfl, f, hf, filled f hf, rfl⟩
    rw [unnamed] at assigned
    cases assigned

end Plan

/-! ## One action -/

namespace Teardown

variable {α β : Type}

theorem movedOut_covering (r : Resource) : movedOut (.covering r) r = [] :=
  List.filterMap_eq_nil_iff.2 fun f _ => if_neg (by simp [Plan.movesOut_covering])

/-- Looking at everything before a teardown, which looks at everything itself,
makes no difference. -/
theorem check_apply (order : TeardownOrder) : (do check order; apply order) = apply order := by
  refine funext fun l => ?_
  show outcome (check order >>= fun _ => apply order) l = outcome (apply order) l
  unfold apply
  rw [outcome_bind]
  rcases looked : outcome (check order) l with ⟨_ | _, u⟩
  · rw [outcome_bind, looked]
  · obtain rfl := (keeps_check (R := Eq)).of_returns looked
    rfl

/-- The two teardowns enter the same in the ledger, and fail alike. -/
theorem razePlanned_covering (filled : ∀ f ∈ r.fields, f.2.isSome = true) :
    razePlanned r (.covering r) = razeValue r.toValue := by
  have skip : (fun field => (Plan.covering r).movesOut field || r.isFieldMoved field)
      = fun _ => false := by
    funext field
    rw [Plan.movesOut_covering, Resource.isFieldMoved_of_filled filled]
    rfl
  have held : r.toValue.held.map Prod.snd = [r] := Value.resources_resource r
  unfold razePlanned razeValue
  rw [Plan.validate_covering filled, skip, movedOut_covering, held]
  simp only [releaseFields, orderOf, ofExcept, pure_bind, bind_assoc, List.append_nil,
    check_apply]

/-- What a guarded action makes of its result in the end needs no guard. -/
theorem guarded_report (m : CustodyM α) (f : α → β) :
    guarded (m >>= fun a => pure (f a)) = guarded m >>= fun a => pure (f a) := by
  refine funext fun s => ?_
  show outcome (guarded (m >>= fun a => pure (f a))) s
    = outcome (guarded m >>= fun a => pure (f a)) s
  rw [outcome_guarded, outcome_bind, outcome_bind, outcome_guarded]
  rcases outcome m s with ⟨_ | _, t⟩ <;> rfl

/-- **A covering plan is outright destruction**, and hands back nothing. -/
theorem destroyWith_covering (filled : ∀ f ∈ r.fields, f.2.isSome = true) :
    destroyWith r (.covering r) = (do destroy r.toValue; return []) := by
  have planned : destroyWith r (.covering r)
      = guarded (requireTransaction >>= fun _ => onLedger (razePlanned r (.covering r)) >>=
          fun _ => pure (movedOut (.covering r) r)) := rfl
  rw [planned, razePlanned_covering filled, movedOut_covering, ← bind_assoc]
  exact guarded_report _ _

end Teardown

/-- **Destroying outright and by a covering plan agree**, for a resource whose
own fields are all filled: either both succeed, and the plan hands back no field,
or both fail with the same fault. The state they leave is the same. -/
theorem covering_agrees (filled : ∀ f ∈ r.fields, f.2.isSome = true) (s : State) :
    (∃ t, Returns (Teardown.destroy r.toValue) s () t
        ∧ Returns (Teardown.destroyWith r (.covering r)) s [] t)
      ∨ ∃ e t, Fails (Teardown.destroy r.toValue) s e t
        ∧ Fails (Teardown.destroyWith r (.covering r)) s e t := by
  rw [Teardown.destroyWith_covering filled]
  rcases returns_or_fails (Teardown.destroy r.toValue) s with ⟨_, t, returned⟩ | ⟨e, t, failed⟩
  · exact .inl ⟨t, returned, returns_bind.2 ⟨(), t, returned, returns_pure.2 ⟨rfl, rfl⟩⟩⟩
  · exact .inr ⟨e, t, failed, fails_bind.2 (.inl failed)⟩

/-- A vault is destroyed by the plan that covers it as it is without a plan. -/
theorem covering_agrees_vault :
    (∀ f ∈ Scenario.keptVault.fields, f.2.isSome = true)
      ∧ Returns (Teardown.destroy Scenario.keptVault.toValue) Scenario.vaulting ()
          Scenario.leveled
      ∧ Returns (Teardown.destroyWith Scenario.keptVault (.covering Scenario.keptVault))
          Scenario.vaulting [] Scenario.leveled := by
  have filled : ∀ f ∈ Scenario.keptVault.fields, f.2.isSome = true := by decide
  have torn : Returns (Teardown.destroy Scenario.keptVault.toValue) Scenario.vaulting ()
      Scenario.leveled := rfl
  rcases covering_agrees filled Scenario.vaulting with ⟨t, outright, planned⟩ | ⟨e, t, failed, -⟩
  · obtain rfl := (torn.unique outright).2
    exact ⟨filled, torn, planned⟩
  · exact (torn.not_fails failed).elim

end Custody
