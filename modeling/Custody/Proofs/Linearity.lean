import Custody.Proofs.Subtyping

/-!
# What the type of a value says of its linearity

Whether a value is linear is read off its elements, one by one. Whether its type is
linear is read off one element type for all of them, and elements of different types
have `Any` in common, which is not linear. So the two readings agree on a value as
long as no container in it is **mixed**, and where one is they part: the value is
linear and its type is not (`Registry.isResourceTy_ty_iff`).
-/

namespace Custody

variable {r : Registry} {v w : Value}

/-! ## Mixed containers -/

namespace Value

/-- **A container in the value has elements of different types.** Containers are
looked for in elements of containers, not in fields. -/
inductive Mixed : Value → Prop where
  /-- The value is a container and has such elements itself. -/
  | here {v x y : Value} (container : v.IsContainer) (hx : x ∈ v.parts) (hy : y ∈ v.parts)
      (differ : x.ty ≠ y.ty) : Mixed v
  /-- An element has such a container in it. -/
  | inside {v x : Value} (container : v.IsContainer) (hx : x ∈ v.parts) (h : Mixed x) : Mixed v

/-- A container is mixed, or all its elements are of one type and none is mixed. -/
theorem mixed_container_iff (container : v.IsContainer) :
    v.Mixed ↔ ¬((∀ x ∈ v.parts, ∀ y ∈ v.parts, x.ty = y.ty) ∧ ∀ x ∈ v.parts, ¬x.Mixed) := by
  constructor
  · rintro h ⟨uniform, whole⟩
    cases h with
    | here _ hx hy differ => exact differ (uniform _ hx _ hy)
    | inside _ hx h => exact whole _ hx h
  · intro h
    by_contra whole
    refine h ⟨fun x hx y hy => ?_, fun x hx mixed => whole (.inside container hx mixed)⟩
    by_contra differ
    exact whole (.here container hx hy differ)

end Value

/-! ## Linear types -/

namespace Registry

/-- **The value is built from what is declared**: from resources of names declared as
resources, structs of names declared as structs, and flat values, in containers at
any depth. -/
inductive Builds (r : Registry) : Value → Prop where
  | flat {v : Value} (h : v.IsFlat) : Builds r v
  | struct {name : String} (fields : List (String × Value))
      (declared : r.kindOf? name = some .struct) : Builds r (.struct name fields)
  | resource {name : String} (id : ResourceId) (fields : List (String × Option Value))
      (declared : r.kindOf? name = some .resource) : Builds r (.resource id name fields)
  | container {v : Value} (h : v.IsContainer) (elements : ∀ x ∈ v.parts, Builds r x) : Builds r v

/-- **A common type is linear** when all types are the same and linear. -/
theorem isResourceTy_common_iff {types : List Ty} :
    r.isResourceTy (Ty.common types) = true
      ↔ (∀ t ∈ types, ∀ u ∈ types, t = u) ∧ ∃ t ∈ types, r.isResourceTy t = true := by
  cases types with
  | nil => simp [Ty.common, isResourceTy]
  | cons t rest =>
    show r.isResourceTy (if rest.all (· = t) then t else .any) = true ↔ _
    by_cases uniform : rest.all (· = t) = true
    · have same : ∀ u ∈ t :: rest, u = t := by
        simpa using uniform
      rw [if_pos uniform]
      constructor
      · intro linear
        exact ⟨fun u hu w hw => (same u hu).trans (same w hw).symm, t, List.mem_cons_self, linear⟩
      · rintro ⟨-, u, hu, linear⟩
        exact same u hu ▸ linear
    · rw [if_neg uniform]
      refine iff_of_false Bool.false_ne_true fun h => uniform ?_
      exact List.all_eq_true.2 fun u hu =>
        decide_eq_true (h.1 u (List.mem_cons_of_mem t hu) t List.mem_cons_self)

/-- The type of a container is linear when its elements have a linear type in common. -/
theorem isResourceTy_container (container : v.IsContainer) :
    r.isResourceTy v.ty = true
      ↔ (∀ x ∈ v.parts, ∀ y ∈ v.parts, x.ty = y.ty)
        ∧ ∃ x ∈ v.parts, r.isResourceTy x.ty = true := by
  have common : r.isResourceTy v.ty = r.isResourceTy (Ty.common (v.parts.map Value.ty)) := by
    cases v with
    | array elements =>
      rw [Value.ty_array]
      rfl
    | dict entries =>
      rw [Value.ty_dict, Value.parts, List.map_map]
      rfl
    | _ => exact container.elim
  rw [common, isResourceTy_common_iff]
  simp only [List.forall_mem_map]
  refine and_congr_right fun _ => ?_
  simp only [List.mem_map, exists_exists_and_eq_and]

/-- Flat values have types that are not linear. -/
theorem isResourceTy_flat (h : v.IsFlat) : r.isResourceTy v.ty = false := by
  cases v with
  | capability c =>
    obtain ⟨address, path, _ | promise⟩ := c
    · rfl
    · rfl
  | array | dict | struct | resource => exact h.elim
  | _ => rfl

/-- **The type of a value is linear** exactly when the value is, and no container in it
is mixed. -/
theorem isResourceTy_ty_iff (builds : r.Builds v) :
    r.isResourceTy v.ty = true ↔ v.isLinear = true ∧ ¬v.Mixed := by
  induction builds with
  | flat h =>
    rw [isResourceTy_flat h, Value.isLinear_flat h]
    exact iff_of_false Bool.false_ne_true fun linear => Bool.false_ne_true linear.1
  | @struct name fields declared =>
    have copyable := Value.isLinear_eq_false_iff.2 (Value.resources_struct name fields)
    refine iff_of_false (fun linear => ?_) fun linear => Bool.false_ne_true (copyable ▸ linear.1)
    have kind := of_decide_eq_true linear
    rw [declared] at kind
    cases kind
  | resource id fields declared =>
    refine iff_of_true (decide_eq_true declared) ⟨?_, fun mixed => ?_⟩
    · unfold Value.isLinear
      rw [Value.fold_resource]
      rfl
    · cases mixed with
      | here container => exact container
      | inside container => exact container
  | @container v container elements ih =>
    rw [isResourceTy_container container, Value.mixed_container_iff container, not_not,
      Value.isLinear_container container]
    constructor
    · rintro ⟨uniform, x, hx, linear⟩
      refine ⟨⟨x, hx, ((ih x hx).1 linear).1⟩, uniform, fun y hy => ?_⟩
      exact ((ih y hy).1 (uniform x hx y hy ▸ linear)).2
    · rintro ⟨⟨x, hx, linear⟩, uniform, whole⟩
      exact ⟨uniform, x, hx, (ih x hx).2 ⟨linear, whole x hx⟩⟩

end Registry

/-! ## At the types of all linear values and of all others -/

/-- Only nothing is of the empty type. -/
theorem Value.ty_eq_never_iff : v.ty = .never ↔ v = .nil := by
  cases v with
  | array => simp [ty_array]
  | dict => simp [ty_dict]
  | capability c =>
    obtain ⟨address, path, _ | promise⟩ := c
    · exact iff_of_false nofun nofun
    · exact iff_of_false nofun nofun
  | nil => exact iff_of_true rfl rfl
  | _ => exact iff_of_false nofun nofun

/-- Only elements are of the type of everything. -/
theorem Value.ty_ne_any (v : Value) : v.ty ≠ .any := by
  cases v with
  | array => simp [ty_array]
  | dict => simp [ty_dict]
  | capability c =>
    obtain ⟨address, path, _ | promise⟩ := c
    · exact nofun
    · exact nofun
  | _ => exact nofun

open Registry in
/-- **Types tell linear values from others, unless a container is mixed.** Of a value
that is built from what is declared: if it is linear and no container in it is mixed,
its type is a subtype of the linear types and not of the others, and if one is mixed
it is the other way around; if it is not linear, its type is a subtype of the others,
and of the linear types only when the value is nothing. So whoever can load a linear
value as what it is can load it as a linear value or as another, and which of the two
depends on its containers. -/
theorem types_tell_linearity (builds : r.Builds v) :
    (v.isLinear = true → (r.isSubtype v.ty .anyResource = true ↔ ¬v.Mixed)
        ∧ (r.isSubtype v.ty .anyStruct = true ↔ v.Mixed))
      ∧ (v.isLinear = false → r.isSubtype v.ty .anyStruct = true
        ∧ (r.isSubtype v.ty .anyResource = true ↔ v = .nil))
      ∧ ∀ s u address path, s.registry = r → v.isLinear = true →
        Returns (Storage.load address path v.ty) s (some v) u →
          (Returns (Storage.load address path .anyResource) s (some v) u ↔ ¬v.Mixed)
            ∧ (Returns (Storage.load address path .anyStruct) s (some v) u ↔ v.Mixed) := by
  have kind := isResourceTy_ty_iff builds
  have linear : v.isLinear = true → (r.isSubtype v.ty .anyResource = true ↔ ¬v.Mixed)
      ∧ (r.isSubtype v.ty .anyStruct = true ↔ v.Mixed) := by
    intro linear
    have some : v.ty ≠ .never := by
      rw [Ne, Value.ty_eq_never_iff]
      rintro rfl
      cases linear
    rw [isSubtype_anyResource_iff, isSubtype_anyStruct_iff, or_iff_right some, or_iff_right some,
      and_iff_right v.ty_ne_any, ← Bool.not_eq_true, kind, and_iff_right linear, not_not]
    exact ⟨Iff.rfl, Iff.rfl⟩
  refine ⟨linear, fun copyable => ?_, ?_⟩
  · have other : r.isResourceTy v.ty = false := by
      rw [← Bool.not_eq_true, kind, copyable]
      exact fun h => Bool.false_ne_true h.1
    rw [isSubtype_anyResource_iff, isSubtype_anyStruct_iff, other, ← Value.ty_eq_never_iff]
    exact ⟨.inr ⟨v.ty_ne_any, rfl⟩, or_iff_left Bool.false_ne_true⟩
  · rintro s u address path rfl isLinear loaded
    rw [Storage.returns_load_at_iff loaded, Storage.returns_load_at_iff loaded]
    exact linear isLinear

namespace Scenario

/-- A coin alone in a bag. -/
def purse : Value := .array [keptCoin.toValue]

/-- A coin and a number in a bag. -/
def mixedBag : Value := .array [keptCoin.toValue, .uint 7]

/-- A bag with the coin in it is saved. -/
def stashed (bag : Value) : State :=
  begun.after [.call makeCoin, .call (.save alice spendingPath bag)]

theorem builds_purse : registry.Builds purse :=
  .container trivial fun _ hx => List.mem_singleton.1 hx ▸ .resource _ _ rfl

theorem builds_mixedBag : registry.Builds mixedBag := by
  refine .container trivial fun x hx => ?_
  rcases List.mem_cons.1 hx with rfl | hx
  · exact .resource _ _ rfl
  · exact List.mem_singleton.1 hx ▸ .flat trivial

theorem not_mixed_purse : ¬purse.Mixed :=
  ((Registry.isResourceTy_ty_iff builds_purse).1 rfl).2

theorem mixed_mixedBag : mixedBag.Mixed :=
  .here trivial List.mem_cons_self (List.mem_cons_of_mem _ (List.mem_singleton_self _)) nofun

end Scenario

/-- A coin alone is loaded as a linear value; with a number beside it, it is loaded as
one that is not. -/
theorem types_tell_linearity_bags :
    (∃ u, Returns (Storage.load Scenario.alice Scenario.spendingPath .anyResource)
        (Scenario.stashed Scenario.purse) (some Scenario.purse) u)
      ∧ ∃ u, Returns (Storage.load Scenario.alice Scenario.spendingPath .anyStruct)
        (Scenario.stashed Scenario.mixedBag) (some Scenario.mixedBag) u := by
  obtain ⟨u, loaded⟩ : ∃ u, Returns (Storage.load Scenario.alice Scenario.spendingPath
      Scenario.purse.ty) (Scenario.stashed Scenario.purse) (some Scenario.purse) u := ⟨_, rfl⟩
  obtain ⟨w, emptied⟩ : ∃ w, Returns (Storage.load Scenario.alice Scenario.spendingPath
      Scenario.mixedBag.ty) (Scenario.stashed Scenario.mixedBag) (some Scenario.mixedBag) w :=
    ⟨_, rfl⟩
  have uniform := (types_tell_linearity Scenario.builds_purse).2.2 _ _ _ _ rfl rfl loaded
  have mixed := (types_tell_linearity Scenario.builds_mixedBag).2.2 _ _ _ _ rfl rfl emptied
  exact ⟨⟨u, uniform.1.2 Scenario.not_mixed_purse⟩, w, mixed.2.2 Scenario.mixed_mixedBag⟩

/-- **A bag with a coin and a number is loaded as if it held no resource.** It is
linear, and its type is not; as a linear value it is refused. -/
theorem mixedBag_loaded_as_struct :
    Scenario.registry.kindOf? "Coin" = some .resource ∧ Scenario.mixedBag.isLinear = true
      ∧ Scenario.registry.isSubtype Scenario.mixedBag.ty .anyResource = false
      ∧ Scenario.registry.isSubtype Scenario.mixedBag.ty .anyStruct = true
      ∧ (∃ u, Fails (Storage.load Scenario.alice Scenario.spendingPath .anyResource)
        (Scenario.stashed Scenario.mixedBag)
        (.loadTypeMismatch Scenario.alice Scenario.spendingPath "AnyResource" "[Any]") u)
      ∧ ∃ u, Returns (Storage.load Scenario.alice Scenario.spendingPath .anyStruct)
        (Scenario.stashed Scenario.mixedBag) (some Scenario.mixedBag) u :=
  ⟨rfl, rfl, rfl, rfl, ⟨_, rfl⟩, _, rfl⟩

end Custody
