import Custody.Proofs.Inheritance

/-!
# What an admitted request shows

A request for a supertype of a declared type is admitted without
authorization, on the grounds that a supertype shows less. Which members a
type shows is decided by `Registry.members` and which types are supertypes by
`Registry.isSubtype`, two definitions that do not mention each other. This
module compares them: **a supertype shows no member that the type hides, with
three exceptions**, which are the constructors of `Registry.Escapes`.

* The restriction of a base is dropped: every `Vault{Receiver}` is a
  `Vault{}`, and that shows all of a vault.
* The declared type is `Never`, which is a subtype of everything and shows
  nothing.
* A composite stands where an interface is expected, in a restriction or in
  what a declared name inherits. A request that has it for a head shows members
  through it that no head of the declared type shows.

Both definitions go by the **heads** of a type, the names it shows members
through (`Registry.shows_iff_exists_head`). A supertype has no head that a head of
the subtype does not conform to, unless the restriction is dropped
(`Registry.exists_conforms_of_isSubtype`).
-/

namespace Custody

namespace Ty

/-- **The names a type shows members through.** -/
def heads : Ty → List String
  | composite name => [name]
  | restricted base [] => base.toList
  | restricted _ interfaces => interfaces
  | _ => []

/-- The interfaces a restricted type lists. -/
def listed : Ty → List String
  | restricted _ interfaces => interfaces
  | _ => []

end Ty

namespace Registry

variable {r : Registry} {name i w m base : String} {is : List String}
  {t declared requested : Ty}

/-- **No name is a composite and an interface.** -/
def Apart (r : Registry) : Prop := ∀ name, r.composite? name = none ∨ r.interface? name = none

/-- **Composites have the members of their interfaces**, those they inherit
included. -/
def Covers (r : Registry) : Prop :=
  ∀ name d, r.composite? name = some d →
    ∀ i e, (r.closure name).contains i = true → r.interface? i = some e →
      ∀ m, e.members.contains m = true → d.members.contains m = true

/-- The type shows the member. -/
def Shows (r : Registry) (t : Ty) (m : String) : Prop := (r.members t).contains m = true

/-- **What a type shows through a head**: all members of the name, or, where it is
listed as an interface, those that its closure has. -/
def through (r : Registry) (t : Ty) (w : String) : SortedSet String :=
  if w ∈ t.listed then r.closureMembers w else r.namedMembers w

/-- A composite stands where the type expects an interface: among those it
lists, or in what one of its heads inherits. -/
def Poses (r : Registry) (declared : Ty) (w : String) : Prop :=
  (r.composite? w).isSome = true ∧
    (w ∈ declared.listed ∨ ∃ i ∈ declared.heads, (r.closure i).contains w = true)

/-- **The ways a supertype shows a member** that the declared type hides. -/
inductive Escapes (r : Registry) (m : String) : (declared requested : Ty) → Prop where
  /-- The base is asked for without its restriction, and the member is one of
  its own. -/
  | unrestricted {base i : String} {is : List String}
      (own : (r.namedMembers base).contains m = true)
      (hidden : ∀ j ∈ i :: is, (r.closureMembers j).contains m = false) :
      Escapes r m (.restricted (some base) (i :: is)) (.restricted (some base) [])
  /-- Nothing has the declared type. -/
  | never {requested : Ty} (shown : r.Shows requested m) : Escapes r m .never requested
  /-- A composite that poses as an interface is asked for, and the member is one
  that is shown through it and through no head of the declared type. -/
  | posing {declared requested : Ty} {w : String} (poses : r.Poses declared w)
      (asked : w ∈ requested.heads) (own : (r.through requested w).contains m = true)
      (hidden : ∀ i ∈ declared.heads, (r.through declared i).contains m = false) :
      Escapes r m declared requested

/-! ## The members of heads -/

/-- A restriction shows what its interfaces show. -/
theorem shows_restricted_cons {b : Option String} :
    r.Shows (.restricted b (i :: is)) m ↔
      ∃ j ∈ i :: is, (r.closureMembers j).contains m = true := by
  show (SortedSet.ofList ((i :: is).flatMap fun j => (r.closureMembers j).keys)).contains m
    = true ↔ _
  rw [SortedSet.contains_ofList_iff, List.mem_flatMap]
  simp only [SortedMap.mem_keys_iff]

/-- **A type shows what it shows through its heads.** -/
theorem shows_iff_exists_head :
    r.Shows t m ↔ ∃ w ∈ t.heads, (r.through t w).contains m = true := by
  have one {name : String} : (r.namedMembers name).contains m = true
      ↔ ∃ w ∈ [name], (r.namedMembers w).contains m = true := by
    simp only [List.mem_singleton, exists_eq_left]
  have headless {t : Ty} (bare : r.members t = SortedMap.empty) (none : t.heads = []) :
      r.Shows t m ↔ ∃ w ∈ t.heads, (r.through t w).contains m = true := by
    refine iff_of_false ?_ ?_
    · unfold Shows
      rw [bare]
      exact Bool.false_ne_true
    · rw [none]
      rintro ⟨w, head, -⟩
      exact List.not_mem_nil head
  cases t with
  | composite name => exact one
  | restricted b interfaces =>
    cases interfaces with
    | nil =>
      cases b with
      | none => exact headless rfl rfl
      | some base => exact one
    | cons i is =>
      refine shows_restricted_cons.trans (exists_congr fun j => and_congr_right fun head => ?_)
      unfold through
      rw [if_pos (show j ∈ (Ty.restricted b (i :: is)).listed from head)]
  | _ => exact headless rfl rfl

/-- A member is hidden if no head shows it. -/
theorem not_shows_iff :
    ¬r.Shows t m ↔ ∀ w ∈ t.heads, (r.through t w).contains m = false := by
  rw [shows_iff_exists_head]
  push Not
  simp only [Bool.not_eq_true]

/-- A name that is not a composite shows what its closure shows. -/
theorem namedMembers_of_interface (h : r.composite? w = none) :
    r.namedMembers w = r.closureMembers w := by
  unfold namedMembers
  rw [h]

/-- A name shows at least what its closure shows. -/
theorem Covers.contains_namedMembers (covers : r.Covers)
    (h : (r.closureMembers name).contains m = true) :
    (r.namedMembers name).contains m = true := by
  cases hd : r.composite? name with
  | none => rwa [namedMembers_of_interface hd]
  | some d =>
    obtain ⟨i, e, inherited, declared, shown⟩ := contains_closureMembers_iff.1 h
    unfold namedMembers
    rw [hd]
    exact covers name d hd i e inherited declared m shown

/-- What is shown through a name is a member of it. -/
theorem Covers.contains_namedMembers_of_through (covers : r.Covers)
    (h : (r.through t w).contains m = true) : (r.namedMembers w).contains m = true := by
  unfold through at h
  split at h
  · exact covers.contains_namedMembers h
  · exact h

/-- Through a name that is not listed, all its members are shown. -/
theorem through_of_not_listed (h : w ∉ t.listed) : r.through t w = r.namedMembers w := if_neg h

/-- What the closure of a name has is shown through it anyhow. -/
theorem Covers.contains_through (covers : r.Covers)
    (h : (r.closureMembers w).contains m = true) : (r.through t w).contains m = true := by
  unfold through
  split
  · exact h
  · exact covers.contains_namedMembers h

/-- What a name shows that is not a composite, every name shows in its
closure that conforms to it. -/
theorem contains_closureMembers_of_conforms (h : r.composite? w = none)
    (conforms : r.conforms i w = true) (shown : (r.namedMembers w).contains m = true) :
    (r.closureMembers i).contains m = true := by
  rw [namedMembers_of_interface h] at shown
  unfold Registry.conforms at conforms
  rcases Bool.or_eq_true_iff.1 conforms with same | inherited
  · obtain rfl : i = w := of_decide_eq_true same
    exact shown
  · exact contains_closureMembers_of_closure h inherited shown

/-! ## Subtypes and heads -/

theorem exists_head_of_offers {b : Option String} (h : r.offers b is w = true) :
    ∃ i ∈ (Ty.restricted b is).heads, r.conforms i w = true := by
  unfold offers at h
  cases is with
  | nil =>
    cases b with
    | none => cases h
    | some base => exact ⟨base, List.mem_singleton_self base, h⟩
  | cons j js => exact List.any_eq_true.1 h

/-- **A head of a supertype is what a head of the subtype conforms to**,
unless the supertype is the bare base of a restriction. -/
theorem exists_conforms_of_isSubtype (sub : r.isSubtype declared requested = true)
    (differ : declared ≠ requested) (inhabited : declared ≠ .never) (hw : w ∈ requested.heads) :
    (∃ i ∈ declared.heads, r.conforms i w = true) ∨
      ∃ i is, declared = .restricted (some w) (i :: is) ∧ requested = .restricted (some w) [] := by
  unfold isSubtype at sub
  rw [if_neg differ] at sub
  cases requested with
  | composite b =>
    obtain rfl := List.mem_singleton.1 hw
    cases declared with
    | composite a => exact .inl ⟨a, List.mem_singleton_self a, sub⟩
    | restricted base interfaces => exact .inl (exists_head_of_offers sub)
    | never => exact absurd rfl inhabited
    | _ => cases sub
  | restricted supBase supInterfaces =>
    cases declared with
    | composite a =>
      obtain ⟨sameBase, all⟩ := Bool.and_eq_true_iff.1 sub
      refine .inl ⟨a, List.mem_singleton_self a, ?_⟩
      cases supInterfaces with
      | nil =>
        obtain rfl := Option.mem_toList.1 hw
        obtain rfl : w = a := of_decide_eq_true sameBase
        exact Bool.or_eq_true_iff.2 (.inl (decide_eq_true rfl))
      | cons j js => exact List.all_eq_true.1 all w hw
    | restricted base interfaces =>
      obtain ⟨sameBase, all⟩ := Bool.and_eq_true_iff.1 sub
      cases supInterfaces with
      | nil =>
        -- no interface is asked for, so only the base is compared
        obtain rfl := Option.mem_toList.1 hw
        obtain rfl : base = some w := by simpa using sameBase
        cases interfaces with
        | nil => exact absurd rfl differ
        | cons i is => exact .inr ⟨i, is, rfl, rfl⟩
      | cons j js => exact .inl (exists_head_of_offers (List.all_eq_true.1 all w hw))
    | never => exact absurd rfl inhabited
    | _ => cases sub
  | _ => cases hw

/-- **A supertype shows no more**, apart from what escapes. -/
theorem Covers.shows_of_isSubtype (covers : r.Covers)
    (sub : r.isSubtype declared requested = true) (shown : r.Shows requested m) :
    r.Shows declared m ∨ r.Escapes m declared requested := by
  by_cases hidden : r.Shows declared m
  · exact .inl hidden
  refine .inr ?_
  have differ : declared ≠ requested := by
    rintro rfl
    exact hidden shown
  by_cases empty : declared = .never
  · rw [empty]
    exact .never shown
  have unseen := not_shows_iff.1 hidden
  obtain ⟨w, hw, visible⟩ := shows_iff_exists_head.1 shown
  have own := covers.contains_namedMembers_of_through visible
  rcases exists_conforms_of_isSubtype sub differ empty hw with ⟨i, hi, conforms⟩ | dropped
  · cases composite : r.composite? w with
    | none =>
      -- the closure of the head has it, so the declared type shows it
      have inside := contains_closureMembers_of_conforms composite conforms own
      exact absurd (covers.contains_through inside) (Bool.eq_false_iff.1 (unseen i hi))
    | some d =>
      have isComposite : (r.composite? w).isSome = true := Option.isSome_of_eq_some composite
      refine .posing ⟨isComposite, ?_⟩ hw visible unseen
      rcases Bool.or_eq_true_iff.1 conforms with same | inherited
      · obtain rfl : i = w := of_decide_eq_true same
        refine .inl (not_not.1 fun unlisted => ?_)
        exact Bool.eq_false_iff.1 (unseen i hi) (by rwa [through_of_not_listed unlisted])
      · exact .inr ⟨i, hi, inherited⟩
  · obtain ⟨i, is, rfl, rfl⟩ := dropped
    refine .unrestricted own fun j hj => ?_
    exact Bool.eq_false_iff.2 fun inside => hidden (shows_restricted_cons.2 ⟨j, hj, inside⟩)

/-- What escapes is shown by the requested type and hidden by the declared
one. -/
theorem Escapes.exposed (h : r.Escapes m declared requested) :
    r.Shows requested m ∧ ¬r.Shows declared m := by
  cases h with
  | unrestricted own hidden =>
    refine ⟨own, fun shown => ?_⟩
    obtain ⟨j, hj, inside⟩ := shows_restricted_cons.1 shown
    exact Bool.eq_false_iff.1 (hidden j hj) inside
  | never shown => exact ⟨shown, fun none => nomatch none⟩
  | posing _ asked own hidden =>
    exact ⟨shows_iff_exists_head.2 ⟨_, asked, own⟩, not_shows_iff.2 hidden⟩

end Registry

end Custody
