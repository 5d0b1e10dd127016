import Custody.Proofs.Tables
import Custody.Registry
import Mathlib.Logic.Relation

/-!
# What a name inherits

The closure of a name is computed from a list of declarations that shrinks
while it is followed. What the computation gives does not depend on that:
the closure holds **the names that steps of inheritance lead to** from where
it starts (`Registry.contains_closure_iff`). A step goes from an interface to
a name it inherits, so steps end at composites and at names that are not
declared.

It follows that closures are transitive through everything that is not a
composite, and that a name shows whatever the interfaces in its closure show.
-/

namespace Custody

namespace Registry

variable {r : Registry} {name x y m : String}

/-! ## Steps of inheritance -/

/-- **A step of inheritance**, from an interface to a name it inherits. -/
def Extends (r : Registry) (x y : String) : Prop := ∃ d, r.interface? x = some d ∧ y ∈ d.above

/-- The name is an interface that inherits the other in any number of steps,
or is the other. -/
abbrev Inherits (r : Registry) : String → String → Prop := Relation.ReflTransGen r.Extends

/-- **Where following inheritance has got to**: the declarations left agree
with the declared interfaces on every name not reached, and what a reached
name inherits has been reached or is pending. -/
structure Following (r : Registry) (unfollowed : Table String Declaration)
    (reached : SortedSet String) (pending : List String) : Prop where
  /-- The names still to follow have their declarations. -/
  agrees : ∀ x, reached.contains x = false → Table.get? unfollowed x = r.interface? x
  /-- Nothing inherited is forgotten. -/
  closed : ∀ x y, reached.contains x = true → r.Extends x y →
    reached.contains y = true ∨ y ∈ pending

namespace Following

variable {unfollowed : Table String Declaration} {reached : SortedSet String}
  {pending : List String} {d : Declaration}

/-- A name met again is passed over. -/
theorem skip (h : r.Following unfollowed reached (name :: pending))
    (again : reached.contains name = true) : r.Following unfollowed reached pending where
  agrees := h.agrees
  closed x y hx step := by
    rcases h.closed x y hx step with found | waiting
    · exact .inl found
    · rcases List.mem_cons.1 waiting with rfl | later
      · exact .inl again
      · exact .inr later

/-- A declared name is reached, and what it inherits is pending. -/
theorem visit (h : r.Following unfollowed reached (name :: pending))
    (new : reached.contains name = false) (declared : Table.get? unfollowed name = some d) :
    r.Following (Table.erase unfollowed name) (reached.insert name ()) (d.above ++ pending) where
  agrees x hx := by
    obtain ⟨ne, unseen⟩ : x ≠ name ∧ reached.contains x = false := by
      rw [← Bool.not_eq_true, SortedMap.contains_insert_iff] at hx
      simpa using hx
    rw [Table.get?_erase, if_neg ne]
    exact h.agrees x unseen
  closed x y hx step := by
    rw [SortedMap.contains_insert_iff]
    rcases (SortedMap.contains_insert_iff ..).1 hx with rfl | before
    · obtain ⟨d', hd, above⟩ := step
      obtain rfl : d = d' := Option.some.inj (declared.symm.trans ((h.agrees x new).trans hd))
      exact .inr (List.mem_append_left _ above)
    · rcases h.closed x y before step with found | waiting
      · exact .inl (.inr found)
      · rcases List.mem_cons.1 waiting with same | later
        · exact .inl (.inl same)
        · exact .inr (List.mem_append_right _ later)

/-- A name that is not an interface is reached and inherits nothing. -/
theorem pass (h : r.Following unfollowed reached (name :: pending))
    (new : reached.contains name = false) (undeclared : Table.get? unfollowed name = none) :
    r.Following unfollowed (reached.insert name ()) pending where
  agrees x hx := by
    refine h.agrees x ?_
    rw [← Bool.not_eq_true, SortedMap.contains_insert_iff] at hx
    simpa using fun found => hx (.inr found)
  closed x y hx step := by
    rw [SortedMap.contains_insert_iff]
    rcases (SortedMap.contains_insert_iff ..).1 hx with rfl | before
    · obtain ⟨d, hd, -⟩ := step
      rw [← h.agrees x new, undeclared] at hd
      cases hd
    · rcases h.closed x y before step with found | waiting
      · exact .inl (.inr found)
      · rcases List.mem_cons.1 waiting with same | later
        · exact .inl (.inl same)
        · exact .inr later

/-- What is inherited from a reached name is reached or still to come. -/
theorem onward (h : r.Following unfollowed reached pending) (found : reached.contains x = true)
    (path : r.Inherits x y) :
    reached.contains y = true ∨ ∃ p ∈ pending, r.Inherits p y := by
  induction path using Relation.ReflTransGen.head_induction_on with
  | refl => exact .inl found
  | head step rest ih =>
    rcases h.closed _ _ found step with next | waiting
    · exact ih next
    · exact .inr ⟨_, waiting, rest⟩

/-- **Two stages lead to the same names** when each name of the first is
still there in the second, and each name of the second comes from the
first. -/
theorem leads_iff {unfollowed' : Table String Declaration} {reached' : SortedSet String}
    {pending' : List String} (h : r.Following unfollowed reached pending)
    (h' : r.Following unfollowed' reached' pending')
    (kept : ∀ x, reached.contains x = true ∨ x ∈ pending →
      reached'.contains x = true ∨ x ∈ pending')
    (sources : ∀ x, reached'.contains x = true ∨ x ∈ pending' →
      reached.contains x = true ∨ ∃ p ∈ pending, r.Inherits p x) :
    (reached'.contains y = true ∨ ∃ p ∈ pending', r.Inherits p y) ↔
      (reached.contains y = true ∨ ∃ p ∈ pending, r.Inherits p y) := by
  constructor
  · rintro (found | ⟨x, hx, path⟩)
    · exact sources y (.inl found)
    · rcases sources x (.inr hx) with before | ⟨p, hp, first⟩
      · exact h.onward before path
      · exact .inr ⟨p, hp, first.trans path⟩
  · rintro (found | ⟨x, hx, path⟩)
    · rcases kept y (.inl found) with now | waiting
      · exact .inl now
      · exact .inr ⟨y, waiting, .refl⟩
    · rcases kept x (.inr hx) with now | waiting
      · exact h'.onward now path
      · exact .inr ⟨x, waiting, path⟩

end Following

/-- **Following reaches** what was reached and whatever the pending names
inherit. -/
theorem contains_follow_iff {unfollowed : Table String Declaration} {reached : SortedSet String}
    {pending : List String} (h : r.Following unfollowed reached pending) :
    (follow unfollowed reached pending).contains y = true ↔
      reached.contains y = true ∨ ∃ x ∈ pending, r.Inherits x y := by
  induction unfollowed, reached, pending using follow.induct with
  | case1 unfollowed reached => simp [follow]
  | case2 unfollowed reached name pending again ih =>
    -- met again: what it inherits is reached or pending already
    rw [follow, if_pos again, ih (h.skip again)]
    refine h.leads_iff (h.skip again) (fun x hx => ?_) fun x hx => ?_
    · rcases hx with found | waiting
      · exact .inl found
      · rcases List.mem_cons.1 waiting with rfl | later
        · exact .inl again
        · exact .inr later
    · rcases hx with found | waiting
      · exact .inl found
      · exact .inr ⟨x, List.mem_cons_of_mem _ waiting, .refl⟩
  | case3 unfollowed reached name pending new d declared _ ih =>
    -- an interface: what it inherits comes from it in one step
    have new := Bool.eq_false_iff.2 new
    have next := h.visit new declared
    rw [follow, if_neg (by simp [new])]
    split
    case h_2 none => cases none.symm.trans declared
    case h_1 d' some =>
      obtain rfl : d = d' := Option.some.inj (declared.symm.trans some)
      rw [ih next]
      refine h.leads_iff next (fun x hx => ?_) fun x hx => ?_
      · rw [SortedMap.contains_insert_iff, List.mem_append]
        rw [List.mem_cons] at hx
        tauto
      · rw [SortedMap.contains_insert_iff, List.mem_append] at hx
        have step : ∀ z ∈ d.above, r.Inherits name z := fun z hz =>
          .single ⟨d, (h.agrees name new).symm.trans declared, hz⟩
        rcases hx with (rfl | found) | above | waiting
        · exact .inr ⟨x, List.mem_cons_self, .refl⟩
        · exact .inl found
        · exact .inr ⟨name, List.mem_cons_self, step x above⟩
        · exact .inr ⟨x, List.mem_cons_of_mem _ waiting, .refl⟩
  | case4 unfollowed reached name pending new undeclared ih =>
    -- anything else inherits nothing
    have new := Bool.eq_false_iff.2 new
    have next := h.pass new undeclared
    rw [follow, if_neg (by simp [new])]
    split
    case h_1 d some => cases some.symm.trans undeclared
    case h_2 none =>
      rw [ih next]
      refine h.leads_iff next (fun x hx => ?_) fun x hx => ?_
      · rw [SortedMap.contains_insert_iff]
        rw [List.mem_cons] at hx
        tauto
      · rw [SortedMap.contains_insert_iff] at hx
        rcases hx with (rfl | found) | waiting
        · exact .inr ⟨x, List.mem_cons_self, .refl⟩
        · exact .inl found
        · exact .inr ⟨x, List.mem_cons_of_mem _ waiting, .refl⟩

/-! ## The closure of a name -/

/-- **The closure** holds what is inherited from where it starts. -/
theorem contains_closure_iff :
    (r.closure name).contains y = true ↔ ∃ x ∈ r.closureSeeds name, r.Inherits x y := by
  have start : r.Following r.interfaces SortedMap.empty (r.closureSeeds name) :=
    ⟨fun _ _ => rfl, fun _ _ found => nomatch found⟩
  rw [closure, contains_follow_iff start]
  exact or_iff_right (by simp [SortedMap.contains])

/-- The closure of anything but a composite starts from its own name, if from
any. -/
theorem eq_of_mem_closureSeeds (h : r.composite? name = none) (hx : x ∈ r.closureSeeds name) :
    x = name := by
  unfold closureSeeds at hx
  rw [h] at hx
  cases hi : r.interface? name with
  | none =>
    rw [hi] at hx
    cases hx
  | some d =>
    rw [hi] at hx
    exact List.mem_singleton.1 hx

/-- **Closures are transitive** through everything that is not a
composite. -/
theorem contains_closure_trans (h : r.composite? y = none)
    (first : (r.closure name).contains y = true) {z : String}
    (second : (r.closure y).contains z = true) : (r.closure name).contains z = true := by
  obtain ⟨x, hx, path⟩ := contains_closure_iff.1 first
  obtain ⟨x', hx', path'⟩ := contains_closure_iff.1 second
  obtain rfl := eq_of_mem_closureSeeds h hx'
  exact contains_closure_iff.2 ⟨x, hx, path.trans path'⟩

/-! ## Members -/

/-- **What the closure of a name shows** is what the interfaces in it show. -/
theorem contains_closureMembers_iff :
    (r.closureMembers name).contains m = true ↔
      ∃ i d, (r.closure name).contains i = true ∧ r.interface? i = some d ∧
        d.members.contains m = true := by
  unfold closureMembers unionMembers
  rw [SortedSet.contains_ofList_iff, List.mem_flatMap]
  constructor
  · rintro ⟨d, hd, hm⟩
    obtain ⟨i, hi, declared⟩ := List.mem_filterMap.1 hd
    exact ⟨i, d, SortedMap.mem_keys_iff.1 hi, declared, SortedMap.mem_keys_iff.1 hm⟩
  · rintro ⟨i, d, hi, declared, hm⟩
    exact ⟨d, List.mem_filterMap.2 ⟨i, SortedMap.mem_keys_iff.2 hi, declared⟩,
      SortedMap.mem_keys_iff.2 hm⟩

/-- A name shows whatever is shown by a name in its closure that is not a
composite. -/
theorem contains_closureMembers_of_closure (h : r.composite? y = none)
    (inherited : (r.closure name).contains y = true)
    (hm : (r.closureMembers y).contains m = true) :
    (r.closureMembers name).contains m = true := by
  obtain ⟨i, d, hi, declared, shown⟩ := contains_closureMembers_iff.1 hm
  exact contains_closureMembers_iff.2
    ⟨i, d, contains_closure_trans h inherited hi, declared, shown⟩

end Registry

end Custody
