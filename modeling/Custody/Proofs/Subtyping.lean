import Custody.Proofs.Admission
import Custody.Proofs.Resolution
import Custody.Proofs.Tracking

/-!
# How far subtyping is transitive

A load asks whether the type of the stored value is a subtype of the expected one. If
that relation were a preorder, a value that is accepted at a type would be accepted at
all supertypes of it. It is reflexive. It is transitive but for the chains that
`Registry.Breaks` lists (`Registry.isSubtype_trans_iff`), and those come from three
places.

* Whether a type is linear is read off the type alone, with `Never` and `Any` counted
  as not linear. So an array of coins is linear and an empty array, which is one, is
  not; and the array of anything is not linear although arrays of coins are. The kind
  also shifts where a name is declared with another kind than a name that it conforms
  to, or where no name is given (`Registry.Shifts`).
* A restriction may be dropped, and its base then conforms to more than its interfaces
  do.
* What a composite conforms to is not followed from below, and a base is compared by
  name.

Both definitions behind the relation are taken apart by what lies below each type.
Below a composite or a restricted type lie others of these only, and what it asks of
them is a base and a list of names (`Registry.Meets`). That is where closures come in;
everything else is the shape of the types.
-/

namespace Custody

namespace Ty

/-- The type names composites or interfaces. -/
def IsNamed : Ty → Prop
  | composite _ => True
  | restricted _ _ => True
  | _ => False

/-- The type is of values without parts, and not of capabilities. -/
def IsScalar : Ty → Prop
  | bool | int | uint | string | address | path => True
  | _ => False

/-- The composite whose values a named type is of, as far as the type says. -/
def base? : Ty → Option String
  | composite name => some name
  | restricted base _ => base
  | _ => none

/-- The composite that a supertype insists on. -/
def demand? : Ty → Option String
  | restricted base _ => base
  | _ => none

/-- The names that a subtype has to conform to. -/
def sought : Ty → List String
  | composite name => [name]
  | restricted _ interfaces => interfaces
  | _ => []

end Ty

namespace Registry

variable {r : Registry} {sub mid sup element key : Ty} {name i w base : String} {is : List String}

/-! ## Below a type -/

/-- Every type is accepted where it is requested itself. -/
theorem isSubtype_self (r : Registry) (t : Ty) : r.isSubtype t t = true := by
  unfold isSubtype
  exact if_pos rfl

/-- Nothing but `Never` is accepted where `Never` is requested. -/
theorem isSubtype_never_iff : r.isSubtype sub .never = true ↔ sub = .never := by
  by_cases same : sub = .never
  · exact iff_of_true (same ▸ isSubtype_self r _) same
  · rw [isSubtype.eq_def, if_neg same]
    cases sub <;> simp at same ⊢

/-- Every type is accepted where `Any` is requested. -/
theorem isSubtype_any (r : Registry) (t : Ty) : r.isSubtype t .any = true := by
  by_cases same : t = .any
  · exact same ▸ isSubtype_self r _
  · rw [isSubtype.eq_def, if_neg same]

/-- The type `Never` is accepted wherever a type is requested. -/
theorem isSubtype_never (r : Registry) (t : Ty) : r.isSubtype .never t = true := by
  by_cases same : .never = t
  · exact same ▸ isSubtype_self r _
  · rw [isSubtype.eq_def, if_neg same]
    cases t <;> rfl

/-- The type `Any` is accepted only where it is requested itself. -/
theorem eq_any_of_isSubtype (h : r.isSubtype .any sup = true) : sup = .any := by
  by_contra differ
  rw [isSubtype.eq_def, if_neg (Ne.symm differ)] at h
  cases sup <;> simp [isResourceTy] at h differ

/-- Where `AnyResource` is requested, the resource types are accepted, and
`Never`. -/
theorem isSubtype_anyResource_iff :
    r.isSubtype sub .anyResource = true ↔ sub = .never ∨ r.isResourceTy sub = true := by
  by_cases same : sub = .anyResource
  · subst same
    exact iff_of_true (isSubtype_self r _) (.inr rfl)
  · rw [isSubtype.eq_def, if_neg same]
    cases sub <;> simp

/-- Where `AnyStruct` is requested, all but the resource types and `Any` are
accepted. -/
theorem isSubtype_anyStruct_iff :
    r.isSubtype sub .anyStruct = true
      ↔ sub = .never ∨ (sub ≠ .any ∧ r.isResourceTy sub = false) := by
  by_cases same : sub = .anyStruct
  · subst same
    exact iff_of_true (isSubtype_self r _) (.inr ⟨nofun, rfl⟩)
  · rw [isSubtype.eq_def, if_neg same]
    cases sub <;> simp

/-- Where an array is requested, arrays of accepted elements are. -/
theorem isSubtype_array_iff :
    r.isSubtype sub (.array element) = true
      ↔ sub = .never ∨ ∃ a, sub = .array a ∧ r.isSubtype a element = true := by
  by_cases same : sub = .array element
  · exact iff_of_true (same ▸ isSubtype_self r _) (.inr ⟨element, same, isSubtype_self r _⟩)
  · rw [isSubtype.eq_def, if_neg same]
    cases sub <;> simp

/-- Where a dictionary is requested, dictionaries of accepted keys and elements
are. -/
theorem isSubtype_dict_iff :
    r.isSubtype sub (.dict key element) = true
      ↔ sub = .never ∨ ∃ k a, sub = .dict k a ∧ r.isSubtype k key = true
        ∧ r.isSubtype a element = true := by
  by_cases same : sub = .dict key element
  · exact iff_of_true (same ▸ isSubtype_self r _)
      (.inr ⟨key, element, same, isSubtype_self r _, isSubtype_self r _⟩)
  · rw [isSubtype.eq_def, if_neg same]
    cases sub <;> simp

/-- Where any capability is requested, every capability is accepted. -/
theorem isSubtype_anyCapability_iff :
    r.isSubtype sub .anyCapability = true
      ↔ sub = .never ∨ sub = .anyCapability ∨ ∃ authorized a, sub = .capability authorized a := by
  by_cases same : sub = .anyCapability
  · exact iff_of_true (same ▸ isSubtype_self r _) (.inr (.inl same))
  · rw [isSubtype.eq_def, if_neg same]
    cases sub <;> simp at same ⊢

/-- Where a capability is requested, one of an accepted type is that has the
authority wanted. -/
theorem isSubtype_capability_iff {wanted : Bool} :
    r.isSubtype sub (.capability wanted element) = true
      ↔ sub = .never ∨ ∃ authorized a, sub = .capability authorized a
        ∧ (authorized || !wanted) = true ∧ r.isSubtype a element = true := by
  by_cases same : sub = .capability wanted element
  · refine iff_of_true (same ▸ isSubtype_self r _)
      (.inr ⟨wanted, element, same, ?_, isSubtype_self r _⟩)
    cases wanted <;> rfl
  · rw [isSubtype.eq_def, if_neg same]
    cases sub <;> simp

/-- Where a reference is requested, one of an accepted type is that has the
authority wanted. -/
theorem isSubtype_reference_iff {wanted : Bool} :
    r.isSubtype sub (.reference wanted element) = true
      ↔ sub = .never ∨ ∃ authorized a, sub = .reference authorized a
        ∧ (authorized || !wanted) = true ∧ r.isSubtype a element = true := by
  by_cases same : sub = .reference wanted element
  · refine iff_of_true (same ▸ isSubtype_self r _)
      (.inr ⟨wanted, element, same, ?_, isSubtype_self r _⟩)
    cases wanted <;> rfl
  · rw [isSubtype.eq_def, if_neg same]
    cases sub <;> simp

/-- Below a scalar there is nothing else. -/
theorem below_scalar (h : r.isSubtype sub sup = true) (scalar : sup.IsScalar) :
    sub = .never ∨ sub = sup := by
  by_cases same : sub = sup
  · exact .inr same
  · rw [isSubtype.eq_def, if_neg same] at h
    cases sup <;> first | exact scalar.elim | cases sub <;> simp at h ⊢

/-! ## Named types -/

/-- Every name conforms to itself. -/
theorem conforms_self (r : Registry) (name : String) : r.conforms name name = true :=
  Bool.or_eq_true_iff.2 (.inl (decide_eq_true rfl))

/-- **Conforming is transitive** through everything that is not a composite. -/
theorem conforms_trans {x y z : String} (h : r.composite? y = none)
    (first : r.conforms x y = true) (second : r.conforms y z = true) : r.conforms x z = true := by
  rcases Bool.or_eq_true_iff.1 first with same | reached
  · obtain rfl : x = y := of_decide_eq_true same
    exact second
  rcases Bool.or_eq_true_iff.1 second with same | further
  · obtain rfl : y = z := of_decide_eq_true same
    exact first
  · exact Bool.or_eq_true_iff.2 (.inr (contains_closure_trans h reached further))

/-- The type gives the wanted name: one of its heads conforms to it. -/
def Gives (r : Registry) (t : Ty) (wanted : String) : Prop :=
  ∃ i ∈ t.heads, r.conforms i wanted = true

/-- A composite gives the names it conforms to. -/
theorem gives_composite_iff : r.Gives (.composite name) w ↔ r.conforms name w = true :=
  ⟨fun ⟨_, mem, h⟩ => List.mem_singleton.1 mem ▸ h,
    fun h => ⟨name, List.mem_singleton_self name, h⟩⟩

/-- A restricted type offers the names it gives. -/
theorem offers_iff {b : Option String} :
    r.offers b is w = true ↔ r.Gives (.restricted b is) w := by
  refine ⟨exists_head_of_offers, fun ⟨i, head, h⟩ => ?_⟩
  unfold offers
  cases is with
  | nil =>
    obtain rfl := Option.mem_toList.1 head
    exact h
  | cons j js => exact List.any_eq_true.2 ⟨i, head, h⟩

/-- A named type gives what it seeks itself. -/
theorem gives_of_mem_sought (mem : w ∈ sub.sought) : r.Gives sub w := by
  cases sub with
  | composite name => exact ⟨w, mem, conforms_self r w⟩
  | restricted b is =>
    cases is with
    | nil => cases mem
    | cons j js => exact ⟨w, mem, conforms_self r w⟩
  | _ => cases mem

/-- What a head is good for: a subtype has to give it too, unless the type is a base
without interfaces. -/
theorem mem_sought_or_bare (head : i ∈ mid.heads) :
    i ∈ mid.sought ∨ mid = .restricted (some i) [] := by
  cases mid with
  | composite name => exact .inl head
  | restricted b is =>
    cases is with
    | nil => exact .inr (by rw [Option.mem_toList.1 head])
    | cons j js => exact .inl head
  | _ => cases head

/-- **What a named type asks of its subtypes**: the base that it insists on, and the
names that it seeks. -/
structure Meets (r : Registry) (sub sup : Ty) : Prop where
  based : ∀ base, sup.demand? = some base → sub.base? = some base
  gives : ∀ w ∈ sup.sought, r.Gives sub w

/-- Every type meets itself. -/
theorem Meets.refl (r : Registry) (t : Ty) : r.Meets t t where
  based base demanded := by
    cases t with
    | restricted => exact demanded
    | _ => cases demanded
  gives _ := gives_of_mem_sought

/-- **Subtypes among named types.** -/
theorem isSubtype_iff_meets (hsub : sub.IsNamed) (hsup : sup.IsNamed) :
    r.isSubtype sub sup = true ↔ r.Meets sub sup := by
  by_cases same : sub = sup
  · subst same
    exact iff_of_true (isSubtype_self r sub) (Meets.refl r sub)
  rw [isSubtype.eq_def, if_neg same]
  cases sup with
  | composite c =>
    have asked : r.Meets sub (.composite c) ↔ r.Gives sub c := by
      refine ⟨fun h => h.gives c (List.mem_singleton_self c),
        fun h => ⟨fun base demanded => ?_, ?_⟩⟩
      · cases demanded
      · exact fun w wanted => List.mem_singleton.1 wanted ▸ h
    rw [asked]
    cases sub with
    | composite a => exact gives_composite_iff.symm
    | restricted b is => exact offers_iff
    | _ => exact hsub.elim
  | restricted c cs =>
    cases sub with
    | composite a =>
      show (c.all (· = a) && cs.all fun i => r.conforms a i) = true ↔ _
      rw [Bool.and_eq_true_iff, Option.all_eq_true, List.all_eq_true]
      constructor
      · rintro ⟨based, gives⟩
        refine ⟨fun base demanded => ?_, fun w mem => gives_composite_iff.2 (gives w mem)⟩
        rw [of_decide_eq_true (based base demanded)]
        rfl
      · rintro ⟨based, gives⟩
        refine ⟨fun base demanded => ?_, fun w mem => gives_composite_iff.1 (gives w mem)⟩
        exact decide_eq_true (Option.some.inj (based base demanded)).symm
    | restricted b is =>
      show ((c.isNone || b = c) && cs.all (r.offers b is)) = true ↔ _
      rw [Bool.and_eq_true_iff, List.all_eq_true]
      constructor
      · rintro ⟨based, gives⟩
        refine ⟨fun base demanded => ?_, fun w mem => offers_iff.1 (gives w mem)⟩
        obtain rfl : c = some base := demanded
        exact of_decide_eq_true based
      · rintro ⟨based, gives⟩
        refine ⟨?_, fun w mem => offers_iff.2 (gives w mem)⟩
        cases c with
        | none => rfl
        | some base => exact decide_eq_true (based base rfl)
    | _ => exact hsub.elim
  | _ => exact hsup.elim

/-- Below a named type there are only named types, and the empty one. -/
theorem below_named (h : r.isSubtype sub sup = true) (hsup : sup.IsNamed) :
    sub = .never ∨ sub.IsNamed ∧ r.Meets sub sup := by
  by_cases hsub : sub.IsNamed
  · exact .inr ⟨hsub, (isSubtype_iff_meets hsub hsup).1 h⟩
  · have differ : sub ≠ sup := fun same => hsub (same ▸ hsup)
    rw [isSubtype.eq_def, if_neg differ] at h
    cases sup <;> first | exact hsup.elim | cases sub <;> simp [Ty.IsNamed] at h hsub ⊢

/-! ## Kinds -/

/-- **A supertype is linear where the subtype is not, or the other way around.** -/
inductive Shifts (r : Registry) : (sub sup : Ty) → Prop where
  /-- Nothing is of the subtype; it is the element type of an empty container. -/
  | empty {sup : Ty} (linear : r.isResourceTy sup = true) : Shifts r .never sup
  /-- The supertype is that of everything. -/
  | mixed {sub : Ty} (linear : r.isResourceTy sub = true) : Shifts r sub .any
  /-- The names are declared with different kinds, or there is no name. -/
  | declared {sub sup : Ty} (hsub : sub.IsNamed) (hsup : sup.IsNamed)
      (differ : r.isResourceTy sub ≠ r.isResourceTy sup) : Shifts r sub sup
  /-- The elements shift. -/
  | array {sub sup : Ty} (h : Shifts r sub sup) : Shifts r (.array sub) (.array sup)
  /-- The elements shift. -/
  | dict {k l sub sup : Ty} (h : Shifts r sub sup) : Shifts r (.dict k sub) (.dict l sup)

/-- **Subtypes are linear when supertypes are**, except where the kind shifts. -/
theorem shifts_iff (h : r.isSubtype sub sup = true) :
    r.Shifts sub sup ↔ r.isResourceTy sub ≠ r.isResourceTy sup := by
  constructor
  · intro shifts
    clear h
    induction shifts with
    | empty linear =>
      rw [linear]
      exact Bool.false_ne_true
    | mixed linear =>
      rw [linear]
      exact Bool.false_ne_true.symm
    | declared _ _ differ => exact differ
    | array _ ih => exact ih
    | dict _ ih => exact ih
  · intro differ
    induction sup generalizing sub with
    | any => exact .mixed (by simpa [isResourceTy] using differ)
    | never =>
      obtain rfl := isSubtype_never_iff.1 h
      exact absurd rfl differ
    | anyResource =>
      rcases isSubtype_anyResource_iff.1 h with rfl | linear
      · exact .empty rfl
      · exact absurd linear differ
    | anyStruct =>
      rcases isSubtype_anyStruct_iff.1 h with rfl | ⟨-, copyable⟩
      · exact absurd rfl differ
      · exact absurd copyable differ
    | array element ih =>
      rcases isSubtype_array_iff.1 h with rfl | ⟨a, rfl, inside⟩
      · exact .empty (by simpa [isResourceTy] using differ)
      · exact .array (ih inside differ)
    | dict key element _ ih =>
      rcases isSubtype_dict_iff.1 h with rfl | ⟨k, a, rfl, -, inside⟩
      · exact .empty (by simpa [isResourceTy] using differ)
      · exact .dict (ih inside differ)
    | composite name =>
      rcases below_named h trivial with rfl | ⟨hsub, -⟩
      · exact .empty (by simpa [isResourceTy] using differ)
      · exact .declared hsub trivial differ
    | restricted base interfaces =>
      rcases below_named h trivial with rfl | ⟨hsub, -⟩
      · exact .empty (by simpa [isResourceTy] using differ)
      · exact .declared hsub trivial differ
    | anyCapability =>
      rcases isSubtype_anyCapability_iff.1 h with rfl | rfl | ⟨_, _, rfl⟩
      all_goals exact absurd rfl differ
    | capability =>
      rcases isSubtype_capability_iff.1 h with rfl | ⟨_, _, rfl, -⟩ <;> exact absurd rfl differ
    | reference =>
      rcases isSubtype_reference_iff.1 h with rfl | ⟨_, _, rfl, -⟩ <;> exact absurd rfl differ
    | _ => rcases below_scalar h trivial with rfl | rfl <;> exact absurd rfl differ

/-! ## Where a chain breaks -/

/-- **The chains of named types that stray**: what the third type asks of the second,
the first does not meet. -/
inductive Strays (r : Registry) : (sub mid sup : Ty) → Prop where
  /-- The type in the middle is made the base of a restriction, which only the base
  itself has. -/
  | rebased {sub sup : Ty} {name : String} (demanded : sup.demand? = some name)
      (other : sub.base? ≠ some name) : Strays r sub (.composite name) sup
  /-- The way leads through a composite in the place of an interface, and what such a
  composite conforms to is not followed from below it. -/
  | posing {sub mid sup : Ty} {i w : String} (sought : i ∈ mid.sought)
      (composite : (r.composite? i).isSome = true) (wanted : w ∈ sup.sought)
      (conforms : r.conforms i w = true) (missing : ¬r.Gives sub w) : Strays r sub mid sup
  /-- The restriction of a base is dropped, and the base conforms to what none of its
  interfaces conforms to. -/
  | unrestricted {sup : Ty} {base i w : String} {is : List String} (wanted : w ∈ sup.sought)
      (conforms : r.conforms base w = true) (missing : ∀ j ∈ i :: is, r.conforms j w = false) :
      Strays r (.restricted (some base) (i :: is)) (.restricted (some base) []) sup

/-- **The chains that break**: each type is a subtype of the next, and the first is no
subtype of the last. -/
inductive Breaks (r : Registry) : (sub mid sup : Ty) → Prop where
  /-- The kind shifts on the way to the linear types. -/
  | linear {sub mid : Ty} (inhabited : sub ≠ .never) (shift : r.Shifts sub mid)
      (into : r.isResourceTy mid = true) : Breaks r sub mid .anyResource
  /-- The kind shifts on the way to the types that are not linear. -/
  | copyable {sub mid : Ty} (known : mid ≠ .any) (shift : r.Shifts sub mid)
      (out : r.isResourceTy sub = true) : Breaks r sub mid .anyStruct
  /-- The names stray. -/
  | named {sub mid sup : Ty} (hsub : sub.IsNamed) (hsup : sup.IsNamed)
      (h : r.Strays sub mid sup) : Breaks r sub mid sup
  /-- The elements of arrays break. -/
  | array {sub mid sup : Ty} (h : Breaks r sub mid sup) :
      Breaks r (.array sub) (.array mid) (.array sup)
  /-- The keys of dictionaries break. -/
  | key {k l m sub mid sup : Ty} (h : Breaks r k l m) :
      Breaks r (.dict k sub) (.dict l mid) (.dict m sup)
  /-- The elements of dictionaries break. -/
  | entry {k l m sub mid sup : Ty} (h : Breaks r sub mid sup) :
      Breaks r (.dict k sub) (.dict l mid) (.dict m sup)
  /-- The targets of capabilities break. -/
  | capability {a b c : Bool} {sub mid sup : Ty} (h : Breaks r sub mid sup) :
      Breaks r (.capability a sub) (.capability b mid) (.capability c sup)
  /-- The targets of references break. -/
  | reference {a b c : Bool} {sub mid sup : Ty} (h : Breaks r sub mid sup) :
      Breaks r (.reference a sub) (.reference b mid) (.reference c sup)

/-- **What a chain of named types comes to.** -/
theorem Meets.trans_iff (hsub : sub.IsNamed) (first : r.Meets sub mid) (second : r.Meets mid sup) :
    r.Meets sub sup ↔ ¬r.Strays sub mid sup := by
  constructor
  · intro meets strays
    cases strays with
    | rebased demanded other => exact other (meets.based _ demanded)
    | posing _ _ wanted _ missing => exact missing (meets.gives _ wanted)
    | unrestricted wanted _ missing =>
      obtain ⟨j, mem, h⟩ := meets.gives _ wanted
      rw [missing j mem] at h
      cases h
  · intro whole
    refine ⟨fun base demanded => ?_, fun w wanted => ?_⟩
    · have there := second.based base demanded
      cases mid with
      | composite name =>
        by_contra other
        obtain rfl : name = base := Option.some.inj there
        exact whole (.rebased demanded other)
      | restricted => exact first.based base there
      | _ => cases there
    · by_contra missing
      obtain ⟨i, head, conforms⟩ := second.gives w wanted
      rcases mem_sought_or_bare head with sought | rfl
      · -- an interface in the middle hands on what it inherits
        obtain ⟨j, head', conforms'⟩ := first.gives i sought
        cases composite : r.composite? i with
        | none => exact missing ⟨j, head', conforms_trans composite conforms' conforms⟩
        | some d =>
          exact whole (.posing sought (Option.isSome_of_eq_some composite) wanted conforms missing)
      · -- a bare base in the middle is the base of the first type
        have based := first.based i rfl
        cases sub with
        | composite name =>
          obtain rfl : name = i := Option.some.inj based
          exact missing ⟨name, List.mem_singleton_self name, conforms⟩
        | restricted base interfaces =>
          obtain rfl : base = some i := based
          cases interfaces with
          | nil => exact missing ⟨i, List.mem_singleton_self i, conforms⟩
          | cons j js =>
            refine whole
              (.unrestricted wanted conforms fun k mem => Bool.eq_false_iff.2 fun h => ?_)
            exact missing ⟨k, mem, h⟩
        | _ => exact hsub

/-- Nothing breaks that starts at the empty type. -/
theorem not_breaks_never : ¬r.Breaks .never mid sup := by
  intro h
  cases h with
  | linear inhabited => exact inhabited rfl
  | copyable _ _ out => cases out
  | named hsub => exact hsub

/-- Authorization that is given up on the way is given up. -/
theorem given_up {a b c : Bool} (first : (a || !b) = true) (second : (b || !c) = true) :
    (a || !c) = true := by
  revert first second
  cases a <;> cases b <;> cases c <;> decide

/-- A chain to the linear types goes through unless the kind shifts on the way. -/
theorem trans_anyResource_iff (inhabited : sub ≠ .never) (first : r.isSubtype sub mid = true)
    (into : r.isResourceTy mid = true) :
    r.isSubtype sub .anyResource = true ↔ ¬r.Breaks sub mid .anyResource := by
  rw [isSubtype_anyResource_iff, or_iff_right inhabited]
  constructor
  · intro linear h
    cases h with
    | linear _ shift => exact (shifts_iff first).1 shift (linear.trans into.symm)
    | named _ hsup => exact hsup
  · intro whole
    by_contra copyable
    have shift := (shifts_iff first).2 fun same => copyable (same.trans into)
    exact whole (.linear inhabited shift into)

/-- A chain to the types that are not linear goes through unless the kind shifts on
the way. -/
theorem trans_anyStruct_iff (inhabited : sub ≠ .never) (first : r.isSubtype sub mid = true)
    (known : mid ≠ .any) (out : r.isResourceTy mid = false) :
    r.isSubtype sub .anyStruct = true ↔ ¬r.Breaks sub mid .anyStruct := by
  have known' : sub ≠ .any := fun same => known (eq_any_of_isSubtype (same ▸ first))
  rw [isSubtype_anyStruct_iff, or_iff_right inhabited, and_iff_right known']
  constructor
  · intro copyable h
    cases h with
    | copyable _ _ linear => exact Bool.false_ne_true (copyable.symm.trans linear)
    | named _ hsup => exact hsup
  · intro whole
    by_contra linear
    have shift := (shifts_iff first).2 fun same => linear (same.trans out)
    exact whole (.copyable known shift (eq_true_of_ne_false linear))

/-- A chain to a named type is one of named types, and goes through unless it strays. -/
theorem trans_named_iff (inhabited : sub ≠ .never) (inhabited' : mid ≠ .never)
    (first : r.isSubtype sub mid = true) (second : r.isSubtype mid sup = true)
    (hsup : sup.IsNamed) : r.isSubtype sub sup = true ↔ ¬r.Breaks sub mid sup := by
  obtain ⟨hmid, upper⟩ := (below_named second hsup).resolve_left inhabited'
  obtain ⟨hsub, lower⟩ := (below_named first hmid).resolve_left inhabited
  rw [isSubtype_iff_meets hsub hsup, lower.trans_iff hsub upper]
  refine not_congr ⟨.named hsub hsup, fun h => ?_⟩
  cases h with
  | named _ _ h => exact h
  | _ => exact hsup.elim

/-- **Subtyping is transitive**, except where the chain breaks. -/
theorem isSubtype_trans_iff {sub mid sup : Ty} (first : r.isSubtype sub mid = true)
    (second : r.isSubtype mid sup = true) :
    r.isSubtype sub sup = true ↔ ¬r.Breaks sub mid sup := by
  by_cases empty : sub = .never
  · subst empty
    exact iff_of_true (isSubtype_never r sup) not_breaks_never
  have inhabited : mid ≠ .never := fun same => empty (isSubtype_never_iff.1 (same ▸ first))
  cases sup with
  | any =>
    refine iff_of_true (isSubtype_any r sub) fun h => ?_
    cases h with
    | named _ hsup => exact hsup
  | never => exact absurd (isSubtype_never_iff.1 second) inhabited
  | anyResource =>
    exact trans_anyResource_iff empty first
      ((isSubtype_anyResource_iff.1 second).resolve_left inhabited)
  | anyStruct =>
    obtain ⟨known, out⟩ := (isSubtype_anyStruct_iff.1 second).resolve_left inhabited
    exact trans_anyStruct_iff empty first known out
  | array element =>
    obtain ⟨m, rfl, upper⟩ := (isSubtype_array_iff.1 second).resolve_left inhabited
    obtain ⟨a, rfl, lower⟩ := (isSubtype_array_iff.1 first).resolve_left empty
    have elements : r.isSubtype (.array a) (.array element) = true
        ↔ r.isSubtype a element = true := by
      simp [isSubtype_array_iff]
    rw [elements, isSubtype_trans_iff lower upper]
    refine not_congr ⟨.array, fun h => ?_⟩
    cases h with
    | named hsub => exact hsub.elim
    | array h => exact h
  | dict key element =>
    obtain ⟨l, m, rfl, upperKey, upper⟩ := (isSubtype_dict_iff.1 second).resolve_left inhabited
    obtain ⟨k, a, rfl, lowerKey, lower⟩ := (isSubtype_dict_iff.1 first).resolve_left empty
    have parts : r.isSubtype (.dict k a) (.dict key element) = true
        ↔ r.isSubtype k key = true ∧ r.isSubtype a element = true := by
      simp [isSubtype_dict_iff]
    rw [parts, isSubtype_trans_iff lowerKey upperKey, isSubtype_trans_iff lower upper, ← not_or]
    refine not_congr ⟨fun h => h.elim .key .entry, fun h => ?_⟩
    cases h with
    | named hsub => exact hsub.elim
    | key h => exact .inl h
    | entry h => exact .inr h
  | anyCapability =>
    have top : r.isSubtype sub .anyCapability = true := by
      rcases (isSubtype_anyCapability_iff.1 second).resolve_left inhabited with rfl | ⟨_, _, rfl⟩
      · exact first
      · obtain ⟨_, _, rfl, -⟩ := (isSubtype_capability_iff.1 first).resolve_left empty
        exact isSubtype_anyCapability_iff.2 (.inr (.inr ⟨_, _, rfl⟩))
    refine iff_of_true top fun h => ?_
    cases h with
    | named _ hsup => exact hsup
  | capability c target =>
    obtain ⟨b, m, rfl, kept, upper⟩ := (isSubtype_capability_iff.1 second).resolve_left inhabited
    obtain ⟨a, t, rfl, kept', lower⟩ := (isSubtype_capability_iff.1 first).resolve_left empty
    have parts : r.isSubtype (.capability a t) (.capability c target) = true
        ↔ (a || !c) = true ∧ r.isSubtype t target = true := by
      simp [isSubtype_capability_iff]
    rw [parts, and_iff_right (given_up kept' kept), isSubtype_trans_iff lower upper]
    refine not_congr ⟨.capability, fun h => ?_⟩
    cases h with
    | named hsub => exact hsub.elim
    | capability h => exact h
  | reference c target =>
    obtain ⟨b, m, rfl, kept, upper⟩ := (isSubtype_reference_iff.1 second).resolve_left inhabited
    obtain ⟨a, t, rfl, kept', lower⟩ := (isSubtype_reference_iff.1 first).resolve_left empty
    have parts : r.isSubtype (.reference a t) (.reference c target) = true
        ↔ (a || !c) = true ∧ r.isSubtype t target = true := by
      simp [isSubtype_reference_iff]
    rw [parts, and_iff_right (given_up kept' kept), isSubtype_trans_iff lower upper]
    refine not_congr ⟨.reference, fun h => ?_⟩
    cases h with
    | named hsub => exact hsub.elim
    | reference h => exact h
  | composite => exact trans_named_iff empty inhabited first second trivial
  | restricted => exact trans_named_iff empty inhabited first second trivial
  | _ =>
    obtain rfl := (below_scalar second trivial).resolve_left inhabited
    refine iff_of_true first fun h => ?_
    cases h with
    | named _ hsup => exact hsup
termination_by sup

end Registry

open Registry in
/-- **Subtyping is a preorder**, whatever is declared, but for the chains that break.
Every type is a subtype of itself; a subtype of a subtype is a subtype, unless the
chain breaks, and then it is not. So a stored value that is loaded at a type, or
borrowed at it, is loaded and borrowed at every supertype to which the chain from its
own type does not break, and refused at the others. -/
theorem subtyping_preorder (r : Registry) :
    (∀ t, r.isSubtype t t = true)
      ∧ (∀ sub mid sup, r.isSubtype sub mid = true → r.isSubtype mid sup = true →
        (r.isSubtype sub sup = true ↔ ¬r.Breaks sub mid sup))
      ∧ (∀ (s u : State) address path v mid sup, s.registry = r →
        Returns (Storage.load address path mid) s (some v) u → r.isSubtype mid sup = true →
          (Returns (Storage.load address path sup) s (some v) u ↔ ¬r.Breaks v.ty mid sup))
      ∧ ∀ (s : State) address path v authorized mid sup, s.registry = r →
        s.store.value? address path = some v →
        (∃ ref u, Returns (Borrows.stored address path ⟨authorized, mid⟩) s ref u) →
        r.isSubtype mid sup = true →
          ((∃ ref u, Returns (Borrows.stored address path ⟨authorized, sup⟩) s ref u)
            ↔ ¬r.Breaks v.ty mid sup) := by
  refine ⟨isSubtype_self r, fun sub mid sup => isSubtype_trans_iff, ?_, ?_⟩
  · rintro s u address path v mid sup rfl loaded above
    rw [Storage.returns_load_at_iff loaded]
    exact isSubtype_trans_iff ((Storage.returns_load_at_iff loaded).1 loaded) above
  · rintro s address path v authorized mid sup rfl found borrowed above
    obtain ⟨may, free, w, found', fits⟩ := Borrows.exists_returns_stored_iff.1 borrowed
    obtain rfl : v = w := Option.some.inj (found.symm.trans found')
    rw [Borrows.exists_returns_stored_iff, ← isSubtype_trans_iff fits above]
    constructor
    · rintro ⟨-, -, w, found', fits'⟩
      obtain rfl : v = w := Option.some.inj (found.symm.trans found')
      exact fits'
    · exact fun fits' => ⟨may, free, v, found, fits'⟩

namespace Scenario

/-- Coins in an array. -/
def coins : Ty := .array (.composite "Coin")

/-- Alice has saved an empty array. -/
def emptied : State := begun.after [.call (.save alice spendingPath (.array []))]

/-- No coin is in an empty array, and the type of arrays of coins is linear. -/
theorem breaks_coins : registry.Breaks (.array .never) coins .anyResource :=
  .linear nofun (.array (.empty rfl)) rfl

/-- The chain through arrays of resources does not break. -/
theorem not_breaks_arrays : ¬registry.Breaks (.array .never) coins (.array .anyResource) := by
  intro h
  cases h with
  | named hsub => exact hsub
  | array h => exact Registry.not_breaks_never h

end Scenario

/-- An empty array that is loaded as an array of coins is loaded as an array of linear
values, and not as a linear value. -/
theorem subtyping_preorder_emptied :
    ∃ u, Returns (Storage.load Scenario.alice Scenario.spendingPath Scenario.coins)
        Scenario.emptied (some (.array [])) u
      ∧ Returns (Storage.load Scenario.alice Scenario.spendingPath (.array .anyResource))
        Scenario.emptied (some (.array [])) u
      ∧ ¬Returns (Storage.load Scenario.alice Scenario.spendingPath .anyResource)
        Scenario.emptied (some (.array [])) u := by
  obtain ⟨u, loaded⟩ : ∃ u, Returns (Storage.load Scenario.alice Scenario.spendingPath
      Scenario.coins) Scenario.emptied (some (.array [])) u := ⟨_, rfl⟩
  have loads (sup : Ty) := (subtyping_preorder Scenario.registry).2.2.1 Scenario.emptied u _ _ _ _
    sup rfl loaded
  exact ⟨u, loaded, (loads _ rfl).2 Scenario.not_breaks_arrays,
    fun linear => (loads _ rfl).1 linear Scenario.breaks_coins⟩

/-- **An empty array of coins is not linear.** Its type is below that of arrays of
coins, and that is below the type of everything linear, but the first is not below the
last; so what is loaded as an array of coins is refused as a linear value. -/
theorem empty_coins_refused :
    Scenario.registry.isSubtype (.array .never) Scenario.coins = true
      ∧ Scenario.registry.isSubtype Scenario.coins .anyResource = true
      ∧ Scenario.registry.isSubtype (.array .never) .anyResource = false
      ∧ (∃ u, Returns (Storage.load Scenario.alice Scenario.spendingPath Scenario.coins)
        Scenario.emptied (some (.array [])) u)
      ∧ ∃ u, Fails (Storage.load Scenario.alice Scenario.spendingPath .anyResource)
        Scenario.emptied (.loadTypeMismatch Scenario.alice Scenario.spendingPath "AnyResource"
          "[Never]") u :=
  ⟨rfl, rfl, rfl, ⟨_, rfl⟩, _, rfl⟩

end Custody
