import Custody.SortedMap
import Custody.Ty

/-!
# Declarations and the subtype relation

A registry holds the declared composites and interfaces. From their
conformances and inheritance it derives three things:

* the **closure** of a name, every interface the name reaches
  (`Registry.closure`);
* the **subtype relation** on types (`Registry.isSubtype`), on borrow types,
  and the verdict on a request against a promise (`Registry.admission`);
* the **members** a type shows (`Registry.members`), which is what a
  reference of that type gives access to.

Inheritance may be cyclic and may mention names that are not declared. The
closure is computed from a list of declarations not yet followed: following
a name removes its declaration from the list, so the computation ends.
-/

namespace Custody

/-- Whether the values of a composite are linear. -/
inductive Kind where
  | struct
  | resource
deriving DecidableEq

/-- **The declaration** of a composite or an interface. -/
structure Declaration where
  /-- Whether values of the type are linear. -/
  kind : Kind
  /-- The interfaces a composite conforms to, or an interface inherits. -/
  above : List String
  /-- The names of the members. -/
  members : SortedSet String

/-- **The declared types.** A name may be declared as a composite, as an
interface or as both; a later declaration of the same sort replaces an
earlier one. -/
structure Registry where
  /-- The declared composites. -/
  composites : Table String Declaration
  /-- The declared interfaces. -/
  interfaces : Table String Declaration

/-- **The verdict on a requested borrow type** against a declared one. -/
inductive Admission where
  /-- The request is for the declared type or a supertype of it. -/
  | upcast
  /-- The request is more specific, and the declaration is authorized. -/
  | downcast
  /-- The request is more specific or authorized, the declaration is not
  authorized. -/
  | unauthorized
  /-- The types are unrelated. -/
  | mismatch
deriving DecidableEq

namespace Admission

/-- Whether the request may go ahead. -/
def isAdmitted : Admission → Bool
  | upcast => true
  | downcast => true
  | unauthorized => false
  | mismatch => false

end Admission

namespace Registry

/-- The registry without declarations. -/
def empty : Registry := ⟨[], []⟩

instance : Inhabited Registry := ⟨empty⟩

/-- Declares a composite. -/
def declareComposite (r : Registry) (name : String) (d : Declaration) : Registry :=
  { r with composites := Table.put r.composites name d }

/-- Declares an interface. -/
def declareInterface (r : Registry) (name : String) (d : Declaration) : Registry :=
  { r with interfaces := Table.put r.interfaces name d }

/-- The composite of that name. -/
def composite? (r : Registry) (name : String) : Option Declaration :=
  Table.get? r.composites name

/-- The interface of that name. -/
def interface? (r : Registry) (name : String) : Option Declaration :=
  Table.get? r.interfaces name

/-- Whether the name is declared at all. -/
def isDeclared (r : Registry) (name : String) : Bool :=
  (r.composite? name).isSome || (r.interface? name).isSome

/-- The kind of a name; a composite hides an interface of the same name. -/
def kindOf? (r : Registry) (name : String) : Option Kind :=
  match r.composite? name with
  | some d => some d.kind
  | none => (r.interface? name).map Declaration.kind

/-- Whether the name is declared with linear values. -/
def isResourceName (r : Registry) (name : String) : Bool :=
  r.kindOf? name = some .resource

/-! ## The closure of a name -/

theorem length_erase_lt {t : Table String Declaration} {name : String} {d : Declaration}
    (h : Table.get? t name = some d) : (Table.erase t name).length < t.length := by
  have mem := Table.mem_of_get?_eq_some h
  refine Nat.lt_of_le_of_ne (List.length_filter_le _ _) fun same => ?_
  have := List.length_filter_eq_length_iff.1 same _ mem
  simp at this

/-- Follows inheritance from the `pending` names on. A name met again is
passed over; a declared one adds what it inherits to the pending names and
leaves the declarations still to follow. -/
def follow (unfollowed : Table String Declaration) (reached : SortedSet String) :
    (pending : List String) → SortedSet String
  | [] => reached
  | name :: pending =>
    if reached.contains name then follow unfollowed reached pending
    else
      match h : Table.get? unfollowed name with
      | some d =>
        have := length_erase_lt h
        follow (Table.erase unfollowed name) (reached.insert name ()) (d.above ++ pending)
      | none => follow unfollowed (reached.insert name ()) pending
termination_by pending => (unfollowed.length, pending.length)

/-- The names the closure of a name starts from: the conformances of a
composite, an interface itself, nothing for an undeclared name. -/
def closureSeeds (r : Registry) (name : String) : List String :=
  match r.composite? name, r.interface? name with
  | some d, _ => d.above
  | none, some _ => [name]
  | none, none => []

/-- **Every interface the name reaches** through conformance and
inheritance, itself included when it is an interface only. -/
def closure (r : Registry) (name : String) : SortedSet String :=
  follow r.interfaces SortedMap.empty (r.closureSeeds name)

/-- Whether the name is the interface or reaches it. -/
def conforms (r : Registry) (name interface : String) : Bool :=
  name = interface || (r.closure name).contains interface

/-! ## Subtypes -/

/-- Whether values of the type are linear. -/
def isResourceTy (r : Registry) : Ty → Bool
  | .anyResource => true
  | .composite name => r.isResourceName name
  | .restricted (some base) _ => r.isResourceName base
  | .restricted none interfaces => interfaces.any r.isResourceName
  | .array element => r.isResourceTy element
  | .dict _ element => r.isResourceTy element
  | _ => false

/-- Whether the interfaces of a restricted type, or without any its base,
give the wanted name. -/
def offers (r : Registry) (base : Option String) (interfaces : List String)
    (wanted : String) : Bool :=
  if interfaces.isEmpty then base.any fun b => r.conforms b wanted
  else interfaces.any fun i => r.conforms i wanted

/-- **The subtype relation.** A value of the first type may be used at the
second. -/
def isSubtype (r : Registry) (sub sup : Ty) : Bool :=
  if sub = sup then true
  else
    match sub, sup with
    | _, .any => true
    | .never, _ => true
    | sub, .anyResource => r.isResourceTy sub
    | .any, _ => false
    | sub, .anyStruct => !r.isResourceTy sub
    | .composite a, .composite b => r.conforms a b
    | .composite a, .restricted base interfaces =>
      base.all (· = a) && interfaces.all fun i => r.conforms a i
    | .restricted base interfaces, .composite b => r.offers base interfaces b
    | .restricted base interfaces, .restricted supBase supInterfaces =>
      (supBase.isNone || base = supBase) && supInterfaces.all (r.offers base interfaces)
    | .array a, .array b => r.isSubtype a b
    | .dict k a, .dict l b => r.isSubtype k l && r.isSubtype a b
    | .anyCapability, .anyCapability => true
    | .capability _ _, .anyCapability => true
    | .capability authorized a, .capability wanted b =>
      (authorized || !wanted) && r.isSubtype a b
    | .reference authorized a, .reference wanted b =>
      (authorized || !wanted) && r.isSubtype a b
    | _, _ => false

/-- The subtype relation of borrow types: authorization may be given up,
never gained. -/
def isRefSubtype (r : Registry) (sub sup : RefTy) : Bool :=
  (sub.authorized || !sup.authorized) && r.isSubtype sub.target sup.target

/-- **The verdict on a request** for a borrow type against the declared
one. -/
def admission (r : Registry) (declared requested : RefTy) : Admission :=
  if requested.authorized && !declared.authorized then .unauthorized
  else if r.isSubtype declared.target requested.target then .upcast
  else if r.isSubtype requested.target declared.target then
    if declared.authorized then .downcast else .unauthorized
  else .mismatch

/-! ## Members -/

/-- The union of the members of the listed declarations. -/
def unionMembers (declarations : List Declaration) : SortedSet String :=
  SortedSet.ofList (declarations.flatMap fun d => d.members.keys)

/-- The members of every interface in the closure of a name. -/
def closureMembers (r : Registry) (name : String) : SortedSet String :=
  unionMembers ((r.closure name).keys.filterMap r.interface?)

/-- The members of a named type: a composite's own, or everything an
interface reaches. -/
def namedMembers (r : Registry) (name : String) : SortedSet String :=
  match r.composite? name with
  | some d => d.members
  | none => r.closureMembers name

/-- **The members a type shows.** A restricted type shows those of its
interfaces, and those of its base only when it names no interface. -/
def members (r : Registry) : Ty → SortedSet String
  | .composite name => r.namedMembers name
  | .restricted base [] =>
    match base with
    | some name => r.namedMembers name
    | none => SortedMap.empty
  | .restricted _ interfaces =>
    SortedSet.ofList (interfaces.flatMap fun i => (r.closureMembers i).keys)
  | _ => SortedMap.empty

end Registry

end Custody
