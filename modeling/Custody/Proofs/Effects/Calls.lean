import Custody.Proofs.Effects.Lives
import Custody.Proofs.Effects.Moves
import Custody.Proofs.Failures

/-!
# The effect of a call

A call is given resources in the values among its arguments, and gives others
back in its reply; one call mints, and two tear down. This module says so for
every operation and puts the effects of the single operations together:
**a call that returns has the effect of taking what it is given and giving
back what it replies** (`Operation.effect_perform`).

What is asked of the arguments is `Operation.Permitted`. It holds of values that
were built with the constructors or given back by earlier calls, apart from the
names of the fields of a new resource, which have to be distinct.
-/

namespace Custody

open Ledger CustodyM

variable {α : Type} {s s' : State} {v : Value}

/-! ## What a call is given and gives back -/

namespace Operation

/-- The values a call is given. -/
def arguments : Operation → List Value
  | createResource _ fields | createStruct _ fields => fields.map Prod.snd
  | bind _ _ v | insert _ _ _ v | push _ _ v | putField _ _ _ v => [v]
  | save _ _ v | setMember _ _ v | insertMember _ _ _ v | pushMember _ _ v | destroy v => [v]
  | destroyWith r _ => [r.toValue]
  | _ => []

/-- The keys a call is given. -/
def keys : Operation → List Key
  | insert _ _ key _ | insertMember _ _ key _ => [key]
  | _ => []

/-- **The resources a call is given.** -/
def offered (o : Operation) : List Resource := o.arguments.flatMap Value.resources

/-- **The resources a call gives back.** Looking at a local gives nothing. -/
def received : Operation → Reply → List Resource
  | readLocal _ _, _ => []
  | _, .value v => Value.resourcesOf v
  | _, .fields fs => fs.flatMap fun f => f.2.resources
  | _, _ => []

/-- The resources a call that returned has minted. -/
def minted : Operation → Reply → List ResourceId
  | createResource _ _, .value (some v) => v.resourceId?.toList
  | _, _ => []

/-- The resources a call that returned has torn down. -/
def torn : Operation → List ResourceId
  | destroy v => v.ids
  | destroyWith r p => Teardown.tornDown p r
  | _ => []

/-- **The arguments are in order**: regular values and keys, and no two fields
of one name for a new resource. -/
structure Permitted (o : Operation) : Prop where
  /-- The values are regular. -/
  values : ∀ v ∈ o.arguments, v.Regular
  /-- The keys are in range. -/
  keys : ∀ key ∈ o.keys, key.InRange
  /-- The fields of a new resource have distinct names. -/
  named : ∀ typeName fields, o = createResource typeName fields → (fields.map Prod.fst).Nodup

/-- A call that is given no key and at most one value can be made when the value is
regular. -/
theorem Permitted.of_few {o : Operation} (few : o.arguments.length ≤ 1) (bare : o.keys = [])
    (regular : ∀ v ∈ o.arguments, v.Regular) : o.Permitted where
  values := regular
  keys key mem := by
    rw [bare] at mem
    cases mem
  named typeName fields same := by
    subst same
    cases fields with
    | nil => exact List.nodup_nil
    | cons f rest =>
      obtain rfl : rest = [] := by simpa [arguments] using few
      exact List.nodup_singleton f.1

end Operation

/-! ## The effect of a call -/

/-- The states have the same goods: storage, locals and ledger. -/
structure State.SameGoods (s s' : State) : Prop where
  store : s'.store = s.store
  stack : s'.stack = s.stack
  ledger : s'.ledger = s.ledger

instance : IsPreorder State State.SameGoods where
  refl _ := ⟨rfl, rfl, rfl⟩
  trans _ _ _ h h' :=
    ⟨h'.store.trans h.store, h'.stack.trans h.stack, h'.ledger.trans h.ledger⟩

/-- States with the same goods differ by no effect, whatever is in hand. -/
theorem State.SameGoods.effect (h : s.SameGoods s') (A : List Resource) :
    Effect s s' A A [] [] := Effect.of_same h.store h.stack h.ledger

/-- So they are in order together. -/
theorem State.InOrder.of_sameGoods {hands : List Resource} (o : s.InOrder hands)
    (h : s.SameGoods s') : s'.InOrder hands := (h.effect []).inOrder hands o

namespace Borrows

/-- A borrow changes no goods. -/
theorem Lends.sameGoods {action : BorrowM Reference} (h : Lends action) :
    Keeps State.SameGoods action :=
  h.keeps fun _ _ _ _ _ _ => ⟨rfl, rfl, rfl⟩

end Borrows

/-- **Opening a frame** adds nothing. -/
theorem Frames.effect_push {id : FrameId} (h : Returns push s id s') :
    Effect s s' [] [] [] [] := by
  unfold push at h
  obtain ⟨_, t, required, h⟩ := returns_bind.1 (returns_guarded.1 h)
  obtain ⟨-, rfl⟩ := returns_requireTransaction.1 required
  rw [returns_get_bind] at h
  obtain ⟨⟨id', stack⟩, pushed, h⟩ := returns_ofExcept_bind.1 h
  dsimp only at h
  rw [returns_modify_bind] at h
  obtain ⟨-, rfl⟩ := returns_pure.1 h
  obtain ⟨-, rfl⟩ := CallStack.push_eq_ok pushed
  refine Effect.of_carries (Carries.refl _ _) fun store locals received =>
    ⟨store, fun f hf => ?_, received⟩
  rcases List.mem_cons.1 hf with rfl | hf
  · exact fun _ hb => nomatch hb
  · exact locals f hf

/-- A struct that could be made was given nothing linear. -/
theorem Struct.resources_of_make {typeName : String} {fields : List (String × Value)}
    {made : Struct} (h : Struct.make typeName fields = .ok made) :
    ∀ f ∈ fields, f.2.resources = [] := by
  unfold Struct.make at h
  suffices ∀ start : Struct, fields.foldlM (fun s f => s.set f.1 f.2) start = .ok made →
      ∀ f ∈ fields, f.2.resources = [] from this _ h
  clear h
  induction fields with
  | nil => exact fun _ _ _ mem => nomatch mem
  | cons f fields ih =>
    intro start h
    rw [List.foldlM_cons] at h
    obtain ⟨next, first, h⟩ := bind_eq_ok_iff.1 h
    have copyable := (Struct.set_eq_ok_iff.1 first).1
    exact List.forall_mem_cons.2 ⟨Value.isLinear_eq_false_iff.1 copyable, ih next h⟩

namespace Reply

variable {reply : Reply}

/-- A reply that reports a result comes from that result. -/
theorem returns_report {action : CustodyM α} {f : α → Reply}
    (h : Returns (action >>= fun a => pure (f a)) s reply s') :
    ∃ a, Returns action s a s' ∧ reply = f a := by
  obtain ⟨a, u, acted, h⟩ := returns_bind.1 h
  obtain ⟨rfl, rfl⟩ := returns_pure.1 h
  exact ⟨a, acted, rfl⟩

/-- The reply of a borrow brings no resource. -/
theorem returns_ofBorrow {action : BorrowM Reference} (keeps : Keeps State.SameGoods action)
    (h : Returns (ofBorrow action) s reply s') :
    s.SameGoods s' ∧ ∀ o : Operation, o.received reply = [] := by
  obtain ⟨r, u, acted, h⟩ := returns_bind.1 h
  have same : s.SameGoods u := by
    have := keeps s
    rwa [Custody.returns_ofBorrow.1 acted] at this
  split at h
  · obtain ⟨rfl, rfl⟩ := returns_pure.1 h
    exact ⟨same, fun o => by cases o <;> rfl⟩
  · obtain ⟨rfl, rfl⟩ := returns_pure.1 h
    exact ⟨same, fun o => by cases o <;> rfl⟩

/-- A borrow has a verdict and does not fail. -/
theorem not_fails_ofBorrow {action : BorrowM Reference} {e : Fault} :
    ¬Fails (ofBorrow action) s e s' := by
  intro failed
  rcases fails_bind.1 failed with failed | ⟨r, u, -, failed⟩
  · exact Custody.not_fails_ofBorrow failed
  · split at failed
    · exact not_fails_pure failed
    · exact not_fails_pure failed

end Reply

/-! ### What is copied has no roots -/

@[simp] theorem Value.resourcesOf_some (v : Value) : resourcesOf (some v) = v.resources :=
  List.flatMap_singleton _ _

/-- A copy brings no resource, -/
theorem Locals.resources_of_copy {frame : FrameId} {name : String}
    (h : Returns (copy frame name) s v s') : v.resources = [] := by
  unfold copy at h
  rw [returns_guarded, returns_get_bind] at h
  obtain ⟨w, -, h⟩ := returns_ofExcept_bind.1 h
  obtain ⟨copied, -⟩ := returns_ofValueFault.1 h
  obtain ⟨rfl, none⟩ := Value.copy_eq_ok copied
  exact none

/-- stored or not, -/
theorem Storage.resources_of_copy {address : Address} {path : Path} {expected : Ty}
    {copied : Option Value} (h : Returns (copy address path expected) s copied s') :
    Value.resourcesOf copied = [] := by
  unfold copy at h
  obtain ⟨_, t, -, h⟩ := returns_bind.1 (returns_guarded.1 h)
  rw [returns_get_bind] at h
  split at h
  · obtain ⟨rfl, -⟩ := returns_pure.1 h
    rfl
  · obtain ⟨_, t, -, h⟩ := returns_bind.1 h
    obtain ⟨-, h⟩ := returns_refusal_bind.1 h
    obtain ⟨w, t, made, h⟩ := returns_bind.1 h
    obtain ⟨rfl, -⟩ := returns_pure.1 h
    obtain ⟨rfl, none⟩ := Value.copy_eq_ok (returns_ofValueFault.1 made).1
    rw [Value.resourcesOf_some]
    exact none

/-- and neither does reading a member. -/
theorem Members.resources_of_read {r : Reference} {member : String}
    (h : Returns (read r member) s v s') : v.resources = [] := by
  unfold read at h
  obtain ⟨_, t, -, h⟩ := returns_bind.1 (returns_guarded.1 h)
  obtain ⟨_, t, -, h⟩ := returns_bind.1 h
  obtain ⟨w, -, h⟩ := returns_ofExcept_bind.1 h
  obtain ⟨copied, -⟩ := returns_ofValueFault.1 h
  obtain ⟨rfl, none⟩ := Value.copy_eq_ok copied
  exact none

/-- A struct is made of what is copyable, and has no roots. -/
theorem Construction.resources_of_createStruct {typeName : String}
    {fields : List (String × Value)} (h : Returns (createStruct typeName fields) s v s') :
    v.resources = [] ∧ ∀ f ∈ fields, f.2.resources = [] := by
  unfold createStruct at h
  obtain ⟨_, t, -, h⟩ := returns_bind.1 (returns_guarded.1 h)
  obtain ⟨made, t, built, h⟩ := returns_bind.1 h
  obtain ⟨rfl, -⟩ := returns_pure.1 h
  exact ⟨Value.resources_struct _ _, Struct.resources_of_make (returns_ofValueFault.1 built).1⟩

/-! ### All calls -/

namespace Operation

variable {o : Operation} {reply : Reply}

/-- The only value of a permitted call is regular, -/
theorem Permitted.value (permitted : o.Permitted) (given : o.arguments = [v]) : v.Regular :=
  permitted.values v (given ▸ List.mem_singleton_self v)

/-- and its resources are what the call offers. -/
theorem offered_singleton (given : o.arguments = [v]) : o.offered = v.resources := by
  rw [offered, given, List.flatMap_singleton]

/-- **The effect of a call that returns.** -/
theorem effect_perform (inner : o.isBound = false) (permitted : o.Permitted)
    (room : s.ledger.next < UInt64.size) (store : s.store.Regular) (locals : s.stack.Regular)
    (h : Returns o.perform s reply s') :
    Effect s s' o.offered (o.received reply) (o.minted reply) o.torn := by
  cases o with
  | start | commit | abort => cases inner
  | createResource typeName fields =>
    obtain ⟨v, made, rfl⟩ := Reply.returns_report h
    have given : (createResource typeName fields).offered = fields.flatMap fun f => f.2.resources :=
      List.flatMap_map _ _ _
    have regular : ∀ f ∈ fields, f.2.Regular :=
      fun f hf => permitted.values f.2 (List.mem_map_of_mem hf)
    have := Construction.effect_createResource (permitted.named _ _ rfl) regular room made
    rw [given]
    rw [← Value.resourcesOf_some] at this
    exact this
  | createStruct typeName fields =>
    obtain ⟨v, made, rfl⟩ := Reply.returns_report h
    obtain ⟨none, nothing⟩ := Construction.resources_of_createStruct made
    obtain rfl := Construction.looks_createStruct.of_returns made
    have given : (createStruct typeName fields).offered = [] :=
      (List.flatMap_map _ _ _).trans (List.flatMap_eq_nil_iff.2 nothing)
    show Effect s s _ (Value.resourcesOf (some v)) [] []
    rw [given, Value.resourcesOf_some, none]
    exact Effect.refl s []
  | pushFrame =>
    obtain ⟨id, pushed, rfl⟩ := Reply.returns_report h
    exact Frames.effect_push pushed
  | popFrame frame =>
    obtain ⟨closed, rfl⟩ := Reply.returns_ofUnit.1 h
    exact Frames.effect_pop closed
  | bind frame name v =>
    obtain ⟨bound, rfl⟩ := Reply.returns_ofUnit.1 h
    rw [offered_singleton rfl]
    exact Locals.effect_bind (permitted.value rfl) bound
  | take frame name =>
    obtain ⟨v, taken, rfl⟩ := Reply.returns_report h
    show Effect s s' [] (Value.resourcesOf (some v)) [] []
    rw [Value.resourcesOf_some]
    exact Locals.effect_take taken
  | readLocal frame name =>
    obtain ⟨v, looked, rfl⟩ := Reply.returns_report h
    obtain rfl := Locals.looks_read.of_returns looked
    exact Effect.refl s []
  | copyLocal frame name =>
    obtain ⟨v, copied, rfl⟩ := Reply.returns_report h
    obtain rfl := Locals.looks_copy.of_returns copied
    show Effect s s [] (Value.resourcesOf (some v)) [] []
    rw [Value.resourcesOf_some, Locals.resources_of_copy copied]
    exact Effect.refl s []
  | pass caller argument callee parameter =>
    obtain ⟨passed, rfl⟩ := Reply.returns_ofUnit.1 h
    exact Locals.effect_pass locals passed
  | assign frame source target =>
    obtain ⟨passed, rfl⟩ := Reply.returns_ofUnit.1 h
    exact Locals.effect_pass locals passed
  | insert frame name key v =>
    obtain ⟨inserted, rfl⟩ := Reply.returns_ofUnit.1 h
    rw [offered_singleton rfl]
    exact Locals.effect_insert locals (permitted.value rfl)
      (permitted.keys key (List.mem_singleton_self key)) inserted
  | push frame name v =>
    obtain ⟨pushed, rfl⟩ := Reply.returns_ofUnit.1 h
    rw [offered_singleton rfl]
    exact Locals.effect_push locals (permitted.value rfl) pushed
  | remove frame name key =>
    obtain ⟨taken, removed, rfl⟩ := Reply.returns_report h
    exact Locals.effect_remove locals removed
  | takeField frame name field =>
    obtain ⟨v, taken, rfl⟩ := Reply.returns_report h
    show Effect s s' [] (Value.resourcesOf (some v)) [] []
    rw [Value.resourcesOf_some]
    exact Locals.effect_takeField locals taken
  | putField frame name field v =>
    obtain ⟨filled, rfl⟩ := Reply.returns_ofUnit.1 h
    rw [offered_singleton rfl]
    exact Locals.effect_putField locals (permitted.value rfl) filled
  | save address path v =>
    obtain ⟨saved, rfl⟩ := Reply.returns_ofUnit.1 h
    rw [offered_singleton rfl]
    exact Storage.effect_save (permitted.value rfl) saved
  | load address path expected =>
    obtain ⟨loaded, taken, rfl⟩ := Reply.returns_report h
    exact Storage.effect_load taken
  | copyStored address path expected =>
    obtain ⟨copied, looked, rfl⟩ := Reply.returns_report h
    obtain rfl := Storage.looks_copy.of_returns looked
    show Effect s s [] (Value.resourcesOf copied) [] []
    rw [Storage.resources_of_copy looked]
    exact Effect.refl s []
  | typeAt address path =>
    obtain ⟨ty, looked, rfl⟩ := Reply.returns_report h
    obtain rfl := Storage.looks_typeAt.of_returns looked
    exact Effect.refl s []
  | storedPaths address domain =>
    obtain ⟨paths, looked, rfl⟩ := Reply.returns_report h
    obtain rfl := Storage.looks_paths.of_returns looked
    exact Effect.refl s []
  | link address source target promise =>
    obtain ⟨c, linked, rfl⟩ := Reply.returns_report h
    exact Links.effect_add linked
  | unlink address path =>
    obtain ⟨unlinked, rfl⟩ := Reply.returns_ofUnit.1 h
    exact Links.effect_remove unlinked
  | capability address path promise =>
    obtain ⟨c, looked, rfl⟩ := Reply.returns_report h
    obtain rfl := Links.looks_capability.of_returns looked
    exact Effect.refl s []
  | linkTarget address path =>
    obtain ⟨target, looked, rfl⟩ := Reply.returns_report h
    obtain rfl := Links.looks_target.of_returns looked
    exact Effect.refl s []
  | checkCapability c requested =>
    obtain ⟨t, looked, rfl⟩ := Reply.returns_report h
    obtain ⟨-, rfl⟩ := returns_get.1 looked
    exact Effect.refl s []
  | borrow c requested =>
    obtain ⟨same, none⟩ := Reply.returns_ofBorrow
      Borrows.lends_throughCapability.sameGoods h
    rw [none]
    exact same.effect []
  | borrowStored address path requested =>
    obtain ⟨same, none⟩ := Reply.returns_ofBorrow
      Borrows.lends_stored.sameGoods h
    rw [none]
    exact same.effect []
  | borrowLocal frame name requested =>
    obtain ⟨same, none⟩ := Reply.returns_ofBorrow
      Borrows.lends_ofLocal.sameGoods h
    rw [none]
    exact same.effect []
  | isLive r =>
    obtain ⟨t, looked, rfl⟩ := Reply.returns_report h
    obtain ⟨-, rfl⟩ := returns_get.1 looked
    exact Effect.refl s []
  | readMember r member =>
    obtain ⟨v, looked, rfl⟩ := Reply.returns_report h
    obtain rfl := Members.looks_read.of_returns looked
    show Effect s s [] (Value.resourcesOf (some v)) [] []
    rw [Value.resourcesOf_some, Members.resources_of_read looked]
    exact Effect.refl s []
  | setMember r member v =>
    obtain ⟨written, rfl⟩ := Reply.returns_ofUnit.1 h
    rw [offered_singleton rfl]
    exact Members.effect_set store locals (permitted.value rfl) written
  | insertMember r member key v =>
    obtain ⟨inserted, rfl⟩ := Reply.returns_ofUnit.1 h
    rw [offered_singleton rfl]
    exact Members.effect_insert store locals (permitted.value rfl)
      (permitted.keys key (List.mem_singleton_self key)) inserted
  | pushMember r member v =>
    obtain ⟨pushed, rfl⟩ := Reply.returns_ofUnit.1 h
    rw [offered_singleton rfl]
    exact Members.effect_push store locals (permitted.value rfl) pushed
  | removeMember r member key =>
    obtain ⟨taken, removed, rfl⟩ := Reply.returns_report h
    exact Members.effect_remove store locals removed
  | destroy v =>
    obtain ⟨torn, rfl⟩ := Reply.returns_ofUnit.1 h
    rw [offered_singleton rfl]
    exact Teardown.effect_destroy torn
  | destroyWith r p =>
    obtain ⟨moved, torn, rfl⟩ := Reply.returns_report h
    rw [offered_singleton rfl, Value.resources_resource]
    exact Teardown.effect_destroyWith torn

end Operation

end Custody
