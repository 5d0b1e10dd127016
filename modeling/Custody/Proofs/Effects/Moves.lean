import Custody.Proofs.Effects
import Custody.Proofs.Footprint
import Custody.Proofs.Slots

/-!
# The effects of moving values

An operation that moves a value changes one thing: what a local is bound to,
what a slot of storage holds, or a container in one of these. The change of
the whole census follows from the change of the census of that thing
(`State.carries_stack`, `State.carries_store`), and this one from what the
move does to the ledger. An operation on a container may take resources in
flight into it and others out of it; `Exchanges` says so of the action on the
container alone, so that locals and members share their lemmas.
-/

namespace Custody

open Ledger CustodyM

variable {α : Type} {s s' : State} {A B : List Resource} {v : Value}

/-! ## Actions on containers -/

/-- **The action exchanges resources** at a place: it takes those offered
from flight into the value there, and those received out of it. -/
def Exchanges (place : Place) (action : Value → LedgerM (α × Value)) (offered : List Resource)
    (received : α → List Resource) : Prop :=
  ∀ old l a new l', old.Regular → Returns (action old) l (a, new) l' →
    l.Carries l' (old.standing place ++ afoot offered) (new.standing place ++ afoot (received a))
      ∧ new.Regular ∧ ∀ r ∈ received a, r.toValue.Regular

/-- The same of an action on the resource that a value is. -/
def ExchangesWithin (place : Place) (action : Resource → LedgerM (α × Resource))
    (offered : List Resource) (received : α → List Resource) : Prop :=
  ∀ old l a new l', old.toValue.Regular → Returns (action old) l (a, new) l' →
    l.Carries l' (old.toValue.standing place ++ afoot offered)
        (new.toValue.standing place ++ afoot (received a))
      ∧ new.toValue.Regular ∧ ∀ r ∈ received a, r.toValue.Regular

/-- What an optional value has for roots. -/
def Value.resourcesOf (v : Option Value) : List Resource := v.toList.flatMap Value.resources

/-- The resources of a removed entry are regular when its value is. -/
theorem Value.regular_resourcesOf {v : Option Value} (h : ∀ w ∈ v, w.Regular) :
    ∀ r ∈ resourcesOf v, r.toValue.Regular := by
  intro r hr
  obtain ⟨w, hw, hr⟩ := List.mem_flatMap.1 hr
  exact (h w (Option.mem_toList.1 hw)).resources r hr

namespace Elements

variable {place : Place} {name field : String} {key : Key}

/-- Inserting an entry trades the resources of the new value for nothing. -/
theorem exchanges_insert (hv : v.Regular) (range : key.InRange) :
    Exchanges place (fun container => do return ((), ← insert container place name key v))
      v.resources fun _ => [] := by
  intro old l a new l' regular h
  obtain ⟨w, u, inserted, h⟩ := returns_bind.1 h
  obtain ⟨pair, rfl⟩ := returns_pure.1 h
  obtain ⟨-, rfl⟩ := Prod.mk.inj pair
  have inserted := inserted_insert inserted
  refine ⟨?_, inserted.regular regular hv range, fun _ hr => nomatch hr⟩
  rw [afoot_nil, List.append_nil]
  exact inserted.carries regular

/-- Appending an element trades its resources for nothing. -/
theorem exchanges_push (hv : v.Regular) :
    Exchanges place (fun container => do return ((), ← push container place name v))
      v.resources fun _ => [] := by
  intro old l a new l' regular h
  obtain ⟨w, u, pushed, h⟩ := returns_bind.1 h
  obtain ⟨pair, rfl⟩ := returns_pure.1 h
  obtain ⟨-, rfl⟩ := Prod.mk.inj pair
  -- an array does not look at the key, so any key in range will do
  have inserted : Inserted place (.bool true) v l _ old w := inserted_push pushed
  refine ⟨?_, inserted.regular regular hv trivial, fun _ hr => nomatch hr⟩
  rw [afoot_nil, List.append_nil]
  exact inserted.carries regular

/-- Removing an entry trades nothing for the resources of the entry. -/
theorem exchanges_remove :
    Exchanges place (fun container => remove container place name key) []
      Value.resourcesOf := by
  intro old l taken new l' regular h
  have removed := removed_remove h
  obtain ⟨kept, out⟩ := removed.regular regular
  refine ⟨?_, kept, Value.regular_resourcesOf out⟩
  rw [afoot_nil, List.append_nil]
  exact removed.carries regular

/-- Taking a field trades nothing for the resources it held. -/
theorem exchanges_takeField :
    ExchangesWithin place (fun r => takeField r name field) [] Value.resources := by
  intro old l w new l' regular h
  obtain ⟨found, rfl, -⟩ := returns_takeField h
  refine ⟨?_, Resource.regular_setSlot regular field fun _ hv => (nomatch hv),
    (Resource.regular_field? regular found).resources⟩
  rw [afoot_nil, List.append_nil]
  exact carries_takeField h

/-- Filling a field trades the resources of its value for nothing. -/
theorem exchanges_putField (hv : v.Regular) :
    ExchangesWithin place (fun r => do return ((), ← putField r name field v))
      v.resources fun _ => [] := by
  intro old l a new l' regular h
  obtain ⟨w, u, filled, h⟩ := returns_bind.1 h
  obtain ⟨pair, rfl⟩ := returns_pure.1 h
  obtain ⟨-, rfl⟩ := Prod.mk.inj pair
  refine ⟨?_, ?_, fun _ hr => nomatch hr⟩
  · rw [afoot_nil, List.append_nil]
    exact carries_putField filled
  · obtain ⟨-, rfl, -⟩ := returns_putField filled
    exact Resource.regular_setSlot regular field fun w hw => Option.some.inj hw ▸ hv

end Elements

/-! ## Locals -/

namespace Locals

variable {frame caller callee : FrameId} {name field argument parameter : String} {key : Key}

/-- A name that may be overwritten holds no resource. -/
theorem returns_ensureOverwritable {u : Unit}
    (h : Returns (ensureOverwritable frame name) s u s') :
    s = s' ∧ ∃ f, s.stack.frame frame = .ok f ∧ f.standingAt name = [] := by
  obtain rfl := (keeps_ensureOverwritable (R := Eq)).of_returns h
  refine ⟨rfl, ?_⟩
  unfold ensureOverwritable at h
  obtain ⟨b, t, looked, h⟩ := returns_bind.1 h
  unfold binding? at looked
  rw [returns_get_bind] at looked
  obtain ⟨f, found, looked⟩ := returns_ofExcept_bind.1 looked
  obtain ⟨rfl, -⟩ := returns_pure.1 looked
  refine ⟨f, found, ?_⟩
  unfold Frame.standingAt
  split at h
  next old bound =>
    rw [bound]
    split at h
    · exact (not_returns_throw h).elim
    next vacant =>
      exact Value.standing_of_resources_eq_nil (Value.firstRoot?_eq_none_iff.1 vacant) _
  next free =>
    cases bound : Table.get? f.locals name with
    | none => rfl
    | some b =>
      cases b with
      | live old => exact (free old bound).elim
      | moved => rfl

/-- A value that was bound has settled in a local that held nothing. -/
theorem settled_of_bind (h : Returns (bind frame name v) s () s') :
    ∃ f l, s.stack.frame frame = .ok f ∧ f.standingAt name = []
      ∧ Returns (settleValue v (place frame name)) s.ledger () l
      ∧ s' = { s with ledger := l, stack := s.stack.setLocal frame name (.live v) } := by
  unfold bind at h
  obtain ⟨_, t, required, h⟩ := returns_bind.1 (returns_guarded.1 h)
  obtain ⟨-, rfl⟩ := returns_requireTransaction.1 required
  obtain ⟨_, t, free, h⟩ := returns_bind.1 h
  obtain ⟨-, rfl⟩ := returns_ensureNotBorrowed.1 free
  obtain ⟨_, t, checked, h⟩ := returns_bind.1 h
  obtain ⟨rfl, f, found, vacant⟩ := returns_ensureOverwritable checked
  obtain ⟨_, t, entered, h⟩ := returns_bind.1 h
  obtain ⟨l, settled, rfl⟩ := returns_onLedger.1 entered
  obtain rfl := returns_modify.1 h
  exact ⟨f, l, found, vacant, settled, rfl⟩

/-- **Binding** settles a value in a local. -/
theorem effect_bind (hv : v.Regular) (h : Returns (bind frame name v) s () s') :
    Effect s s' v.resources [] [] [] := by
  obtain ⟨f, l, found, vacant, settled, rfl⟩ := settled_of_bind h
  obtain ⟨rest, before, after⟩ := CallStack.exists_perm_setLocal found name (.live v)
  rw [vacant] at before
  refine Effect.of_carries (State.carries_stack before after ?_) fun store locals _ =>
    ⟨store, locals.setLocal frame name hv, fun _ hr => nomatch hr⟩
  rw [afoot_nil, List.append_nil]
  exact carries_settleValue settled

/-- What was taken was bound. It has no roots and is still there, or it was not
borrowed and has been released. -/
theorem released_of_take (h : Returns (take frame name) s v s') :
    s.stack.value frame name = .ok v
      ∧ ((v.resources = [] ∧ s' = s)
        ∨ (v.isLinear = true ∧ s.loans.isBorrowed (.binding frame name) = false)
          ∧ ∃ l, Returns (releaseValue v (place frame name)) s.ledger () l
            ∧ s' = { s with ledger := l, stack := s.stack.setLocal frame name .moved }) := by
  unfold take at h
  obtain ⟨_, t, required, h⟩ := returns_bind.1 (returns_guarded.1 h)
  obtain ⟨-, rfl⟩ := returns_requireTransaction.1 required
  rw [returns_get_bind] at h
  obtain ⟨w, bound, h⟩ := returns_ofExcept_bind.1 h
  split at h
  next linear =>
    obtain ⟨_, t, checked, h⟩ := returns_bind.1 h
    obtain ⟨free, rfl⟩ := returns_ensureNotBorrowed.1 checked
    obtain ⟨_, t, entered, h⟩ := returns_bind.1 h
    obtain ⟨l, released, rfl⟩ := returns_onLedger.1 entered
    obtain ⟨_, t, unbound, h⟩ := returns_bind.1 h
    obtain rfl := returns_modify.1 unbound
    obtain ⟨rfl, rfl⟩ := returns_pure.1 h
    exact ⟨bound, .inr ⟨⟨linear, free⟩, l, released, rfl⟩⟩
  next =>
    obtain ⟨copied, rfl⟩ := returns_ofValueFault.1 h
    obtain ⟨rfl, none⟩ := Value.copy_eq_ok copied
    exact ⟨bound, .inl ⟨none, rfl⟩⟩

/-- **Taking** releases a linear value and leaves its name behind, and copies
any other. -/
theorem effect_take (h : Returns (take frame name) s v s') :
    Effect s s' [] v.resources [] [] := by
  obtain ⟨bound, ⟨none, rfl⟩ | ⟨-, l, released, rfl⟩⟩ := released_of_take h
  · rw [none]
    exact Effect.refl _ []
  · obtain ⟨rest, before, after⟩ := CallStack.exists_perm_rebind bound .moved
    refine Effect.of_carries (State.carries_stack before after ?_) fun store locals _ =>
      ⟨store, locals.setLocal frame name trivial, (locals.value bound).resources⟩
    rw [afoot_nil, List.append_nil]
    exact carries_releaseValue released

/-- **Passing** takes a value and binds it. -/
theorem effect_pass (locals : s.stack.Regular)
    (h : Returns (pass caller argument callee parameter) s () s') : Effect s s' [] [] [] [] := by
  obtain ⟨v, u, taken, bound⟩ := returns_bind.1 h
  exact (effect_take taken).trans (effect_bind (locals.value (released_of_take taken).1) bound)

/-- A local that was changed was acted on and holds the result. -/
theorem acted_of_change {action : Value → LedgerM (α × Value)} {a : α}
    (h : Returns (change frame name action) s a s') :
    ∃ old new l, s.stack.value frame name = .ok old
      ∧ Returns (action old) s.ledger (a, new) l
      ∧ s' = { s with ledger := l, stack := s.stack.setLocal frame name (.live new) } := by
  unfold change at h
  obtain ⟨_, t, required, h⟩ := returns_bind.1 (returns_guarded.1 h)
  obtain ⟨-, rfl⟩ := returns_requireTransaction.1 required
  obtain ⟨_, t, free, h⟩ := returns_bind.1 h
  obtain ⟨-, rfl⟩ := returns_ensureNotBorrowed.1 free
  rw [returns_get_bind] at h
  obtain ⟨old, bound, h⟩ := returns_ofExcept_bind.1 h
  obtain ⟨⟨b, new⟩, t, entered, h⟩ := returns_bind.1 h
  obtain ⟨l, acted, rfl⟩ := returns_onLedger.1 entered
  obtain ⟨_, t, rebound, h⟩ := returns_bind.1 h
  obtain rfl := returns_modify.1 rebound
  obtain ⟨rfl, rfl⟩ := returns_pure.1 h
  exact ⟨old, new, l, bound, acted, rfl⟩

/-- **A change of a local** has the effect of the exchange. -/
theorem effect_change {action : Value → LedgerM (α × Value)} {received : α → List Resource}
    {a : α} (locals : s.stack.Regular)
    (exchange : Exchanges (place frame name) action A received)
    (h : Returns (change frame name action) s a s') : Effect s s' A (received a) [] [] := by
  obtain ⟨old, new, l, bound, acted, rfl⟩ := acted_of_change h
  obtain ⟨carries, regular, out⟩ := exchange old _ _ new l (locals.value bound) acted
  obtain ⟨rest, before, after⟩ := CallStack.exists_perm_rebind bound (.live new)
  exact Effect.of_carries (State.carries_stack before after carries) fun store locals _ =>
    ⟨store, locals.setLocal frame name regular, out⟩

/-- An action on the resource that a value is acts on a resource. -/
theorem acted_of_changeResource {action : Resource → LedgerM (α × Resource)} {a : α}
    (h : Returns (changeResource frame name action) s a s') :
    ∃ old new l, s.stack.value frame name = .ok old.toValue
      ∧ Returns (action old) s.ledger (a, new) l
      ∧ s' = { s with ledger := l, stack := s.stack.setLocal frame name (.live new.toValue) } := by
  obtain ⟨v, new, l, bound, acted, rfl⟩ := acted_of_change h
  dsimp only at acted
  split at acted
  next r found =>
    obtain rfl := Value.toValue_of_resource? found
    obtain ⟨⟨b, r'⟩, u, changed, h⟩ := returns_bind.1 acted
    obtain ⟨pair, rfl⟩ := returns_pure.1 h
    obtain ⟨rfl, rfl⟩ := Prod.mk.inj pair
    exact ⟨r, r', u, bound, changed, rfl⟩
  · exact (not_returns_throw acted).elim

/-- A change of the resource that a local is. -/
theorem effect_changeResource {action : Resource → LedgerM (α × Resource)}
    {received : α → List Resource} {a : α} (locals : s.stack.Regular)
    (exchange : ExchangesWithin (place frame name) action A received)
    (h : Returns (changeResource frame name action) s a s') :
    Effect s s' A (received a) [] [] := by
  obtain ⟨old, new, l, bound, acted, rfl⟩ := acted_of_changeResource h
  obtain ⟨carries, regular, out⟩ := exchange old _ _ new l (locals.value bound) acted
  obtain ⟨rest, before, after⟩ := CallStack.exists_perm_rebind bound (.live new.toValue)
  exact Effect.of_carries (State.carries_stack before after carries) fun store locals _ =>
    ⟨store, locals.setLocal frame name regular, out⟩

/-- Inserting into a local brings the resources of the value out of the hands.
-/
theorem effect_insert (locals : s.stack.Regular) (hv : v.Regular) (range : key.InRange)
    (h : Returns (insert frame name key v) s () s') : Effect s s' v.resources [] [] [] :=
  effect_change locals (Elements.exchanges_insert hv range) h

/-- Appending to a local brings the resources of the value out of the hands. -/
theorem effect_push (locals : s.stack.Regular) (hv : v.Regular)
    (h : Returns (push frame name v) s () s') : Effect s s' v.resources [] [] [] :=
  effect_change locals (Elements.exchanges_push hv) h

/-- Removing from a local hands out the resources of the removed entry. -/
theorem effect_remove {taken : Option Value} (locals : s.stack.Regular)
    (h : Returns (remove frame name key) s taken s') :
    Effect s s' [] (Value.resourcesOf taken) [] [] :=
  effect_change locals Elements.exchanges_remove h

/-- Taking a field of a local hands out the resources it held. -/
theorem effect_takeField (locals : s.stack.Regular)
    (h : Returns (takeField frame name field) s v s') : Effect s s' [] v.resources [] [] :=
  effect_changeResource locals Elements.exchanges_takeField h

/-- Filling a field of a local brings the resources of the value out of the
hands. -/
theorem effect_putField (locals : s.stack.Regular) (hv : v.Regular)
    (h : Returns (putField frame name field v) s () s') : Effect s s' v.resources [] [] [] :=
  effect_changeResource locals (Elements.exchanges_putField hv) h

end Locals

/-! ## Storage -/

namespace Storage

variable {address : Address} {path : Path} {expected : Ty}

/-- A value that was saved has settled in a slot that was empty. -/
theorem settled_of_save (h : Returns (save address path v) s () s') :
    ∃ l, s.store.standingAt address path = []
      ∧ Returns (settleValue v (.stored address path)) s.ledger () l
      ∧ s' = { s with ledger := l, store := s.store.insert address path (.value v) } := by
  obtain ⟨-, -, free, l, settled, rfl⟩ := returns_save_iff.1 h
  have vacant : s.store.get? address path = none := by
    simpa [Store.contains] using free
  refine ⟨l, ?_, settled, rfl⟩
  unfold Store.standingAt
  rw [vacant]
  rfl

/-- **Saving** settles a value in an empty slot. -/
theorem effect_save (hv : v.Regular) (h : Returns (save address path v) s () s') :
    Effect s s' v.resources [] [] [] := by
  obtain ⟨l, vacant, settled, rfl⟩ := settled_of_save h
  have before := s.store.standing_erase_perm address path
  rw [vacant] at before
  refine Effect.of_carries (State.carries_store before
    (s.store.standing_insert_perm address path (.value v)) ?_) fun store locals _ =>
      ⟨store.insert address path hv, locals, fun _ hr => nomatch hr⟩
  rw [afoot_nil, List.append_nil]
  exact carries_settleValue settled

/-- What stands at an entry of the store is the value found there. -/
theorem standingAt_of_value? {store : Store} (found : store.value? address path = some v) :
    store.standingAt address path = v.standing (.stored address path)
      ∧ store.get? address path = some (.value v) := by
  obtain ⟨e, stored, value⟩ := Option.bind_eq_some_iff.1 found
  cases e with
  | value w =>
    obtain rfl := Option.some.inj value
    refine ⟨?_, stored⟩
    unfold Store.standingAt
    rw [stored]
    rfl
  | link _ => cases value

/-- What was loaded was stored and has been released, or there was nothing. -/
theorem released_of_load {loaded : Option Value}
    (h : Returns (load address path expected) s loaded s') :
    (loaded = none ∧ s' = s)
      ∨ ∃ v l, loaded = some v ∧ s.store.value? address path = some v
        ∧ Returns (releaseValue v (.stored address path)) s.ledger () l
        ∧ s' = { s with ledger := l, store := s.store.erase address path } := by
  obtain ⟨-, ⟨-, rfl, rfl⟩ | ⟨v, rfl, found, -, -, l, released, rfl⟩⟩ := returns_load_iff.1 h
  · exact .inl ⟨rfl, rfl⟩
  · exact .inr ⟨v, l, rfl, found, released, rfl⟩

/-- **Loading** releases the value of a slot and empties it. -/
theorem effect_load {loaded : Option Value}
    (h : Returns (load address path expected) s loaded s') :
    Effect s s' [] (Value.resourcesOf loaded) [] [] := by
  obtain ⟨rfl, rfl⟩ | ⟨v, l, rfl, found, released, rfl⟩ := released_of_load h
  · exact Effect.refl _ []
  -- the slot is left empty, and what stood in it is in hand
  obtain ⟨there, stored⟩ := standingAt_of_value? found
  have before := s.store.standing_erase_perm address path
  rw [there] at before
  have after : (s.store.erase address path).standing.Perm
      ([] ++ (s.store.erase address path).standing) := List.Perm.refl _
  refine Effect.of_carries (State.carries_store before after ?_)
    fun store locals _ => ⟨store.erase address path, locals, ?_⟩
  · rw [afoot_nil, List.append_nil]
    simpa [Value.resourcesOf] using carries_releaseValue released
  · refine Value.regular_resourcesOf fun w hw => ?_
    obtain rfl := Option.some.inj hw
    exact Store.regular_iff.1 store _ _ _ stored

end Storage

/-! ## Links -/

namespace Links

variable {address : Address} {source target path : Path} {promise : RefTy}

/-- A path in use is left as it is, any other is linked. -/
theorem added_of_add {c : Option Capability}
    (h : Returns (add address source target promise) s c s') :
    c = none ∧ s' = s ∨ c.isSome = true ∧ s.store.contains address source = false
      ∧ s' =
        { s with store := s.store.insert address source (.link ⟨source, target, promise⟩) } := by
  unfold add at h
  obtain ⟨_, t, checked, h⟩ := returns_bind.1 (returns_guarded.1 h)
  obtain rfl := (keeps_checkPath (R := Eq)).of_returns checked
  rw [returns_get_bind] at h
  split at h
  · obtain ⟨rfl, rfl⟩ := returns_pure.1 h
    exact .inl ⟨rfl, rfl⟩
  next free =>
    rw [returns_modify_bind] at h
    obtain ⟨rfl, rfl⟩ := returns_pure.1 h
    exact .inr ⟨rfl, by simpa using free, rfl⟩

/-- **A link** holds nothing. -/
theorem effect_add {c : Option Capability}
    (h : Returns (add address source target promise) s c s') : Effect s s' [] [] [] [] := by
  obtain ⟨-, rfl⟩ | ⟨-, free, rfl⟩ := added_of_add h
  · exact Effect.refl _ []
  · have vacant : s.store.standingAt address source = [] := by
      have none : s.store.get? address source = none := by
        simpa [Store.contains] using free
      unfold Store.standingAt
      rw [none]
      rfl
    have before := s.store.standing_erase_perm address source
    rw [vacant] at before
    exact Effect.of_carries (State.carries_store before
      (s.store.standing_insert_perm address source (.link ⟨source, target, promise⟩))
      (Carries.refl _ _)) fun store locals received =>
        ⟨store.insert address source trivial, locals, received⟩

/-- A link is removed if there is one, with the authority of its account. -/
theorem removed_of_remove (h : Returns (remove address path) s () s') :
    s.Authorizes address ∧ path.domain.holdsLinks = true
      ∧ (s.store.link? address path = none ∧ s' = s ∨ ∃ link,
        s.store.link? address path = some link
          ∧ s' = { s with store := s.store.erase address path }) := by
  unfold remove at h
  obtain ⟨_, t, checked, h⟩ := returns_bind.1 (returns_guarded.1 h)
  obtain ⟨may, links⟩ := admits_of_checkPath checked
  obtain rfl := (keeps_checkPath (R := Eq)).of_returns checked
  rw [returns_get_bind] at h
  refine ⟨may, links, ?_⟩
  split at h
  next there =>
    obtain rfl := returns_modify.1 h
    obtain ⟨link, found⟩ := Option.isSome_iff_exists.1 there
    exact .inr ⟨link, found, rfl⟩
  next nothing =>
    obtain ⟨-, rfl⟩ := returns_pure.1 h
    exact .inl ⟨Option.not_isSome_iff_eq_none.1 nothing, rfl⟩

/-- Removing a link takes nothing away. -/
theorem effect_remove (h : Returns (remove address path) s () s') :
    Effect s s' [] [] [] [] := by
  obtain ⟨-, -, ⟨-, rfl⟩ | ⟨link, found, rfl⟩⟩ := removed_of_remove h
  · exact Effect.refl _ []
  · have nothing : s.store.standingAt address path = [] := by
      obtain ⟨e, stored, linked⟩ := Option.bind_eq_some_iff.1 found
      unfold Store.standingAt
      rw [stored]
      cases e with
      | value v => cases linked
      | link _ => rfl
    have before := s.store.standing_erase_perm address path
    rw [nothing] at before
    have after : (s.store.erase address path).standing.Perm
        ([] ++ (s.store.erase address path).standing) := List.Perm.refl _
    exact Effect.of_carries (State.carries_store before after (Carries.refl _ _))
      fun store locals received => ⟨store.erase address path, locals, received⟩

end Links

/-! ## Members -/

/-- The place of a target. -/
def Target.place : Target → Place
  | .stored address path => .stored address path
  | .binding frame name => .binding frame name

namespace Members

variable {r : Reference} {member : String} {key : Key}

/-- The state with the value at a target replaced. -/
def replaced (s : State) (target : Target) (l : Ledger) (v : Value) : State :=
  match target with
  | .stored address path =>
    { s with ledger := l, store := s.store.insert address path (.value v) }
  | .binding frame name =>
    { s with ledger := l, stack := s.stack.setLocal frame name (.live v) }

/-- The replaced state has the ledger it is given. -/
@[simp] theorem ledger_replaced (s : State) (target : Target) (l : Ledger) (v : Value) :
    (replaced s target l v).ledger = l := by
  cases target <;> rfl

/-- Replacing the target of a reference is a change of the ledger and then a
write at that target. -/
theorem replaced_eq_writeAt (s : State) (target : Target) (l : Ledger) (v : Value) :
    replaced s target l v = ({ s with ledger := l } : State).writeAt target v := by
  cases target <;> rfl

/-- A replacement that returns has written the value at the target. -/
theorem returns_replace {target : Target} {l : Ledger} {u : Unit}
    (h : Returns (replace target v) { s with ledger := l } u s') :
    s' = replaced s target l v := by
  obtain rfl := returns_modify.1 h
  cases target <;> rfl

/-- The value a reference to a local leads to is the value of that local. -/
theorem value_of_targetValue? {frame : FrameId} {name : String}
    (found : targetValue? s (.binding frame name) = some v) : s.stack.value frame name = .ok v := by
  have found : (s.stack.value frame name).toOption = some v := found
  cases bound : s.stack.value frame name with
  | error fault => rw [bound] at found; cases found
  | ok w => rw [bound] at found; exact congrArg _ (Option.some.inj found)

/-- The value behind a reference is regular in a regular state. -/
theorem regular_targetValue? {target : Target} (store : s.store.Regular)
    (locals : s.stack.Regular) (found : targetValue? s target = some v) : v.Regular := by
  cases target with
  | stored address path =>
    exact Store.regular_iff.1 store _ _ _ (Storage.standingAt_of_value? found).2
  | binding frame name => exact locals.value (value_of_targetValue? found)

/-- **What is carried at a target is carried in the whole.** -/
theorem effect_replaced {target : Target} {l : Ledger} {old : Value}
    (found : targetValue? s target = some old) (hv : v.Regular)
    (out : ∀ r ∈ B, r.toValue.Regular)
    (h : s.ledger.Carries l (old.standing target.place ++ afoot A)
      (v.standing target.place ++ afoot B)) :
    Effect s (replaced s target l v) A B [] [] := by
  cases target with
  | stored address path =>
    have before := s.store.standing_erase_perm address path
    rw [(Storage.standingAt_of_value? found).1] at before
    exact Effect.of_carries (State.carries_store before
      (s.store.standing_insert_perm address path (.value v)) h) fun store locals _ =>
        ⟨store.insert address path hv, locals, out⟩
  | binding frame name =>
    obtain ⟨rest, before, after⟩ :=
      CallStack.exists_perm_rebind (value_of_targetValue? found) (.live v)
    exact Effect.of_carries (State.carries_stack before after h) fun store locals _ =>
      ⟨store, locals.setLocal frame name hv, out⟩

/-- A member that was overwritten is a field of a resource, in which the
value has settled, or of a struct, which takes nothing linear. -/
theorem written_of_set (h : Returns (set r member v) s () s') :
    (∃ owner l, targetValue? s r.target = some owner.toValue
        ∧ Returns (Elements.putField owner r.target.text member v) s.ledger
          (owner.putField member v) l
        ∧ s' = replaced s r.target l (owner.putField member v).toValue)
      ∨ ∃ old new : Struct, targetValue? s r.target = some old.toValue
        ∧ old.set member v = .ok new ∧ v.resources = []
        ∧ s' = replaced s r.target s.ledger new.toValue := by
  unfold set at h
  obtain ⟨_, t, granted, h⟩ := returns_bind.1 (returns_guarded.1 h)
  obtain rfl := (keeps_checkAccess (R := Eq)).of_returns granted
  obtain ⟨_, t, storable, h⟩ := returns_bind.1 h
  obtain rfl := (Storage.keeps_ensureStorable (R := Eq)).of_returns storable
  obtain ⟨owner, t, looked, h⟩ := returns_bind.1 h
  obtain ⟨found, -, rfl⟩ := returns_value looked
  split at h
  next id typeName fields =>
    obtain ⟨owner', t, entered, h⟩ := returns_bind.1 h
    obtain ⟨l, filled, rfl⟩ := returns_onLedger.1 entered
    obtain rfl := returns_replace h
    obtain rfl := (Elements.returns_putField filled).2.1
    exact .inl ⟨⟨id, typeName, fields⟩, l, found, filled, rfl⟩
  next typeName fields =>
    obtain ⟨-, h⟩ := returns_refusal_bind.1 h
    obtain ⟨new, t, accepted, h⟩ := returns_bind.1 h
    obtain ⟨assigned, rfl⟩ := returns_ofValueFault.1 accepted
    obtain rfl := returns_replace h
    have none := Value.isLinear_eq_false_iff.1 (Struct.set_eq_ok_iff.1 assigned).1
    exact .inr ⟨⟨typeName, fields⟩, new, found, assigned, none, rfl⟩
  · exact (not_returns_throw h).elim

/-- **Overwriting a member** settles the new value in it. -/
theorem effect_set (store : s.store.Regular) (locals : s.stack.Regular) (hv : v.Regular)
    (h : Returns (set r member v) s () s') : Effect s s' v.resources [] [] [] := by
  obtain ⟨owner, l, found, filled, rfl⟩ | ⟨old, new, found, assigned, none, rfl⟩ :=
    written_of_set h
  · have regular := regular_targetValue? store locals found
    refine effect_replaced found (Resource.regular_setSlot regular member fun w hw =>
      Option.some.inj hw ▸ hv) (fun _ hr => nomatch hr) ?_
    rw [afoot_nil, List.append_nil]
    exact Elements.carries_putField filled
  · -- a struct holds nothing before and after
    have empty (x : Struct) : x.toValue.standing r.target.place = [] :=
      Value.standing_of_resources_eq_nil (Value.resources_struct _ _) _
    rw [none]
    refine effect_replaced found
      (Struct.regular_set (regular_targetValue? store locals found) hv assigned)
      (fun _ hr => nomatch hr) ?_
    rw [empty old, empty new]
    exact Carries.refl _ _

/-- A member that was changed holds a container that was acted on. -/
theorem acted_of_change {action : Value → Place → String → LedgerM (α × Value)} {a : α}
    (h : Returns (change r member action) s a s') :
    ∃ (owner : Resource) (container new : Value) (l : Ledger),
      Sees r s owner.toValue
      ∧ owner.field? member = some container
      ∧ Returns (action container (.field owner.id member) (owner.typeName ++ "." ++ member))
        s.ledger (a, new) l
      ∧ s' = replaced s r.target l (owner.putField member new).toValue := by
  rcases outcome_change action s with ⟨e, refused⟩ | ⟨owner, container, seen, held, -, goes⟩
  · exact (h.not_fails refused).elim
  · unfold Returns at h
    rw [goes] at h
    obtain ⟨⟨b, new⟩, t, entered, h⟩ := returns_bind.1 h
    obtain ⟨l, acted, rfl⟩ := returns_onLedger.1 entered
    obtain ⟨_, t, written, h⟩ := returns_bind.1 h
    obtain rfl := returns_replace written
    obtain ⟨rfl, rfl⟩ := returns_pure.1 h
    exact ⟨owner, container, new, l, seen, held, acted, rfl⟩

/-- **A change of a container in a member** has the effect of the
exchange. -/
theorem effect_change {action : Value → Place → String → LedgerM (α × Value)}
    {received : α → List Resource} {a : α} (store : s.store.Regular) (locals : s.stack.Regular)
    (exchange : ∀ place name,
      Exchanges place (fun container => action container place name) A received)
    (h : Returns (change r member action) s a s') : Effect s s' A (received a) [] [] := by
  obtain ⟨owner, container, new, l, ⟨-, found⟩, filled, acted, rfl⟩ := acted_of_change h
  have regular := regular_targetValue? store locals found
  obtain ⟨carries, regular', out⟩ := exchange _ _ container _ _ new l
    (Resource.regular_field? regular filled) acted
  exact effect_replaced found
    (Resource.regular_setSlot regular member fun w hw => Option.some.inj hw ▸ regular') out
    (Resource.carries_field filled carries)

/-- Inserting through a reference brings the resources of the value out of the
hands. -/
theorem effect_insert (store : s.store.Regular) (locals : s.stack.Regular) (hv : v.Regular)
    (range : key.InRange) (h : Returns (insert r member key v) s () s') :
    Effect s s' v.resources [] [] [] := by
  unfold insert at h
  obtain ⟨_, t, storable, h⟩ := returns_bind.1 (returns_guarded.1 h)
  obtain rfl := (Storage.keeps_ensureStorable (R := Eq)).of_returns storable
  exact effect_change store locals (fun _ _ => Elements.exchanges_insert hv range) h

/-- Appending through a reference brings the resources of the value out of the
hands. -/
theorem effect_push (store : s.store.Regular) (locals : s.stack.Regular) (hv : v.Regular)
    (h : Returns (push r member v) s () s') : Effect s s' v.resources [] [] [] := by
  unfold push at h
  obtain ⟨_, t, storable, h⟩ := returns_bind.1 (returns_guarded.1 h)
  obtain rfl := (Storage.keeps_ensureStorable (R := Eq)).of_returns storable
  exact effect_change store locals (fun _ _ => Elements.exchanges_push hv) h

/-- Removing through a reference hands out the resources of the removed entry.
-/
theorem effect_remove {taken : Option Value} (store : s.store.Regular)
    (locals : s.stack.Regular) (h : Returns (remove r member key) s taken s') :
    Effect s s' [] (Value.resourcesOf taken) [] [] :=
  effect_change store locals (fun _ _ => Elements.exchanges_remove) (returns_guarded.1 h)

end Members

end Custody
