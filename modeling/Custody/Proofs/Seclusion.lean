import Custody.Proofs.Isolation
import Custody.Proofs.Restart
import Custody.Proofs.Shelter
import Custody.Proofs.SingleOwner

/-!
# Seclusion of an account's resources

A transaction that an account did not sign, and that borrows nothing of it,
leaves alone what the account stores. It should leave alone, too, what the
ledger records of it, or the account could not load what is still there.

The host can rebuild a resource of the account and hand over the copy. As a
root the copy is refused, since the resource is not in flight. Inside another
resource it is not looked at; but neither can it be moved from there or
destroyed, since the record says otherwise. So no root of a local, or of what
another account stores, lies in the account's storage, and on this rests that
nothing is taken from there (`State.Secludes`).

With one exception (`record_moved_forged`). When an element is put into an array
in a member or taken out of it, the records of the elements behind it follow
them to their new positions, and these elements are contents, not roots. A copy
among them takes the record away from the account. As long as no array is
shifted so over what lies in the account's storage, its records stay
(`records_secluded`).
-/

namespace Custody

open Ledger CustodyM Store

variable {home : Store} {A : Address} {s t : State} {v : Value} {frame : FrameId}
  {name : String} {α : Type}

/-! ## Out of reach -/

/-- **The account is out of reach**: the transaction has no authority over it
and has borrowed nothing of it. -/
structure State.OutOfReach (A : Address) (s : State) : Prop where
  unsigned : ¬s.Authorizes A
  unlent : s.Unlent A

theorem State.Spares.outOfReach (h : s.Spares A t) (reach : s.OutOfReach A) : t.OutOfReach A :=
  ⟨(h.outlines reach.unsigned).1, (h.entries reach.unsigned reach.unlent).1⟩

/-- What is seen through a reference is not the account's. -/
theorem State.OutOfReach.address?_ne {r : Reference} (reach : s.OutOfReach A)
    (seen : Members.Sees r s v) : r.target.address? ≠ some A := by
  obtain ⟨loan, lent, -⟩ := (Option.any_eq_true _ _).1 seen.1
  exact reach.unlent _ (List.mem_map_of_mem (Table.mem_of_get?_eq_some lent))

/-! ## Nothing from the account in use -/

/-- What a name is bound to is from elsewhere. -/
def Binding.Foreign (home : Store) (A : Address) : Binding → Prop
  | .live v => v.Foreign home A
  | .moved => True

/-- **What lies in the account's storage is secluded**: it is on record where it
lies, and is no root of a local or of what another account stores. -/
structure State.Secludes (home : Store) (A : Address) (s : State) : Prop where
  shelters : s.ledger.Shelters home A
  locals : ∀ f ∈ s.stack.frames, ∀ b ∈ f.locals, b.2.Foreign home A
  stored : ∀ address path v, address ≠ A → s.store.value? address path = some v →
    v.Foreign home A

namespace State.Secludes

theorem ofLedger (h : s.Secludes home A) {l : Ledger} (shelters : l.Shelters home A) :
    ({ s with ledger := l } : State).Secludes home A :=
  ⟨shelters, h.locals, h.stored⟩

theorem note (h : s.Secludes home A) (fault : Fault) : (s.note fault).Secludes home A := by
  unfold State.note
  split
  · exact ⟨h.shelters, h.locals, h.stored⟩
  · exact h

theorem setLocal (h : s.Secludes home A) {b : Binding} (foreign : b.Foreign home A) :
    ({ s with stack := s.stack.setLocal frame name b } : State).Secludes home A :=
  ⟨h.shelters, CallStack.forall_setLocal h.locals frame name foreign, h.stored⟩

theorem insert (h : s.Secludes home A) {address : Address} {path : Path} {e : Entry}
    (foreign : ∀ v, e.value? = some v → v.Foreign home A) :
    ({ s with store := s.store.insert address path e } : State).Secludes home A := by
  refine ⟨h.shelters, h.locals, fun address' path' v other found => ?_⟩
  obtain ⟨e', there, value⟩ := Option.bind_eq_some_iff.1 found
  rw [get?_insert] at there
  split at there
  · obtain rfl := Option.some.inj there
    exact foreign v value
  · exact h.stored address' path' v other (Option.bind_eq_some_iff.2 ⟨e', there, value⟩)

theorem erase (h : s.Secludes home A) {address : Address} {path : Path} :
    ({ s with store := s.store.erase address path } : State).Secludes home A := by
  refine ⟨h.shelters, h.locals, fun address' path' v other found => ?_⟩
  obtain ⟨e', there, value⟩ := Option.bind_eq_some_iff.1 found
  rw [get?_erase] at there
  split at there
  · cases there
  · exact h.stored address' path' v other (Option.bind_eq_some_iff.2 ⟨e', there, value⟩)

theorem writeAt (h : s.Secludes home A) {target : Target} (foreign : v.Foreign home A) :
    (s.writeAt target v).Secludes home A := by
  cases target with
  | stored address path => exact h.insert fun w same => Option.some.inj same ▸ foreign
  | binding frame name => exact h.setLocal foreign

theorem foreign_of_value (h : s.Secludes home A) (found : s.stack.value frame name = .ok v) :
    v.Foreign home A := by
  obtain ⟨f, opened, live⟩ := CallStack.value_eq_ok found
  exact h.locals f (CallStack.mem_of_frame_eq_ok opened) _ (Table.mem_of_get?_eq_some live)

/-- What is seen through a reference is from elsewhere. -/
theorem foreign_of_sees (h : s.Secludes home A) {r : Reference} (reach : s.OutOfReach A)
    (seen : Members.Sees r s v) : v.Foreign home A := by
  have other := reach.address?_ne seen
  obtain ⟨-, found⟩ := seen
  obtain ⟨_, target, _, _, _⟩ := r
  cases target with
  | stored address path =>
    exact h.stored address path v (fun here => other (congrArg some here)) found
  | binding frame name => exact h.foreign_of_value (Members.value_of_targetValue? found)

/-- An action that shelters the account's resources, and what follows it. -/
theorem doing (h : s.Secludes home A) {action : LedgerM α} {finish : α → State → State}
    (kept : Keeps (home.Sheltering A) action)
    (finishes : ∀ a l, Returns action s.ledger a l →
      ({ s with ledger := l } : State).Secludes home A →
        (finish a { s with ledger := l }).Secludes home A) :
    (s.doing action finish).Secludes home A :=
  State.doing_cases (fun _ _ failed => h.ofLedger (kept.of_fails failed h.shelters))
    fun a l returned => finishes a l returned (h.ofLedger (kept.of_returns returned h.shelters))

/-- An action, and then work on a local. -/
theorem rebinding (h : s.Secludes home A) {action : LedgerM α} {b : α → Binding}
    (kept : Keeps (home.Sheltering A) action)
    (foreign : ∀ a l, Returns action s.ledger a l → (b a).Foreign home A) :
    (s.doing action fun a u => { u with stack := u.stack.setLocal frame name (b a) }).Secludes
      home A :=
  h.doing kept fun a l returned later => later.setLocal (foreign a l returned)

end State.Secludes

/-- **A backed custodian secludes** what every account stores: all that is
stored and bound is on record where it is. -/
theorem State.Backed.secludes (backed : s.Backed) (A : Address) : s.Secludes s.store A := by
  obtain ⟨rest, a⟩ := backed
  have recorded {id : ResourceId} {place : Place} (found : s.Found [] id place) :
      s.ledger.holding? id = some (.owned place) := by
    have listed : (id, Holding.owned place) ∈ s.standing :=
      State.mem_standing_iff.2 ⟨place, rfl, found⟩
    exact a.reflects.holding? (List.mem_append_left _ (List.mem_append_left _ listed))
  have shelters : s.ledger.Shelters s.store A :=
    ⟨a.reflects.bounded, fun id place ⟨path, v, there, inside⟩ => recorded (.stored there inside)⟩
  refine ⟨shelters, fun f opened b bound => ?_, fun address path v other there => ?_⟩
  · obtain ⟨name, v | _⟩ := b
    · exact Value.foreign_of_recorded shelters (open_binding f.id name) fun p mem =>
        recorded (.bound opened bound (Value.found_of_mem_placings mem))
    · trivial
  · exact Value.foreign_of_recorded shelters (open_stored other path) fun p mem =>
      recorded (.stored there (Value.found_of_mem_placings mem))

/-- It matters only what the account stores. -/
theorem State.Secludes.congr {home' : Store} (h : s.Secludes home A)
    (same : home.SameEntries A home') : s.Secludes home' A := by
  have lodges {id : ResourceId} {place : Place} (there : home'.Lodges A id place) :
      home.Lodges A id place := by
    obtain ⟨path, v, found, inside⟩ := there
    exact ⟨path, v, (same.value? path).symm.trans found, inside⟩
  have foreign {v : Value} (away : v.Foreign home A) : v.Foreign home' A :=
    fun id mem ⟨place, there⟩ => away id mem ⟨place, lodges there⟩
  refine ⟨⟨h.shelters.numbered, fun id place there => h.shelters.recorded id place (lodges there)⟩,
    fun f opened b bound => ?_, fun address path v other found => ?_⟩
  · obtain ⟨name, v | _⟩ := b
    · exact foreign (h.locals f opened _ bound)
    · trivial
  · exact foreign (h.stored address path v other found)

/-! ## Calls -/

/-- The container in a member of the resource referred to. -/
def Members.container? (s : State) (r : Reference) (member : String) : Option Value :=
  (targetValue? s r.target).bind fun v => v.resource?.bind fun owner => owner.field? member

namespace Operation

variable {o : Operation}

/-- Whether the call puts an element in front of others in a member, or takes
one out. -/
def isShift : Operation → Bool
  | insertMember _ _ _ _ | removeMember _ _ _ => true
  | _ => false

/-- **What a call shifts**: the elements of the array in the member behind the
one that is put in or taken out. -/
def shifted (s : State) : Operation → List ResourceId
  | insertMember r member key _ =>
    (Members.container? s r member).toList.flatMap fun c => Elements.behind c key 0
  | removeMember r member key =>
    (Members.container? s r member).toList.flatMap fun c => Elements.behind c key 1
  | _ => []

/-- **Every deed but a shift** takes nothing from the account's storage. -/
theorem secludes_of_does (did : o.Does s t) (plain : o.isBorrow = false) (still : o.isShift = false)
    (reach : s.OutOfReach A) (h : s.Secludes home A) : t.Secludes home A := by
  have law : LawfulWhere (home.Frees A) (home.Sheltering A) := lawful_sheltering
  have settles {w : Value} {place : Place} : Keeps (home.Sheltering A) (settleValue w place) :=
    keeps_settleValue law
  have given {l l' : Ledger} {w : Value} {place : Place} (shelters : l.Shelters home A)
      (settled : Returns (settleValue w place) l () l') : w.Foreign home A :=
    Value.foreign_of_turns shelters (turns_settleValue settled)
  have behind {c : Value} (foreign : c.Foreign home A) {key : Key} {skip : Nat} :
      ∀ id ∈ Elements.behind c key skip, ∀ spot, home.Frees A id spot := fun id mem =>
    frees_of_not_lodger (Elements.not_lodger_of_behind foreign id mem)
  induction did with
  | made => exact h.doing (Construction.keeps_enter law) fun _ _ _ later => later
  | destroyed => exact h.doing Teardown.sheltering_razeValue fun _ _ _ later => later
  | dismantled => exact h.doing Teardown.sheltering_razePlanned fun _ _ _ later => later
  | opened pushed =>
    obtain ⟨-, rfl⟩ := CallStack.push_eq_ok pushed
    refine ⟨h.shelters, fun f opened b bound => ?_, h.stored⟩
    rcases List.mem_cons.1 opened with rfl | opened
    · cases bound
    · exact h.locals f opened b bound
  | closed popped =>
    obtain ⟨-, frames, -⟩ := CallStack.pop_eq_ok popped
    exact ⟨h.shelters, fun f opened => h.locals f (frames ▸ List.mem_cons_of_mem _ opened),
      h.stored⟩
  | bound => exact h.rebinding settles fun _ l settled => given h.shelters settled
  | taken =>
    exact h.rebinding (keeps_releaseValue law (open_binding _ _)) fun _ _ _ => trivial
  | passedOut _ ih | passedIn _ ih | assigned _ ih => exact ih rfl rfl reach h
  | inserted found =>
    have foreign := h.foreign_of_value found
    exact h.rebinding (Elements.keeps_insert law (behind foreign)) fun new l inserted =>
      (Elements.inserted_insert inserted).foreign h.shelters foreign
  | pushed found =>
    refine h.rebinding (Elements.keeps_push law) fun new l pushed => ?_
    have inserted : Elements.Inserted _ (.bool true) _ _ l _ new := Elements.inserted_push pushed
    exact inserted.foreign h.shelters (h.foreign_of_value found)
  | removed found =>
    have foreign := h.foreign_of_value found
    exact h.rebinding (Elements.keeps_remove law (open_binding _ _) (behind foreign))
      fun p l removed => (Elements.removed_remove removed).foreign foreign
  | emptied found =>
    have away := Value.foreign_resource.1 (h.foreign_of_value found)
    refine h.rebinding (Elements.keeps_takeField law (open_field away _)) fun p l emptied => ?_
    obtain ⟨-, same, -⟩ := Elements.returns_takeField emptied
    rw [same]
    exact Value.foreign_resource.2 away
  | filled found =>
    have away := Value.foreign_resource.1 (h.foreign_of_value found)
    refine h.rebinding (Elements.keeps_putField law) fun r' l filled => ?_
    obtain ⟨-, rfl, -⟩ := Elements.returns_putField filled
    exact Value.foreign_resource.2 away
  | saved may =>
    refine h.doing settles fun _ l settled later => later.insert fun w same => ?_
    obtain rfl := Option.some.inj same
    exact given h.shelters settled
  | @loaded s address path expected w may =>
    have other : address ≠ A := fun here => reach.unsigned (here ▸ may)
    exact h.doing (keeps_releaseValue law (open_stored other path)) fun _ _ _ later => later.erase
  | linked => exact h.insert fun _ same => nomatch same
  | unlinked => exact h.erase
  | lent asked =>
    rw [plain] at asked
    cases asked
  | filledMember seen =>
    have away := Value.foreign_resource.1 (h.foreign_of_sees reach seen)
    refine h.doing (Elements.keeps_putField law) fun owner' l filled later => later.writeAt ?_
    obtain ⟨-, rfl, -⟩ := Elements.returns_putField filled
    exact Value.foreign_resource.2 away
  | assignedMember =>
    exact h.writeAt (Value.foreign_of_resources_eq_nil (Value.resources_struct _ _))
  | pushedMember seen =>
    have away := Value.foreign_resource.1 (h.foreign_of_sees reach seen)
    exact h.doing (Elements.keeps_push law) fun new l _ later =>
      later.writeAt (Value.foreign_resource.2 away)
  | insertedMember | removedMember => cases still

end Operation

/-! ## Shifts -/

namespace Members

variable {r : Reference} {member : String} {key : Key} {e : Fault}
  {action : Value → Place → String → LedgerM (α × Value)}

/-- What is behind an element in the member is behind it in the container
there. -/
theorem behind_container? {owner : Resource} {container : Value} {skip : Nat}
    (seen : Sees r s owner.toValue) (held : owner.field? member = some container) :
    ((container? s r member).toList.flatMap fun c => Elements.behind c key skip)
      = Elements.behind container key skip := by
  have there : container? s r member = some container := by
    unfold container?
    rw [seen.2]
    exact held
  rw [there]
  exact List.append_nil _

/-- The member of a resource that lies elsewhere was changed. -/
theorem secludes_of_change {a : α} (reach : s.OutOfReach A) (h : s.Secludes home A)
    (returned : Returns (change r member action) s a t)
    (kept : ∀ (owner : Resource) container new l, Sees r s owner.toValue →
      owner.field? member = some container → ¬home.Lodger A owner.id →
      Returns (action container (.field owner.id member) (owner.typeName ++ "." ++ member))
        s.ledger (a, new) l → l.Shelters home A) : t.Secludes home A := by
  obtain ⟨owner, container, new, l, seen, held, acted, rfl⟩ := acted_of_change returned
  have away := Value.foreign_resource.1 (h.foreign_of_sees reach seen)
  have foreign : (owner.putField member new).toValue.Foreign home A :=
    Value.foreign_resource.2 away
  rw [replaced_eq_writeAt]
  exact (h.ofLedger (kept owner container new l seen held away acted)).writeAt foreign

/-- The member of a resource was not changed. -/
theorem secludes_of_fails_change (reach : s.OutOfReach A) (h : s.Secludes home A)
    (failed : Fails (change r member action) s e t)
    (kept : ∀ (owner : Resource) container l, ¬home.Lodger A owner.id →
      Fails (action container (.field owner.id member) (owner.typeName ++ "." ++ member))
        s.ledger e l → l.Shelters home A) : t.Secludes home A := by
  rcases outcome_change action s with ⟨e', refused⟩ | ⟨owner, container, seen, held, -, goes⟩
  · obtain ⟨-, rfl⟩ := failed.unique refused
    exact h
  · have away := Value.foreign_resource.1 (h.foreign_of_sees reach seen)
    unfold Fails at failed
    rw [goes] at failed
    rcases fails_bind.1 failed with failed | ⟨_, _, -, failed⟩
    · obtain ⟨l, acted, rfl⟩ := fails_onLedger.1 failed
      exact h.ofLedger (kept owner container l away acted)
    · rcases fails_bind.1 failed with failed | ⟨_, _, -, failed⟩
      · exact (not_fails_modify failed).elim
      · exact (not_fails_pure failed).elim

/-- **Putting an element in** shelters what is not behind it. -/
theorem secludes_insert (reach : s.OutOfReach A) (h : s.Secludes home A)
    (away : ∀ reply u, Returns (Operation.insertMember r member key v).perform s reply u →
      ∀ id ∈ (Operation.insertMember r member key v).shifted s, ¬home.Lodger A id) :
    (outcome (insert r member key v) s).2.Secludes home A := by
  rcases returns_or_fails (insert r member key v) s with ⟨_, t, returned⟩ | ⟨e, t, failed⟩
  · rw [returned]
    have away := away _ t (Reply.returns_ofUnit.2 ⟨returned, rfl⟩)
    obtain ⟨_, u, storable, changed⟩ := returns_bind.1 (returns_guarded.1 returned)
    obtain rfl := (Storage.keeps_ensureStorable (R := Eq)).of_returns storable
    refine secludes_of_change reach h changed fun owner container new l seen held _ acted => ?_
    obtain ⟨new, w, inserted, acted⟩ := returns_bind.1 acted
    obtain ⟨-, rfl⟩ := returns_pure.1 acted
    have shifted : Operation.shifted s (.insertMember r member key v)
        = Elements.behind container key 0 := behind_container? seen held
    rw [shifted] at away
    exact (Elements.keeps_insert lawful_sheltering fun id mem =>
      frees_of_not_lodger (away id mem)).of_returns inserted h.shelters
  · rw [failed]
    obtain ⟨u, inside, rfl⟩ := fails_guarded.1 failed
    refine State.Secludes.note ?_ e
    rcases fails_bind.1 inside with unstorable | ⟨_, w, storable, unchanged⟩
    · rwa [← (Storage.keeps_ensureStorable (R := Eq)).of_fails unstorable]
    · obtain rfl := (Storage.keeps_ensureStorable (R := Eq)).of_returns storable
      refine secludes_of_fails_change reach h unchanged fun owner container l _ acted => ?_
      rcases fails_bind.1 acted with acted | ⟨_, w, -, acted⟩
      · rcases Elements.fails_insert acted with rfl | ⟨spot, unsettled⟩
        · exact h.shelters
        · exact (keeps_settleValue lawful_sheltering).of_fails unsettled h.shelters
      · exact (not_fails_pure acted).elim

/-- **Taking an element out** shelters what is not behind it. -/
theorem secludes_remove (reach : s.OutOfReach A) (h : s.Secludes home A)
    (away : ∀ reply u, Returns (Operation.removeMember r member key).perform s reply u →
      ∀ id ∈ (Operation.removeMember r member key).shifted s, ¬home.Lodger A id) :
    (outcome (remove r member key) s).2.Secludes home A := by
  rcases returns_or_fails (remove r member key) s with ⟨taken, t, returned⟩ | ⟨e, t, failed⟩
  · rw [returned]
    have away := away _ t (returns_bind.2 ⟨taken, t, returned, returns_pure.2 ⟨rfl, rfl⟩⟩)
    refine secludes_of_change reach h (returns_guarded.1 returned)
      fun owner container new l seen held outside removed => ?_
    have shifted : Operation.shifted s (.removeMember r member key)
        = Elements.behind container key 1 := behind_container? seen held
    rw [shifted] at away
    exact (Elements.keeps_remove lawful_sheltering (open_field outside member)
      fun id mem => frees_of_not_lodger (away id mem)).of_returns removed h.shelters
  · rw [failed]
    obtain ⟨u, unchanged, rfl⟩ := fails_guarded.1 failed
    refine State.Secludes.note (secludes_of_fails_change reach h unchanged
      fun owner container l outside acted => ?_) e
    rcases Elements.fails_remove acted with rfl | ⟨w, k, unreleased⟩
    · exact h.shelters
    · have isOpen : Open (home.Frees A) ((Place.field owner.id member).element k) :=
        open_field outside member
      exact (keeps_releaseValue lawful_sheltering isOpen).of_fails unreleased h.shelters

end Members

/-! ## Moves and runs -/

/-- **What a move shifts**, if it returns. -/
def Move.shifted (s : State) : Move → List ResourceId
  | call o =>
    match (outcome o.perform s).1 with
    | .ok _ => o.shifted s
    | .error _ => []
  | _ => []

namespace Move

variable {m : Move}

theorem shifted_of_returns {o : Operation} {reply : Reply} (h : Returns o.perform s reply t) :
    (call o).shifted s = o.shifted s := by
  show (match (outcome o.perform s).1 with | .ok _ => o.shifted s | .error _ => []) = _
  rw [h]

/-- **A move inside a transaction** leaves the account out of reach, if it
borrows nothing of it, -/
theorem outOfReach_next (inside : m.ends = false) (running : s.inTransaction = true)
    (unlent : ∀ target ∈ m.borrowed s, target.address? ≠ some A) (reach : s.OutOfReach A) :
    (m.next s).OutOfReach A :=
  ((isolates_next inside running).spares unlent).outOfReach reach

/-- Lending a target changes nothing that is on record. -/
theorem secludes_of_isBorrow {o : Operation} (borrows : o.isBorrow = true)
    (h : s.Secludes home A) : ((call o).next s).Secludes home A := by
  obtain ⟨action, same, lends⟩ := Operation.lends_of_isBorrow borrows
  show (outcome o.perform s).2.Secludes home A
  rw [same]
  rcases lends.reply s with ⟨failure, returned⟩ | ⟨r, loans, -, -, returned⟩
  · rw [returned]
    exact h
  · rw [returned]
    exact ⟨h.shelters, h.locals, h.stored⟩

theorem secludes_of_isShift {o : Operation} (shifts : o.isShift = true)
    (unshifted : ∀ id ∈ (call o).shifted s, ¬home.Lodger A id) (reach : s.OutOfReach A)
    (h : s.Secludes home A) : ((call o).next s).Secludes home A := by
  cases o with
  | insertMember r member key v =>
    have kept := Members.secludes_insert reach h fun reply u returned =>
      shifted_of_returns returned ▸ unshifted
    rwa [← snd_outcome_report _ fun _ => Reply.done] at kept
  | removeMember r member key =>
    have kept := Members.secludes_remove reach h fun reply u returned =>
      shifted_of_returns returned ▸ unshifted
    rwa [← snd_outcome_report _ Reply.value] at kept
  | _ => cases shifts

/-- and what lies in its storage secluded, if it shifts nothing of it. -/
theorem secludes_next (inside : m.ends = false) (running : s.inTransaction = true)
    (unshifted : ∀ id ∈ m.shifted s, ¬home.Lodger A id) (reach : s.OutOfReach A)
    (h : s.Secludes home A) : (m.next s).Secludes home A := by
  -- the deeds of the other moves, each from where the account is out of reach
  have plain (inner : m.isInner = true)
      (others : ∀ o, m = call o → o.isBorrow = false ∧ o.isShift = false) :
      (m.next s).Secludes home A := by
    have did {o : Operation} (plain : o.isBorrow = false) (still : o.isShift = false) (u w : State)
        (did : o.Does u w) :
        State.Preserves (fun s => s.OutOfReach A ∧ s.Secludes home A) u w := fun ⟨reach, h⟩ =>
      ⟨(State.footprint_spares.of_does (fun asked => by rw [plain] at asked; cases asked)
        did).outOfReach reach, o.secludes_of_does did plain still reach h⟩
    have kept : Keeps (State.Preserves fun s => s.OutOfReach A ∧ s.Secludes home A) m.perform := by
      refine keeps_perform inner (fun o same => did (others o same).1 (others o same).2)
        (fun frame => did rfl rfl) (fun _ _ s ⟨reach, h⟩ => ?_) fun s fault ⟨reach, h⟩ => ?_
      · exact ⟨⟨reach.unsigned, reach.unlent⟩, ⟨h.shelters, h.locals, h.stored⟩⟩
      · exact ⟨(State.spares_note s fault).outOfReach reach, h.note fault⟩
    exact (kept s ⟨reach, h⟩).2
  rcases isInner_or_start inside with inner | ⟨signers, rfl⟩
  · cases m with
    | call o =>
      cases borrows : o.isBorrow with
      | true => exact secludes_of_isBorrow borrows h
      | false =>
        cases shifts : o.isShift with
        | true => exact secludes_of_isShift shifts unshifted reach h
        | false => exact plain inner fun o' same => by cases same; exact ⟨borrows, shifts⟩
    | _ => exact plain inner fun o same => nomatch same
  · rwa [Transactions.next_start running signers]

end Move

/-- **A run inside a transaction** that borrows nothing of the account and
shifts nothing that lies in its storage leaves it secluded. -/
theorem State.secludes_inside {moves : List Move} (running : s.inTransaction = true)
    (inside : ∀ m ∈ moves, m.ends = false)
    (unlent : ∀ target ∈ s.trace Move.borrowed moves, target.address? ≠ some A)
    (unshifted : ∀ id ∈ s.trace Move.shifted moves, ¬home.Lodger A id) (reach : s.OutOfReach A)
    (h : s.Secludes home A) : (s.after moves).Secludes home A := by
  induction moves generalizing s with
  | nil => exact h
  | cons m moves ih =>
    obtain ⟨unlentNow, unlentLater⟩ := List.forall_mem_append.1 unlent
    obtain ⟨unshiftedNow, unshiftedLater⟩ := List.forall_mem_append.1 unshifted
    have first : m.ends = false := inside m List.mem_cons_self
    have still := (Move.continues_next first running).inTransaction running
    exact ih still (fun m' mem => inside m' (List.mem_cons_of_mem _ mem)) unlentLater
      unshiftedLater (Move.outOfReach_next first running unlentNow reach)
      (Move.secludes_next first running unshiftedNow reach h)

/-! ## Loading afterwards -/

namespace Ledger

/-- The roots of a readable value that lies in the account's storage are
there once. -/
theorem Shelters.nodup_rootIds {l : Ledger} {path : Path} (shelters : l.Shelters home A)
    (readable : v.Readable) (found : home.value? A path = some v) : v.rootIds.Nodup :=
  readable.nodup_rootIds fun _ mem =>
    shelters.recorded _ _ ⟨path, v, found, Value.found_of_mem_placings mem⟩

end Ledger

/-- **The account can load the value** in the next transaction that it signs,
as any type that the value has. -/
def State.Yields (s : State) (A : Address) (path : Path) (v : Value) : Prop :=
  ∀ signers expected t, A ∈ signers → Returns (Transactions.start signers) s () t →
    t.registry.isSubtype v.ty expected = true →
      ∃ t', Returns (Storage.load A path expected) t (some v) t'

/-- Records that shelter what lies in the account's storage let the account
load it. -/
theorem Ledger.Shelters.yields {path : Path} (shelters : s.ledger.Shelters home A)
    (readable : v.Readable) (values : path.domain.holdsValues = true)
    (found : home.value? A path = some v) (there : s.store.value? A path = some v) :
    s.Yields A path v := by
  intro signers expected t signed began admits
  obtain ⟨bytes, begins⟩ := Transactions.begins_of_start began
  have held : ∀ e ∈ v.placings (.stored A path), t.ledger.holding? e.1 = some (.owned e.2) :=
    fun e mem => begins.ledger ▸
      shelters.recorded _ _ ⟨path, v, found, Value.found_of_mem_placings mem⟩
  obtain ⟨l, released⟩ :=
    exists_returns_releaseValue (shelters.nodup_rootIds readable found) held
  have may : t.Authorizes A :=
    ⟨_, begins.transaction, fun _ => SortedSet.contains_ofList_iff.2 signed⟩
  have stored : t.store.value? A path = some v := begins.store ▸ there
  have free : t.loans.isBorrowed (.stored A path) = false := by
    rw [begins.loans]
    rfl
  exact ⟨_, Storage.returns_load_some_iff.2 ⟨⟨may, values⟩, stored, admits, free, l, released, rfl⟩⟩

/-! ## Transactions without a signature -/

namespace State.Begins

variable {s1 : State} {signers : List Address} {bytes : Bytes}

/-- An account that does not sign is out of reach when the transaction
begins, -/
theorem outOfReach (begins : s.Begins signers bytes s1)
    (enforced : s.settings.enforceAuthority = true) (unsigned : A ∉ signers) :
    s1.OutOfReach A where
  unsigned := by
    rintro ⟨t, running, signed⟩
    obtain rfl := Option.some.inj (begins.transaction.symm.trans running)
    exact unsigned (SortedSet.contains_ofList_iff.1 (signed (begins.settings ▸ enforced)))
  unlent target mem := by
    rw [begins.loans] at mem
    cases mem

/-- and what lies in its storage is secluded as before. -/
theorem secludes (begins : s.Begins signers bytes s1) (h : s.Secludes home A) :
    s1.Secludes home A where
  shelters := begins.ledger ▸ h.shelters
  locals f opened := by
    rw [begins.stack] at opened
    cases opened
  stored := begins.store ▸ h.stored

end State.Begins

/-- **However a transaction ends**, what lay in the account's storage when it
began is secluded, and still there. -/
theorem State.Secludes.ended {o : Operation} {tx : Transaction} (kept : s.Secludes s.store A)
    (h : t.Secludes s.store A) (same : s.store.SameEntries A t.store)
    (bound : o = .commit ∨ o = .abort) (running : t.transaction = some tx)
    (ordered : t.stack.Ordered) (decodes : Store.ofBytes tx.snapshot = .ok s.store)
    (records : tx.records = s.ledger.records) (grown : s.ledger.Grows t.ledger) :
    ((Move.call o).next t).Secludes s.store A
      ∧ s.store.SameEntries A ((Move.call o).next t).store := by
  rcases Transactions.next_ending bound running ordered decodes with
    ⟨-, -, next⟩ | ⟨u, goes, next⟩
  · rw [next]
    exact ⟨⟨h.shelters.forgetDestroyed, (fun _ opened => nomatch opened), h.stored⟩, same⟩
  · rw [next, records]
    have later : s.ledger.next ≤ u.ledger.next := grown.trans goes.ledger
    exact ⟨⟨kept.shelters.mono later, (fun _ opened => nomatch opened), kept.stored⟩, fun _ => rfl⟩

/-- **An account's resources are secluded.** Let a transaction that the account
did not sign borrow nothing of it and shift nothing that lies in its storage.
Then whatever moves are made in it, every resource that lay in the account's
storage when it began keeps its record, at every point. However it ends, what
lies in the account's storage is secluded again, and the account can load every
value that it stored. -/
theorem records_secluded {s s1 : State} {signers : List Address} {moves : List Move}
    (enforced : s.settings.enforceAuthority = true) (unsigned : A ∉ signers)
    (secludes : s.Secludes s.store A) (began : Returns (Transactions.start signers) s () s1)
    (inside : ∀ m ∈ moves, m.ends = false)
    (unlent : ∀ target ∈ s1.trace Move.borrowed moves, target.address? ≠ some A)
    (unshifted : ∀ id ∈ s1.trace Move.shifted moves, ¬s.store.Lodger A id) :
    (∀ id, s.store.Lodger A id → (s1.after moves).ledger.holding? id = s.ledger.holding? id)
      ∧ (s.store.Readable → s.store.Writable → ∀ o, o = .commit ∨ o = .abort →
        ((Move.call o).next (s1.after moves)).Secludes
            ((Move.call o).next (s1.after moves)).store A
          ∧ ∀ path v, s.store.value? A path = some v → path.domain.holdsValues = true →
            ((Move.call o).next (s1.after moves)).Yields A path v) := by
  obtain ⟨bytes, begins⟩ := Transactions.begins_of_start began
  have after := State.secludes_inside begins.running inside unlent unshifted
    (begins.outOfReach enforced unsigned) (begins.secludes secludes)
  have isolated := (account_isolated enforced unsigned began inside).1.entries unlent
  refine ⟨fun id ⟨place, lodges⟩ => ?_, fun readable writable o bound => ?_⟩
  · rw [after.shelters.recorded id place lodges, secludes.shelters.recorded id place lodges]
  · obtain ⟨t, still, records, decodes⟩ := begins.kept readable writable inside
    have goes := State.continues_inside begins.running inside
    have ordered := goes.ordered (begins.stack ▸ CallStack.Ordered.clear)
    obtain ⟨ended, same⟩ := secludes.ended after isolated bound still ordered decodes records
      (begins.ledger ▸ goes.ledger)
    refine ⟨ended.congr same, fun path v found values => ?_⟩
    refine ended.shelters.yields ?_ values found ((same.value? path).trans found)
    exact Store.forall_entries_iff.1 readable A path _ (Storage.standingAt_of_value? found).2

namespace Scenario

/-- How Bob sees a vault that he has in a local. -/
def vaultView : RefTy := ⟨true, .composite "Vault"⟩

/-- The moves with which Bob makes an empty vault, puts one with that identity
and with a copy of the coin into a local, and borrows it. -/
def disguise (id : ResourceId) : List Move :=
  [.call (.createResource "Vault" []), .call .pushFrame,
    .call (.bind ⟨1⟩ "vault" (.resource id "Vault" [("coins", some (.array [keptCoin.toValue]))])),
    .call .pushFrame, .call (.borrowLocal ⟨1⟩ "vault" vaultView)]

/-- The reference that he gets. -/
def disguised (id : ResourceId) : Reference :=
  ⟨⟨1⟩, .binding ⟨1⟩ "vault", some id, vaultView, ⟨2⟩⟩

/-- Bob's transaction after Alice has saved her vault. -/
def visiting : State := (Move.call (.start [bob])).next deposited

/-- He puts a number behind the copy. -/
def pushBehind : List Move :=
  disguise ⟨3⟩ ++ [.call (.insertMember (disguised ⟨3⟩) "coins" (.uint 1) (.uint 7))]

end Scenario

open Scenario in
theorem records_secluded_behind :
    (visiting.after pushBehind).ledger.holding? ⟨1⟩ = deposited.ledger.holding? ⟨1⟩
      ∧ ((Move.call .commit).next (visiting.after pushBehind)).Yields alice vaultPath
          keptVault.toValue := by
  have o := reachable_deposited.sound.inOrder rfl
  have lodges : deposited.store.Lodges alice ⟨1⟩ ((Place.field ⟨2⟩ "coins").element (.uint 0)) :=
    ⟨vaultPath, keptVault.toValue, rfl,
      .field List.mem_cons_self (.element rfl (.root keptCoin _))⟩
  have began : Returns (Transactions.start [bob]) deposited () visiting := rfl
  have inside : ∀ m ∈ pushBehind, m.ends = false := by decide
  have unlent : ∀ target ∈ visiting.trace Move.borrowed pushBehind,
      target.address? ≠ some alice := by decide +kernel
  have still : visiting.trace Move.shifted pushBehind = [] := by decide +kernel
  have secluded := records_secluded rfl (by decide) (o.backed.secludes alice) began inside unlent
    fun id shifted => nomatch still ▸ shifted
  exact ⟨secluded.1 _ ⟨_, lodges⟩,
    (secluded.2 o.store.readable writable_deposited .commit (.inl rfl)).2 _ _ rfl rfl⟩

namespace Scenario

/-- Alice has a coin in her storage. -/
def spendable : State :=
  (State.fresh Settings.standard registry).after
    [.call (.start [alice]), .call makeCoin, .call (.save alice spendingPath keptCoin.toValue),
      .call .commit]

/-- Bob's transaction after that. -/
def trespassing : State := (Move.call (.start [bob])).next spendable

/-- He puts a number in front of the copy. -/
def pushAhead : List Move :=
  disguise ⟨2⟩ ++ [.call (.insertMember (disguised ⟨2⟩) "coins" (.uint 0) (.uint 7))]

/-- He takes the coin out, destroys the vault and saves the coin. -/
def carryOff : List Move :=
  [.call (.removeMember (disguised ⟨2⟩) "coins" (.uint 1)), .call (.popFrame ⟨2⟩),
    .call (.take ⟨1⟩ "vault"), .call (.popFrame ⟨1⟩),
    .call (.destroy (.resource ⟨2⟩ "Vault" [("coins", some (.array [.uint 7]))])),
    .call (.save bob spendingPath keptCoin.toValue)]

end Scenario

set_option maxRecDepth 4000 in
open Scenario in
/-- **An element that is put in front of a copy takes the record away**: the
ledger has the coin in Bob's vault then. He can take it out there and save it,
and Alice can no longer load it. -/
theorem record_moved_forged :
    spendable.settings.enforceAuthority = true ∧ alice ∉ [bob]
      ∧ spendable.store.Lodges alice ⟨1⟩ (.stored alice spendingPath)
      ∧ spendable.ledger.holding? ⟨1⟩ = some (.owned (.stored alice spendingPath))
      ∧ Returns (Transactions.start [bob]) spendable () trespassing
      ∧ (∀ target ∈ trespassing.trace Move.borrowed (pushAhead ++ carryOff),
        target.address? ≠ some alice)
      ∧ (trespassing.after pushAhead).ledger.holding? ⟨1⟩
        = some (.owned ((Place.field ⟨2⟩ "coins").element (.uint 1)))
      ∧ ∃ s', Returns Transactions.commit (trespassing.after (pushAhead ++ carryOff)) () s'
        ∧ s'.ledger.holding? ⟨1⟩ = some (.owned (.stored bob spendingPath))
        ∧ ¬s'.Yields alice spendingPath keptCoin.toValue := by
  have there : spendable.store.Lodges alice ⟨1⟩ (.stored alice spendingPath) :=
    ⟨spendingPath, keptCoin.toValue, rfl, .root keptCoin _⟩
  refine ⟨rfl, by decide, there, by decide +kernel, rfl, by decide +kernel, by decide +kernel,
    (Move.call .commit).next (trespassing.after (pushAhead ++ carryOff)), rfl, by decide +kernel,
    fun yields => ?_⟩
  obtain ⟨t, loaded⟩ := yields [alice] (.composite "Coin") _ List.mem_cons_self rfl rfl
  exact loaded.not_fails rfl

end Custody
