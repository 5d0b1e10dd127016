import Custody.Proofs.Contents
import Custody.Proofs.Failures

/-!
# Calls that happen whole or not at all

What is done before a failure stays done. Most calls have done nothing by then:
they look first, and what they do afterwards cannot fail. That they look
enough is not obvious where a value has many roots, since its resources are
settled or released one by one: a value made up by a host may name a resource
twice, and the second entry would be refused after the first was made.
Settling looks for this (`Ledger.settleValue`). Releasing does not, but what it
releases is read from storage or from a local, where a value has its parts
under different keys, and so every resource a place of its own.

Other calls are made of several steps, each of which may fail after the one
before: making a resource, closing a frame, passing a local and tearing down.

That the values in a state have their parts under different keys is taken here
as it is; `Custody.Proofs.Legibility` says why every state of a run is so.
-/

namespace Custody

open CustodyM

/-! ## All or nothing -/

section Actions

variable {ε σ α β : Type} {m : ExceptT ε (StateM σ) α} {k : α → ExceptT ε (StateM σ) β} {s : σ}

/-- **The action cannot fail.** -/
def Unfailing (m : ExceptT ε (StateM σ) α) : Prop := ∀ s e t, ¬Fails m s e t

/-- **From this state the action happens whole or not at all**: if it fails,
nothing has changed. -/
def AllOrNothing (m : ExceptT ε (StateM σ) α) (s : σ) : Prop := ∀ e t, Fails m s e t → t = s

namespace Unfailing

theorem pure {a : α} : Unfailing (pure a : ExceptT ε (StateM σ) α) :=
  fun _ _ _ => not_fails_pure

theorem modify {f : σ → σ} : Unfailing (modify f : ExceptT ε (StateM σ) PUnit) :=
  fun _ _ _ => not_fails_modify

/-- A sequence of what cannot fail cannot fail. -/
theorem bind (hm : Unfailing m) (hk : ∀ a, Unfailing (k a)) : Unfailing (m >>= k) := by
  intro s e t h
  rcases fails_bind.1 h with h | ⟨a, u, -, h⟩
  · exact hm s e t h
  · exact hk a u e t h

end Unfailing

namespace AllOrNothing

/-- What cannot fail happens whole. -/
theorem of_unfailing (h : Unfailing m) : AllOrNothing m s := fun e t failed => (h s e t failed).elim

/-- What only looks has changed nothing when it fails. -/
theorem of_reads (h : Keeps Eq m) : AllOrNothing m s := fun _ _ failed => (h.of_fails failed).symm

/-- First look, then act on what was seen. -/
theorem reads_bind (hm : Keeps Eq m) (hk : ∀ a, Returns m s a s → AllOrNothing (k a) s) :
    AllOrNothing (m >>= k) s := by
  intro e t h
  rcases fails_bind.1 h with h | ⟨a, u, returned, h⟩
  · exact (hm.of_fails h).symm
  · obtain rfl := hm.of_returns returned
    exact hk a returned e t h

/-- Act, and then do what cannot fail. -/
theorem bind_unfailing (hm : AllOrNothing m s) (hk : ∀ a, Unfailing (k a)) :
    AllOrNothing (m >>= k) s := by
  intro e t h
  rcases fails_bind.1 h with h | ⟨a, u, -, h⟩
  · exact hm e t h
  · exact (hk a u e t h).elim

/-- A choice happens whole or not at all if the branch that is taken does. -/
theorem ite {c : Prop} [Decidable c] {n : ExceptT ε (StateM σ) α} (hm : c → AllOrNothing m s)
    (hn : ¬c → AllOrNothing n s) : AllOrNothing (if c then m else n) s := by
  split
  next h => exact hm h
  next h => exact hn h

end AllOrNothing

end Actions

/-- What happens whole or not at all on the ledger does so on the state. -/
theorem AllOrNothing.onLedger {α : Type} {action : LedgerM α} {s : State}
    (h : AllOrNothing action s.ledger) : AllOrNothing (onLedger action) s := by
  intro e t failed
  obtain ⟨l, hl, rfl⟩ := fails_onLedger.1 failed
  rw [h e l hl]

/-! ## The ledger -/

namespace Ledger

variable {v : Value} {place : Place} {l : Ledger}

/-- **A value settles whole or not at all**, whatever its roots are. -/
theorem allOrNothing_settleValue : AllOrNothing (settleValue v place) l := by
  refine AllOrNothing.reads_bind keeps_expectDistinct fun _ checked e t failed => ?_
  obtain ⟨⟨afloat, distinct, -⟩, -⟩ := returns_expectDistinct.1 checked
  obtain ⟨l', settled⟩ := exists_returns_settles distinct afloat
  exact (settled.not_fails failed).elim

/-- A single release looks at the record before it writes it. -/
theorem allOrNothing_release {id : ResourceId} : AllOrNothing (release id place) l := by
  refine AllOrNothing.reads_bind Keeps.get fun l _ => ?_
  split
  · split
    · exact .of_unfailing Unfailing.modify
    · exact .of_reads Keeps.throw
  all_goals exact .of_reads Keeps.throw

/-- The check that all are held has recorded nothing when it fails. -/
theorem allOrNothing_expectHeld {placings : List (ResourceId × Place)} :
    AllOrNothing (expectHeld placings) l := by
  induction placings with
  | nil => exact .of_reads Keeps.pure
  | cons p placings ih =>
    refine AllOrNothing.reads_bind Keeps.get fun _ _ => ?_
    split
    · exact ih
    · exact allOrNothing_release

/-- **A readable value is released whole or not at all.** -/
theorem allOrNothing_releaseValue (readable : v.Readable) :
    AllOrNothing (releaseValue v place) l := by
  intro e t failed
  rcases fails_bind.1 failed with unheld | ⟨_, u, checked, failed⟩
  · exact allOrNothing_expectHeld e t unheld
  · obtain ⟨held, rfl⟩ := returns_expectHeld.1 checked
    obtain ⟨l', released⟩ := exists_returns_releaseValue (readable.nodup_rootIds held) held
    exact (released.not_fails (fails_bind.2 (.inr ⟨(), l, checked, failed⟩))).elim

end Ledger

/-! ## Elements and fields -/

namespace Elements

variable {container v : Value} {place : Place} {name field : String} {key : Key} {r : Resource}
  {l : Ledger}

/-- Elements that shift are recorded anew without a look. -/
theorem unfailing_relocateFrom {start : Nat} {elements : List Value} :
    Unfailing (relocateFrom place start elements) := Unfailing.modify

/-- **An element comes in whole or not at all**: it settles first, and the rest
cannot fail. -/
theorem allOrNothing_insert : AllOrNothing (insert container place name key v) l := by
  unfold insert
  split
  · split
    · exact Ledger.allOrNothing_settleValue.bind_unfailing fun _ =>
        unfailing_relocateFrom.bind fun _ => Unfailing.pure
    · exact .of_reads Keeps.throw
  · split
    · exact .of_reads Keeps.throw
    · exact Ledger.allOrNothing_settleValue.bind_unfailing fun _ => Unfailing.pure
  · exact .of_reads Keeps.throw

/-- So does one that comes last. -/
theorem allOrNothing_push : AllOrNothing (push container place name v) l := by
  unfold push
  split
  · exact Ledger.allOrNothing_settleValue.bind_unfailing fun _ => Unfailing.pure
  · exact .of_reads Keeps.throw

/-- **An element goes out whole or not at all**: in a readable container it is
readable, so it is released as a whole. -/
theorem allOrNothing_remove (readable : container.Readable) :
    AllOrNothing (remove container place name key) l := by
  unfold remove
  split
  · split
    · split
      next v found =>
        have part : v.Readable := readable.inside v (List.mem_of_getElem? found)
        exact (Ledger.allOrNothing_releaseValue part).bind_unfailing fun _ =>
          unfailing_relocateFrom.bind fun _ => Unfailing.pure
      · exact .of_reads Keeps.pure
    · exact .of_reads Keeps.pure
  · split
    next v found =>
      have part : v.Readable :=
        (Value.Everywhere.dict_iff.1 readable).2 _ (Table.mem_of_get?_eq_some found)
      exact (Ledger.allOrNothing_releaseValue part).bind_unfailing fun _ => Unfailing.pure
    · exact .of_reads Keeps.pure
  · exact .of_reads Keeps.throw

/-- A field is taken out whole or not at all, likewise. -/
theorem allOrNothing_takeField (readable : r.toValue.Readable) :
    AllOrNothing (takeField r name field) l := by
  unfold takeField
  refine AllOrNothing.ite (fun _ => ?_) fun _ => .of_reads Keeps.throw
  split
  next v found =>
    have part : v.Readable := Resource.everywhere_field? readable found
    exact (Ledger.allOrNothing_releaseValue part).bind_unfailing fun _ => Unfailing.pure
  · exact .of_reads Keeps.throw

/-- A field is filled whole or not at all. -/
theorem allOrNothing_putField : AllOrNothing (putField r name field v) l := by
  unfold putField
  refine AllOrNothing.ite (fun _ => ?_) fun _ => .of_reads Keeps.throw
  split
  · exact .of_reads Keeps.throw
  · exact Ledger.allOrNothing_settleValue.bind_unfailing fun _ => Unfailing.pure

end Elements

/-! ## Calls -/

/-- **What is stored and bound is readable**, as the values of a host are: the
keys of a dictionary and the names of fields are all different. -/
structure State.Readable (s : State) : Prop where
  /-- Every stored value is readable, -/
  store : s.store.Readable
  /-- and so is every local that can be reached. -/
  locals : ∀ frame name v, s.stack.value frame name = .ok v → v.Readable

/-- What is stored in a readable state is readable, -/
theorem State.Readable.value? {s : State} (readable : s.Readable) {address : Address} {path : Path}
    {v : Value} (found : s.store.value? address path = some v) : v.Readable :=
  readable.store (address, path, .value v)
    (Store.mem_entries_iff.2 (Storage.standingAt_of_value? found).2)

/-- and so is what any target points at. -/
theorem State.Readable.targetValue? {s : State} (readable : s.Readable) {target : Target}
    {v : Value} (found : Members.targetValue? s target = some v) : v.Readable := by
  cases target with
  | stored address path => exact readable.value? found
  | binding frame name =>
    replace found : (s.stack.value frame name).toOption = some v := found
    refine readable.locals frame name v ?_
    cases bound : s.stack.value frame name with
    | error e =>
      rw [bound] at found
      cases found
    | ok w =>
      rw [bound] at found
      exact congrArg _ (Option.some.inj found)

/-- **A failure leaves no more than its mark.** -/
def Contained {α : Type} (m : CustodyM α) (s : State) : Prop :=
  ∀ e t, Fails m s e t → t = s.note e

namespace Contained

variable {α β : Type} {m : CustodyM α} {s : State}

/-- Under a guard, a failure that has changed nothing leaves its mark. -/
theorem guarded (h : AllOrNothing m s) : Contained (guarded m) s := by
  intro e t failed
  obtain ⟨u, hu, rfl⟩ := fails_guarded.1 failed
  rw [h e u hu]

/-- A call that only looks leaves no more than its mark. -/
theorem of_looks (h : Looks m) : Contained m s := by
  obtain ⟨body, rfl, reads⟩ := h
  exact guarded (.of_reads reads)

/-- Reporting the result cannot fail. -/
theorem report (h : Contained m s) (f : α → β) : Contained (m >>= fun a => pure (f a)) s := by
  intro e t failed
  rcases fails_bind.1 failed with failed | ⟨a, u, -, failed⟩
  · exact h e t failed
  · exact (not_fails_pure failed).elim

end Contained

variable {s : State}

/-- A frame is opened by one write. -/
theorem Frames.contained_push : Contained push s :=
  .guarded <| .reads_bind keeps_requireTransaction fun _ _ => .reads_bind Keeps.get fun _ _ =>
    .reads_bind Keeps.ofExcept fun _ _ =>
      .of_unfailing (Unfailing.modify.bind fun _ => Unfailing.pure)

namespace Locals

variable {frame : FrameId} {name field : String} {key : Key} {v : Value}

/-- Writing a local cannot fail. -/
theorem unfailing_set {b : Binding} : Unfailing (set frame name b) := Unfailing.modify

/-- **Binding** settles the value and then writes the local. -/
theorem contained_bind : Contained (bind frame name v) s :=
  .guarded <| .reads_bind keeps_requireTransaction fun _ _ =>
    .reads_bind keeps_ensureNotBorrowed fun _ _ => .reads_bind keeps_ensureOverwritable fun _ _ =>
      Ledger.allOrNothing_settleValue.onLedger.bind_unfailing fun _ => unfailing_set

/-- **Taking** releases the value and then writes the local. What is bound is
readable. -/
theorem contained_take (readable : s.Readable) : Contained (take frame name) s := by
  refine .guarded <| .reads_bind keeps_requireTransaction fun _ _ =>
    .reads_bind Keeps.get fun _ look => .reads_bind Keeps.ofExcept fun v bound =>
      .ite (fun _ => ?_) fun _ => .of_reads keeps_ofValueFault
  obtain ⟨rfl, -⟩ := returns_get.1 look
  have part : v.Readable := readable.locals frame name v (returns_ofExcept.1 bound).1
  exact .reads_bind keeps_ensureNotBorrowed fun _ _ =>
    (Ledger.allOrNothing_releaseValue part).onLedger.bind_unfailing fun _ =>
      unfailing_set.bind fun _ => Unfailing.pure

/-- A change of a container in a local is one of its elements, and then a write.
-/
theorem contained_change {α : Type} {action : Value → LedgerM (α × Value)}
    (h : ∀ v, s.stack.value frame name = .ok v → AllOrNothing (action v) s.ledger) :
    Contained (change frame name action) s := by
  refine .guarded <| .reads_bind keeps_requireTransaction fun _ _ =>
    .reads_bind keeps_ensureNotBorrowed fun _ _ => .reads_bind Keeps.get fun _ look =>
      .reads_bind Keeps.ofExcept fun v bound => ?_
  obtain ⟨rfl, -⟩ := returns_get.1 look
  exact (h v (returns_ofExcept.1 bound).1).onLedger.bind_unfailing fun _ =>
    unfailing_set.bind fun _ => Unfailing.pure

theorem contained_insert : Contained (insert frame name key v) s :=
  contained_change fun _ _ => Elements.allOrNothing_insert.bind_unfailing fun _ => Unfailing.pure

theorem contained_push : Contained (push frame name v) s :=
  contained_change fun _ _ => Elements.allOrNothing_push.bind_unfailing fun _ => Unfailing.pure

theorem contained_remove (readable : s.Readable) : Contained (remove frame name key) s :=
  contained_change fun v bound => Elements.allOrNothing_remove (readable.locals frame name v bound)

/-- So is a change of a resource in a local. -/
theorem contained_changeResource {α : Type} {action : Resource → LedgerM (α × Resource)}
    (h : ∀ r : Resource, s.stack.value frame name = .ok r.toValue →
      AllOrNothing (action r) s.ledger) :
    Contained (changeResource frame name action) s := by
  refine contained_change fun v bound => ?_
  split
  next r found =>
    rw [← Value.toValue_of_resource? found] at bound
    exact (h r bound).bind_unfailing fun _ => Unfailing.pure
  · exact .of_reads Keeps.throw

theorem contained_takeField (readable : s.Readable) : Contained (takeField frame name field) s :=
  contained_changeResource fun r bound =>
    Elements.allOrNothing_takeField (readable.locals frame name r.toValue bound)

theorem contained_putField : Contained (putField frame name field v) s :=
  contained_changeResource fun _ _ =>
    Elements.allOrNothing_putField.bind_unfailing fun _ => Unfailing.pure

end Locals

namespace Storage

variable {address : Address} {path : Path} {v : Value} {expected : Ty}

/-- **Saving** settles the value and then writes the slot. -/
theorem contained_save : Contained (save address path v) s :=
  .guarded <| .reads_bind keeps_checkPath fun _ _ => .reads_bind keeps_ensureStorable fun _ _ =>
    .reads_bind Keeps.get fun _ _ => .ite (fun _ => .of_reads Keeps.throw) fun _ =>
      Ledger.allOrNothing_settleValue.onLedger.bind_unfailing fun _ => Unfailing.modify

/-- **Loading** releases the value and then empties the slot. What is stored is
readable. -/
theorem contained_load (readable : s.Readable) : Contained (load address path expected) s := by
  refine .guarded <| .reads_bind keeps_checkPath fun _ _ => .reads_bind Keeps.get fun _ look => ?_
  obtain ⟨rfl, -⟩ := returns_get.1 look
  split
  · exact .of_reads Keeps.pure
  next v found =>
    exact .reads_bind keeps_checkTy fun _ _ => .reads_bind keeps_ensureNotBorrowed fun _ _ =>
      (Ledger.allOrNothing_releaseValue (readable.value? found)).onLedger.bind_unfailing fun _ =>
        Unfailing.modify.bind fun _ => Unfailing.pure

end Storage

namespace Links

variable {address : Address} {source target path : Path} {promise : RefTy}

/-- A link is added by one write, -/
theorem contained_add : Contained (add address source target promise) s :=
  .guarded <| .reads_bind keeps_checkPath fun _ _ => .reads_bind Keeps.get fun _ _ =>
    .ite (fun _ => .of_reads Keeps.pure) fun _ =>
      .of_unfailing (Unfailing.modify.bind fun _ => Unfailing.pure)

/-- and removed by one. -/
theorem contained_remove : Contained (remove address path) s :=
  .guarded <| .reads_bind keeps_checkPath fun _ _ => .reads_bind Keeps.get fun _ _ =>
    .ite (fun _ => .of_unfailing Unfailing.modify) fun _ => .of_reads Keeps.pure

end Links

namespace Members

variable {r : Reference} {member : String} {key : Key} {v : Value}

/-- Replacing the value at a target cannot fail. -/
theorem unfailing_replace {target : Target} : Unfailing (replace target v) := Unfailing.modify

/-- Setting a member changes the owner first, and then writes it back. -/
theorem contained_set : Contained (set r member v) s := by
  refine .guarded <| .reads_bind keeps_checkAccess fun _ _ =>
    .reads_bind Storage.keeps_ensureStorable fun _ _ => .reads_bind keeps_value fun _ _ => ?_
  split
  · exact Elements.allOrNothing_putField.onLedger.bind_unfailing fun _ => unfailing_replace
  · refine .ite (fun _ => .of_reads Keeps.throw) fun _ => ?_
    exact .reads_bind keeps_ofValueFault fun _ _ => .of_unfailing unfailing_replace
  · exact .of_reads Keeps.throw

/-- A change of a member is one of its elements, and then a write. -/
theorem allOrNothing_change {α : Type} {action : Value → Place → String → LedgerM (α × Value)}
    (h : ∀ v place name, v.Readable → AllOrNothing (action v place name) s.ledger)
    (readable : s.Readable) : AllOrNothing (change r member action) s := by
  refine .reads_bind keeps_checkAccess fun _ _ => .reads_bind keeps_value fun v found => ?_
  split
  · exact .of_reads Keeps.throw
  next owner same =>
    refine .ite (fun _ => .of_reads Keeps.throw) fun _ => ?_
    split
    · exact .of_reads Keeps.throw
    next container inside =>
      have whole : owner.toValue.Readable :=
        Value.toValue_of_resource? same ▸ readable.targetValue? (returns_value found).1
      exact (h _ _ _ (Resource.everywhere_field? whole inside)).onLedger.bind_unfailing fun _ =>
        unfailing_replace.bind fun _ => Unfailing.pure

theorem contained_insert (readable : s.Readable) : Contained (insert r member key v) s :=
  .guarded <| .reads_bind Storage.keeps_ensureStorable fun _ _ => allOrNothing_change
    (fun _ _ _ _ => Elements.allOrNothing_insert.bind_unfailing fun _ => Unfailing.pure) readable

theorem contained_push (readable : s.Readable) : Contained (push r member v) s :=
  .guarded <| .reads_bind Storage.keeps_ensureStorable fun _ _ => allOrNothing_change
    (fun _ _ _ _ => Elements.allOrNothing_push.bind_unfailing fun _ => Unfailing.pure) readable

theorem contained_remove (readable : s.Readable) : Contained (remove r member key) s :=
  .guarded <| allOrNothing_change (fun _ _ _ whole => Elements.allOrNothing_remove whole) readable

end Members

/-- Looking at the state cannot fail. -/
theorem contained_look {α : Type} {f : State → α} : Contained (do return f (← get)) s :=
  fun _ _ failed => (not_fails_pure ((fails_get_bind (k := fun s => pure (f s))).1 failed)).elim

namespace Operation

/-- **Whether the call happens whole or not at all.** Ending a transaction,
making a resource, closing a frame, passing a local and tearing down are made
of several steps. -/
def isIndivisible : Operation → Bool
  | commit | abort => false
  | createResource _ _ => false
  | popFrame _ => false
  | pass _ _ _ _ | assign _ _ _ => false
  | destroy _ | destroyWith _ _ => false
  | _ => true

/-- **A call that is indivisible** leaves no more than a mark when it fails. -/
theorem contained {o : Operation} (whole : o.isIndivisible = true) (inner : o.isBound = false)
    (readable : s.Readable) : Contained o.perform s := by
  have borrows (asked : o.isBorrow = true) : Contained o.perform s := by
    obtain ⟨action, same, lends⟩ := lends_of_isBorrow asked
    intro e t failed
    rw [same] at failed
    rcases lends.reply s with ⟨failure, returned⟩ | ⟨r, loans, -, -, returned⟩
    · exact (returned.not_fails failed).elim
    · exact (returned.not_fails failed).elim
  cases o with
  | start | commit | abort => cases inner
  | createResource | popFrame | pass | assign | destroy | destroyWith => cases whole
  | createStruct => exact (Contained.of_looks Construction.looks_createStruct).report _
  | pushFrame => exact Frames.contained_push.report _
  | bind => exact Locals.contained_bind.report _
  | take => exact (Locals.contained_take readable).report _
  | readLocal => exact (Contained.of_looks Locals.looks_read).report _
  | copyLocal => exact (Contained.of_looks Locals.looks_copy).report _
  | insert => exact Locals.contained_insert.report _
  | push => exact Locals.contained_push.report _
  | remove => exact (Locals.contained_remove readable).report _
  | takeField => exact (Locals.contained_takeField readable).report _
  | putField => exact Locals.contained_putField.report _
  | save => exact Storage.contained_save.report _
  | load => exact (Storage.contained_load readable).report _
  | copyStored => exact (Contained.of_looks Storage.looks_copy).report _
  | typeAt => exact (Contained.of_looks Storage.looks_typeAt).report _
  | storedPaths => exact (Contained.of_looks Storage.looks_paths).report _
  | link => exact Links.contained_add.report _
  | unlink => exact Links.contained_remove.report _
  | capability => exact (Contained.of_looks Links.looks_capability).report _
  | linkTarget => exact (Contained.of_looks Links.looks_target).report _
  | checkCapability => exact contained_look
  | borrow | borrowStored | borrowLocal => exact borrows rfl
  | isLive => exact contained_look
  | readMember => exact (Contained.of_looks Members.looks_read).report _
  | setMember => exact Members.contained_set.report _
  | insertMember => exact (Members.contained_insert readable).report _
  | pushMember => exact (Members.contained_push readable).report _
  | removeMember => exact (Members.contained_remove readable).report _

/-- Only a borrow is refused, and it leaves everything as it was. -/
theorem same_of_refused {o : Operation} {failure : BorrowFailure} {t : State}
    (refused : Returns o.perform s (.refused failure) t) : t = s := by
  have borrows (asked : o.isBorrow = true) : t = s := by
    obtain ⟨action, same, lends⟩ := lends_of_isBorrow asked
    rw [same] at refused
    rcases lends.reply s with ⟨failure', returned⟩ | ⟨r, loans, -, -, returned⟩
    · exact (refused.unique returned).2
    · cases (refused.unique returned).1
  cases o with
  | borrow | borrowStored | borrowLocal => exact borrows rfl
  | _ =>
    obtain ⟨_, _, -, reported⟩ := returns_bind.1 refused
    cases (returns_pure.1 reported).1

end Operation

/-! ## The mark -/

/-- The state with its transaction marked by a fault. -/
def State.marked (s : State) (fault : Fault) : State :=
  { s with transaction := s.transaction.map fun t => { t with poison := some fault.message } }

/-- **A fault is noted** when it is fatal, a transaction is running, and no
fault marked it before. -/
theorem State.note_eq (s : State) (fault : Fault) :
    s.note fault =
      if s.inTransaction && !s.isPoisoned && fault.isFatal then s.marked fault else s := by
  obtain ⟨settings, registry, store, ledger, stack, loans, transaction⟩ := s
  unfold note inTransaction isPoisoned marked Transaction.isPoisoned
  cases fault.isFatal with
  | false => simp
  | true =>
    rcases transaction with _ | ⟨signers, snapshot, records, _ | poison⟩
    · rfl
    · rfl
    · rfl

/-- **A failed call leaves the custodian as it was.** Whatever the state, and
whatever is handed over, a call that is indivisible and fails has changed
nothing but the mark of the transaction: a fatal fault sets it, unless it is
set already, and unless the fault is that of beginning a transaction. A borrow
that is refused has changed nothing at all.

What is stored and bound is readable in every state of a run
(`State.readable_after`), so no run leads to a state in which such a call does
otherwise (`Operation.contained_after`). -/
theorem failed_call_unchanged {s : State} (readable : s.Readable) (o : Operation)
    (whole : o.isIndivisible = true) (t : State) :
    (∀ fault, Fails o.perform s fault t →
        t = if s.inTransaction && !s.isPoisoned && fault.isFatal && !o.isBound then s.marked fault
          else s)
      ∧ ∀ failure, Returns o.perform s (.refused failure) t → t = s := by
  refine ⟨fun fault failed => ?_, fun failure => Operation.same_of_refused⟩
  cases bound : o.isBound with
  | false =>
    rw [Operation.contained whole bound readable fault t failed, State.note_eq, Bool.not_false,
      Bool.and_true]
  | true =>
    rw [Bool.not_true, Bool.and_false, if_neg Bool.false_ne_true]
    cases o with
    | start signers => exact Transactions.fails_start (Reply.fails_ofUnit.1 failed)
    | commit | abort => cases whole
    | _ => cases bound

namespace Scenario

/-- Alice has made a coin and opened a frame. -/
def paying : State := begun.after [.call makeCoin, .call .pushFrame]

/-- The coin, twice. -/
def doubled : Value := .array [keptCoin.toValue, keptCoin.toValue]

/-- Binds it to a local. -/
def bindDoubled : Operation := .bind ⟨1⟩ "coins" doubled

/-- What the ledger says to this. -/
def boundAlready : Fault := .alreadyOwned ⟨1⟩ ((Locals.place ⟨1⟩ "coins").element (.uint 1))

/-- Nothing is stored, and no local is bound. -/
theorem readable_paying : paying.Readable where
  store := fun _ mem => nomatch mem
  locals frame name v bound := by
    obtain ⟨f, opened, live⟩ := CallStack.value_eq_ok bound
    obtain rfl := List.mem_singleton.1 (List.mem_of_find?_eq_some (CallStack.frame_eq_ok opened))
    cases live

end Scenario

/-- The coin cannot be bound twice at once, and the first of the two is not
settled when the second is refused. -/
theorem failed_call_unchanged_doubled :
    Fails Scenario.bindDoubled.perform Scenario.paying Scenario.boundAlready
      (Scenario.paying.marked Scenario.boundAlready) := by
  have failed : Fails Scenario.bindDoubled.perform Scenario.paying Scenario.boundAlready
      (Scenario.paying.after [.call Scenario.bindDoubled]) := rfl
  have same : Scenario.paying.after [.call Scenario.bindDoubled]
      = Scenario.paying.marked Scenario.boundAlready :=
    (failed_call_unchanged Scenario.readable_paying Scenario.bindDoubled rfl _).1 _ failed
  rwa [same] at failed

end Custody
