import Custody.Proofs.Atomicity

/-!
# What a failed operation leaves behind

Inside a transaction an operation that fails either **dooms** the transaction
or has left everything as it was (`Sparing`). The reason is in the order in
which operations do things: what may fail with a fault that is not fatal
comes first and only looks, and what comes after the first change fails
fatally or not at all.

Passing a local is two operations. When the second of them fails, the first
stays done, and the value is gone from the local and in no other place.
-/

namespace Custody

open CustodyM

variable {α β : Type} {s t : State} {e : Fault}

/-- **A failure dooms the running transaction or leaves the state alone.** -/
def Sparing (m : CustodyM α) : Prop :=
  ∀ s e t, s.inTransaction = true → Fails m s e t → t.isPoisoned = true ∨ t = s

/-- A fatal fault marks a running transaction. -/
theorem State.isPoisoned_note (running : (s.note e).inTransaction = true)
    (fatal : e.isFatal = true) : (s.note e).isPoisoned = true := by
  unfold note at *
  rw [if_pos fatal] at *
  unfold inTransaction isPoisoned at *
  rcases h : s.transaction with _ | tx
  · simp [h] at running
  · simp [Transaction.isPoisoned]

/-- A running transaction goes on running. -/
theorem State.Continues.inTransaction (h : s.Continues t) (running : s.inTransaction = true) :
    t.inTransaction = true := by
  obtain ⟨tx, htx⟩ := Option.isSome_iff_exists.1 running
  obtain ⟨tx', htx', -⟩ := h.running tx htx
  exact Option.isSome_iff_exists.2 ⟨tx', htx'⟩

/-- A mark stays while the transaction goes on. -/
theorem State.Continues.isPoisoned (h : s.Continues t) (doomed : s.isPoisoned = true) :
    t.isPoisoned = true := by
  unfold State.isPoisoned at *
  rcases htx : s.transaction with _ | tx
  · simp [htx] at doomed
  · obtain ⟨tx', htx', same⟩ := h.running tx htx
    rw [htx] at doomed
    rw [htx']
    exact same.poison doomed

/-- Where there is no mark there was none before. -/
theorem State.Continues.clean (h : s.Continues t) (clean : t.isPoisoned = false) :
    s.isPoisoned = false := by
  by_contra doomed
  rw [h.isPoisoned (by simpa using doomed)] at clean
  cases clean

namespace Sparing

/-- **A guarded operation that recovers is sparing.** -/
theorem recovering {m : CustodyM α} (goes : Continuing (guarded m))
    (careful : Careful (CustodyM.guarded m)) : Sparing (CustodyM.guarded m) := by
  intro s e t running failed
  cases fatal : e.isFatal with
  | true =>
    have still : t.inTransaction = true := (goes.of_fails failed).inTransaction running
    obtain ⟨u, -, rfl⟩ := fails_guarded.1 failed
    exact .inl (State.isPoisoned_note still fatal)
  | false => exact .inr (careful s e t failed fatal)

/-- An action that recovers inside its guard is sparing: the guard only adds the
mark. -/
theorem guarded {m : CustodyM α} (goes : Continuing (guarded m)) (careful : Careful m) :
    Sparing (guarded m) :=
  recovering goes careful.guarded

/-- What leaves the state alone when it fails is sparing. -/
theorem of_reads {m : CustodyM α} (h : Keeps Eq m) : Sparing m :=
  fun _ _ _ _ failed => .inr (h.of_fails failed).symm

/-- Reporting the result cannot fail. -/
theorem report {m : CustodyM α} (h : Sparing m) (f : α → β) :
    Sparing (m >>= fun a => pure (f a)) := by
  intro s e t running failed
  rcases fails_bind.1 failed with failed | ⟨a, u, -, failed⟩
  · exact h s e t running failed
  · exact (not_fails_pure failed).elim

end Sparing

/-- **Every failure dooms the running transaction.** -/
def Dooming (m : CustodyM α) : Prop :=
  ∀ s e t, s.inTransaction = true → Fails m s e t → t.isPoisoned = true

namespace Dooming

/-- Under a guard every fatal fault marks the transaction. -/
theorem guarded {m : CustodyM α} (goes : Continuing (guarded m)) (firm : Firm m) :
    Dooming (guarded m) := by
  intro s e t running failed
  have still : t.inTransaction = true := (goes.of_fails failed).inTransaction running
  obtain ⟨u, hu, rfl⟩ := fails_guarded.1 failed
  exact State.isPoisoned_note still (firm s e u hu)

/-- Dooming is one way of being sparing. -/
theorem sparing {m : CustodyM α} (h : Dooming m) : Sparing m :=
  fun s e t running failed => .inl (h s e t running failed)

end Dooming

/-! ## Operations that only look -/

/-- **The operation only looks**: all it can change is the mark of the
transaction, when it fails. -/
def Looks (m : CustodyM α) : Prop := ∃ body, m = guarded body ∧ Keeps Eq body

namespace Looks

variable {m : CustodyM α}

/-- An action that only looks leaves the state as it was when it returns. -/
theorem of_returns {a : α} (h : Looks m) (returned : Returns m s a t) : s = t := by
  obtain ⟨body, rfl, reads⟩ := h
  exact reads.of_returns (returns_guarded.1 returned)

/-- An action that only looks is sparing, since no failure has changed anything.
-/
theorem sparing (h : Looks m) (goes : Continuing m) : Sparing m := by
  obtain ⟨body, rfl, reads⟩ := h
  exact Sparing.guarded goes (Careful.of_reads reads)

end Looks

/-- Making a struct only looks: a struct has no identity. -/
theorem Construction.looks_createStruct {typeName : String} {fields : List (String × Value)} :
    Looks (createStruct typeName fields) := guards_createStruct

namespace Locals

variable {frame : FrameId} {name : String}

/-- Reading a local only looks. -/
theorem looks_read : Looks (read frame name) := guards_read

/-- So does copying one, which is refused for what is linear. -/
theorem looks_copy : Looks (copy frame name) := guards_copy

end Locals

namespace Storage

variable {address : Address} {path : Path} {expected : Ty} {domain : Domain}

/-- Copying out of storage only looks. -/
theorem looks_copy : Looks (copy address path expected) := guards_copy

/-- Asking for the type at a path only looks. -/
theorem looks_typeAt : Looks (typeAt address path) := guards_typeAt

/-- Listing paths only looks. -/
theorem looks_paths : Looks (paths address domain) := guards_paths

end Storage

namespace Links

variable {address : Address} {path : Path}

theorem looks_capability {promise : Option RefTy} : Looks (capability address path promise) :=
  guards_capability

/-- Following the links to a target only looks. -/
theorem looks_target : Looks (Links.target address path) := guards_target

end Links

theorem Members.looks_read {r : Reference} {member : String} : Looks (read r member) :=
  guards_read

/-! ## Operations that change something -/

/-- Making a resource only looks until its identity is minted, and what comes
after that fails fatally. -/
theorem Construction.sparing_createResource {typeName : String}
    {fields : List (String × Value)} : Sparing (createResource typeName fields) :=
  Sparing.guarded continuing_createResource <|
    Careful.reads_bind keeps_requireTransaction fun _ =>
      Careful.reads_bind keeps_requireComposite fun _ =>
        Careful.of_firm (firm_enter.onLedger.bind fun _ => Firm.pure)

namespace Frames

variable {frame : FrameId}

/-- A frame is opened by one write, after all that can fail. -/
theorem sparing_push : Sparing push := by
  refine Sparing.guarded continuing_push <|
    Careful.reads_bind keeps_requireTransaction fun _ =>
      Careful.reads_bind Keeps.get fun _ => Careful.reads_bind Keeps.ofExcept fun pushed => ?_
  obtain ⟨id, stack⟩ := pushed
  exact Careful.of_firm (Firm.modify.bind fun _ => Firm.pure)

/-- A frame is refused when it is not the innermost, which is fatal. -/
theorem firm_ofExcept_pop {stack : CallStack} :
    Firm (ofExcept (stack.pop frame) : CustodyM (Frame × CallStack)) := by
  intro s e t failed
  obtain ⟨refused, rfl⟩ := fails_ofExcept.1 failed
  unfold CallStack.pop at refused
  split at refused
  · split at refused
    · cases refused
    · exact Except.error.inj refused ▸ rfl
  · exact Except.error.inj refused ▸ rfl

/-- **Closing a frame that fails dooms the transaction**: it may have been
closed already. -/
theorem dooming_pop : Dooming (pop frame) := by
  refine Dooming.guarded continuing_pop <|
    Firm.get.bind fun _ => firm_ofExcept_pop.bind fun popped => ?_
  obtain ⟨f, stack⟩ := popped
  refine Firm.modify.bind fun _ => Firm.get.bind fun _ => ?_
  split
  · exact Firm.throw rfl
  · exact Firm.pure

/-- A frame that did not close dooms the transaction, whatever is closed
after it. -/
theorem dooming_popAll (frames : List FrameId) : Dooming (popAll frames) := by
  induction frames with
  | nil => exact fun _ _ _ _ failed => (not_fails_pure failed).elim
  | cons frame frames ih =>
    intro s e t running failed
    unfold popAll at failed
    rw [fails_observing_bind, fails_observing_bind] at failed
    rcases first : outcome (pop frame) s with ⟨firstResult, u⟩
    rcases others : outcome (popAll frames) u with ⟨result, v⟩
    simp only [first, others] at failed
    -- the frames after this one are closed in any case, and no mark is lost
    have still : u.inTransaction = true := by
      have goes := @continuing_pop frame s
      rw [first] at goes
      exact goes.inTransaction running
    rcases fails_bind.1 failed with failed | ⟨_, w, returned, failed⟩
    · obtain ⟨rfl, rfl⟩ := fails_ofExcept.1 failed
      have goes := continuing_popAll frames u
      rw [others] at goes
      exact goes.isPoisoned (dooming_pop s e u running first)
    · obtain ⟨-, rfl⟩ := returns_ofExcept.1 returned
      obtain ⟨rfl, rfl⟩ := fails_ofExcept.1 failed
      exact ih u e _ still others

/-- **Unwinding that fails dooms the transaction.** -/
theorem dooming_unwind : Dooming (unwind frame) := by
  intro s e t running failed
  unfold unwind at failed
  rw [fails_get_bind] at failed
  dsimp only at failed
  split at failed
  · exact dooming_popAll _ s e t running failed
  · refine Dooming.guarded ?_ (Firm.throw rfl) s e t running failed
    exact Continuing.guarded Keeps.throw

end Frames

namespace Locals

variable {frame caller callee : FrameId} {name field argument parameter : String} {key : Key}
  {v : Value}

/-- Binding looks at loans and at what would be overwritten; from the settlement
on it fails fatally or not at all. -/
theorem sparing_bind : Sparing (bind frame name v) :=
  Sparing.guarded continuing_bind <|
    Careful.reads_bind keeps_requireTransaction fun _ =>
      Careful.reads_bind keeps_ensureNotBorrowed fun _ =>
        Careful.reads_bind keeps_ensureOverwritable fun _ =>
          Careful.of_firm (Ledger.firm_settleValue.onLedger.bind fun _ => Firm.modify)

/-- A take that recovers has released nothing. -/
theorem careful_take : Careful (take frame name) := by
  refine Careful.guarded <|
    Careful.reads_bind keeps_requireTransaction fun _ => Careful.reads_bind Keeps.get fun _ =>
      Careful.reads_bind Keeps.ofExcept fun v => Careful.ite ?_ ?_
  · exact Careful.reads_bind keeps_ensureNotBorrowed fun _ =>
      Careful.of_firm (Ledger.firm_releaseValue.onLedger.bind fun _ =>
        Firm.modify.bind fun _ => Firm.pure)
  · exact Careful.of_reads keeps_ofValueFault

/-- Taking looks at loans first, and releasing fails fatally. -/
theorem sparing_take : Sparing (take frame name) :=
  Sparing.recovering continuing_take careful_take

/-- **When passing fails**, the transaction is doomed, nothing has happened,
or the value was taken and not bound. -/
theorem fails_pass (running : s.inTransaction = true)
    (failed : Fails (pass caller argument callee parameter) s e t) :
    t.isPoisoned = true ∨ (t = s ∧ Fails (take caller argument) s e t)
      ∨ ∃ v, Returns (take caller argument) s v t := by
  rcases fails_bind.1 failed with untaken | ⟨v, u, taken, unbound⟩
  · exact (sparing_take s e t running untaken).imp id fun same => .inl ⟨same, untaken⟩
  · have still : u.inTransaction = true := (continuing_take.of_returns taken).inTransaction running
    rcases sparing_bind u e t still unbound with doomed | rfl
    · exact .inl doomed
    · exact .inr (.inr ⟨v, taken⟩)

/-- A change of a container is as sparing as what it does to the elements. -/
theorem sparing_change {action : Value → LedgerM (α × Value)}
    (goes : ∀ v, Keeps Ledger.Grows (action v))
    (careful : ∀ v, Careful (action v)) : Sparing (change frame name action) :=
  Sparing.guarded (continuing_change goes) <|
    Careful.reads_bind keeps_requireTransaction fun _ =>
      Careful.reads_bind keeps_ensureNotBorrowed fun _ => Careful.reads_bind Keeps.get fun _ =>
        Careful.reads_bind Keeps.ofExcept fun v =>
          (careful v).onLedger.bind_firm fun _ => Firm.modify.bind fun _ => Firm.pure

/-- Inserting into a local is sparing. -/
theorem sparing_insert : Sparing (insert frame name key v) :=
  sparing_change (fun _ =>
      (Elements.keeps_insert Ledger.lawful_grows fun _ _ _ => trivial).bind fun _ => Keeps.pure)
    fun _ => Elements.careful_insert.bind_firm fun _ => Firm.pure

/-- Appending to a local is sparing. -/
theorem sparing_push : Sparing (push frame name v) :=
  sparing_change (fun _ => (Elements.keeps_push Ledger.lawful_grows).bind fun _ => Keeps.pure)
    fun _ => Elements.careful_push.bind_firm fun _ => Firm.pure

/-- Removing from a local is sparing. -/
theorem sparing_remove : Sparing (remove frame name key) :=
  sparing_change (fun _ => Elements.keeps_remove Ledger.lawful_grows (fun _ _ _ => trivial)
      fun _ _ _ => trivial)
    fun _ => Elements.careful_remove

/-- So is a change of the fields of a resource. -/
theorem sparing_changeResource {action : Resource → LedgerM (α × Resource)}
    (goes : ∀ r, Keeps Ledger.Grows (action r)) (careful : ∀ r, Careful (action r)) :
    Sparing (changeResource frame name action) := by
  refine sparing_change (fun v => ?_) fun v => ?_
  · split
    · exact (goes _).bind fun _ => Keeps.pure
    · exact Keeps.throw
  · split
    · exact (careful _).bind_firm fun _ => Firm.pure
    · exact Careful.of_reads Keeps.throw

/-- Taking a field out of a local is sparing. -/
theorem sparing_takeField : Sparing (takeField frame name field) :=
  sparing_changeResource
    (fun _ => Elements.keeps_takeField Ledger.lawful_grows fun _ _ _ => trivial)
    fun _ => Elements.careful_takeField

/-- Filling a field of a local is sparing. -/
theorem sparing_putField : Sparing (putField frame name field v) :=
  sparing_changeResource
    (fun _ => (Elements.keeps_putField Ledger.lawful_grows).bind fun _ => Keeps.pure)
    fun _ => Elements.careful_putField.bind_firm fun _ => Firm.pure

end Locals

namespace Storage

variable {address : Address} {path : Path} {v : Value} {expected : Ty}

/-- Saving looks at the path, the value and the slot; the settlement fails
fatally. -/
theorem sparing_save : Sparing (save address path v) :=
  Sparing.guarded continuing_save <|
    Careful.reads_bind keeps_checkPath fun _ =>
      Careful.reads_bind keeps_ensureStorable fun _ => Careful.reads_bind Keeps.get fun _ =>
        Careful.ite (Careful.of_reads Keeps.throw)
          (Careful.of_firm (Ledger.firm_settleValue.onLedger.bind fun _ => Firm.modify))

/-- Loading looks at the path, the type and the loans; the release fails
fatally. -/
theorem sparing_load : Sparing (load address path expected) := by
  refine Sparing.guarded continuing_load <|
    Careful.reads_bind keeps_checkPath fun _ => Careful.reads_bind Keeps.get fun s => ?_
  split
  · exact Careful.of_reads Keeps.pure
  · exact Careful.reads_bind keeps_checkTy fun _ =>
      Careful.reads_bind keeps_ensureNotBorrowed fun _ =>
        Careful.of_firm (Ledger.firm_releaseValue.onLedger.bind fun _ =>
          Firm.modify.bind fun _ => Firm.pure)

end Storage

namespace Links

variable {address : Address} {source target path : Path} {promise : RefTy}

/-- A link is added by one write, after all that can fail. -/
theorem sparing_add : Sparing (add address source target promise) :=
  Sparing.guarded continuing_add <|
    Careful.reads_bind keeps_checkPath fun _ => Careful.reads_bind Keeps.get fun _ =>
      Careful.of_firm (Firm.ite Firm.pure (Firm.modify.bind fun _ => Firm.pure))

/-- A link is removed by one write, after all that can fail. -/
theorem sparing_remove : Sparing (remove address path) :=
  Sparing.guarded continuing_remove <|
    Careful.reads_bind keeps_checkPath fun _ => Careful.reads_bind Keeps.get fun _ =>
      Careful.of_firm (Firm.ite Firm.modify Firm.pure)

end Links

namespace Members

variable {r : Reference} {member : String} {key : Key} {v : Value}

/-- Replacing the value at a target does not fail. -/
theorem firm_replace {target : Target} : Firm (replace target v) := Firm.modify

/-- Setting a member recovers where it sets a field of a struct, and where it
fills one of a resource. -/
theorem sparing_set : Sparing (set r member v) := by
  refine Sparing.guarded continuing_set <|
    Careful.reads_bind keeps_checkAccess fun _ =>
      Careful.reads_bind Storage.keeps_ensureStorable fun _ =>
        Careful.reads_bind keeps_value fun owner => ?_
  split
  · exact Elements.careful_putField.onLedger.bind_firm fun _ => firm_replace
  · split
    · exact Careful.of_reads Keeps.throw
    · exact Careful.reads_bind keeps_ofValueFault fun _ => Careful.of_firm firm_replace
  · exact Careful.of_reads Keeps.throw

/-- A change of a member recovers as far as the change of the elements does. -/
theorem careful_change {action : Value → Place → String → LedgerM (α × Value)}
    (h : ∀ v place name, Careful (action v place name)) : Careful (change r member action) := by
  refine Careful.reads_bind keeps_checkAccess fun _ => Careful.reads_bind keeps_value fun v => ?_
  split
  · exact Careful.of_reads Keeps.throw
  · dsimp only
    split
    · exact Careful.of_reads Keeps.throw
    · split
      · exact Careful.of_reads Keeps.throw
      · exact (h _ _ _).onLedger.bind_firm fun _ => firm_replace.bind fun _ => Firm.pure

theorem sparing_insert : Sparing (insert r member key v) :=
  Sparing.guarded continuing_insert <|
    Careful.reads_bind Storage.keeps_ensureStorable fun _ =>
      careful_change fun _ _ _ => Elements.careful_insert.bind_firm fun _ => Firm.pure

theorem sparing_push : Sparing (push r member v) :=
  Sparing.guarded continuing_push <|
    Careful.reads_bind Storage.keeps_ensureStorable fun _ =>
      careful_change fun _ _ _ => Elements.careful_push.bind_firm fun _ => Firm.pure

theorem sparing_remove : Sparing (remove r member key) :=
  Sparing.guarded continuing_remove <| careful_change fun _ _ _ => Elements.careful_remove

end Members

namespace Teardown

variable {v : Value} {r : Resource} {p : Plan}

/-- Destroying looks at the whole plan before it enters anything; what comes
after that fails fatally. -/
theorem sparing_destroy : Sparing (destroy v) :=
  Sparing.guarded continuing_destroy <|
    Careful.reads_bind keeps_requireTransaction fun _ =>
      Careful.onLedger <| Careful.reads_bind (keeps_orderOf _) fun _ => Careful.of_firm firm_apply

/-- So does destroying by a plan, which releases fields before it enters
anything. -/
theorem sparing_destroyWith : Sparing (destroyWith r p) := by
  refine Sparing.guarded continuing_destroyWith <|
    Careful.reads_bind keeps_requireTransaction fun _ =>
      (Careful.onLedger ?_).bind_firm fun _ => Firm.pure
  exact Careful.reads_bind Ledger.keeps_checkDestroy fun _ =>
    Careful.reads_bind Keeps.ofExcept fun _ => Careful.reads_bind Keeps.ofExcept fun _ =>
      Careful.reads_bind keeps_check fun _ =>
        Careful.of_firm (firm_releaseFields.bind fun _ => firm_apply)

end Teardown

end Custody
