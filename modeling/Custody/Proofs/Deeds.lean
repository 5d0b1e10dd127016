import Custody.Operation
import Custody.Proofs.Ledger

/-!
# What a call does

A call looks, and then it acts once: on the ledger, and when that went well on
the locals, on storage, on the frames or on the loans. What it does is written
down here as a relation between the state before and the state after,
`Operation.Does`, with one constructor for each way of acting and with what the
call has made sure of before. Passing a local is the one call that acts twice.

The relation is about what is done, not about how the call ends: an action on
the ledger may fail halfway (`State.doing`). So a preorder on states that holds
of every deed of a call holds of the call, **however it ends**
(`Operation.composed`), and the operations are gone through here once, for
whatever is to be said of all of them.

Most operations are guarded. What is said of them is said of the action under
the guard (`Guards`), because noting a fault changes the transaction and
nothing else; what the guard adds is left to the reader of the lemma
(`Guards.keeps`).
-/

namespace Custody

open CustodyM

/-- **The operation is guarded**, and what it does under the guard keeps the
relation. -/
def Guards {α : Type} (R : State → State → Prop) (m : CustodyM α) : Prop :=
  ∃ body, m = guarded body ∧ Keeps R body

variable {R : State → State → Prop} {α β : Type}

/-- A guard keeps what noting a fault keeps. -/
theorem Guards.keeps [IsPreorder State R] {m : CustodyM α} (h : Guards R m)
    (note : ∀ s fault, R s (s.note fault)) : Keeps R m := by
  obtain ⟨body, rfl, kept⟩ := h
  exact Keeps.guarded kept note

/-- The state after an action on the ledger, and after what follows it when it
returned. -/
def State.doing (s : State) (action : LedgerM α) (finish : α → State → State) : State :=
  match outcome action s.ledger with
  | (.ok a, l) => finish a { s with ledger := l }
  | (.error _, l) => { s with ledger := l }

/-- Acting on the ledger and then finishing is one deed. -/
theorem keeps_doing {action : LedgerM α} {finish : α → State → State} {k : α → CustodyM β}
    {s : State} (did : R s (s.doing action finish))
    (finishes : ∀ a u, (outcome (k a) u).2 = finish a u) :
    R s (outcome (onLedger action >>= k) s).2 := by
  rw [outcome_bind, outcome_onLedger]
  unfold State.doing at did
  rcases h : outcome action s.ledger with ⟨e | a, l⟩
  · rw [h] at did
    exact did
  · rw [h] at did
    exact finishes a _ ▸ did

/-- What holds of the ledger's part and of what follows it holds of a deed. -/
theorem State.doing_cases {P : State → Prop} {s : State} {action : LedgerM α}
    {finish : α → State → State}
    (failed : ∀ e l, Fails action s.ledger e l → P { s with ledger := l })
    (returned : ∀ a l, Returns action s.ledger a l → P (finish a { s with ledger := l })) :
    P (s.doing action finish) := by
  unfold doing
  rcases h : outcome action s.ledger with ⟨e | a, l⟩
  · exact failed e l h
  · exact returned a l h

/-- What an action makes of its result in the end may be part of the
finishing. -/
theorem State.doing_bind {s : State} {action : LedgerM α} {k : α → LedgerM β} {f : α → β}
    {finish : β → State → State} (makes : ∀ a l, outcome (k a) l = (.ok (f a), l)) :
    s.doing (action >>= k) finish = s.doing action fun a => finish (f a) := by
  unfold doing
  rw [outcome_bind]
  rcases outcome action s.ledger with ⟨e | a, l⟩
  · rfl
  · show (match outcome (k a) l with | (.ok b, l) => _ | (.error _, l) => _) = _
    rw [makes]

/-- An action that gives nothing back beside what it makes. -/
theorem doing_unit {s : State} {action : LedgerM α} {finish : Unit × α → State → State}
    (did : R s (s.doing action fun a => finish ((), a))) :
    R s (s.doing (do return ((), ← action)) finish) := by
  rw [State.doing_bind (f := fun a => ((), a))]
  · exact did
  · exact fun _ _ => rfl

/-! ## Authority -/

/-- **The running transaction has authority** over the account: the account
signed it, or signatures are not enforced. -/
def State.Authorizes (s : State) (address : Address) : Prop :=
  ∃ t, s.transaction = some t
    ∧ (s.settings.enforceAuthority = true → t.signers.contains address = true)

/-- What asks for authority goes on only with it. -/
theorem authorizes_of_requireAuthority {s t : State} {address : Address} {u : Unit}
    (h : Returns (requireAuthority address) s u t) : s.Authorizes address := by
  unfold requireAuthority at h
  obtain ⟨tx, w, required, h⟩ := returns_bind.1 h
  obtain ⟨running, rfl⟩ := returns_requireTransaction.1 required
  rw [returns_get_bind] at h
  split at h
  · exact (not_returns_throw h).elim
  next allowed => exact ⟨tx, running, fun enforced => by simpa [enforced] using allowed⟩

variable [IsPreorder State R]

/-! ## Making and tearing down -/

namespace Construction

variable {typeName : String} {fields : List (String × Value)}

/-- Making a resource only looks, and then acts on the ledger. -/
theorem does_createResource (did : ∀ s, R s (s.doing (enter fields) fun _ u => u)) :
    Guards R (createResource typeName fields) := by
  refine ⟨_, rfl, keeps_requireTransaction.bind fun _ => keeps_requireComposite.bind fun _ => ?_⟩
  exact fun s => keeps_doing (did s) fun _ _ => rfl

/-- Making a struct only looks. -/
theorem guards_createStruct : Guards R (createStruct typeName fields) :=
  ⟨_, rfl, keeps_requireComposite.bind fun _ => keeps_ofValueFault.bind fun _ => Keeps.pure⟩

end Construction

namespace Teardown

variable {v : Value} {r : Resource} {p : Plan}

/-- What tearing down a value does to the ledger. -/
def razeValue (v : Value) : LedgerM Unit := do apply (← orderOf (v.held.map Prod.snd))

/-- What tearing down a resource as planned does to the ledger. -/
def razePlanned (r : Resource) (p : Plan) : LedgerM Unit := do
  Ledger.checkDestroy r.id none
  ofExcept (p.validate r)
  let owned ← ofExcept (r.teardownFields fun field => p.movesOut field || r.isFieldMoved field)
  let order := owned ++ [(r.id, none)]
  check order
  releaseFields r.id (movedOut p r)
  apply order

/-- A teardown by a plan stays within what entries in the ledger keep. -/
theorem keeps_razePlanned {Q : Ledger → Ledger → Prop} [IsPreorder Ledger Q]
    (law : Ledger.Lawful Q) :
    Keeps Q (razePlanned r p) :=
  Ledger.keeps_checkDestroy.bind fun _ => Keeps.ofExcept.bind fun _ => Keeps.ofExcept.bind fun _ =>
    keeps_check.bind fun _ => (keeps_releaseFields law fun _ _ _ _ => trivial).bind fun _ =>
      keeps_apply law fun _ _ _ _ => trivial

/-- Destroying acts on the ledger and nothing else, -/
theorem does_destroy (did : ∀ s, R s (s.doing (razeValue v) fun _ u => u)) :
    Guards R (destroy v) := by
  refine ⟨_, rfl, keeps_requireTransaction.bind fun _ s => ?_⟩
  rw [← bind_pure (onLedger _)]
  exact keeps_doing (did s) fun _ _ => rfl

/-- and so does destroying by a plan. -/
theorem does_destroyWith (did : ∀ s, R s (s.doing (razePlanned r p) fun _ u => u)) :
    Guards R (destroyWith r p) :=
  ⟨_, rfl, keeps_requireTransaction.bind fun _ s => keeps_doing (did s) fun _ _ => rfl⟩

end Teardown

/-! ## Frames -/

namespace Frames

variable {frame : FrameId}

/-- **Opening a frame** puts it on the stack, if the stack takes it. -/
theorem guards_push
    (opened : ∀ s limit id stack, s.stack.push limit = .ok (id, stack) →
      R s { s with stack := stack }) : Guards R push := by
  refine ⟨_, rfl, keeps_requireTransaction.bind fun _ => Keeps.get_bind fun s => ?_⟩
  rcases h : s.stack.push s.settings.maxFrames with fault | ⟨id, stack⟩
  · exact Std.Refl.refl s
  · exact opened s _ id stack h

/-- **Closing a frame** takes it off the stack and gives its references back.
What it fails with afterwards changes nothing. -/
theorem guards_pop
    (closed : ∀ s f stack, s.stack.pop frame = .ok (f, stack) →
      R s { s with stack := stack, loans := s.loans.releaseFrame frame }) :
    Guards R (pop frame) := by
  refine ⟨_, rfl, Keeps.get_bind fun s => ?_⟩
  rcases h : s.stack.pop frame with fault | ⟨f, stack⟩
  · exact Std.Refl.refl s
  · rw [outcome_bind]
    show R s (outcome (modify _ >>= _) s).2
    rw [outcome_modify_bind]
    refine IsTrans.trans _ _ _ (closed s f stack h) (Keeps.get.bind (fun u => ?_) _)
    split
    · exact Keeps.throw
    · exact Keeps.pure

/-- Frames are closed one after the other, each in its own way. -/
theorem keeps_popAll (closes : ∀ frame, Keeps R (pop frame)) (frames : List FrameId) :
    Keeps R (popAll frames) := by
  induction frames with
  | nil => exact Keeps.pure
  | cons frame frames ih =>
    exact (closes frame).observing.bind fun _ => ih.observing.bind fun _ =>
      Keeps.ofExcept.bind fun _ => Keeps.ofExcept

/-- Unwinding closes frames, or notes that there is none. -/
theorem keeps_unwind (closes : ∀ frame, Keeps R (pop frame))
    (note : ∀ s fault, R s (s.note fault)) : Keeps R (unwind frame) := by
  refine Keeps.get.bind fun s => ?_
  dsimp only
  split
  · exact keeps_popAll closes _
  · exact Keeps.guarded Keeps.throw note

end Frames

/-! ## Locals -/

/-- A value that is a resource is the value of that resource. -/
theorem Value.toValue_of_resource? {v : Value} {r : Resource} (h : v.resource? = some r) :
    r.toValue = v := by
  cases v with
  | resource id typeName fields =>
    obtain rfl := Option.some.inj h
    rfl
  | _ => cases h

namespace Locals

variable {frame : FrameId} {name field : String} {key : Key} {v : Value}

theorem keeps_binding? : Keeps R (binding? frame name) :=
  Keeps.get.bind fun _ => Keeps.ofExcept.bind fun _ => Keeps.pure

theorem keeps_ensureOverwritable : Keeps R (ensureOverwritable frame name) := by
  refine keeps_binding?.bind fun b => ?_
  split
  · split
    · exact Keeps.throw
    · exact Keeps.pure
  · exact Keeps.pure

/-- **Binding** settles the value in a local that is not borrowed, and writes it
there. -/
theorem does_bind
    (did : ∀ s, s.loans.isBorrowed (.binding frame name) = false →
      R s (s.doing (Ledger.settleValue v (place frame name)) fun _ u =>
        { u with stack := u.stack.setLocal frame name (.live v) })) :
    Guards R (bind frame name v) := by
  refine ⟨_, rfl, keeps_requireTransaction.bind fun _ s =>
    Keeps.reads_bind keeps_ensureNotBorrowed fun _ checked =>
      Keeps.reads_bind keeps_ensureOverwritable fun _ _ => ?_⟩
  exact keeps_doing (did s (returns_ensureNotBorrowed.1 checked).1) fun _ _ => rfl

/-- **Taking** releases the value of a local that is not borrowed, and marks the
local as moved. -/
theorem does_take
    (did : ∀ s v, s.loans.isBorrowed (.binding frame name) = false →
      s.stack.value frame name = .ok v →
      R s (s.doing (Ledger.releaseValue v (place frame name)) fun _ u =>
        { u with stack := u.stack.setLocal frame name .moved })) :
    Guards R (take frame name) := by
  refine ⟨_, rfl, keeps_requireTransaction.bind fun _ => Keeps.get_bind fun s =>
    Keeps.reads_bind Keeps.ofExcept fun v found => ?_⟩
  have found := (returns_ofExcept.1 found).1
  split
  · refine Keeps.reads_bind keeps_ensureNotBorrowed fun _ checked => ?_
    exact keeps_doing (did s v (returns_ensureNotBorrowed.1 checked).1 found) fun _ _ => rfl
  · exact keeps_ofValueFault s

/-- Reading a local only looks, -/
theorem guards_read : Guards R (read frame name) :=
  ⟨_, rfl, Keeps.get.bind fun _ => Keeps.ofExcept⟩

/-- and so does copying it. -/
theorem guards_copy : Guards R (copy frame name) :=
  ⟨_, rfl, Keeps.get.bind fun _ => Keeps.ofExcept.bind fun _ => keeps_ofValueFault⟩

/-- **Changing a container** in a local that is not borrowed acts on the ledger,
and writes the container back. -/
theorem does_change {action : Value → LedgerM (α × Value)}
    (did : ∀ s old, s.loans.isBorrowed (.binding frame name) = false →
      s.stack.value frame name = .ok old → R s (s.doing (action old) fun p u =>
        { u with stack := u.stack.setLocal frame name (.live p.2) })) :
    Guards R (change frame name action) := by
  refine ⟨_, rfl, keeps_requireTransaction.bind fun _ => fun s =>
    Keeps.reads_bind keeps_ensureNotBorrowed fun _ checked =>
      Keeps.reads_bind Keeps.get fun s' look => ?_⟩
  obtain ⟨rfl, -⟩ := returns_get.1 look
  refine Keeps.reads_bind Keeps.ofExcept fun old found => ?_
  exact keeps_doing (did s old (returns_ensureNotBorrowed.1 checked).1 (returns_ofExcept.1 found).1)
    fun _ _ => rfl

/-- **Changing a resource** in a local does the same, and refuses whatever is no
resource. -/
theorem does_changeResource {action : Resource → LedgerM (α × Resource)}
    (did : ∀ s r, s.loans.isBorrowed (.binding frame name) = false →
      s.stack.value frame name = .ok r.toValue → R s (s.doing (action r) fun p u =>
        { u with stack := u.stack.setLocal frame name (.live p.2.toValue) })) :
    Guards R (changeResource frame name action) := by
  refine does_change fun s old free found => ?_
  dsimp only
  split
  next r resource =>
    rw [State.doing_bind (f := fun p : α × Resource => (p.1, p.2.toValue))]
    · exact did s r free (Value.toValue_of_resource? resource ▸ found)
    · exact fun _ _ => rfl
  · exact Std.Refl.refl s

end Locals

/-! ## Storage -/

namespace Storage

variable {address : Address} {path : Path} {v : Value} {expected : Ty} {domain : Domain}

theorem keeps_checkPath : Keeps R (checkPath address path) :=
  keeps_requireAuthority.bind fun _ => Keeps.throw.ite Keeps.pure

theorem keeps_checkTy : Keeps R (checkTy address path v expected) :=
  Keeps.get.bind fun _ => Keeps.throw.ite Keeps.pure

theorem keeps_ensureStorable : Keeps R (ensureStorable v) :=
  Keeps.pure.ite Keeps.throw

omit [IsPreorder State R] in
/-- What was made sure of about a path that may hold a value. -/
theorem admits_of_checkPath {s t : State} {u : Unit} (h : Returns (checkPath address path) s u t) :
    s.Authorizes address ∧ path.domain.holdsValues = true := by
  obtain ⟨_, w, required, h⟩ := returns_bind.1 h
  have may := authorizes_of_requireAuthority required
  split at h
  · exact (not_returns_throw h).elim
  next values => exact ⟨may, by simpa using values⟩

omit [IsPreorder State R] in
/-- What makes sure that a value can be stored goes on only if it can. -/
theorem storable_of_ensureStorable {s t : State} {u : Unit}
    (h : Returns (ensureStorable v) s u t) : v.isStorable = true := by
  unfold ensureStorable at h
  split at h
  next storable => exact storable
  · exact (not_returns_throw h).elim

/-- **Saving** settles the value at an empty slot for values, with authority,
and writes it there. -/
theorem does_save
    (did : ∀ s, s.Authorizes address → path.domain.holdsValues = true → v.isStorable = true →
      s.store.contains address path = false →
      R s (s.doing (Ledger.settleValue v (.stored address path)) fun _ u =>
        { u with store := u.store.insert address path (.value v) })) :
    Guards R (save address path v) := by
  refine ⟨_, rfl, fun s => Keeps.reads_bind keeps_checkPath fun _ checked =>
    Keeps.reads_bind keeps_ensureStorable fun _ accepted =>
      Keeps.reads_bind Keeps.get fun s' look => ?_⟩
  obtain ⟨rfl, -⟩ := returns_get.1 look
  obtain ⟨may, values⟩ := admits_of_checkPath checked
  split
  · exact Std.Refl.refl s
  next free =>
    rw [← bind_pure (modify _)]
    exact keeps_doing (did s may values (storable_of_ensureStorable accepted) (by simpa using free))
      fun _ _ => rfl

/-- **Loading** releases the value of a slot that is not borrowed, with
authority, and empties the slot. -/
theorem does_load
    (did : ∀ s v, s.Authorizes address → path.domain.holdsValues = true →
      s.store.value? address path = some v → s.loans.isBorrowed (.stored address path) = false →
      R s (s.doing (Ledger.releaseValue v (.stored address path)) fun _ u =>
        { u with store := u.store.erase address path })) :
    Guards R (load address path expected) := by
  refine ⟨_, rfl, fun s => Keeps.reads_bind keeps_checkPath fun _ checked =>
    Keeps.reads_bind Keeps.get fun s' look => ?_⟩
  obtain ⟨rfl, -⟩ := returns_get.1 look
  obtain ⟨may, values⟩ := admits_of_checkPath checked
  split
  · exact Std.Refl.refl s
  next v found =>
    refine Keeps.reads_bind keeps_checkTy fun _ _ => Keeps.reads_bind keeps_ensureNotBorrowed
      fun _ checked => ?_
    have unlent := (returns_ensureNotBorrowed.1 checked).1
    exact keeps_doing (did s v may values found unlent) fun _ _ => rfl

/-- Copying what is stored only looks. -/
theorem guards_copy : Guards R (copy address path expected) := by
  refine ⟨_, rfl, keeps_checkPath.bind fun _ => Keeps.get.bind fun s => ?_⟩
  split
  · exact Keeps.pure
  · refine keeps_checkTy.bind fun _ => ?_
    split
    · exact Keeps.throw
    · exact keeps_ofValueFault.bind fun _ => Keeps.pure

theorem guards_typeAt : Guards R (typeAt address path) :=
  ⟨_, rfl, keeps_checkPath.bind fun _ => Keeps.get.bind fun _ => Keeps.pure⟩

theorem guards_paths : Guards R (paths address domain) := by
  refine ⟨_, rfl, ?_⟩
  split
  · exact keeps_requireAuthority.bind fun _ => Keeps.get.bind fun _ => Keeps.pure
  · exact Keeps.get.bind fun _ => Keeps.pure

end Storage

/-! ## Links -/

namespace Links

variable {address : Address} {source target path : Path} {promise : RefTy}

theorem keeps_checkPath : Keeps R (checkPath address path) :=
  keeps_requireAuthority.bind fun _ => Keeps.throw.ite Keeps.pure

omit [IsPreorder State R] in
/-- What was made sure of about a path that may hold a link. -/
theorem admits_of_checkPath {s t : State} {u : Unit} (h : Returns (checkPath address path) s u t) :
    s.Authorizes address ∧ path.domain.holdsLinks = true := by
  obtain ⟨_, w, required, h⟩ := returns_bind.1 h
  have may := authorizes_of_requireAuthority required
  split at h
  · exact (not_returns_throw h).elim
  next links => exact ⟨may, by simpa using links⟩

/-- **Linking** writes an empty slot for links, with authority. -/
theorem does_add
    (did : ∀ s, s.Authorizes address → source.domain.holdsLinks = true →
      s.store.contains address source = false →
      R s { s with store := s.store.insert address source (.link ⟨source, target, promise⟩) }) :
    Guards R (add address source target promise) := by
  refine ⟨_, rfl, fun s => Keeps.reads_bind keeps_checkPath fun _ checked =>
    Keeps.reads_bind Keeps.get fun s' look => ?_⟩
  obtain ⟨rfl, -⟩ := returns_get.1 look
  obtain ⟨may, links⟩ := admits_of_checkPath checked
  split
  · exact Std.Refl.refl s
  next free => exact did s may links (by simpa using free)

/-- **Unlinking** empties a slot with a link in it, with authority. -/
theorem does_remove
    (did : ∀ s l, s.Authorizes address → path.domain.holdsLinks = true →
      s.store.link? address path = some l →
      R s { s with store := s.store.erase address path }) :
    Guards R (remove address path) := by
  refine ⟨_, rfl, fun s => Keeps.reads_bind keeps_checkPath fun _ checked =>
    Keeps.reads_bind Keeps.get fun s' look => ?_⟩
  obtain ⟨rfl, -⟩ := returns_get.1 look
  obtain ⟨may, links⟩ := admits_of_checkPath checked
  split
  next there =>
    obtain ⟨l, found⟩ := Option.isSome_iff_exists.1 there
    exact did s l may links found
  · exact Std.Refl.refl s

theorem guards_capability {promise : Option RefTy} :
    Guards R (capability address path promise) := by
  refine ⟨_, rfl, ?_⟩
  split
  · exact Keeps.throw
  · exact keeps_requireAuthority.bind fun _ => Keeps.pure
  · exact Keeps.pure

theorem guards_target : Guards R (Links.target address path) := by
  refine ⟨_, rfl, ?_⟩
  split
  · exact keeps_requireAuthority.bind fun _ => Keeps.get.bind fun _ => Keeps.pure
  · exact Keeps.get.bind fun _ => Keeps.pure

end Links

/-! ## Borrows -/

/-- The frame to which a reference is issued: the innermost one, or the
transaction when no frame is open. -/
def State.borrower (s : State) : FrameId := s.stack.current?.getD FrameId.transaction

/-- **The target may be lent**: a transaction is running and, if the target is
a local, it is bound. -/
structure State.MayLend (s : State) (target : Target) : Prop where
  /-- A transaction is running. -/
  running : s.inTransaction = true
  /-- A local has a value. -/
  bound : ∀ frame name, target = .binding frame name → ∃ v, s.stack.value frame name = .ok v

namespace Borrows

variable {target : Target} {identity : Option ResourceId} {granted requested : RefTy}
  {c : Capability} {address : Address} {path : Path} {frame : FrameId} {name : String}

/-- **A borrow lends** the target of the reference it gives to the innermost
frame, and changes nothing when it gives none. -/
def LendsFrom (s : State) (action : BorrowM Reference) : Prop :=
  (∃ failure, Fails action s failure s) ∨ ∃ r loans, s.MayLend r.target
    ∧ s.loans.acquire r.target s.borrower = some (r.id, loans)
    ∧ Returns action s r { s with loans := loans }

/-- A borrow, from whatever state. -/
def Lends (action : BorrowM Reference) : Prop := ∀ s, LendsFrom s action

omit [IsPreorder State R] in
/-- **A borrow** does nothing but lend a target. -/
theorem Lends.keeps [Std.Refl R] {action : BorrowM Reference} (h : Lends action)
    (lent : ∀ (s : State) target id loans, s.MayLend target →
      s.loans.acquire target s.borrower = some (id, loans) → R s { s with loans := loans }) :
    Keeps R action := by
  intro s
  rcases h s with ⟨failure, failed⟩ | ⟨r, loans, may, acquired, returned⟩
  · rw [failed]
    exact Std.Refl.refl s
  · rw [returned]
    exact lent s _ _ loans may acquired

namespace LendsFrom

variable {s : State}

/-- A borrow that is refused lends nothing. -/
theorem throw {failure : BorrowFailure} : LendsFrom s (throw failure) :=
  .inl ⟨failure, fails_throw.2 ⟨rfl, rfl⟩⟩

/-- First look, then lend. -/
theorem reads_bind {m : BorrowM α} {k : α → BorrowM Reference} (hm : Keeps Eq m)
    (hk : ∀ a, Returns m s a s → LendsFrom s (k a)) : LendsFrom s (m >>= k) := by
  rcases returns_or_fails m s with ⟨a, t, returned⟩ | ⟨failure, t, failed⟩
  · obtain rfl := hm.of_returns returned
    rcases hk a returned with ⟨failure, failed⟩ | ⟨r, loans, may, acquired, lent⟩
    · exact .inl ⟨failure, fails_bind.2 (.inr ⟨a, s, returned, failed⟩)⟩
    · exact .inr ⟨r, loans, may, acquired, returns_bind.2 ⟨a, s, returned, lent⟩⟩
  · obtain rfl := hm.of_fails failed
    exact .inl ⟨failure, fails_bind.2 (.inl failed)⟩

/-- What is issued is lent, if it may be. -/
theorem issue (may : s.MayLend target) : LendsFrom s (issue target identity granted) := by
  rcases acquired : s.loans.acquire target (s.stack.current?.getD FrameId.transaction)
    with _ | ⟨id, loans⟩
  · refine .inl ⟨.alreadyBorrowed, fails_get_bind.2 ?_⟩
    dsimp only
    rw [acquired]
    exact fails_throw.2 ⟨rfl, rfl⟩
  · refine .inr ⟨⟨id, target, identity, granted, s.borrower⟩, loans, may, acquired,
      returns_get_bind.2 ?_⟩
    dsimp only
    rw [acquired]
    exact returns_bind.2 ⟨⟨⟩, _, returns_set.2 rfl, returns_pure.2 ⟨rfl, rfl⟩⟩

end LendsFrom

theorem keeps_requireTransaction : Keeps R requireTransaction :=
  Keeps.get.bind fun _ => Keeps.throw.ite Keeps.pure

omit [IsPreorder State R] in
/-- A borrow goes on only inside a transaction. -/
theorem running_of_requireTransaction {s t : State} {u : Unit}
    (h : Returns requireTransaction s u t) : s.inTransaction = true := by
  unfold requireTransaction at h
  rw [returns_get_bind] at h
  split at h
  · exact (not_returns_throw h).elim
  next running => simpa [State.inTransaction, Option.isSome_iff_ne_none] using running

/-- A stored value that was resolved may be lent, -/
theorem lends_issueStored {r : Resolution} : Lends (issueStored r requested) := fun _ =>
  LendsFrom.reads_bind keeps_requireTransaction fun _ started => LendsFrom.reads_bind Keeps.get
    fun _ _ => LendsFrom.reads_bind Keeps.ofExcept fun _ _ =>
      LendsFrom.issue ⟨running_of_requireTransaction started, fun _ _ binding => nomatch binding⟩

/-- so that a borrow through a capability lends it, -/
theorem lends_throughCapability : Lends (throughCapability c requested) := fun s =>
  LendsFrom.reads_bind Keeps.get fun _ _ => LendsFrom.reads_bind Keeps.ofExcept fun _ _ =>
    lends_issueStored s

/-- and so does a borrow of one's own storage. -/
theorem lends_stored : Lends (stored address path requested) := by
  refine fun s => LendsFrom.reads_bind Keeps.get fun _ _ => ?_
  dsimp only
  split
  · exact LendsFrom.throw
  · split
    · exact LendsFrom.throw
    · split
      · exact LendsFrom.throw
      · exact lends_issueStored s

/-- A local of an open frame may be lent. -/
theorem lends_ofLocal : Lends (ofLocal frame name requested) := by
  refine fun s => LendsFrom.reads_bind keeps_requireTransaction fun _ started =>
    LendsFrom.reads_bind Keeps.get fun _ look => ?_
  obtain ⟨rfl, -⟩ := returns_get.1 look
  split
  · exact LendsFrom.throw
  next v found =>
    split
    · refine LendsFrom.issue ⟨running_of_requireTransaction started, fun _ _ binding => ?_⟩
      obtain ⟨rfl, rfl⟩ := Target.binding.inj binding
      exact ⟨v, found⟩
    · exact LendsFrom.throw

end Borrows

/-! ## Members -/

/-- The state with the value at a target replaced. -/
def State.writeAt (s : State) (target : Target) (v : Value) : State :=
  match target with
  | .stored address path => { s with store := s.store.insert address path (.value v) }
  | .binding frame name => { s with stack := s.stack.setLocal frame name (.live v) }

namespace Members

variable {r : Reference} {member : String} {key : Key} {v : Value}

theorem keeps_checkAccess : Keeps R (checkAccess r member) := by
  refine Keeps.get.bind fun s => ?_
  dsimp only
  split
  · exact Keeps.throw
  · exact Keeps.throw.ite Keeps.pure

theorem keeps_value : Keeps R (value r) := by
  refine Keeps.get.bind fun s => ?_
  split
  · exact Keeps.pure.ite Keeps.throw
  · exact Keeps.throw

omit [IsPreorder State R] in
/-- A reference through which a member is accessed is live and shows it. -/
theorem granted_of_checkAccess {s t : State} (h : Returns (checkAccess r member) s () t) :
    s.loans.isLive r = true
      ∧ (s.registry.members r.granted.target).contains member = true := by
  unfold checkAccess at h
  rw [returns_get_bind] at h
  dsimp only at h
  obtain ⟨live, h⟩ := returns_refusal_bind.1 h
  refine ⟨by simpa using live, ?_⟩
  split at h
  · exact (not_returns_throw h).elim
  next shown => simpa using shown

omit [IsPreorder State R] in
/-- What a reference points at is found where it points, with the identity that
it was issued for. -/
theorem returns_value {s t : State} (h : Returns (value r) s v t) :
    targetValue? s r.target = some v ∧ v.resourceId? = r.identity ∧ s = t := by
  unfold value at h
  rw [returns_get_bind] at h
  split at h
  next w found =>
    split at h
    next same =>
      obtain ⟨rfl, rfl⟩ := returns_pure.1 h
      exact ⟨found, same, rfl⟩
    · exact (not_returns_throw h).elim
  · exact (not_returns_throw h).elim

omit [IsPreorder State R] in
/-- Replacing writes the value at the target. -/
theorem outcome_replace {target : Target} (s : State) :
    outcome (replace target v) s = (.ok (), s.writeAt target v) := by
  cases target <;> rfl

/-- The reference is live and the value is the one it points at. -/
def Sees (r : Reference) (s : State) (v : Value) : Prop :=
  s.loans.isLive r = true ∧ targetValue? s r.target = some v

/-- **The type a reference was granted at shows the member.** -/
def Grants (r : Reference) (s : State) (member : String) : Prop :=
  (s.registry.members r.granted.target).contains member = true

/-- Reading a member only looks. -/
theorem guards_read : Guards R (read r member) :=
  ⟨_, rfl, keeps_checkAccess.bind fun _ => keeps_value.bind fun _ =>
    Keeps.ofExcept.bind fun _ => keeps_ofValueFault⟩

/-- **Setting a member** fills a field of a resource, or writes one of a struct.
-/
theorem does_set
    (filled : ∀ s (owner : Resource), Sees r s owner.toValue → v.isStorable = true →
      Grants r s member →
        R s (s.doing (Elements.putField owner r.target.text member v) fun owner' u =>
        u.writeAt r.target owner'.toValue))
    (assigned : ∀ s (old new : Struct), Sees r s old.toValue → v.isStorable = true →
      old.set member v = .ok new → Grants r s member →
      Table.contains old.fields member = true → R s (s.writeAt r.target new.toValue)) :
    Guards R (set r member v) := by
  refine ⟨_, rfl, fun s => Keeps.reads_bind keeps_checkAccess fun _ granted =>
    Keeps.reads_bind Storage.keeps_ensureStorable fun _ accepted =>
      Keeps.reads_bind keeps_value fun owner looked => ?_⟩
  obtain ⟨live, shown⟩ := granted_of_checkAccess granted
  have storable := Storage.storable_of_ensureStorable accepted
  obtain ⟨found, -, -⟩ := returns_value looked
  split
  next id typeName fields =>
    refine keeps_doing (filled s ⟨id, typeName, fields⟩ ⟨live, found⟩ storable shown)
      fun owner' u => ?_
    rw [outcome_replace]
  next typeName fields =>
    split
    · exact Std.Refl.refl s
    next has =>
      refine Keeps.reads_bind keeps_ofValueFault fun new accepted => ?_
      rw [outcome_replace]
      exact assigned s ⟨typeName, fields⟩ new ⟨live, found⟩ storable
        (returns_ofValueFault.1 accepted).1 shown (by simpa using has)
  · exact Std.Refl.refl s

omit [IsPreorder State R] in
/-- **Changing a container in a member** fails where it looks, or is an action
on the ledger and then a write. -/
theorem outcome_change (action : Value → Place → String → LedgerM (α × Value)) (s : State) :
    (∃ e, Fails (change r member action) s e s) ∨
      ∃ (owner : Resource) (container : Value), Sees r s owner.toValue
        ∧ owner.field? member = some container ∧ Grants r s member
        ∧ outcome (change r member action) s = outcome
          (onLedger (action container (.field owner.id member) (owner.typeName ++ "." ++ member))
            >>= fun p => replace r.target (owner.putField member p.2).toValue
            >>= fun _ => pure p.1) s := by
  rcases Keeps.outcome_reads_bind (m := checkAccess r member) keeps_checkAccess s with
    refused | ⟨_, granted, goes⟩
  · exact .inl refused
  obtain ⟨live, shown⟩ := granted_of_checkAccess granted
  unfold change Fails
  rw [goes]
  rcases Keeps.outcome_reads_bind (m := value r) keeps_value s with refused | ⟨v, looked, goes⟩
  · exact .inl refused
  obtain ⟨found, -, -⟩ := returns_value looked
  rw [goes]
  split
  · exact .inl ⟨_, rfl⟩
  next owner resource =>
    obtain rfl := Value.toValue_of_resource? resource
    dsimp only
    split
    · exact .inl ⟨_, rfl⟩
    · split
      · exact .inl ⟨_, rfl⟩
      next container held => exact .inr ⟨owner, container, ⟨live, found⟩, held, shown, rfl⟩

/-- **Changing a member** acts on the ledger, and writes the owner back with the
new container. -/
theorem does_change {action : Value → Place → String → LedgerM (α × Value)}
    (did : ∀ s (owner : Resource) container, Sees r s owner.toValue →
      owner.field? member = some container → Grants r s member →
      R s (s.doing (action container (.field owner.id member) (owner.typeName ++ "." ++ member))
        fun p u => u.writeAt r.target (owner.putField member p.2).toValue)) :
    Keeps R (change r member action) := by
  intro s
  rcases outcome_change action s with ⟨e, refused⟩ | ⟨owner, container, seen, held, shown, goes⟩
  · rw [refused]
    exact Std.Refl.refl s
  · rw [goes]
    refine keeps_doing (did s owner container seen held shown) fun p u => ?_
    rw [outcome_bind, outcome_replace]
    rfl

/-- Putting an element into a member is such a change, -/
theorem does_insert
    (did : ∀ s (owner : Resource) container, v.isStorable = true → Sees r s owner.toValue →
      owner.field? member = some container → Grants r s member →
      R s (s.doing (Elements.insert container (.field owner.id member)
          (owner.typeName ++ "." ++ member) key v) fun new u =>
        u.writeAt r.target (owner.putField member new).toValue)) :
    Guards R (insert r member key v) :=
  ⟨_, rfl, fun s => Keeps.reads_bind Storage.keeps_ensureStorable fun _ accepted =>
    does_change (fun s owner container seen held shown => doing_unit
      (did s owner container (Storage.storable_of_ensureStorable accepted) seen held shown)) s⟩

/-- and so is putting one at its end, -/
theorem does_push
    (did : ∀ s (owner : Resource) container, v.isStorable = true → Sees r s owner.toValue →
      owner.field? member = some container → Grants r s member →
      R s (s.doing (Elements.push container (.field owner.id member)
          (owner.typeName ++ "." ++ member) v) fun new u =>
        u.writeAt r.target (owner.putField member new).toValue)) :
    Guards R (push r member v) :=
  ⟨_, rfl, fun s => Keeps.reads_bind Storage.keeps_ensureStorable fun _ accepted =>
    does_change (fun s owner container seen held shown => doing_unit
      (did s owner container (Storage.storable_of_ensureStorable accepted) seen held shown)) s⟩

/-- and taking one out. -/
theorem does_remove
    (did : ∀ s (owner : Resource) container, Sees r s owner.toValue →
      owner.field? member = some container → Grants r s member →
      R s (s.doing (Elements.remove container (.field owner.id member)
          (owner.typeName ++ "." ++ member) key) fun p u =>
        u.writeAt r.target (owner.putField member p.2).toValue)) :
    Guards R (remove r member key) :=
  ⟨_, rfl, does_change did⟩

end Members

/-! ## Calls -/

/-- **The action is composed** of guarded actions and of actions that never
fail, and all of them keep the relation. -/
inductive Composed (R : State → State → Prop) : {α : Type} → CustodyM α → Prop where
  | guarded {α : Type} {m : CustodyM α} (h : Guards R m) : Composed R m
  | sure {α : Type} {m : CustodyM α} (kept : Keeps R m) (returns : ∀ s e t, ¬Fails m s e t) :
    Composed R m
  | bind {α β : Type} {m : CustodyM α} {k : α → CustodyM β} (first : Composed R m)
    (next : ∀ a, Composed R (k a)) : Composed R (m >>= k)

namespace Composed

/-- A relation that holds of deeds and of notes holds of the call. -/
theorem keeps {m : CustodyM α} (h : Composed R m) (note : ∀ s fault, R s (s.note fault)) :
    Keeps R m := by
  induction h with
  | guarded h => exact h.keeps note
  | sure kept => exact kept
  | bind _ _ first next => exact first.bind next

/-- What is composed may be reported. -/
theorem report {m : CustodyM α} (h : Composed R m) (f : α → β) :
    Composed R (m >>= fun a => pure (f a)) :=
  h.bind fun _ => sure Keeps.pure fun _ _ _ => not_fails_pure

/-- A borrow reports its verdict and does no more. -/
theorem ofBorrow {action : BorrowM Reference} (h : Keeps R action) :
    Composed R (Reply.ofBorrow action) := by
  refine (sure (Keeps.ofBorrow h) fun _ _ _ => not_fails_ofBorrow).bind fun r => ?_
  split
  · exact sure Keeps.pure fun _ _ _ => not_fails_pure
  · exact sure Keeps.pure fun _ _ _ => not_fails_pure

end Composed

namespace Operation

/-- Whether the call begins or ends a transaction. -/
def isBound : Operation → Bool
  | start _ | commit | abort => true
  | _ => false

/-- Whether the call asks for a reference. -/
def isBorrow : Operation → Bool
  | borrow _ _ | borrowStored _ _ _ | borrowLocal _ _ _ => true
  | _ => false

/-- **What a call does** to the state, when it comes to do something. A call
that begins or ends a transaction is not described. -/
inductive Does : Operation → State → State → Prop where
  | made {s typeName fields} :
    (createResource typeName fields).Does s (s.doing (Construction.enter fields) fun _ u => u)
  | destroyed {s v} : (destroy v).Does s (s.doing (Teardown.razeValue v) fun _ u => u)
  | dismantled {s r p} : (destroyWith r p).Does s (s.doing (Teardown.razePlanned r p) fun _ u => u)
  | opened {s : State} {limit id stack} (pushed : s.stack.push limit = .ok (id, stack)) :
    pushFrame.Does s { s with stack := stack }
  | closed {s : State} {frame f stack} (popped : s.stack.pop frame = .ok (f, stack)) :
    (popFrame frame).Does s { s with stack := stack, loans := s.loans.releaseFrame frame }
  | bound {s : State} {frame name v} (free : s.loans.isBorrowed (.binding frame name) = false) :
    (bind frame name v).Does s (s.doing (Ledger.settleValue v (Locals.place frame name)) fun _ u =>
      { u with stack := u.stack.setLocal frame name (.live v) })
  | taken {s : State} {frame name v} (found : s.stack.value frame name = .ok v)
      (free : s.loans.isBorrowed (.binding frame name) = false) :
    (take frame name).Does s (s.doing (Ledger.releaseValue v (Locals.place frame name)) fun _ u =>
      { u with stack := u.stack.setLocal frame name .moved })
  /-- Passing takes what is bound in one frame. -/
  | passedOut {s t : State} {caller argument callee parameter}
      (taken : (take caller argument).Does s t) :
    (pass caller argument callee parameter).Does s t
  /-- Passing binds what it took in the other. -/
  | passedIn {s t : State} {caller argument callee parameter v}
      (bound : (bind callee parameter v).Does s t) :
    (pass caller argument callee parameter).Does s t
  | assigned {s t : State} {frame source target}
      (passed : (pass frame source frame target).Does s t) :
    (assign frame source target).Does s t
  | inserted {s : State} {frame name key v container}
      (found : s.stack.value frame name = .ok container)
      (free : s.loans.isBorrowed (.binding frame name) = false) :
    (insert frame name key v).Does s
      (s.doing (Elements.insert container (Locals.place frame name) name key v) fun new u =>
        { u with stack := u.stack.setLocal frame name (.live new) })
  | pushed {s : State} {frame name v container}
      (found : s.stack.value frame name = .ok container)
      (free : s.loans.isBorrowed (.binding frame name) = false) :
    (push frame name v).Does s
      (s.doing (Elements.push container (Locals.place frame name) name v) fun new u =>
        { u with stack := u.stack.setLocal frame name (.live new) })
  | removed {s : State} {frame name key container}
      (found : s.stack.value frame name = .ok container)
      (free : s.loans.isBorrowed (.binding frame name) = false) :
    (remove frame name key).Does s
      (s.doing (Elements.remove container (Locals.place frame name) name key) fun p u =>
        { u with stack := u.stack.setLocal frame name (.live p.2) })
  | emptied {s : State} {frame name field} {r : Resource}
      (found : s.stack.value frame name = .ok r.toValue)
      (free : s.loans.isBorrowed (.binding frame name) = false) :
    (takeField frame name field).Does s (s.doing (Elements.takeField r name field) fun p u =>
      { u with stack := u.stack.setLocal frame name (.live p.2.toValue) })
  | filled {s : State} {frame name field v} {r : Resource}
      (found : s.stack.value frame name = .ok r.toValue)
      (free : s.loans.isBorrowed (.binding frame name) = false) :
    (putField frame name field v).Does s (s.doing (Elements.putField r name field v) fun r' u =>
      { u with stack := u.stack.setLocal frame name (.live r'.toValue) })
  | saved {s : State} {address path v} (may : s.Authorizes address)
      (values : path.domain.holdsValues = true) (storable : v.isStorable = true)
      (free : s.store.contains address path = false) :
    (save address path v).Does s (s.doing (Ledger.settleValue v (.stored address path)) fun _ u =>
      { u with store := u.store.insert address path (.value v) })
  | loaded {s : State} {address path expected v} (may : s.Authorizes address)
      (values : path.domain.holdsValues = true) (found : s.store.value? address path = some v)
      (free : s.loans.isBorrowed (.stored address path) = false) :
    (load address path expected).Does s
      (s.doing (Ledger.releaseValue v (.stored address path)) fun _ u =>
        { u with store := u.store.erase address path })
  | linked {s : State} {address source target promise} (may : s.Authorizes address)
      (links : source.domain.holdsLinks = true) (free : s.store.contains address source = false) :
    (link address source target promise).Does s
      { s with store := s.store.insert address source (.link ⟨source, target, promise⟩) }
  | unlinked {s : State} {address path l} (may : s.Authorizes address)
      (links : path.domain.holdsLinks = true) (found : s.store.link? address path = some l) :
    (unlink address path).Does s { s with store := s.store.erase address path }
  | lent {o : Operation} {s : State} {target id loans} (asked : o.isBorrow = true)
      (may : s.MayLend target) (acquired : s.loans.acquire target s.borrower = some (id, loans)) :
    o.Does s { s with loans := loans }
  | filledMember {s : State} {r member v} {owner : Resource} (seen : Members.Sees r s owner.toValue)
      (storable : v.isStorable = true) (shown : Members.Grants r s member) :
    (setMember r member v).Does s
      (s.doing (Elements.putField owner r.target.text member v) fun owner' u =>
        u.writeAt r.target owner'.toValue)
  | assignedMember {s : State} {r member v} {old new : Struct} (seen : Members.Sees r s old.toValue)
      (storable : v.isStorable = true) (assigned : old.set member v = .ok new)
      (shown : Members.Grants r s member) (has : Table.contains old.fields member = true) :
    (setMember r member v).Does s (s.writeAt r.target new.toValue)
  | insertedMember {s : State} {r member key v} {owner : Resource} {container}
      (seen : Members.Sees r s owner.toValue) (storable : v.isStorable = true)
      (held : owner.field? member = some container) (shown : Members.Grants r s member) :
    (insertMember r member key v).Does s
      (s.doing (Elements.insert container (.field owner.id member)
          (owner.typeName ++ "." ++ member) key v) fun new u =>
        u.writeAt r.target (owner.putField member new).toValue)
  | pushedMember {s : State} {r member v} {owner : Resource} {container}
      (seen : Members.Sees r s owner.toValue) (storable : v.isStorable = true)
      (held : owner.field? member = some container) (shown : Members.Grants r s member) :
    (pushMember r member v).Does s
      (s.doing (Elements.push container (.field owner.id member)
          (owner.typeName ++ "." ++ member) v) fun new u =>
        u.writeAt r.target (owner.putField member new).toValue)
  | removedMember {s : State} {r member key} {owner : Resource} {container}
      (seen : Members.Sees r s owner.toValue) (held : owner.field? member = some container)
      (shown : Members.Grants r s member) :
    (removeMember r member key).Does s
      (s.doing (Elements.remove container (.field owner.id member)
          (owner.typeName ++ "." ++ member) key) fun p u =>
        u.writeAt r.target (owner.putField member p.2).toValue)

/-- **A call does nothing else.** What holds of every deed of a call holds of
the call, however it ends. -/
theorem composed {o : Operation} (inner : o.isBound = false) (did : ∀ s t, o.Does s t → R s t) :
    Composed R o.perform := by
  have lends {action : BorrowM Reference} (asked : o.isBorrow = true)
      (lends : Borrows.Lends action) : Composed R (Reply.ofBorrow action) :=
    Composed.ofBorrow (lends.keeps fun s _ _ _ may acquired => did s _ (.lent asked may acquired))
  have passes {caller callee : FrameId} {argument parameter : String}
      (did : ∀ s t, (pass caller argument callee parameter).Does s t → R s t) :
      Composed R (Locals.pass caller argument callee parameter) :=
    (Composed.guarded (Locals.does_take fun s _ free found =>
      did s _ (.passedOut (.taken found free)))).bind
      fun _ => Composed.guarded (Locals.does_bind fun s free => did s _ (.passedIn (.bound free)))
  cases o with
  | start | commit | abort => cases inner
  | createResource =>
    exact (Composed.guarded (Construction.does_createResource fun s => did s _ .made)).report _
  | createStruct => exact (Composed.guarded Construction.guards_createStruct).report _
  | pushFrame =>
    exact (Composed.guarded (Frames.guards_push fun s _ _ _ pushed =>
      did s _ (.opened pushed))).report _
  | popFrame =>
    exact (Composed.guarded (Frames.guards_pop fun s _ _ popped =>
      did s _ (.closed popped))).report _
  | bind =>
    exact (Composed.guarded (Locals.does_bind fun s free => did s _ (.bound free))).report _
  | take =>
    exact (Composed.guarded (Locals.does_take fun s _ free found =>
      did s _ (.taken found free))).report _
  | readLocal => exact (Composed.guarded Locals.guards_read).report _
  | copyLocal => exact (Composed.guarded Locals.guards_copy).report _
  | pass => exact (passes did).report _
  | assign => exact (passes fun s t h => did s t (.assigned h)).report _
  | insert =>
    exact (Composed.guarded (Locals.does_change fun s _ free found =>
      doing_unit (did s _ (.inserted found free)))).report _
  | push =>
    exact (Composed.guarded (Locals.does_change fun s _ free found =>
      doing_unit (did s _ (.pushed found free)))).report _
  | remove =>
    exact (Composed.guarded (Locals.does_change fun s _ free found =>
      did s _ (.removed found free))).report _
  | takeField =>
    exact (Composed.guarded (Locals.does_changeResource fun s _ free found =>
      did s _ (.emptied found free))).report _
  | putField =>
    exact (Composed.guarded (Locals.does_changeResource fun s _ free found =>
      doing_unit (did s _ (.filled found free)))).report _
  | save =>
    exact (Composed.guarded (Storage.does_save fun s may values storable free =>
      did s _ (.saved may values storable free))).report _
  | load =>
    exact (Composed.guarded (Storage.does_load fun s _ may values found free =>
      did s _ (.loaded may values found free))).report _
  | copyStored => exact (Composed.guarded Storage.guards_copy).report _
  | typeAt => exact (Composed.guarded Storage.guards_typeAt).report _
  | storedPaths => exact (Composed.guarded Storage.guards_paths).report _
  | link =>
    exact (Composed.guarded (Links.does_add fun s may links free =>
      did s _ (.linked may links free))).report _
  | unlink =>
    exact (Composed.guarded (Links.does_remove fun s _ may links found =>
      did s _ (.unlinked may links found))).report _
  | capability => exact (Composed.guarded Links.guards_capability).report _
  | linkTarget => exact (Composed.guarded Links.guards_target).report _
  | checkCapability | isLive => exact (Composed.sure Keeps.get fun _ _ _ => not_fails_get).report _
  | borrow => exact lends rfl Borrows.lends_throughCapability
  | borrowStored => exact lends rfl Borrows.lends_stored
  | borrowLocal => exact lends rfl Borrows.lends_ofLocal
  | readMember => exact (Composed.guarded Members.guards_read).report _
  | setMember =>
    exact (Composed.guarded (Members.does_set
      (fun s _ seen storable shown => did s _ (.filledMember seen storable shown))
      fun s _ _ seen storable set shown has =>
        did s _ (.assignedMember seen storable set shown has))).report _
  | insertMember =>
    exact (Composed.guarded (Members.does_insert fun s _ _ storable seen held shown =>
      did s _ (.insertedMember seen storable held shown))).report _
  | pushMember =>
    exact (Composed.guarded (Members.does_push fun s _ _ storable seen held shown =>
      did s _ (.pushedMember seen storable held shown))).report _
  | removeMember =>
    exact (Composed.guarded (Members.does_remove fun s _ _ seen held shown =>
      did s _ (.removedMember seen held shown))).report _
  | destroy => exact (Composed.guarded (Teardown.does_destroy fun s => did s _ .destroyed)).report _
  | destroyWith =>
    exact (Composed.guarded (Teardown.does_destroyWith fun s => did s _ .dismantled)).report _

end Operation

end Custody
