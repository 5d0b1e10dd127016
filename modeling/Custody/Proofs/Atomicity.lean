import Custody.Proofs.Codec.Store
import Custody.Proofs.Runs
import Custody.Proofs.Tables
import Custody.Scenario

/-!
# A transaction is all or nothing

A transaction commits exactly when no fault has marked it and the ledger is
**settled**: no resource is in flight and none is held by a local. Every
other end rolls back: the store is read back from the bytes kept when the
transaction began, and the records are the ones kept then.

The way there has three steps. Closing all frames of a settled ledger returns
and does nothing else; closing them never touches the ledger, so a ledger
that is not settled is found out afterwards; and what the transaction keeps
is still there at its end, whatever moves were made in between
(`State.continues_after`).
-/

namespace Custody

/-! ## Settled ledgers -/

/-- Whether a transaction must not leave the resource where it is: in flight,
or in a local. -/
def Holding.lingers : Holding → Bool
  | .owned place => place.frame?.isSome
  | .inFlight => true
  | .destroyed => false

namespace Ledger

/-- **The ledger is settled**: no record is in flight or rooted in a
local. -/
def Settled (l : Ledger) : Prop := ∀ id h, l.holding? id = some h → h.lingers = false

/-- The records list what is on record. -/
theorem mem_records {l : Ledger} {id : ResourceId} {h : Holding} :
    (id, h) ∈ l.records.entries ↔ l.holding? id = some h :=
  SortedMap.mem_entries_iff

/-- Nothing lingers exactly in a settled ledger. -/
theorem lingering_eq_nil_iff {l : Ledger} : l.lingering = [] ↔ l.Settled := by
  unfold lingering
  rw [List.filterMap_eq_nil_iff]
  constructor
  · intro none id h recorded
    have := none (id, h) (mem_records.2 recorded)
    cases h with
    | owned place => simpa [Holding.lingers] using this
    | inFlight => cases this
    | destroyed => rfl
  · rintro settled ⟨id, h⟩ mem
    have := settled id h (mem_records.1 mem)
    cases h with
    | owned place => simpa [Holding.lingers] using this
    | inFlight => cases this
    | destroyed => rfl

/-- **The records rooted in a frame.** -/
theorem mem_heldIn_iff {l : Ledger} {frame : FrameId} {id : ResourceId} {place : Place} :
    (id, place) ∈ l.heldIn frame
      ↔ l.holding? id = some (.owned place) ∧ place.frame? = some frame := by
  unfold heldIn
  rw [List.mem_filterMap]
  constructor
  · rintro ⟨⟨id', h⟩, mem, kept⟩
    cases h with
    | owned place' =>
      by_cases there : place'.frame? = some frame
      · simp only [there, if_true, Option.some.injEq, Prod.mk.injEq] at kept
        obtain ⟨rfl, rfl⟩ := kept
        exact ⟨mem_records.1 mem, there⟩
      · simp [there] at kept
    | _ => cases kept
  · rintro ⟨known, there⟩
    exact ⟨(id, .owned place), mem_records.2 known, by simp [there]⟩

/-- A settled ledger holds nothing in any frame. -/
theorem Settled.heldIn {l : Ledger} (settled : l.Settled) (frame : FrameId) :
    l.heldIn frame = [] := by
  refine List.eq_nil_iff_forall_not_mem.2 fun root mem => ?_
  obtain ⟨known, there⟩ := mem_heldIn_iff.1 mem
  have rooted : root.2.frame?.isSome = false := settled root.1 _ known
  rw [there] at rooted
  cases rooted

end Ledger

/-! ## Closing all frames -/

namespace Frames

variable {s s' : State} {frame : FrameId}

/-- Closing a frame that holds nothing returns. -/
theorem returns_pop {f : Frame} {stack : CallStack} (popped : s.stack.pop frame = .ok (f, stack))
    (empty : s.ledger.heldIn frame = []) :
    Returns (pop frame) s ()
      { s with stack := stack, loans := s.loans.releaseFrame frame } := by
  unfold pop
  rw [returns_guarded, returns_get_bind]
  refine returns_ofExcept_bind.2 ⟨(f, stack), popped, ?_⟩
  dsimp only
  rw [returns_modify_bind, returns_get_bind]
  simp only [empty, List.head?_nil]
  exact returns_pure.2 ⟨rfl, rfl⟩

/-- Closing frames one after the other closes the first and then the others. -/
theorem returns_popAll_cons {t u : State} {rest : List FrameId}
    (first : Returns (pop frame) s () t) (others : Returns (popAll rest) t () u) :
    Returns (popAll (frame :: rest)) s () u := by
  unfold popAll
  rw [returns_observing_bind, first, returns_observing_bind, others]
  exact returns_pure.2 ⟨rfl, rfl⟩

/-- **With a settled ledger all frames close** and nothing but frames and
references ends. -/
theorem returns_popAll (settled : s.ledger.Settled) :
    ∃ loans : Loans, loans.next = s.loans.next ∧
      Returns (popAll s.stack.ids) s () { s with stack := s.stack.clear, loans := loans } := by
  rcases s with ⟨settings, registry, store, ledger, ⟨frames, next⟩, loans, transaction⟩
  induction frames generalizing loans with
  | nil => exact ⟨loans, rfl, returns_pure.2 ⟨rfl, rfl⟩⟩
  | cons f frames ih =>
    obtain ⟨left, same, others⟩ := ih (loans.releaseFrame f.id) settled
    refine ⟨left, same, returns_popAll_cons (returns_pop (f := f) ?_ (settled.heldIn _)) others⟩
    exact if_pos rfl

/-- The frames down to a given one are those further in, and this one. -/
theorem downTo_eq {frames : List Frame} {inner outer : List FrameId}
    (opened : frames.map Frame.id = inner ++ frame :: outer) (apart : frame ∉ inner) :
    downTo frame frames = inner ++ [frame] := by
  induction inner generalizing frames with
  | nil =>
    obtain ⟨f, frames, rfl, rfl, -⟩ := List.map_eq_cons_iff.1 opened
    exact if_pos rfl
  | cons id inner ih =>
    obtain ⟨f, frames, rfl, rfl, others⟩ := List.map_eq_cons_iff.1 opened
    obtain ⟨ne, apart⟩ := not_or.1 (List.mem_cons.not.1 apart)
    unfold downTo
    rw [if_neg (Ne.symm ne), ih others apart]
    rfl

/-- The frames down to the outermost one are all frames. -/
theorem downTo_outermost {frames : List Frame} {f : Frame}
    (distinct : (frames.map Frame.id).Nodup) (last : frames.getLast? = some f) :
    downTo f.id frames = frames.map Frame.id := by
  obtain ⟨inner, rfl⟩ := List.getLast?_eq_some_iff.1 last
  rw [List.map_append] at distinct ⊢
  refine downTo_eq (List.map_append) fun mem => ?_
  exact (List.nodup_append.1 distinct).2.2 _ mem _ List.mem_cons_self rfl

/-- Unwinding a settled custodian closes every frame. -/
theorem returns_unwind (settled : s.ledger.Settled) (ordered : s.stack.Ordered)
    (outermost : s.stack.outermost? = some frame) :
    ∃ loans : Loans, loans.next = s.loans.next ∧
      Returns (unwind frame) s () { s with stack := s.stack.clear, loans := loans } := by
  obtain ⟨f, last, rfl⟩ := Option.map_eq_some_iff.1 outermost
  have among : s.stack.contains f.id = true :=
    List.any_eq_true.2 ⟨f, List.mem_of_getLast? last, by simp⟩
  obtain ⟨loans, same, closed⟩ := returns_popAll settled
  refine ⟨loans, same, ?_⟩
  unfold unwind
  rw [returns_get_bind]
  dsimp only
  rw [if_pos among, downTo_outermost ordered.nodup last]
  exact closed

/-! ### Closing frames leaves store and ledger alone -/

/-- The states have the same store and the same ledger. -/
structure SameHoldings (s t : State) : Prop where
  store : t.store = s.store
  ledger : t.ledger = s.ledger

instance : IsPreorder State SameHoldings where
  refl _ := ⟨rfl, rfl⟩
  trans _ _ _ h h' := ⟨h'.store.trans h.store, h'.ledger.trans h.ledger⟩

/-- A mark for abort leaves the holdings alone. -/
theorem sameHoldings_note (s : State) (fault : Fault) : SameHoldings s (s.note fault) := by
  unfold State.note
  split <;> exact ⟨rfl, rfl⟩

/-- Unwinding leaves the holdings alone. -/
theorem sameHoldings_unwind : Keeps SameHoldings (unwind frame) :=
  keeps_unwind (fun _ => (guards_pop fun _ _ _ _ => ⟨rfl, rfl⟩).keeps sameHoldings_note)
    sameHoldings_note

end Frames

/-! ## Ending a transaction -/

/-- Whether the running transaction is marked as doomed. -/
def State.isPoisoned (s : State) : Bool := s.transaction.any Transaction.isPoisoned

/-- The custodian is poisoned exactly when its transaction is. -/
theorem State.isPoisoned_of_running {s : State} {t : Transaction} (h : s.transaction = some t) :
    s.isPoisoned = t.isPoisoned := by
  rw [State.isPoisoned, h]
  rfl

/-- Without a transaction there is nothing to poison. -/
theorem State.isPoisoned_of_free {s : State} (h : s.transaction = none) : s.isPoisoned = false := by
  rw [State.isPoisoned, h]
  rfl

/-- The state rolled back to a store and records. -/
def State.rolledBack (s : State) (store : Store) (records : SortedMap ResourceId Holding) :
    State :=
  { s with
    store := store
    ledger := { s.ledger with records := records }
    stack := s.stack.clear
    loans := s.loans.releaseAll
    transaction := none }

/-- The state with its transaction committed. -/
def State.committed (s : State) : State :=
  { s with
    ledger := s.ledger.forgetDestroyed
    stack := s.stack.clear
    loans := s.loans.releaseAll
    transaction := none }

namespace Transactions

open CustodyM

variable {s s' : State} {t : Transaction} {store : Store}

/-- The check for lingering resources passes exactly on a settled ledger. -/
theorem returns_checkNothingLingers {u : Unit} :
    Returns checkNothingLingers s u s' ↔ s.ledger.Settled ∧ s = s' := by
  unfold checkNothingLingers
  rw [returns_get_bind, ← Ledger.lingering_eq_nil_iff]
  cases s.ledger.lingering with
  | nil => simp
  | cons step steps =>
    refine iff_of_false not_returns_throw ?_
    rintro ⟨h, -⟩
    cases h

/-- What has to succeed before a commit succeeds when the ledger is settled,
and closes all frames. -/
theorem returns_settleUp (settled : s.ledger.Settled) (ordered : s.stack.Ordered) :
    ∃ loans : Loans, loans.next = s.loans.next ∧
      Returns settleUp s () { s with stack := s.stack.clear, loans := loans } := by
  rcases outermost : s.stack.outermost? with _ | frame
  · have empty : s.stack = s.stack.clear := by
      have none : s.stack.frames = [] := by
        simpa [CallStack.outermost?] using outermost
      unfold CallStack.clear
      rw [← none]
    have same : s = { s with stack := s.stack.clear, loans := s.loans } := by
      rw [← empty]
    refine ⟨s.loans, rfl, ?_⟩
    unfold settleUp
    rw [returns_get_bind, outermost, ← same]
    exact returns_checkNothingLingers.2 ⟨settled, rfl⟩
  · obtain ⟨loans, next, closed⟩ := Frames.returns_unwind settled ordered outermost
    refine ⟨loans, next, ?_⟩
    unfold settleUp
    rw [returns_get_bind, outermost]
    exact returns_bind.2 ⟨(), _, closed, returns_checkNothingLingers.2 ⟨settled, rfl⟩⟩

/-- It succeeds with a settled ledger only, since closing frames leaves the
ledger alone. -/
theorem settled_of_settleUp {u : Unit} (h : Returns settleUp s u s') : s.ledger.Settled := by
  unfold settleUp at h
  rw [returns_get_bind] at h
  dsimp only at h
  split at h
  · obtain ⟨_, w, unwound, checked⟩ := returns_bind.1 h
    rw [← (Frames.sameHoldings_unwind.of_returns unwound).ledger]
    exact (returns_checkNothingLingers.1 checked).1
  · exact (returns_checkNothingLingers.1 h).1

/-- What has to succeed before a commit only closes frames. -/
theorem keeps_settleUp {R : State → State → Prop} [IsPreorder State R]
    (closes : ∀ frame, Keeps R (Frames.unwind frame)) : Keeps R settleUp := by
  have checks : Keeps R checkNothingLingers := by
    refine Keeps.get.bind fun s => ?_
    split
    · exact Keeps.throw
    · exact Keeps.pure
  refine Keeps.get.bind fun s => ?_
  split
  · exact (closes _).bind fun _ => checks
  · exact checks

/-- Settling up keeps the transaction going. -/
theorem continuing_settleUp : Continuing settleUp :=
  keeps_settleUp fun _ => Frames.continuing_unwind

/-- A commit that succeeds has settled up before it ended the transaction. -/
theorem settledUp_of_commit {u : Unit} (h : Returns commit s u s') :
    ∃ w, Returns settleUp s () w ∧ s' = { w with
      loans := w.loans.releaseAll, ledger := w.ledger.forgetDestroyed, transaction := none } := by
  obtain ⟨t, _, required, h⟩ := returns_bind.1 h
  obtain ⟨-, rfl⟩ := returns_requireTransaction.1 required
  split at h
  · obtain ⟨_, _, -, h⟩ := returns_bind.1 h
    exact (not_returns_throw h).elim
  · rw [returns_observing_bind] at h
    rcases settling : outcome settleUp s with ⟨_ | _, w⟩
    · rw [settling] at h
      obtain ⟨_, _, -, h⟩ := returns_bind.1 h
      exact (not_returns_throw h).elim
    · rw [settling] at h
      exact ⟨w, settling, (returns_modify.1 h).symm⟩

/-- A commit that succeeds leaves the store as it is and forgets what was
destroyed. -/
theorem ended_of_commit {u : Unit} (h : Returns commit s u s') :
    s'.store = s.store ∧ s'.ledger = s.ledger.forgetDestroyed ∧ s'.transaction = none := by
  obtain ⟨w, settling, rfl⟩ := settledUp_of_commit h
  have same := (keeps_settleUp fun _ => Frames.sameHoldings_unwind).of_returns settling
  exact ⟨same.store, congrArg Ledger.forgetDestroyed same.ledger, rfl⟩

/-- A commit succeeds with a settled ledger only. -/
theorem settled_of_commit {u : Unit} (h : Returns commit s u s') : s.ledger.Settled := by
  obtain ⟨w, settling, -⟩ := settledUp_of_commit h
  exact settled_of_settleUp settling

/-- A commit leaves the store as the transaction left it. -/
theorem store_of_commit {u : Unit} (h : Returns commit s u s') : s'.store = s.store :=
  (ended_of_commit h).1

/-- **An abort rolls back** to what the bytes and the records kept say. -/
theorem returns_abort (running : s.transaction = some t)
    (decodes : Store.ofBytes t.snapshot = .ok store) :
    Returns abort s () (s.rolledBack store t.records) := by
  unfold abort
  refine returns_bind.2 ⟨t, s, returns_requireTransaction.2 ⟨running, rfl⟩, ?_⟩
  rw [returns_modify_bind]
  exact returns_ofExcept_bind.2 ⟨store, decodes, returns_modify.2 rfl⟩

/-- Refusing a commit rolls back and gives the reason. -/
theorem fails_refuse {reason : String} (running : s.transaction = some t)
    (decodes : Store.ofBytes t.snapshot = .ok store) :
    Fails (refuse reason) s (.transactionAborted reason) (s.rolledBack store t.records) :=
  fails_bind.2 (.inr ⟨(), _, returns_abort running decodes, fails_throw.2 ⟨rfl, rfl⟩⟩)

/-- **A commit succeeds** when nothing dooms the transaction. -/
theorem returns_commit (running : s.transaction = some t) (clean : t.isPoisoned = false)
    (settled : s.ledger.Settled) (ordered : s.stack.Ordered) :
    Returns commit s () s.committed := by
  have unmarked : t.poison = none := by simpa [Transaction.isPoisoned] using clean
  obtain ⟨loans, next, closed⟩ := returns_settleUp settled ordered
  have ended : s.loans.releaseAll = loans.releaseAll := by
    unfold Loans.releaseAll
    rw [next]
  unfold commit
  refine returns_bind.2 ⟨t, s, returns_requireTransaction.2 ⟨running, rfl⟩, ?_⟩
  rw [unmarked, returns_observing_bind, closed]
  unfold State.committed
  rw [ended]
  exact returns_modify.2 rfl

/-- **A commit of a marked transaction** rolls back and says why. -/
theorem fails_commit_marked {reason : String} (running : s.transaction = some t)
    (marked : t.poison = some reason) (decodes : Store.ofBytes t.snapshot = .ok store) :
    Fails commit s (.transactionAborted reason) (s.rolledBack store t.records) := by
  unfold commit
  refine fails_bind.2 (.inr ⟨t, s, returns_requireTransaction.2 ⟨running, rfl⟩, ?_⟩)
  rw [marked]
  exact fails_refuse running decodes

/-- **Every other commit rolls back** to what the transaction kept. -/
theorem fails_commit (running : s.transaction = some t)
    (doomed : t.isPoisoned = true ∨ ¬s.ledger.Settled)
    (decodes : Store.ofBytes t.snapshot = .ok store) :
    ∃ e u, s.Continues u ∧ Fails commit s e (u.rolledBack store t.records) := by
  have required : Returns requireTransaction s t s :=
    returns_requireTransaction.2 ⟨running, rfl⟩
  rcases marked : t.poison with _ | reason
  · have unsettled : ¬s.ledger.Settled :=
      doomed.resolve_left (by simp [Transaction.isPoisoned, marked])
    rcases h : outcome settleUp s with ⟨fault | _, u⟩
    · have goes : s.Continues u := continuing_settleUp.of_fails h
      obtain ⟨t', running', same⟩ := goes.running t running
      refine ⟨.transactionAborted fault.message, u, goes, fails_bind.2 (.inr ⟨t, s, required, ?_⟩)⟩
      rw [marked, fails_observing_bind, h, ← same.records]
      exact fails_refuse running' (same.snapshot ▸ decodes)
    · exact (unsettled (settled_of_settleUp h)).elim
  · exact ⟨.transactionAborted reason, s, State.Continues.refl s,
      fails_commit_marked running marked decodes⟩

/-- An abort lets the transaction go, and goes back to the store that was kept
if that can be read. -/
theorem keeps_abort {R : State → State → Prop} [IsPreorder State R]
    (dropped : ∀ s, R s { s with transaction := none })
    (restored : ∀ s store records, R s (s.rolledBack store records)) : Keeps R abort := by
  refine fun s => Keeps.reads_bind keeps_requireTransaction fun t required => ?_
  rw [outcome_modify_bind]
  rcases Store.ofBytes t.snapshot with fault | store
  · exact dropped s
  · exact restored s store t.records

/-- **A commit closes frames**, and then ends the transaction one way or the
other. -/
theorem keeps_commit {R : State → State → Prop} [IsPreorder State R]
    (closes : ∀ frame, Keeps R (Frames.unwind frame))
    (dropped : ∀ s, R s { s with transaction := none })
    (restored : ∀ s store records, R s (s.rolledBack store records))
    (settled : ∀ s, R s { s with
      loans := s.loans.releaseAll, ledger := s.ledger.forgetDestroyed, transaction := none }) :
    Keeps R commit := by
  have refuses {reason : String} : Keeps R (refuse reason) :=
    (keeps_abort dropped restored).bind fun _ => Keeps.throw
  refine keeps_requireTransaction.bind fun t => ?_
  split
  · exact refuses
  · refine (keeps_settleUp closes).observing.bind fun result => ?_
    split
    · exact refuses
    · exact Keeps.modify settled

/-- **A commit returns or rolls back.** -/
theorem commit_cases (running : s.transaction = some t) (ordered : s.stack.Ordered)
    (decodes : Store.ofBytes t.snapshot = .ok store) :
    (t.isPoisoned = false ∧ s.ledger.Settled ∧ Returns commit s () s.committed)
      ∨ ∃ e u, s.Continues u ∧ Fails commit s e (u.rolledBack store t.records) := by
  by_cases good : t.isPoisoned = false ∧ s.ledger.Settled
  · exact .inl ⟨good.1, good.2, returns_commit running good.1 good.2 ordered⟩
  · refine .inr (fails_commit running ?_ decodes)
    by_cases clean : t.isPoisoned = false
    · exact .inr fun settled => good ⟨clean, settled⟩
    · exact .inl (by simpa using clean)

/-- **A commit that returned** found nothing wrong. -/
theorem committed_of_commit (running : s.transaction = some t) (ordered : s.stack.Ordered)
    (decodes : Store.ofBytes t.snapshot = .ok store) (returned : Returns commit s () s') :
    s.isPoisoned = false ∧ s.ledger.Settled ∧ s' = s.committed := by
  rcases commit_cases running ordered decodes with ⟨clean, settled, committed⟩ | ⟨e, u, -, failed⟩
  · exact ⟨(State.isPoisoned_of_running running).trans clean, settled,
      (returned.unique committed).2⟩
  · exact (returned.not_fails failed).elim

/-- **A commit that fails has rolled back.** -/
theorem rolledBack_of_commit {fault : Fault} (running : s.transaction = some t)
    (ordered : s.stack.Ordered) (decodes : Store.ofBytes t.snapshot = .ok store)
    (failed : Fails commit s fault s') :
    ∃ u, s.Continues u ∧ s' = u.rolledBack store t.records := by
  rcases commit_cases running ordered decodes with ⟨-, -, committed⟩ | ⟨e, u, goes, refused⟩
  · exact (committed.not_fails failed).elim
  · exact ⟨u, goes, (failed.unique refused).2⟩

/-- What it takes to begin a transaction, and what it keeps. -/
theorem returns_start {signers : List Address} (h : Returns (start signers) s () s') :
    s.transaction = none ∧ ∃ bytes, s.store.toBytes = .ok bytes ∧
      s' = { s with
        stack := s.stack.clear
        loans := s.loans.releaseAll
        transaction := some ⟨SortedSet.ofList signers, bytes, s.ledger.records, none⟩ } := by
  unfold start at h
  rw [returns_get_bind] at h
  obtain ⟨idle, h⟩ := returns_refusal_bind.1 h
  obtain ⟨bytes, written, h⟩ := returns_ofExcept_bind.1 h
  exact ⟨by simpa using idle, bytes, written, (returns_set.1 h).symm⟩

/-- A transaction that does not begin leaves everything as it is. -/
theorem fails_start {signers : List Address} {fault : Fault}
    (h : Fails (start signers) s fault s') :
    s' = s := by
  unfold start at h
  rw [fails_get_bind] at h
  split at h
  · rcases fails_bind.1 h with h | ⟨_, _, h, -⟩
    · exact (fails_throw.1 h).2.symm
    · exact (not_returns_throw h).elim
  · rcases fails_bind.1 h with h | ⟨_, _, -, h⟩
    · exact (fails_ofExcept.1 h).2.symm
    · exact (not_fails_set h).elim

/-- A body that fails is rolled back, and its own fault is returned. -/
theorem fails_execute {α : Type} {signers : List Address} {body : CustodyM α} {fault : Fault}
    {u : State} (began : Returns (start signers) s () s') (failed : Fails body s' fault u)
    (running : u.transaction = some t) (decodes : Store.ofBytes t.snapshot = .ok store) :
    Fails (execute signers body) s fault (u.rolledBack store t.records) := by
  unfold execute
  refine fails_bind.2 (.inr ⟨(), s', began, ?_⟩)
  rw [fails_observing_bind, failed]
  exact fails_bind.2 (.inr ⟨(), _, returns_abort running decodes, fails_throw.2 ⟨rfl, rfl⟩⟩)

end Transactions

/-! ## All or nothing -/

/-- **What is left after a transaction**, begun at `s` and ended at `s2`. -/
structure State.Ended (s s2 s' : State) : Prop where
  /-- No transaction. -/
  transaction : s'.transaction = none
  /-- No frame. -/
  frames : s'.stack.frames = []
  /-- No reference. -/
  references : s'.loans.outstanding = []
  /-- No identity of a resource is free again. -/
  resources : s.ledger.next ≤ s2.ledger.next ∧ s2.ledger.next ≤ s'.ledger.next
  /-- No identity of a frame is free again. -/
  stack : s.stack.next ≤ s2.stack.next ∧ s2.stack.next ≤ s'.stack.next
  /-- No identity of a reference is free again. -/
  loans : s.loans.next ≤ s2.loans.next ∧ s2.loans.next ≤ s'.loans.next

/-- **What is stored and recorded is what was at `s`.** -/
structure State.Restored (s s' : State) : Prop where
  /-- Entry for entry, and field for field. -/
  store : s'.store = s.store
  /-- So are the bytes, -/
  bytes : s'.store.toBytes = s.store.toBytes
  /-- and the root. -/
  root : s'.store.root = s.store.root
  /-- Every record is as it was. -/
  records : s'.ledger.records = s.ledger.records

/-- Rolling back to the store and the records of a state restores it. -/
theorem State.restored_rolledBack {s u : State} {store : Store}
    {records : SortedMap ResourceId Holding} (hs : store = s.store)
    (hr : records = s.ledger.records) : s.Restored (u.rolledBack store records) :=
  ⟨hs, congrArg _ hs, congrArg _ hs, hr⟩

/-- Rolling back ends the transaction and keeps the counters where they are. -/
theorem State.ended_rolledBack {s s2 u : State}
    (resources : s.ledger.next ≤ s2.ledger.next) (stack : s.stack.next ≤ s2.stack.next)
    (loans : s.loans.next ≤ s2.loans.next) (h : s2.Continues u) (store : Store)
    (records : SortedMap ResourceId Holding) :
    s.Ended s2 (u.rolledBack store records) :=
  ⟨rfl, rfl, rfl, ⟨resources, h.ledger⟩, ⟨stack, h.stack⟩, ⟨loans, h.loans⟩⟩

/-- **A transaction is all or nothing.** After a transaction began at `s`,
whatever inner moves were made:

* a commit succeeds exactly when no fault marked the transaction and the
  ledger is settled, and then the store stays as it is and the records lose
  only what was destroyed;
* a commit that fails, an abort, which always succeeds, and an execution
  whose body fails leave the store and the records of `s`.

What is stored has to be readable, with the numbers, the ascending keys and
the distinct names that the types of the machine grant, and has to fit into
memory when it is written. -/
theorem transaction_all_or_nothing {s s1 : State} {signers : List Address} {moves : List Move}
    (readable : s.store.Readable) (writable : s.store.Writable)
    (began : Returns (Transactions.start signers) s () s1)
    (inner : ∀ m ∈ moves, m.isInner = true) :
    ((∃ s', Returns Transactions.commit (s1.after moves) () s')
        ↔ (s1.after moves).isPoisoned = false ∧ (s1.after moves).ledger.Settled)
      ∧ (∀ s', Returns Transactions.commit (s1.after moves) () s' →
        s'.store = (s1.after moves).store
          ∧ (∀ id, s'.ledger.holding? id
            = ((s1.after moves).ledger.holding? id).filter Holding.isLive)
          ∧ s.Ended (s1.after moves) s')
      ∧ (∀ fault s', Fails Transactions.commit (s1.after moves) fault s' →
        s.Restored s' ∧ s.Ended (s1.after moves) s')
      ∧ (∃ s', Returns Transactions.abort (s1.after moves) () s'
        ∧ s.Restored s' ∧ s.Ended (s1.after moves) s')
      ∧ ∀ (α : Type) (body : CustodyM α) (fault : Fault), Fails body s1 fault (s1.after moves) →
        ∃ s', Fails (Transactions.execute signers body) s fault s'
          ∧ s.Restored s' ∧ s.Ended (s1.after moves) s' := by
  obtain ⟨idle, bytes, written, rfl⟩ := Transactions.returns_start began
  have goes := State.continues_after (s := { s with
    stack := s.stack.clear
    loans := s.loans.releaseAll
    transaction := some ⟨SortedSet.ofList signers, bytes, s.ledger.records, none⟩ }) inner
  generalize hs2 : State.after _ moves = s2 at goes ⊢
  -- what the transaction keeps is there until it ends
  obtain ⟨t, running, same⟩ := goes.running _ rfl
  have decodes : Store.ofBytes t.snapshot = .ok s.store := by
    rw [same.snapshot]
    exact readable.ofBytes_toBytes written (writable bytes written)
  have ordered : s2.stack.Ordered := goes.ordered CallStack.Ordered.clear
  have marked : s2.isPoisoned = t.isPoisoned := State.isPoisoned_of_running running
  have rolledBack (u : State) (h : s2.Continues u) :
      s.Restored (u.rolledBack s.store t.records)
        ∧ s.Ended s2 (u.rolledBack s.store t.records) :=
    ⟨State.restored_rolledBack rfl same.records,
      State.ended_rolledBack (s := s) goes.ledger goes.stack goes.loans h _ _⟩
  have aborted := Transactions.returns_abort running decodes
  have committed (h : s2.isPoisoned = false ∧ s2.ledger.Settled) :
      Returns Transactions.commit s2 () s2.committed :=
    Transactions.returns_commit running (marked ▸ h.1) h.2 ordered
  have refused (h : ¬(s2.isPoisoned = false ∧ s2.ledger.Settled)) :
      ∃ fault u, s2.Continues u
        ∧ Fails Transactions.commit s2 fault (u.rolledBack s.store t.records) := by
    refine Transactions.fails_commit running ?_ decodes
    -- a transaction that is not marked is refused for what the ledger says
    by_cases clean : s2.isPoisoned = false
    · exact .inr fun settled => h ⟨clean, settled⟩
    · exact .inl (by simpa [marked] using clean)
  refine ⟨⟨?_, fun h => ⟨_, committed h⟩⟩, ?_, ?_, ⟨_, aborted, rolledBack s2 (.refl s2)⟩, ?_⟩
  · rintro ⟨s', returned⟩
    by_contra doomed
    obtain ⟨fault, u, -, failed⟩ := refused doomed
    exact returned.not_fails failed
  · intro s' returned
    by_cases good : s2.isPoisoned = false ∧ s2.ledger.Settled
    · obtain ⟨-, rfl⟩ := returned.unique (committed good)
      refine ⟨rfl, fun id => SortedMap.get?_filter _ _ id, rfl, rfl, rfl,
        ⟨goes.ledger, Nat.le_refl _⟩, ⟨goes.stack, Nat.le_refl _⟩, ⟨goes.loans, Nat.le_refl _⟩⟩
    · obtain ⟨fault, u, -, failed⟩ := refused good
      exact (returned.not_fails failed).elim
  · intro fault s' failed
    by_cases good : s2.isPoisoned = false ∧ s2.ledger.Settled
    · exact ((committed good).not_fails failed).elim
    · obtain ⟨fault', u, further, failed'⟩ := refused good
      obtain ⟨-, rfl⟩ := failed.unique failed'
      exact rolledBack u further
  · intro α body fault failed
    exact ⟨_, Transactions.fails_execute began failed running decodes, rolledBack s2 (.refl s2)⟩

/-- Alice begins a transaction on an empty store. -/
def Scenario.begun : State :=
  (outcome (Transactions.start [alice]) (State.fresh Settings.standard registry)).2

/-- The bytes of the empty store can be addressed. -/
theorem Scenario.writable_fresh : (State.fresh Settings.standard registry).store.Writable :=
  Store.writable_of_length (n := 8) rfl (by decide)

/-- A coin. -/
def Scenario.storedCoin : Value := .resource ⟨1⟩ "Coin" [("amount", some (.uint 50))]

/-- Alice has made a coin and keeps it. -/
def Scenario.stocked : State :=
  (State.fresh Settings.standard registry).after [.call (.start [alice]),
    .call (.createResource "Coin" [("amount", .uint 50)]),
    .call (.save alice spendingPath storedCoin), .call .commit]

/-- She begins another transaction. -/
def Scenario.reopened : State := (outcome (Transactions.start [alice]) stocked).2

/-- The coin is taken out of the store, given to a local and left there when
its frame closes. -/
def Scenario.loseCoin : List Move :=
  [.call .pushFrame, .call (.load alice spendingPath (.composite "Coin")),
    .call (.bind ⟨1⟩ "coin" storedCoin), .unwind ⟨1⟩]

/-- The store with the coin can be read back from its bytes. -/
theorem Scenario.readable_stocked : stocked.store.Readable := by
  intro e mem
  obtain rfl := List.mem_singleton.1 mem
  refine Value.Everywhere.resource_iff.2
    ⟨⟨(by decide : 1 < UInt64.size), List.nodup_singleton "amount"⟩, fun f hf v hv => ?_⟩
  obtain rfl := List.mem_singleton.1 hf
  obtain rfl := Option.some.inj hv
  exact ⟨(by decide : 50 < UInt64.size), fun _ mem => nomatch mem⟩

/-- The bytes of the store with the coin can be addressed. -/
theorem Scenario.writable_stocked : stocked.store.Writable :=
  Store.writable_of_length (n := 115) rfl (by decide)

/-- A coin loaded from the store and left in a frame dooms the commit, and the
abort puts it back. -/
theorem transaction_all_or_nothing_loseCoin :
    Returns (Transactions.start [Scenario.alice]) Scenario.stocked () Scenario.reopened
      ∧ (Scenario.reopened.after Scenario.loseCoin).store ≠ Scenario.stocked.store
      ∧ ((∃ s', Returns Transactions.commit (Scenario.reopened.after Scenario.loseCoin) () s')
        ↔ (Scenario.reopened.after Scenario.loseCoin).isPoisoned = false
          ∧ (Scenario.reopened.after Scenario.loseCoin).ledger.Settled)
      ∧ ∃ s', Returns Transactions.abort (Scenario.reopened.after Scenario.loseCoin) () s'
        ∧ Scenario.stocked.Restored s' := by
  have began : Returns (Transactions.start [Scenario.alice]) Scenario.stocked ()
      Scenario.reopened := rfl
  have emptied : (Scenario.reopened.after Scenario.loseCoin).store.entries = [] := rfl
  obtain ⟨commits, -, -, ⟨s', aborts, restored, -⟩, -⟩ := transaction_all_or_nothing
    Scenario.readable_stocked Scenario.writable_stocked began
    (by decide : ∀ m ∈ Scenario.loseCoin, m.isInner = true)
  refine ⟨began, fun same => ?_, commits, s', aborts, restored⟩
  rw [same] at emptied
  cases emptied

end Custody
