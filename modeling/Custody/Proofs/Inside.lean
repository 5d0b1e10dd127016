import Custody.Proofs.Failures

/-!
# Inside a transaction

Once a transaction has begun, a host may make any move but the two that end
it. It may even ask for another transaction, which is refused. What
`State.Continues` says of the inner moves it therefore says of **every run
inside a transaction** (`State.continues_inside`).

What is told about such a run is often told move by move: the faults it
raises, the targets it borrows, the resources it hands over. `State.trace`
collects what each move shows in the state in which it is made, and
`State.Along` asks something of each move there.
-/

namespace Custody

open CustodyM

variable {s s' t : State} {moves : List Move}

/-! ## Moves that do not end it -/

/-- Whether the move ends a running transaction. -/
def Move.ends : Move → Bool
  | call .commit | call .abort => true
  | _ => false

/-- A transaction inside another does not begin. -/
theorem Transactions.next_start (running : s.inTransaction = true) (signers : List Address) :
    (Move.call (.start signers)).next s = s := by
  rcases returns_or_fails (start signers) s with ⟨_, u, began⟩ | ⟨fault, u, failed⟩
  · rw [State.inTransaction, (returns_start began).1] at running
    cases running
  · obtain rfl := Transactions.fails_start failed
    exact Move.next_of_fails (Reply.fails_ofUnit.2 failed)

/-- A move that neither ends the transaction nor asks for another is an
inner one. -/
theorem Move.isInner_or_start {m : Move} (inside : m.ends = false) :
    m.isInner = true ∨ ∃ signers, m = call (.start signers) := by
  cases m with
  | call o =>
    cases o with
    | start signers => exact .inr ⟨signers, rfl⟩
    | commit | abort => cases inside
    | _ => exact .inl rfl
  | unwind frame => exact .inl rfl
  | declare types => exact .inl rfl

/-- A move inside a transaction continues it. -/
theorem Move.continues_next {m : Move} (inside : m.ends = false)
    (running : s.inTransaction = true) : s.Continues (m.next s) := by
  rcases isInner_or_start inside with inner | ⟨signers, rfl⟩
  · exact continuing_perform inner s
  · rw [Transactions.next_start running signers]
    exact State.Continues.refl s

/-- **A run inside a transaction** lets it go on. -/
theorem State.continues_inside (running : s.inTransaction = true)
    (inside : ∀ m ∈ moves, m.ends = false) : s.Continues (s.after moves) := by
  induction moves generalizing s with
  | nil => exact Continues.refl s
  | cons m moves ih =>
    have first := Move.continues_next (inside m List.mem_cons_self) running
    exact first.trans (ih (first.inTransaction running) fun m' mem =>
      inside m' (List.mem_cons_of_mem _ mem))

/-- **What a transaction begins with**: nothing but a clear stack, no
reference, and what it keeps to go back to. -/
structure State.Begins (s : State) (signers : List Address) (bytes : Bytes) (s1 : State) :
    Prop where
  written : s.store.toBytes = .ok bytes
  transaction : s1.transaction = some ⟨SortedSet.ofList signers, bytes, s.ledger.records, none⟩
  settings : s1.settings = s.settings
  store : s1.store = s.store
  ledger : s1.ledger = s.ledger
  stack : s1.stack = s.stack.clear
  loans : s1.loans = s.loans.releaseAll

/-- A start that returns has begun a transaction. -/
theorem Transactions.begins_of_start {signers : List Address} {s1 : State}
    (began : Returns (start signers) s () s1) : ∃ bytes, s.Begins signers bytes s1 := by
  obtain ⟨-, bytes, written, rfl⟩ := returns_start began
  exact ⟨bytes, written, rfl, rfl, rfl, rfl, rfl, rfl⟩

namespace State.Begins

variable {signers : List Address} {bytes : Bytes} {s1 : State}

/-- A transaction that has begun is running. -/
theorem running (h : s.Begins signers bytes s1) : s1.inTransaction = true :=
  Option.isSome_iff_exists.2 ⟨_, h.transaction⟩

/-- **What was kept is there to go back to** after every run inside the
transaction. -/
theorem kept (h : s.Begins signers bytes s1) (readable : s.store.Readable)
    (writable : s.store.Writable) (inside : ∀ m ∈ moves, m.ends = false) :
    ∃ t, (s1.after moves).transaction = some t ∧ t.records = s.ledger.records
      ∧ Store.ofBytes t.snapshot = .ok s.store := by
  obtain ⟨t, still, same⟩ := (continues_inside h.running inside).running _ h.transaction
  refine ⟨t, still, same.records, ?_⟩
  rw [same.snapshot]
  exact readable.ofBytes_toBytes h.written (writable bytes h.written)

end State.Begins

/-! ## What a run shows on its way -/

/-- **What the moves of a run show**, each in the state in which it is
made. -/
def State.trace {β : Type} (shown : State → Move → List β) : State → List Move → List β
  | _, [] => []
  | s, m :: moves => shown s m ++ trace shown (m.next s) moves

/-- **The property holds at every move of a run**, in the state in which the
move is made. -/
def State.Along (P : State → Move → Prop) : State → List Move → Prop
  | _, [] => True
  | s, m :: moves => P s m ∧ (m.next s).Along P moves

/-- A run in two parts goes through the one and then the other. -/
theorem State.after_append (s : State) (moves moves' : List Move) :
    s.after (moves ++ moves') = (s.after moves).after moves' :=
  List.foldl_append

/-- What a run shows in two parts is what each shows. -/
theorem State.trace_append {β : Type} {shown : State → Move → List β} {moves' : List Move} :
    s.trace shown (moves ++ moves')
      = s.trace shown moves ++ (s.after moves).trace shown moves' := by
  induction moves generalizing s with
  | nil => rfl
  | cons m moves ih =>
    show shown s m ++ (m.next s).trace shown (moves ++ moves') = _
    rw [ih, ← List.append_assoc]
    rfl

/-- What holds along a run holds along its parts. -/
theorem State.along_append {P : State → Move → Prop} {moves' : List Move} :
    s.Along P (moves ++ moves') ↔ s.Along P moves ∧ (s.after moves).Along P moves' := by
  induction moves generalizing s with
  | nil => exact (iff_of_eq (true_and _)).symm
  | cons m moves ih => exact (and_congr_right fun _ => ih).trans and_assoc.symm

/-! ## A frame of its own -/

/-- Leaving a frame unwinds it, whatever was done in it and however the
unwinding ends. -/
theorem Frames.after_leave {α : Type} {frame : FrameId} {result : Except Fault α} :
    (outcome (leave frame result) s).2 = (Move.unwind frame).next s := by
  have reads : Keeps Eq (do
      let a ← ofExcept result
      ofExcept (outcome (unwind frame) s).1
      return a : CustodyM α) :=
    Keeps.ofExcept.bind fun _ => Keeps.ofExcept.bind fun _ => Keeps.pure
  have closed : (outcome (leave frame result) s).2 = (outcome (unwind frame) s).2 := by
    unfold leave
    rw [outcome_bind, outcome_observing]
    exact (reads _).symm
  have reported : (Move.unwind frame).next s = (outcome (unwind frame) s).2 :=
    snd_outcome_report (unwind frame) (fun _ => Reply.done) s
  rw [closed, reported]

/-- Where no frame can be opened, nothing is done. -/
theorem Frames.fails_within_of_refused {α : Type} {body : FrameId → CustodyM α} {fault : Fault}
    (refused : Fails push s fault t) : Fails (within body) s fault t :=
  fails_bind.2 (.inl refused)

/-- What is done in a frame of its own is left like the frame. -/
theorem Frames.outcome_within {α : Type} {body : FrameId → CustodyM α} {frame : FrameId}
    (opened : Returns push s frame t) : outcome (within body) s
      = outcome (leave frame (outcome (body frame) t).1) (outcome (body frame) t).2 := by
  unfold within
  rw [outcome_bind, opened]
  exact outcome_observing_bind _ _ _

/-- **What is done in a frame of its own is a run**: opening the frame, what
is done, and closing all frames down to this one, whatever the result. -/
theorem Frames.after_within {α : Type} {body : FrameId → CustodyM α} {frame : FrameId}
    (opened : Returns push s frame t) (did : (outcome (body frame) t).2 = t.after moves) :
    (outcome (within body) s).2 = s.after (.call .pushFrame :: (moves ++ [.unwind frame])) := by
  have first : (Move.call .pushFrame).next s = t :=
    Move.next_of_returns (returns_bind.2 ⟨frame, t, opened, returns_pure.2 ⟨rfl, rfl⟩⟩)
  rw [outcome_within opened, did, after_leave]
  show _ = ((Move.call .pushFrame).next s).after (moves ++ [.unwind frame])
  rw [first, State.after_append]
  rfl

end Custody
