import Custody.Proofs.Inside

/-!
# Fatal faults are final

An operation marks its transaction by wrapping itself in a guard, and it is
the business of each operation to do so. This module says that all of them
do: along every run inside a transaction **the mark is the message of the
first fatal fault** that any move of it raised, and there is none when no
move raised one (`State.marked_inside`). A marked transaction is refused by
its commit with that message, whatever was done after the fault
(`fatal_final`).

A move is more than one operation when it closes several frames, and a fault
of the first may be hidden by what closes after it; so the faults of a move
are a list, `Move.faults`. Beginning a transaction inside another is refused
without marking it and counts as no fault.
-/

namespace Custody

open CustodyM

variable {α β : Type} {s t u : State}

/-! ## Faults and marks -/

/-- The fault an action ended in, if any. -/
def faultsOf : Except Fault α → List Fault
  | .ok _ => []
  | .error fault => [fault]

/-- **What faults mark a transaction with**: the message of the first fatal
one. -/
def doom (faults : List Fault) : Option String := (faults.find? Fault.isFatal).map Fault.message

/-- What dooms is the first fatal fault of the first part, or else of the
second. -/
theorem doom_append (faults faults' : List Fault) :
    doom (faults ++ faults') = (doom faults).or (doom faults') := by
  unfold doom
  rw [List.find?_append]
  cases faults.find? Fault.isFatal <;> rfl

namespace State

/-- The mark of the running transaction. -/
def mark (s : State) : Option String := s.transaction.bind Transaction.poison

/-- **The transaction goes on and the faults are marked**: a mark that was
there stays, and otherwise the first fatal fault leaves one. -/
structure Marked (s : State) (faults : List Fault) (t : State) : Prop where
  running : t.inTransaction = true
  mark : t.mark = s.mark.or (doom faults)

/-- The states have the same transaction. -/
def SameTransaction (s t : State) : Prop := t.transaction = s.transaction

instance : IsPreorder State SameTransaction where
  refl _ := rfl
  trans _ _ _ h h' := Eq.trans h' h

/-- In the same transaction no fault has been noted. -/
theorem SameTransaction.marked (h : s.SameTransaction t) (running : s.inTransaction = true) :
    s.Marked [] t := by
  constructor
  · rwa [inTransaction, h]
  · rw [mark, h]
    exact (Option.or_none).symm

/-- Noting a fault marks it. -/
theorem marked_note (running : s.inTransaction = true) (fault : Fault) :
    s.Marked [fault] (s.note fault) := by
  obtain ⟨tx, htx⟩ := Option.isSome_iff_exists.1 running
  cases fatal : fault.isFatal with
  | false =>
    rw [note_of_recoverable s fatal]
    refine ⟨running, ?_⟩
    rw [doom, List.find?_cons_of_neg (by simp [fatal])]
    exact (Option.or_none).symm
  | true =>
    have marks : (s.note fault).transaction
        = some { tx with poison := some (tx.poison.getD fault.message) } := by
      rw [note, if_pos fatal]
      show s.transaction.map _ = _
      rw [htx]
      rfl
    refine ⟨?_, ?_⟩
    · rw [inTransaction, marks]
      rfl
    · rw [mark, marks, mark, htx, doom, List.find?_cons_of_pos fatal]
      show some (tx.poison.getD fault.message) = tx.poison.or (some fault.message)
      cases tx.poison <;> rfl

/-- **Marks of moves add up** in their order. -/
theorem Marked.trans {faults faults' : List Fault} (h : s.Marked faults t)
    (h' : t.Marked faults' u) : s.Marked (faults ++ faults') u :=
  ⟨h'.running, by rw [h'.mark, h.mark, doom_append, Option.or_assoc]⟩

end State

open State (SameTransaction)

/-! ## Every operation marks its fault -/

/-- **The action marks the running transaction** with the fault it ends
in. -/
def Marks (m : CustodyM α) : Prop :=
  ∀ s : State, s.inTransaction = true → s.Marked (faultsOf (outcome m s).1) (outcome m s).2

namespace Marks

/-- A guard marks what is raised under it. -/
theorem of_guards {m : CustodyM α} (h : Guards SameTransaction m) : Marks m := by
  obtain ⟨body, rfl, kept⟩ := h
  intro s running
  rw [outcome_guarded]
  rcases did : outcome body s with ⟨fault | a, t⟩
  · have still := SameTransaction.marked (kept.of_fails did) running
    exact still.trans (State.marked_note still.running fault)
  · exact SameTransaction.marked (kept.of_returns did) running

/-- What raises no fault has none to mark. -/
theorem of_keeps {m : CustodyM α} (kept : Keeps SameTransaction m)
    (firm : ∀ s e t, ¬Fails m s e t) : Marks m := by
  intro s running
  rcases did : outcome m s with ⟨fault | a, t⟩
  · exact (firm s fault t did).elim
  · exact SameTransaction.marked (kept.of_returns did) running

/-- A sequence marks for the faults of both its parts. -/
theorem bind {m : CustodyM α} {k : α → CustodyM β} (hm : Marks m) (hk : ∀ a, Marks (k a)) :
    Marks (m >>= k) := by
  intro s running
  have first := hm s running
  rw [outcome_bind]
  rcases did : outcome m s with ⟨fault | a, t⟩
  · rwa [did] at first
  · rw [did] at first
    exact first.trans (hk a t first.running)

end Marks

/-- A call that keeps the transaction between its guards marks for its own fault
only. -/
theorem Composed.marks {m : CustodyM α} (h : Composed SameTransaction m) : Marks m := by
  induction h with
  | guarded h => exact Marks.of_guards h
  | sure kept returns => exact Marks.of_keeps kept returns
  | bind _ _ first next => exact first.bind next

/-- What a call does leaves the transaction as it is. -/
theorem State.footprint_sameTransaction : Footprint Ledger.Grows SameTransaction where
  entries := Ledger.lawful_grows
  ledger _ _ _ := rfl
  locals _ _ _ _ := rfl
  opened _ _ _ _ _ := rfl
  closed _ _ _ _ _ := rfl
  written _ _ _ _ _ := rfl
  cleared _ _ _ _ := rfl
  rewrites r s old new _ _ _ _ := by
    obtain ⟨_, target, _, _, _⟩ := r
    cases target <;> rfl

/-- **No operation forgets to mark its fault.** -/
theorem Operation.marks_perform {o : Operation} (inner : o.isBound = false) : Marks o.perform :=
  (o.composed_perform inner State.footprint_sameTransaction fun _ _ _ _ _ _ _ => rfl).marks

/-- Closing a frame marks for its own fault, -/
theorem Frames.marks_pop (frame : FrameId) : Marks (pop frame) :=
  Marks.of_guards (guards_pop fun _ _ _ _ => rfl)

/-! ## Every move marks its faults -/

namespace Frames

/-- The faults of closing the listed frames, one after the other. -/
def faults : List FrameId → State → List Fault
  | [], _ => []
  | frame :: rest, s => faultsOf (outcome (pop frame) s).1 ++ faults rest (outcome (pop frame) s).2

/-- and the frames after it are closed from the state that it left. -/
theorem after_popAll_cons (frame : FrameId) (rest : List FrameId) (s : State) :
    (outcome (popAll (frame :: rest)) s).2
      = (outcome (popAll rest) (outcome (pop frame) s).2).2 := by
  have reads (first others : Except Fault Unit) : Keeps Eq (do
      ofExcept first
      ofExcept others : CustodyM Unit) := Keeps.ofExcept.bind fun _ => Keeps.ofExcept
  rw [popAll, outcome_bind, outcome_observing]
  show (outcome (observing (popAll rest) >>= _) _).2 = _
  rw [outcome_bind, outcome_observing]
  exact (reads _ _ _).symm

/-- Closing frames marks the faults of every one of them. -/
theorem marked_popAll (frames : List FrameId) (running : s.inTransaction = true) :
    s.Marked (faults frames s) (outcome (popAll frames) s).2 := by
  induction frames generalizing s with
  | nil => exact SameTransaction.marked rfl running
  | cons frame rest ih =>
    have first := marks_pop frame s running
    rw [after_popAll_cons]
    exact first.trans (ih first.running)

/-- The faults of closing every frame down to the given one: those of each,
or the complaint that it is not open. -/
def unwindFaults (frame : FrameId) (s : State) : List Fault :=
  if s.stack.contains frame then faults (downTo frame s.stack.frames) s
  else [.frameMismatch frame.text s.stack.currentText]

/-- **Unwinding marks** for the first fatal fault of the frames that it closes.
-/
theorem marked_unwind (frame : FrameId) (running : s.inTransaction = true) :
    s.Marked (unwindFaults frame s) (outcome (unwind frame) s).2 := by
  unfold unwindFaults unwind
  rw [outcome_bind]
  show s.Marked _ (outcome (if _ then _ else _) s).2
  split
  · exact marked_popAll _ running
  · exact State.marked_note running _

end Frames

/-- **The faults a move raises.** -/
def Move.faults (s : State) : Move → List Fault
  | call (.start _) => []
  | call o => faultsOf (outcome o.perform s).1
  | unwind frame => Frames.unwindFaults frame s
  | declare _ => []

/-- A frame is unwound, whether that fails or not. -/
theorem Move.next_unwind (s : State) (frame : FrameId) :
    (Move.unwind frame).next s = (outcome (Frames.unwind frame) s).2 := by
  rw [next, perform, Reply.ofUnit, outcome_bind]
  rcases outcome (Frames.unwind frame) s with ⟨_ | _, t⟩ <;> rfl

/-- **Every move inside a transaction marks it** for its faults. -/
theorem Move.marked_next {m : Move} (inside : m.ends = false) (running : s.inTransaction = true) :
    s.Marked (m.faults s) (m.next s) := by
  rcases isInner_or_start inside with inner | ⟨signers, rfl⟩
  · cases m with
    | call o =>
      have inner : o.isBound = false := by simpa [isInner] using inner
      have marked := Operation.marks_perform inner s running
      cases o with
      | start => cases inner
      | _ => exact marked
    | unwind frame =>
      rw [next_unwind]
      exact Frames.marked_unwind frame running
    | declare types => exact SameTransaction.marked rfl running
  · rw [Transactions.next_start running signers]
    exact SameTransaction.marked rfl running

/-- **Along a run inside a transaction** all faults are marked. -/
theorem State.marked_inside {moves : List Move} (running : s.inTransaction = true)
    (inside : ∀ m ∈ moves, m.ends = false) :
    s.Marked (s.trace Move.faults moves) (s.after moves) := by
  induction moves generalizing s with
  | nil => exact SameTransaction.marked rfl running
  | cons m moves ih =>
    have first := Move.marked_next (inside m List.mem_cons_self) running
    exact first.trans (ih first.running fun m' mem => inside m' (List.mem_cons_of_mem _ mem))

/-! ## The commit -/

/-- **A fatal fault is final for its transaction.** After a transaction began
at `s`, whatever moves were made inside it:

* if one of them raised a fatal fault, the commit fails with the message of
  the first, and the store and the records are those of `s`;
* if none did, the transaction is not marked.

What is stored has to be readable, and has to fit into memory when it is
written. -/
theorem fatal_final {s s1 : State} {signers : List Address} {moves : List Move}
    (readable : s.store.Readable) (writable : s.store.Writable)
    (began : Returns (Transactions.start signers) s () s1)
    (inside : ∀ m ∈ moves, m.ends = false) :
    (∀ fault, (s1.trace Move.faults moves).find? Fault.isFatal = some fault →
        ∃ s', Fails Transactions.commit (s1.after moves) (.transactionAborted fault.message) s'
          ∧ s.Restored s')
      ∧ ((∀ fault ∈ s1.trace Move.faults moves, fault.isFatal = false) →
        (s1.after moves).isPoisoned = false) := by
  obtain ⟨bytes, begins⟩ := Transactions.begins_of_start began
  obtain ⟨t, still, records, decodes⟩ := begins.kept readable writable inside
  have marked : t.poison = doom (s1.trace Move.faults moves) := by
    have := (State.marked_inside begins.running inside).mark
    rw [State.mark, still, State.mark, begins.transaction] at this
    exact this
  refine ⟨fun fault first => ⟨_, Transactions.fails_commit_marked still ?_ decodes,
    State.restored_rolledBack rfl records⟩, fun none => ?_⟩
  · rw [marked, doom, first]
    rfl
  · rw [State.isPoisoned_of_running still, Transaction.isPoisoned, marked, doom,
      List.find?_eq_none.2 fun fault mem => by simp [none fault mem]]
    rfl

/-- The coin is lost with its frame, so Alice cannot commit, and has the coin in
storage again. -/
theorem fatal_final_loseCoin :
    Returns (Transactions.start [Scenario.alice]) Scenario.stocked () Scenario.reopened
      ∧ ∃ s', Fails Transactions.commit (Scenario.reopened.after Scenario.loseCoin)
          (.transactionAborted
            "resource #1 is still held at frame1:coin when its frame exits") s'
        ∧ Scenario.stocked.Restored s' :=
  ⟨rfl, (fatal_final Scenario.readable_stocked Scenario.writable_stocked rfl (by decide)).1
    (.unhandledResource ⟨1⟩ "frame1:coin") (by decide)⟩

end Custody
