import Custody.Proofs.Continuity

/-!
# Runs of a host

A host moves a custodian from state to state: it calls operations, closes
frames from the innermost down to one it names, and declares types. A
**run** is a list of moves, made one after the other whether they return or
fail. The moves that begin or end a transaction are its **bounds**; all
others are **inner** moves, and a run of inner moves lets a transaction go on
(`State.continues_after`).

Doing something in a frame of its own and doing something as one transaction
are runs too: the first opens a frame, does it and unwinds, the second
begins, does it and commits or aborts.
-/

namespace Custody

/-- **A move of a host.** -/
inductive Move where
  /-- A call. -/
  | call (o : Operation)
  /-- Closing every frame down to the given one. -/
  | unwind (frame : FrameId)
  /-- Declaring types: the declared types are now these. -/
  | declare (types : Registry)

namespace Move

/-- Makes the move. -/
def perform : Move → CustodyM Reply
  | call o => o.perform
  | unwind frame => Reply.ofUnit (Frames.unwind frame)
  | declare types => Reply.ofUnit (modify fun s => { s with registry := types })

/-- Whether the move neither begins nor ends a transaction. -/
def isInner : Move → Bool
  | call o => !o.isBound
  | _ => true

/-- The state after the move, whether it returned or failed. -/
def next (m : Move) (s : State) : State := (outcome m.perform s).2

/-- After a move that returns, the state is the one it returned in. -/
theorem next_of_returns {m : Move} {s t : State} {reply : Reply}
    (h : Returns m.perform s reply t) : m.next s = t :=
  congrArg Prod.snd h

/-- After a move that fails, the state is the one it failed in. -/
theorem next_of_fails {m : Move} {s t : State} {fault : Fault} (h : Fails m.perform s fault t) :
    m.next s = t :=
  congrArg Prod.snd h

end Move

/-- **The state after a run.** -/
def State.after (s : State) (moves : List Move) : State :=
  moves.foldl (fun s m => m.next s) s

/-! ## Reading replies -/

namespace Reply

variable {s s' : State} {reply : Reply}

/-- An action without a result replies that it is done. -/
theorem returns_ofUnit {action : CustodyM Unit} :
    Returns (ofUnit action) s reply s' ↔ Returns action s () s' ∧ reply = done := by
  constructor
  · intro h
    obtain ⟨_, u, acted, h⟩ := returns_bind.1 h
    obtain ⟨rfl, rfl⟩ := returns_pure.1 h
    exact ⟨acted, rfl⟩
  · rintro ⟨acted, rfl⟩
    exact returns_bind.2 ⟨(), s', acted, returns_pure.2 ⟨rfl, rfl⟩⟩

/-- An action fails as it does without the reply. -/
theorem fails_ofUnit {action : CustodyM Unit} {e : Fault} :
    Fails (ofUnit action) s e s' ↔ Fails action s e s' := by
  refine fails_bind.trans (or_iff_left ?_)
  rintro ⟨_, u, -, failed⟩
  exact not_fails_pure failed

end Reply

/-- What a borrow replies, and what it does. -/
theorem Borrows.Lends.reply {action : BorrowM Reference} (h : Lends action) (s : State) :
    (∃ failure, Returns (Reply.ofBorrow action) s (.refused failure) s) ∨
      ∃ r loans, s.MayLend r.target ∧ s.loans.acquire r.target s.borrower = some (r.id, loans) ∧
        Returns (Reply.ofBorrow action) s (.reference r) { s with loans := loans } := by
  rcases h s with ⟨failure, failed⟩ | ⟨r, loans, may, acquired, returned⟩
  · exact .inl ⟨failure,
      returns_bind.2 ⟨_, s, returns_ofBorrow.2 failed, returns_pure.2 ⟨rfl, rfl⟩⟩⟩
  · exact .inr ⟨r, loans, may, acquired,
      returns_bind.2 ⟨_, _, returns_ofBorrow.2 returned, returns_pure.2 ⟨rfl, rfl⟩⟩⟩

/-- The calls that ask for a reference are borrows. -/
theorem Operation.lends_of_isBorrow {o : Operation} (borrow : o.isBorrow = true) :
    ∃ action, o.perform = Reply.ofBorrow action ∧ Borrows.Lends action := by
  cases o with
  | borrow => exact ⟨_, rfl, Borrows.lends_throughCapability⟩
  | borrowStored => exact ⟨_, rfl, Borrows.lends_stored⟩
  | borrowLocal => exact ⟨_, rfl, Borrows.lends_ofLocal⟩
  | _ => cases borrow

/-- Reporting that an action is done changes nothing. -/
theorem Keeps.ofUnit {R : State → State → Prop} [IsPreorder State R] {action : CustodyM Unit}
    (h : Keeps R action) : Keeps R (Reply.ofUnit action) :=
  h.bind fun _ => Keeps.pure

/-- **What every deed keeps, an inner move keeps**: the deeds of the call that
it is, or the closing of frames. -/
theorem Move.keeps_perform {R : State → State → Prop} [IsPreorder State R] {m : Move}
    (inner : m.isInner = true) (did : ∀ o, m = call o → ∀ s t, o.Does s t → R s t)
    (closed : ∀ frame s t, (Operation.popFrame frame).Does s t → R s t)
    (declared : ∀ types, m = declare types → ∀ s, R s { s with registry := types })
    (note : ∀ s fault, R s (s.note fault)) : Keeps R m.perform := by
  cases m with
  | call o =>
    exact (o.composed (by simpa [isInner] using inner) (did o rfl)).keeps note
  | unwind frame =>
    refine Keeps.ofUnit (Frames.keeps_unwind (fun frame => ?_) note)
    exact (Frames.guards_pop fun s _ _ popped => closed frame s _ (.closed popped)).keeps note
  | declare types => exact Keeps.ofUnit (Keeps.modify (declared types rfl))

/-- The later state has the property if the earlier one has. -/
def State.Preserves (P : State → Prop) (s t : State) : Prop := P s → P t

instance (P : State → Prop) : IsPreorder State (State.Preserves P) where
  refl _ := id
  trans _ _ _ h h' := h' ∘ h

/-- **No call but its bounds ends a transaction**, whatever its arguments. -/
theorem Operation.continuing_perform {o : Operation} (inner : o.isBound = false) :
    Continuing o.perform :=
  (o.composed_perform inner State.footprint_continues fun _ s _ _ _ _ acquired =>
    s.continues_acquire acquired).keeps State.continues_note

/-- A move inside a transaction keeps it going. -/
theorem Move.continuing_perform {m : Move} (inner : m.isInner = true) : Continuing m.perform := by
  cases m with
  | call o =>
    unfold isInner at inner
    exact o.continuing_perform (by simpa using inner)
  | unwind frame => exact Frames.continuing_unwind.ofUnit
  | declare types => exact Keeps.ofUnit (Keeps.modify fun s => s.continues_registry types)

/-- **A run of inner moves lets a transaction go on.** -/
theorem State.continues_after {s : State} {moves : List Move}
    (inner : ∀ m ∈ moves, m.isInner = true) : s.Continues (s.after moves) := by
  induction moves generalizing s with
  | nil => exact Continues.refl s
  | cons m moves ih =>
    have first : s.Continues (m.next s) :=
      Move.continuing_perform (inner m List.mem_cons_self) s
    exact first.trans (ih fun m' mem => inner m' (List.mem_cons_of_mem _ mem))

end Custody
