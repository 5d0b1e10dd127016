import Custody.Proofs.Failures
import Custody.Proofs.Retention
import Custody.Proofs.Targets

/-!
# What passing a local leaves behind

To pass a local is to take it from one name and to bind it to another. Each half
looks before it acts, so a half that fails recoverably has changed nothing. The
whole does not look ahead: whether the second name can be bound is asked when
the value has already left the first.

The second half has three refusals. A frame that is not open and a binding that
still holds a resource doom the transaction, which undoes the first half in the
end. The third does not: that a reference is out onto the second name. Then the
value **strands** (`State.Strands`). It has left its name, it is bound to no
other, and what it was made of stays in flight, so that the transaction, which
could go on, will not commit. This happens to linear values only, since others
are copied and stay where they are, and it is the only way in which passing
fails recoverably and leaves a trace (`passing_recovers`).
-/

namespace Custody

open Ledger CustodyM

namespace State

/-- **A value strands** when it is passed: it can be taken from its name, and the
name it goes to is borrowed. -/
structure Strands (s : State) (caller : FrameId) (argument : String) (callee : FrameId)
    (parameter : String) (v : Value) : Prop where
  /-- The local holds it. -/
  bound : s.stack.value caller argument = .ok v
  /-- It is moved and not copied. -/
  linear : v.isLinear = true
  /-- No reference is out onto the local. -/
  free : s.loans.isBorrowed (.binding caller argument) = false
  /-- A reference is out onto the name it goes to. -/
  lent : s.loans.isBorrowed (.binding callee parameter) = true

/-- The state in which a local has been taken and its value was dropped. -/
def stranded (s : State) (caller : FrameId) (argument : String) (v : Value) : State :=
  { s with
    ledger := s.ledger.recordAll (flying v.rootIds)
    stack := s.stack.setLocal caller argument .moved }

end State

namespace Locals

variable {s t : State} {e : Fault} {frame caller callee : FrameId}
  {name argument parameter : String} {v : Value}

/-! ## Taking -/

/-- A linear value that is not borrowed is taken, or the transaction is
doomed. -/
theorem fatal_of_fails_take (bound : s.stack.value frame name = .ok v)
    (linear : v.isLinear = true) (free : s.loans.isBorrowed (.binding frame name) = false)
    (failed : Fails (take frame name) s e t) : e.isFatal = true := by
  obtain ⟨u, failed, -⟩ := fails_guarded.1 failed
  rcases fails_bind.1 failed with failed | ⟨tx, w, required, failed⟩
  · obtain ⟨-, rfl, -⟩ := fails_requireTransaction.1 failed
    rfl
  obtain ⟨-, rfl⟩ := returns_requireTransaction.1 required
  rw [fails_get_bind, bound] at failed
  rcases fails_bind.1 failed with failed | ⟨w, _, found, failed⟩
  · cases (fails_ofExcept.1 failed).1
  obtain ⟨same, rfl⟩ := returns_ofExcept.1 found
  obtain rfl := Except.ok.inj same
  rw [if_pos linear] at failed
  rcases fails_bind.1 failed with failed | ⟨_, _, -, failed⟩
  · rw [(fails_ensureNotBorrowed.1 failed).1] at free
    cases free
  · exact (Ledger.firm_releaseValue.onLedger.bind fun _ =>
      Firm.modify.bind fun _ => Firm.pure) _ _ _ failed

/-! ## Binding -/

theorem firm_ensureOverwritable : Firm (ensureOverwritable frame name) := by
  have opened (stack : CallStack) : Firm (ofExcept (stack.frame frame) : CustodyM Frame) := by
    intro s e t failed
    obtain ⟨missing, -⟩ := fails_ofExcept.1 failed
    unfold CallStack.frame at missing
    split at missing
    · cases missing
    · exact Except.error.inj missing ▸ rfl
  refine Firm.bind (Firm.get.bind fun _ => (opened _).bind fun _ => Firm.pure) fun b => ?_
  split
  · split
    · exact Firm.throw rfl
    · exact Firm.pure
  · exact Firm.pure

/-- **Binding fails recoverably** if the name is borrowed. -/
theorem borrowed_of_fails_bind (failed : Fails (bind frame name v) s e t)
    (recoverable : e.isFatal = false) :
    s.loans.isBorrowed (.binding frame name) = true
      ∧ e = .alreadyBorrowed (Target.binding frame name).text ∧ t = s := by
  obtain ⟨u, refused, rfl⟩ := fails_guarded.1 failed
  rw [State.note_of_recoverable u recoverable]
  rcases fails_bind.1 refused with failed | ⟨tx, w, required, failed⟩
  · obtain ⟨-, rfl, -⟩ := fails_requireTransaction.1 failed
    cases recoverable
  obtain ⟨-, rfl⟩ := returns_requireTransaction.1 required
  rcases fails_bind.1 failed with failed | ⟨_, w, -, failed⟩
  · obtain ⟨lent, rfl, rfl⟩ := fails_ensureNotBorrowed.1 failed
    exact ⟨lent, rfl, rfl⟩
  · have firm : e.isFatal = true := (firm_ensureOverwritable.bind fun _ =>
      Ledger.firm_settleValue.onLedger.bind fun _ => Firm.modify) _ _ _ failed
    rw [firm] at recoverable
    cases recoverable

/-! ## Both -/

/-- **Passing fails recoverably** and has changed nothing, or the value has
stranded. -/
theorem fails_pass_of_recoverable
    (failed : Fails (pass caller argument callee parameter) s e t)
    (recoverable : e.isFatal = false) :
    (t = s ∧ ∀ v, ¬s.Strands caller argument callee parameter v)
      ∨ ∃ v, s.Strands caller argument callee parameter v ∧ v.rootIds.Nodup
        ∧ e = .alreadyBorrowed (Target.binding callee parameter).text
        ∧ t = s.stranded caller argument v := by
  rcases fails_bind.1 failed with untaken | ⟨v, u, taken, unbound⟩
  · refine .inl ⟨careful_take s e t untaken recoverable, fun v strands => ?_⟩
    rw [fatal_of_fails_take strands.bound strands.linear strands.free untaken] at recoverable
    cases recoverable
  obtain ⟨lent, rfl, rfl⟩ := borrowed_of_fails_bind unbound recoverable
  obtain ⟨bound, ⟨none, rfl⟩ | ⟨⟨linear, free⟩, l, released, rfl⟩⟩ := released_of_take taken
  · -- a copy was refused, and what it is a copy of is still there
    refine .inl ⟨rfl, fun w strands => ?_⟩
    obtain rfl := Except.ok.inj (bound.symm.trans strands.bound)
    exact Bool.false_ne_true ((Value.isLinear_eq_false_iff.2 none).symm.trans strands.linear)
  · obtain ⟨⟨distinct, -⟩, rfl⟩ := returns_releaseValue_iff.1 released
    exact .inr ⟨v, ⟨bound, linear, free, lent⟩, distinct, rfl, rfl⟩

/-- **What has stranded** is behind no name. -/
theorem value_stranded (bound : s.stack.value caller argument = .ok v) :
    (s.stranded caller argument v).stack.value caller argument = .error (.useAfterMove argument) :=
  CallStack.value_setLocal_of_value bound .moved

/-- **What has stranded** is in flight. -/
theorem holding?_stranded (distinct : v.rootIds.Nodup) {id : ResourceId} (mem : id ∈ v.rootIds) :
    (s.stranded caller argument v).ledger.holding? id = some .inFlight :=
  holding?_recordAll_of_mem (by rwa [map_fst_flying]) (List.mem_map_of_mem mem)

/-- **With a stranded value** no transaction commits. -/
theorem not_commits_stranded {u : State} (linear : v.isLinear = true) (distinct : v.rootIds.Nodup) :
    ¬Returns Transactions.commit (s.stranded caller argument v) () u := by
  intro committed
  have rooted : v.resources ≠ [] := fun none => by
    rw [Value.isLinear_eq_false_iff.2 none] at linear
    cases linear
  obtain ⟨r, hr⟩ := List.exists_mem_of_ne_nil _ rooted
  have root : r.id ∈ v.rootIds := v.rootIds_eq ▸ List.mem_map_of_mem hr
  cases Transactions.settled_of_commit committed _ _ (holding?_stranded distinct root)

end Locals

/-- **When passing fails recoverably**, from one frame to another or within one,
and the value does not strand, then the state is as it was, and with it the local
that was to be passed. If it strands, the failure is that the other name is
borrowed, and the value is gone: its name says that it was moved, its roots are
in flight, nothing else has changed, and the transaction cannot commit as it
is. -/
theorem passing_recovers {s t : State} {o : Operation} {e : Fault} {caller callee : FrameId}
    {argument parameter : String}
    (passing : o = .pass caller argument callee parameter
      ∨ callee = caller ∧ o = .assign caller argument parameter)
    (failed : Fails o.perform s e t) (recoverable : e.isFatal = false) :
    ((∀ v, ¬s.Strands caller argument callee parameter v) → t = s)
      ∧ ∀ v, s.Strands caller argument callee parameter v →
        e = .alreadyBorrowed (Target.binding callee parameter).text
          ∧ t = s.stranded caller argument v
          ∧ t.stack.value caller argument = .error (.useAfterMove argument)
          ∧ (∀ id ∈ v.rootIds, t.ledger.holding? id = some .inFlight)
          ∧ ∀ u, ¬Returns Transactions.commit t () u := by
  have failed : Fails (Locals.pass caller argument callee parameter) s e t := by
    rcases passing with rfl | ⟨rfl, rfl⟩
    · exact Reply.fails_ofUnit.1 failed
    · exact Reply.fails_ofUnit.1 failed
  rcases Locals.fails_pass_of_recoverable failed recoverable with
    ⟨rfl, safe⟩ | ⟨v, strands, distinct, rfl, rfl⟩
  · exact ⟨fun _ => rfl, fun v strands => (safe v strands).elim⟩
  · refine ⟨fun safe => (safe v strands).elim, fun w strands' => ?_⟩
    obtain rfl := Except.ok.inj (strands.bound.symm.trans strands'.bound)
    exact ⟨rfl, rfl, Locals.value_stranded strands.bound,
      fun _ => Locals.holding?_stranded distinct,
      fun _ => Locals.not_commits_stranded strands.linear distinct⟩

namespace Scenario

/-- Alice has bound a coin and a note of hers, and a reference is out onto the
note. -/
def lending : State :=
  begun.after [.call .pushFrame, .call makeCoin, .call (.bind ⟨1⟩ "coin" keptCoin.toValue),
    .call (.bind ⟨1⟩ "note" (.uint 7)), .call (.borrowLocal ⟨1⟩ "note" ⟨false, .uint⟩)]

/-- She assigns the note to itself. -/
def rewriteNote : Operation := .assign ⟨1⟩ "note" "note"

/-- She assigns the coin to the name of the note. -/
def overwriteNote : Operation := .assign ⟨1⟩ "coin" "note"

/-- What she means to do with the coin. -/
def putAway : List Move :=
  [.call (.take ⟨1⟩ "coin"), .call (.save alice spendingPath keptCoin.toValue),
    .call (.popFrame ⟨1⟩)]

end Scenario

/-- A copy of the note is refused, and nothing has happened; the coin is refused,
and it strands. -/
theorem passing_recovers_lending :
    (∃ s, Fails Scenario.rewriteNote.perform Scenario.lending (.alreadyBorrowed "frame1:note") s
        ∧ s = Scenario.lending)
      ∧ ∃ s, Fails Scenario.overwriteNote.perform Scenario.lending
          (.alreadyBorrowed "frame1:note") s
        ∧ s = Scenario.lending.stranded ⟨1⟩ "coin" Scenario.keptCoin.toValue
        ∧ s.stack.value ⟨1⟩ "coin" = .error (.useAfterMove "coin")
        ∧ s.ledger.holding? ⟨1⟩ = some .inFlight
        ∧ ∀ u, ¬Returns Transactions.commit s () u := by
  have strands : Scenario.lending.Strands ⟨1⟩ "coin" ⟨1⟩ "note" Scenario.keptCoin.toValue :=
    ⟨rfl, rfl, rfl, rfl⟩
  constructor
  · have refused : Fails Scenario.rewriteNote.perform Scenario.lending
        (.alreadyBorrowed "frame1:note") _ := rfl
    refine ⟨_, refused, (passing_recovers (.inr ⟨rfl, rfl⟩) refused rfl).1 ?_⟩
    rintro v ⟨bound, linear, -, -⟩
    obtain rfl : Value.uint 7 = v := Except.ok.inj bound
    cases linear
  · have refused : Fails Scenario.overwriteNote.perform Scenario.lending
        (.alreadyBorrowed "frame1:note") _ := rfl
    obtain ⟨-, same, moved, afloat, stuck⟩ :=
      (passing_recovers (.inr ⟨rfl, rfl⟩) refused rfl).2 _ strands
    exact ⟨_, refused, same, moved, afloat _ (List.mem_singleton_self _), stuck⟩

/-- **An assignment loses a coin** and reports a fault that the host may go on
from. Without it, the coin is put away and the transaction commits. With it, the
coin has left its name and is in flight, and a host that handles the fault and
goes on cannot commit. -/
theorem coin_stranded :
    (∃ s, Returns Transactions.commit (Scenario.lending.after Scenario.putAway) () s)
      ∧ ∃ s, Fails Scenario.overwriteNote.perform Scenario.lending
          (.alreadyBorrowed "frame1:note") s
        ∧ (Fault.alreadyBorrowed "frame1:note").isFatal = false
        ∧ Scenario.lending.stack.value ⟨1⟩ "coin" = .ok Scenario.keptCoin.toValue
        ∧ s.stack.value ⟨1⟩ "coin" = .error (.useAfterMove "coin")
        ∧ s.ledger.holding? ⟨1⟩ = some .inFlight
        ∧ (∃ u, Fails Transactions.commit (s.after Scenario.putAway)
          (.transactionAborted "use of moved value 'coin'") u)
        ∧ ∃ u, Fails Transactions.commit s (.transactionAborted
          "resource #1 is still held at in flight when its frame exits") u :=
  ⟨⟨_, rfl⟩, _, rfl, rfl, rfl, rfl, rfl, ⟨_, rfl⟩, _, rfl⟩

end Custody
