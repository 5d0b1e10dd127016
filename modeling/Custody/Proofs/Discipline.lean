import Custody.Proofs.Effects.Calls
import Custody.Proofs.Idle
import Custody.Proofs.Inside

/-!
# Disciplined hosts

A host holds resources between its calls. It is **disciplined** when it hands
over only what it holds, each resource to at most one call, and never makes
or edits a resource itself; it may wrap what it holds in arrays and
dictionaries. What a call gave back it holds from then on. What a failed call
was given, or dropped on the way, still counts as held, and what it holds
when a transaction ends is discarded.

`Step` is one step of such a host, `Run` a sequence of them, and `Reachable`
are the states it can reach from a custodian with nothing stored, over any
number of transactions. All of them are `Sound`: unless the running
transaction is doomed, the ledger says where everything is, and what the
transaction keeps would be in order again after rolling back.
-/

namespace Custody

open Ledger CustodyM

variable {s s' u : State} {hands hands' : List Resource} {minted torn : List ResourceId}

/-! ## Steps -/

namespace Operation

/-- The resources of a local that was taken. -/
def takenFrom (s : State) (frame : FrameId) (name : String) : List Resource :=
  match (outcome (Locals.take frame name) s).1 with
  | .ok v => v.resources
  | .error _ => []

/-- **What a failed call dropped on the way**: passing takes a local before
it binds the value. -/
def swallowed (s : State) : Operation → List Resource
  | pass caller argument _ _ => takenFrom s caller argument
  | assign frame source _ => takenFrom s frame source
  | _ => []

end Operation

/-- **One step of a disciplined host** that holds resources: the state and
the resources it holds afterwards, what the step minted, and what it tore
down. Numbers for identities are assumed not to run out. -/
inductive Step (s : State) (hands : List Resource) :
    State → List Resource → List ResourceId → List ResourceId → Prop where
  /-- A call returns. -/
  | returned {o : Operation} {rest : List Resource} {reply : Reply} {s' : State}
      (inner : o.isBound = false) (permitted : o.Permitted) (room : s.ledger.next < UInt64.size)
      (held : hands.Perm (o.offered ++ rest)) (h : Returns o.perform s reply s') :
      Step s hands s' (o.received reply ++ rest) (o.minted reply) o.torn
  /-- A call fails. -/
  | failed {o : Operation} {rest : List Resource} {fault : Fault} {s' : State}
      (inner : o.isBound = false) (permitted : o.Permitted) (room : s.ledger.next < UInt64.size)
      (held : hands.Perm (o.offered ++ rest)) (h : Fails o.perform s fault s') :
      Step s hands s' (o.swallowed s ++ hands) [] []
  /-- Frames are closed down to the given one, or not all of them. -/
  | unwound (frame : FrameId) : Step s hands ((Move.unwind frame).next s) hands [] []
  /-- Types are declared. -/
  | declared (types : Registry) : Step s hands ((Move.declare types).next s) hands [] []

/-- **A run of a disciplined host** that neither begins nor ends a
transaction, with all that it minted and all that it tore down. -/
inductive Run (s : State) (hands : List Resource) :
    State → List Resource → List ResourceId → List ResourceId → Prop where
  | nil : Run s hands s hands [] []
  | snoc {u s' : State} {hands' hands'' : List Resource}
      {minted minted' torn torn' : List ResourceId} (run : Run s hands u hands' minted torn)
      (step : Step u hands' s' hands'' minted' torn') :
      Run s hands s' hands'' (minted ++ minted') (torn ++ torn')

/-- **What a disciplined host can reach**, from a custodian with nothing
stored, and what it then holds. -/
inductive Reachable (settings : Settings) (registry : Registry) : State → List Resource → Prop where
  | fresh : Reachable settings registry (State.fresh settings registry) []
  | step {s s' : State} {hands hands' : List Resource} {minted torn : List ResourceId}
      (reached : Reachable settings registry s hands) (h : Step s hands s' hands' minted torn) :
      Reachable settings registry s' hands'
  /-- A transaction is begun, or not. -/
  | start {s : State} {hands : List Resource} (reached : Reachable settings registry s hands)
      (signers : List Address) (writable : s.store.Writable) :
      Reachable settings registry ((Move.call (.start signers)).next s) hands
  /-- A transaction is committed or aborted, if there is one. -/
  | finish {s : State} {hands : List Resource} {o : Operation}
      (reached : Reachable settings registry s hands) (bound : o = .commit ∨ o = .abort) :
      Reachable settings registry ((Move.call o).next s) []

/-! ## Failed calls -/

namespace Operation

variable {o : Operation} {e : Fault}

/-- Nothing was done, or a local was taken and its value dropped. -/
def Drops (s s' : State) (dropped : List Resource) : Prop :=
  (s' = s ∧ dropped = [])
    ∨ ∃ frame name v, Returns (Locals.take frame name) s v s' ∧ dropped = v.resources

theorem Drops.effect {dropped : List Resource} (h : Drops s s' dropped) :
    Effect s s' [] dropped [] [] := by
  obtain ⟨rfl, rfl⟩ | ⟨frame, name, v, taken, rfl⟩ := h
  · exact Effect.refl s' []
  · exact Locals.effect_take taken

/-- Whatever comes of a call, what it swallows it drops on the way. -/
theorem exists_drops (s : State) (o : Operation) : ∃ u, Drops s u (o.swallowed s) := by
  have taken (frame : FrameId) (name : String) : ∃ u, Drops s u (takenFrom s frame name) := by
    unfold takenFrom
    rcases returns_or_fails (Locals.take frame name) s with ⟨v, u, taken⟩ | ⟨e, u, untaken⟩
    · exact ⟨u, .inr ⟨frame, name, v, taken, by rw [taken]⟩⟩
    · exact ⟨s, .inl ⟨rfl, by rw [untaken]⟩⟩
  cases o with
  | pass caller argument => exact taken caller argument
  | assign frame source => exact taken frame source
  | _ => exact ⟨s, .inl ⟨rfl, rfl⟩⟩

theorem drops_of_fails_pass {caller callee : FrameId} {argument parameter : String}
    (running : s.inTransaction = true)
    (failed : Fails (Locals.pass caller argument callee parameter) s e s') :
    s'.isPoisoned = true ∨ Drops s s' (takenFrom s caller argument) := by
  unfold takenFrom
  rcases Locals.fails_pass running failed with doomed | ⟨rfl, untaken⟩ | ⟨v, taken⟩
  · exact .inl doomed
  · exact .inr (.inl ⟨rfl, by rw [untaken]⟩)
  · exact .inr (.inr ⟨caller, argument, v, taken, by rw [taken]⟩)

/-- **A call that fails** dooms the transaction or has done no more than drop
what it swallowed. -/
theorem drops_of_fails (inner : o.isBound = false) (running : s.inTransaction = true)
    (failed : Fails o.perform s e s') :
    s'.isPoisoned = true ∨ Drops s s' (o.swallowed s) := by
  have spared (h : Sparing o.perform) (none : o.swallowed s = []) :
      s'.isPoisoned = true ∨ Drops s s' (o.swallowed s) :=
    (h s e s' running failed).imp_right fun same => .inl ⟨same, none⟩
  cases o with
  | start | commit | abort => cases inner
  | createResource => exact spared (Construction.sparing_createResource.report _) rfl
  | createStruct =>
    exact spared ((Construction.looks_createStruct.sparing
      Construction.continuing_createStruct).report _) rfl
  | pushFrame => exact spared (Frames.sparing_push.report _) rfl
  | popFrame => exact spared (Frames.dooming_pop.sparing.report _) rfl
  | bind => exact spared (Locals.sparing_bind.report _) rfl
  | take => exact spared (Locals.sparing_take.report _) rfl
  | readLocal => exact spared ((Locals.looks_read.sparing Locals.continuing_read).report _) rfl
  | copyLocal => exact spared ((Locals.looks_copy.sparing Locals.continuing_copy).report _) rfl
  -- passing may fail half way, with the value taken and not yet bound
  | pass caller argument callee parameter =>
    exact drops_of_fails_pass running (Reply.fails_ofUnit.1 failed)
  | assign frame source target =>
    exact drops_of_fails_pass running (Reply.fails_ofUnit.1 failed)
  | insert => exact spared (Locals.sparing_insert.report _) rfl
  | push => exact spared (Locals.sparing_push.report _) rfl
  | remove => exact spared (Locals.sparing_remove.report _) rfl
  | takeField => exact spared (Locals.sparing_takeField.report _) rfl
  | putField => exact spared (Locals.sparing_putField.report _) rfl
  | save => exact spared (Storage.sparing_save.report _) rfl
  | load => exact spared (Storage.sparing_load.report _) rfl
  | copyStored => exact spared ((Storage.looks_copy.sparing Storage.continuing_copy).report _) rfl
  | typeAt => exact spared ((Storage.looks_typeAt.sparing Storage.continuing_typeAt).report _) rfl
  | storedPaths =>
    exact spared ((Storage.looks_paths.sparing Storage.continuing_paths).report _) rfl
  | link => exact spared (Links.sparing_add.report _) rfl
  | unlink => exact spared (Links.sparing_remove.report _) rfl
  | capability =>
    exact spared ((Links.looks_capability.sparing Links.continuing_capability).report _) rfl
  | linkTarget => exact spared ((Links.looks_target.sparing Links.continuing_target).report _) rfl
  | checkCapability => exact spared ((Sparing.of_reads Keeps.get).report _) rfl
  | borrow => exact (Reply.not_fails_ofBorrow failed).elim
  | borrowStored => exact (Reply.not_fails_ofBorrow failed).elim
  | borrowLocal => exact (Reply.not_fails_ofBorrow failed).elim
  | isLive => exact spared ((Sparing.of_reads Keeps.get).report _) rfl
  | readMember => exact spared ((Members.looks_read.sparing Members.continuing_read).report _) rfl
  | setMember => exact spared (Members.sparing_set.report _) rfl
  | insertMember => exact spared (Members.sparing_insert.report _) rfl
  | pushMember => exact spared (Members.sparing_push.report _) rfl
  | removeMember => exact spared (Members.sparing_remove.report _) rfl
  | destroy => exact spared (Teardown.sparing_destroy.report _) rfl
  | destroyWith => exact spared (Teardown.sparing_destroyWith.report _) rfl

/-- Outside a transaction nothing is taken. -/
theorem swallowed_of_idle (idle : s.Idle) (o : Operation) : o.swallowed s = [] := by
  have nothing (frame : FrameId) (name : String) : takenFrom s frame name = [] := by
    obtain ⟨e, refused⟩ := @Locals.refuses_take frame name s idle
    unfold takenFrom
    rw [refused]
  cases o with
  | pass caller argument => exact nothing caller argument
  | assign frame source => exact nothing frame source
  | _ => rfl

end Operation

/-! ## Steps and runs -/

/-- **What a step or a run does** with everything in order: order is kept,
and the resources there are stay the same, apart from new ones that were
minted and those that were torn down. -/
structure Advances (s : State) (hands : List Resource) (s' : State) (hands' : List Resource)
    (minted torn : List ResourceId) : Prop where
  /-- Order is kept. -/
  inOrder : s'.InOrder hands'
  /-- The resources there are, and those torn down. -/
  conserved : (s'.ids hands' ++ torn).Perm (s.ids hands ++ minted)
  /-- What was minted is new. -/
  fresh : minted.Nodup ∧ ∀ id ∈ minted, s.ledger.next ≤ id.number ∧ id.number < s'.ledger.next

/-- An effect advances whoever holds what is offered. -/
theorem Effect.advances {A B rest : List Resource} (h : Effect s s' A B minted torn)
    (held : hands.Perm (A ++ rest)) (o : s.InOrder hands) :
    Advances s hands s' (B ++ rest) minted torn where
  inOrder := h.inOrder rest (o.perm held)
  conserved := (h.conserved rest (o.perm held)).trans ((s.ids_perm held).symm.append_right _)
  fresh := h.fresh

theorem length_le_afoot (rs : List Resource) : rs.length ≤ (afoot rs).length := by
  unfold afoot flying
  simp

/-- Where nothing is minted and the rest stays, nothing comes to hand. -/
theorem Advances.eq_nil (h : Advances s [] s hands minted torn) : hands = [] := by
  have none : minted = [] := List.eq_nil_iff_forall_not_mem.2 fun id mem =>
    absurd (h.fresh.2 id mem).1 (Nat.not_le.2 (h.fresh.2 id mem).2)
  have lengths := h.conserved.length_eq
  have := length_le_afoot hands
  rw [none] at lengths
  simp only [State.ids, State.census, List.length_append, List.length_map, afoot_nil,
    List.length_nil] at lengths
  exact List.length_eq_zero_iff.1 (by omega)

/-- **Unwinding** takes nothing away, unless it dooms the transaction. -/
theorem Move.effect_unwind {frame : FrameId} (running : s.inTransaction = true)
    (clean : ((Move.unwind frame).next s).isPoisoned = false) :
    Effect s ((Move.unwind frame).next s) [] [] [] [] := by
  rcases returns_or_fails (Move.unwind frame).perform s with ⟨reply, t, h⟩ | ⟨e, t, h⟩
  · obtain ⟨unwound, -⟩ := Reply.returns_ofUnit.1 h
    rw [Move.next_of_returns h]
    exact Frames.effect_unwind unwound
  · rw [Move.next_of_fails h, Frames.dooming_unwind s e t running (Reply.fails_ofUnit.1 h)] at clean
    cases clean

namespace Step

/-- A step lets a transaction go on. -/
theorem continues (h : Step s hands s' hands' minted torn) : s.Continues s' := by
  cases h with
  | returned inner permitted room held h =>
    exact (Operation.continuing_perform inner).of_returns h
  | failed inner permitted room held h => exact (Operation.continuing_perform inner).of_fails h
  | unwound frame => exact Move.continuing_perform rfl s
  | declared types => exact Move.continuing_perform rfl s

/-- **A step inside a transaction advances**, unless it dooms the
transaction. -/
theorem advances (h : Step s hands s' hands' minted torn) (running : s.inTransaction = true)
    (clean : s'.isPoisoned = false) (o : s.InOrder hands) :
    Advances s hands s' hands' minted torn := by
  cases h with
  | returned inner permitted room held h =>
    exact (Operation.effect_perform inner permitted room o.store o.locals h).advances held o
  | failed inner permitted room held h =>
    rcases Operation.drops_of_fails inner running h with doomed | dropped
    · rw [doomed] at clean
      cases clean
    · exact dropped.effect.advances (List.Perm.refl _) o
  | unwound frame => exact (Move.effect_unwind running clean).advances (List.Perm.refl _) o
  | declared types =>
    have same : s.SameGoods ((Move.declare types).next s) := ⟨rfl, rfl, rfl⟩
    exact (same.effect []).advances (List.Perm.refl _) o

/-- **A step outside a transaction** changes no more than the declared
types, and the host holds nothing after it. -/
theorem idle (h : Step s [] s' hands' minted torn) (idle : s.Idle) (o : s.InOrder []) :
    s.SameGoods s' ∧ s'.Idle ∧ hands' = [] := by
  have rests {o : Operation} (inner : o.isBound = false) {r : Except Fault Reply}
      (h : outcome o.perform s = (r, s')) : s' = s := by
    have := Operation.rests_perform inner s idle
    rwa [h] at this
  cases h with
  | returned inner permitted room held h =>
    obtain rfl := rests inner h
    have done := (Operation.effect_perform inner permitted room o.store o.locals h).advances held o
    exact ⟨Std.Refl.refl s', idle, done.eq_nil⟩
  | failed inner permitted room held h =>
    obtain rfl := rests inner h
    rw [Operation.swallowed_of_idle idle]
    exact ⟨Std.Refl.refl s', idle, rfl⟩
  | unwound frame =>
    have same : (Move.unwind frame).next s = s := (Frames.rests_unwind.report _) s idle
    rw [same]
    exact ⟨Std.Refl.refl s, idle, rfl⟩
  | declared types => exact ⟨⟨rfl, rfl, rfl⟩, ⟨idle.transaction, idle.frames, idle.references⟩, rfl⟩

end Step

namespace Run

theorem continues (run : Run s hands s' hands' minted torn) : s.Continues s' := by
  induction run with
  | nil => exact State.Continues.refl s
  | snoc _ step ih => exact ih.trans step.continues

/-- A run of a reachable custodian reaches others. -/
theorem reachable {settings : Settings} {registry : Registry}
    (run : Run s hands s' hands' minted torn) (reached : Reachable settings registry s hands) :
    Reachable settings registry s' hands' := by
  induction run with
  | nil => exact reached
  | snoc _ step ih => exact ih.step step

end Run

/-! ## The invariant -/

/-- **What holds of every state a disciplined host can reach.** -/
structure Sound (s : State) (hands : List Resource) : Prop where
  /-- Without a transaction there is no frame, no reference, and nothing in
  hand. -/
  idle : s.transaction = none → s.Idle ∧ hands = []
  /-- With one, frames are in order, and so is what rolling back would give. -/
  kept : ∀ t, s.transaction = some t → s.stack.Ordered ∧
    ∃ store, Store.ofBytes t.snapshot = .ok store ∧ (s.rolledBack store t.records).InOrder []
  /-- Unless the transaction is doomed, everything is in order. -/
  inOrder : s.isPoisoned = false → s.InOrder hands

/-! ## Beginning and ending transactions -/

/-- **A running transaction can be rolled back** to a custodian with the
property. -/
def State.Recoverable (P : State → Prop) (s : State) : Prop :=
  ∀ t, s.transaction = some t → s.stack.Ordered ∧
    ∃ store, Store.ofBytes t.snapshot = .ok store ∧ P (s.rolledBack store t.records)

/-- A transaction that goes on keeps what it can be rolled back to. -/
theorem State.Recoverable.continues {P : State → Prop} (h : s.Recoverable P)
    (goes : s.Continues s')
    (later : ∀ store records, P (s.rolledBack store records) → P (s'.rolledBack store records)) :
    s'.Recoverable P := by
  intro t' running'
  rcases running : s.transaction with _ | t
  · rw [goes.idle running] at running'
    cases running'
  · obtain ⟨_, still, same⟩ := goes.running t running
    obtain rfl := Option.some.inj (still.symm.trans running')
    obtain ⟨ordered, store, decodes, back⟩ := h t running
    refine ⟨goes.ordered ordered, store, same.snapshot ▸ decodes, ?_⟩
    rw [same.records]
    exact later store t.records back

/-- Without a transaction there is nothing to roll back. -/
theorem State.Idle.recoverable {P : State → Prop} (idle : s.Idle) : s.Recoverable P := by
  intro t running
  rw [idle.transaction] at running
  cases running

namespace State.Begins

variable {signers : List Address} {bytes : Bytes} {s1 : State}

/-- Beginning changes no goods. -/
theorem sameGoods (h : s.Begins signers bytes s1) (idle : s.Idle) : s.SameGoods s1 := by
  refine ⟨h.store, ?_, h.ledger⟩
  rw [h.stack]
  unfold CallStack.clear
  rw [← idle.frames]

/-- **What a transaction begins with** is what it can be rolled back to. -/
theorem recoverable {P : State → Prop} (h : s.Begins signers bytes s1) (idle : s.Idle)
    (readable : s.store.Readable) (writable : s.store.Writable)
    (back : ∀ u, s.SameGoods u → P u) : s1.Recoverable P := by
  intro t running
  obtain rfl := Option.some.inj (h.transaction.symm.trans running)
  refine ⟨h.stack ▸ CallStack.Ordered.clear, s.store,
    readable.ofBytes_toBytes h.written (writable bytes h.written), back _ ⟨rfl, ?_, ?_⟩⟩
  · show s1.stack.clear = s.stack
    rw [(h.sameGoods idle).stack]
    unfold CallStack.clear
    rw [← idle.frames]
  · show { s1.ledger with records := s.ledger.records } = s.ledger
    rw [h.ledger]

end State.Begins

namespace Transactions

/-- **A transaction is begun, or nothing happens.** -/
theorem next_starting (s : State) (signers : List Address) :
    (Move.call (.start signers)).next s = s
      ∨ s.transaction = none
        ∧ ∃ bytes, s.Begins signers bytes ((Move.call (.start signers)).next s) := by
  rcases returns_or_fails (start signers) s with ⟨_, s1, began⟩ | ⟨e, s1, failed⟩
  · have next :=
      Move.next_of_returns (m := .call (.start signers)) (Reply.returns_ofUnit.2 ⟨began, rfl⟩)
    rw [next]
    exact .inr ⟨(returns_start began).1, begins_of_start began⟩
  · obtain rfl := fails_start failed
    exact .inl (Move.next_of_fails (m := .call (.start signers)) (Reply.fails_ofUnit.2 failed))

/-- Without a transaction there is none to end. -/
theorem next_of_idle {o : Operation} (bound : o = .commit ∨ o = .abort)
    (idle : s.transaction = none) : (Move.call o).next s = s := by
  have refused : Fails requireTransaction s .noTransaction s :=
    fails_requireTransaction.2 ⟨idle, rfl, rfl⟩
  have fails {α : Type} {k : Transaction → CustodyM α} :
      Fails (requireTransaction >>= k) s .noTransaction s := fails_bind.2 (.inl refused)
  rcases bound with rfl | rfl
  · exact Move.next_of_fails (Reply.fails_ofUnit.2 fails)
  · exact Move.next_of_fails (Reply.fails_ofUnit.2 fails)

/-- **A transaction is committed or rolled back.** -/
theorem next_ending {o : Operation} {t : Transaction} {store : Store}
    (bound : o = .commit ∨ o = .abort) (running : s.transaction = some t)
    (ordered : s.stack.Ordered) (decodes : Store.ofBytes t.snapshot = .ok store) :
    (s.isPoisoned = false ∧ s.ledger.Settled ∧ (Move.call o).next s = s.committed)
      ∨ ∃ u, s.Continues u ∧ (Move.call o).next s = u.rolledBack store t.records := by
  rcases bound with rfl | rfl
  · rcases returns_or_fails commit s with ⟨_, s', returned⟩ | ⟨e, s', failed⟩
    · obtain ⟨clean, settled, rfl⟩ := committed_of_commit running ordered decodes returned
      exact .inl ⟨clean, settled,
        Move.next_of_returns (m := .call .commit) (Reply.returns_ofUnit.2 ⟨returned, rfl⟩)⟩
    · obtain ⟨u, goes, rfl⟩ := rolledBack_of_commit running ordered decodes failed
      exact .inr ⟨u, goes, Move.next_of_fails (m := .call .commit) (Reply.fails_ofUnit.2 failed)⟩
  · have ended := returns_abort running decodes
    exact .inr ⟨s, State.Continues.refl s,
      Move.next_of_returns (m := .call .abort) (Reply.returns_ofUnit.2 ⟨ended, rfl⟩)⟩

end Transactions

/-- **What an inner move keeps**, closing frames and the ways in which a
transaction begins and ends, every move keeps. This does not depend on whether
the store that a transaction keeps can be read back. -/
theorem Move.keeps_next {R : State → State → Prop} [IsPreorder State R] {m : Move}
    (inner : m.isInner = true → ∀ s, R s (m.next s))
    (unwound : ∀ frame s, R s ((Move.unwind frame).next s))
    (begun : ∀ s signers bytes t, s.Begins signers bytes t → R s t)
    (dropped : ∀ s, R s { s with transaction := none })
    (restored : ∀ s store records, R s (s.rolledBack store records))
    (settled : ∀ s, R s { s with
      loans := s.loans.releaseAll, ledger := s.ledger.forgetDestroyed, transaction := none })
    (s : State) : R s (m.next s) := by
  have closes (frame : FrameId) : Keeps R (Frames.unwind frame) := fun s => by
    have closed := unwound frame s
    rwa [show (Move.unwind frame).next s = (outcome (Frames.unwind frame) s).2 from
      snd_outcome_report _ _ s] at closed
  cases m with
  | call o =>
    cases o with
    | start signers =>
      rcases Transactions.next_starting s signers with next | ⟨-, bytes, begins⟩
      · rw [next]
        exact Std.Refl.refl s
      · exact begun s signers bytes _ begins
    | commit =>
      exact Keeps.ofUnit (Transactions.keeps_commit closes dropped restored settled) s
    | abort => exact Keeps.ofUnit (Transactions.keeps_abort dropped restored) s
    | _ => exact inner rfl s
  | _ => exact inner rfl s

/-! ## The invariant, step by step -/

/-- **With a settled ledger** nothing is in hand and nothing in a local. -/
theorem State.InOrder.of_settled (o : s.InOrder hands) (settled : s.ledger.Settled) :
    hands = [] ∧ s.stack.standing = [] := by
  constructor
  · refine List.eq_nil_iff_forall_not_mem.2 fun r hr => ?_
    have flown : (r.id, Holding.inFlight) ∈ s.census hands :=
      List.mem_append_right _ (List.mem_append_left _
        (List.mem_map_of_mem (List.mem_map_of_mem hr)))
    have lingers := settled r.id _ (o.reflects.holding? flown)
    cases lingers
  · refine List.flatMap_eq_nil_iff.2 fun f hf => Frame.standing_eq_nil (fun e he => ?_)
      (settled.heldIn f.id)
    exact o.reflects.holding? (List.mem_append_left _ (List.mem_append_right _
      (List.mem_flatMap.2 ⟨f, hf, he⟩)))

/-- **A commit keeps order.** -/
theorem State.InOrder.committed (o : s.InOrder hands) (settled : s.ledger.Settled) :
    s.committed.InOrder [] := by
  obtain ⟨rfl, empty⟩ := o.of_settled settled
  refine ⟨?_, o.store, fun _ hf => (nomatch hf), fun _ hr => (nomatch hr)⟩
  have same : s.committed.census [] = s.census [] := by
    unfold State.census State.standing
    rw [empty]
    rfl
  rw [same]
  exact o.reflects.forgetDestroyed

/-- Rolling back gives the same later on, as far as order goes. -/
theorem State.InOrder.rolledBack {store : Store} {records : SortedMap ResourceId Holding}
    (o : (s.rolledBack store records).InOrder []) (grown : s.ledger.Grows s'.ledger) :
    (s'.rolledBack store records).InOrder [] where
  reflects := o.reflects.of_records rfl grown
  store := o.store
  locals := o.locals
  hands := o.hands

namespace Sound

theorem of_idle (idle : s.Idle) (o : s.InOrder []) : Sound s [] :=
  ⟨fun _ => ⟨idle, rfl⟩, idle.recoverable (P := (State.InOrder · [])), fun _ => o⟩

/-- A custodian with nothing stored. -/
theorem fresh (settings : Settings) (registry : Registry) :
    Sound (State.fresh settings registry) [] := by
  refine of_idle ⟨rfl, rfl, rfl⟩ ⟨⟨List.nodup_nil, fun id h => ?_, fun id h known => ?_⟩,
    fun _ mem => (nomatch mem), fun _ mem => (nomatch mem), fun _ mem => (nomatch mem)⟩
  · exact iff_of_false (fun mem => nomatch mem) fun known => nomatch known.1
  · cases known

theorem step (sound : Sound s hands) (h : Step s hands s' hands' minted torn) :
    Sound s' hands' := by
  rcases htx : s.transaction with _ | t
  · -- outside a transaction nothing that matters changes
    obtain ⟨idle, rfl⟩ := sound.idle htx
    have o := sound.inOrder (State.isPoisoned_of_free htx)
    obtain ⟨same, idle', rfl⟩ := h.idle idle o
    exact of_idle idle' (o.of_sameGoods same)
  · -- inside one, what it keeps stays, and order is kept unless it is doomed
    have goes := h.continues
    have running : s.inTransaction = true := Option.isSome_iff_exists.2 ⟨t, htx⟩
    refine ⟨fun none => ?_, ?_, fun clean => ?_⟩
    · obtain ⟨t', ht', -⟩ := goes.running t htx
      rw [ht'] at none
      cases none
    · exact State.Recoverable.continues (P := (State.InOrder · [])) sound.kept goes
        fun _ _ back => back.rolledBack goes.ledger
    · exact (h.advances running clean (sound.inOrder (goes.clean clean))).inOrder

theorem start (sound : Sound s hands) (signers : List Address) (writable : s.store.Writable) :
    Sound ((Move.call (.start signers)).next s) hands := by
  rcases Transactions.next_starting s signers with next | ⟨free, bytes, begins⟩
  · rwa [next]
  · obtain ⟨idle, rfl⟩ := sound.idle free
    have o := sound.inOrder (State.isPoisoned_of_free free)
    refine ⟨fun none => ?_,
      begins.recoverable idle o.store.readable writable fun _ same => o.of_sameGoods same,
      fun _ => o.of_sameGoods (begins.sameGoods idle)⟩
    rw [begins.transaction] at none
    cases none

/-- **A transaction ends in order**, however it ends. -/
theorem finish (sound : Sound s hands) {o : Operation} (bound : o = .commit ∨ o = .abort) :
    Sound ((Move.call o).next s) [] := by
  rcases htx : s.transaction with _ | t
  · rw [Transactions.next_of_idle bound htx]
    obtain ⟨idle, rfl⟩ := sound.idle htx
    exact sound
  · obtain ⟨ordered, store, decodes, back⟩ := sound.kept t htx
    rcases Transactions.next_ending bound htx ordered decodes with
      ⟨clean, settled, next⟩ | ⟨u, goes, next⟩
    · rw [next]
      exact of_idle ⟨rfl, rfl, rfl⟩ ((sound.inOrder clean).committed settled)
    · rw [next]
      exact of_idle ⟨rfl, rfl, rfl⟩ (back.rolledBack goes.ledger)

end Sound

/-- **Every state a disciplined host can reach is sound.** -/
theorem Reachable.sound {settings : Settings} {registry : Registry}
    (h : Reachable settings registry s hands) : Sound s hands := by
  induction h with
  | fresh => exact Sound.fresh settings registry
  | step _ h ih => exact ih.step h
  | start _ signers writable ih => exact ih.start signers writable
  | finish _ bound ih => exact ih.finish bound

end Custody
