import Custody.Proofs.Tracking

/-!
# Conservation across a commit

A transaction of a disciplined host that commits has lost nothing: what is in
storage afterwards is what was there when it began, with what it minted and
without what it tore down, each resource once.

The commit itself only looks at records: that none is in flight and none in a
local. That nothing is lost elsewhere, in a field of a resource that is itself
gone, say, follows from the whole run: every step keeps the census and the
ledger together (`Step.advances`), so does the run (`Run.advances`), and
a settled ledger leaves nothing to be found but what is in storage
(`State.InOrder.of_settled`).
-/

namespace Custody

open Ledger

variable {s s' u : State} {hands hands' hands'' : List Resource}
  {minted minted' torn torn' : List ResourceId}

/-! ## Runs advance -/

/-- One thing after the other. -/
theorem Advances.trans (h : Advances s hands u hands' minted torn)
    (h' : Advances u hands' s' hands'' minted' torn') (grown : s.ledger.Grows u.ledger)
    (grown' : u.ledger.Grows s'.ledger) :
    Advances s hands s' hands'' (minted ++ minted') (torn ++ torn') where
  inOrder := h'.inOrder
  conserved := by
    refine List.perm_iff_count.2 fun id => ?_
    have first := h.conserved.count_eq id
    have second := h'.conserved.count_eq id
    simp only [List.count_append] at first second ⊢
    omega
  fresh := by
    refine ⟨List.nodup_append.2 ⟨h.fresh.1, h'.fresh.1, fun id mem id' mem' same => ?_⟩,
      fun id mem => ?_⟩
    · have below := (h.fresh.2 id mem).2
      have above := (h'.fresh.2 id' mem').1
      rw [same] at below
      exact absurd above (Nat.not_le.2 below)
    · rcases List.mem_append.1 mem with mem | mem
      · exact ⟨(h.fresh.2 id mem).1, Nat.lt_of_lt_of_le (h.fresh.2 id mem).2 grown'⟩
      · exact ⟨Nat.le_trans grown (h'.fresh.2 id mem).1, (h'.fresh.2 id mem).2⟩

namespace Run

/-- **A run inside a transaction advances**, unless it dooms the
transaction. -/
theorem advances (run : Run s hands s' hands' minted torn) (running : s.inTransaction = true)
    (clean : s'.isPoisoned = false) (o : s.InOrder hands) :
    Advances s hands s' hands' minted torn := by
  induction run with
  | nil =>
    exact ⟨o, List.Perm.refl _, List.nodup_nil, fun _ mem => nomatch mem⟩
  | @snoc u s' _ _ _ _ _ _ run step ih =>
    have before := ih (step.continues.clean clean)
    have after := step.advances (run.continues.inTransaction running) clean before.inOrder
    exact before.trans after run.continues.ledger step.continues.ledger

end Run

/-- What was minted was not there before. -/
theorem Advances.distinct (h : Advances s hands s' hands' minted torn) (o : s.InOrder hands) :
    (s.ids hands ++ minted).Nodup := by
  refine List.nodup_append.2 ⟨o.reflects.distinct, h.fresh.1, fun id mem id' mem' same => ?_⟩
  obtain ⟨⟨_, holding⟩, listed, rfl⟩ := List.mem_map.1 mem
  have below := o.reflects.bounded _ holding (o.reflects.holding? listed)
  have above := (h.fresh.2 id' mem').1
  rw [← same] at above
  exact absurd above (Nat.not_le.2 below)

/-! ## Commits -/

/-- With nothing in hand and nothing in a local, what there is is in
storage. -/
theorem State.ids_perm_store (o : s.InOrder []) (none : s.stack.standing = []) :
    (s.ids []).Perm s.store.identities := by
  unfold State.ids State.census State.standing
  rw [none, afoot_nil, List.append_nil, List.append_nil]
  exact (Store.identities_perm o.store).symm

/-- **A sound custodian commits a transaction** only when it is not doomed
and the ledger is settled. -/
theorem Sound.of_commit (sound : Sound s hands) (running : s.inTransaction = true)
    (committed : Returns Transactions.commit s () s') :
    s.isPoisoned = false ∧ s.ledger.Settled ∧ s' = s.committed := by
  obtain ⟨t, htx⟩ := Option.isSome_iff_exists.1 running
  obtain ⟨ordered, store, decodes, -⟩ := sound.kept t htx
  exact Transactions.committed_of_commit htx ordered decodes committed

/-- **Conservation across a commit.** What is in storage after a transaction
of a disciplined host, at any depth, is what was there when it began and what
it minted, apart from what it tore down; each resource is there once, and the
host holds nothing and has left nothing in a local. -/
theorem commit_conserves {settings : Settings} {registry : Registry} {s s1 s2 s3 : State}
    {signers : List Address} {hands hands' : List Resource} {minted torn : List ResourceId}
    (reached : Reachable settings registry s hands) (writable : s.store.Writable)
    (began : Returns (Transactions.start signers) s () s1)
    (run : Run s1 hands s2 hands' minted torn)
    (committed : Returns Transactions.commit s2 () s3) :
    s3.store.identities.Nodup
      ∧ (∀ id, id ∈ s3.store.identities ↔ (id ∈ s.store.identities ∨ id ∈ minted) ∧ id ∉ torn)
      ∧ (s3.store.identities ++ torn).Perm (s.store.identities ++ minted)
      ∧ hands' = [] ∧ s2.stack.identities = [] := by
  have sound := reached.sound
  have next : (Move.call (.start signers)).next s = s1 :=
    Move.next_of_returns (Reply.returns_ofUnit.2 ⟨began, rfl⟩)
  have reached1 : Reachable settings registry s1 hands := next ▸ reached.start signers writable
  obtain ⟨free, bytes, -, rfl⟩ := Transactions.returns_start began
  obtain ⟨-, rfl⟩ := sound.idle free
  -- the transaction is running until it commits, and not doomed then
  have running : s2.inTransaction = true := run.continues.inTransaction rfl
  obtain ⟨clean, settled, rfl⟩ := (run.reachable reached1).sound.of_commit running committed
  have o1 := reached1.sound.inOrder rfl
  have done := run.advances rfl clean o1
  obtain ⟨rfl, empty⟩ := done.inOrder.of_settled settled
  -- at both ends everything is in storage
  have before := State.ids_perm_store o1 rfl
  have after := State.ids_perm_store done.inOrder empty
  have distinct := ((before.append_right minted).nodup_iff).1 (done.distinct o1)
  have kept : (s2.committed.store.identities ++ torn).Perm (s.store.identities ++ minted) :=
    ((after.append_right torn).symm.trans done.conserved).trans (before.append_right minted)
  have apart := List.nodup_append.1 (kept.nodup_iff.2 distinct)
  refine ⟨apart.1, fun id => ⟨fun mem => ⟨?_, fun gone => ?_⟩, fun mem => ?_⟩, kept, rfl, ?_⟩
  · exact List.mem_append.1 (kept.mem_iff.1 (List.mem_append_left _ mem))
  · exact apart.2.2 id mem id gone rfl
  · exact (List.mem_append.1 (kept.mem_iff.2 (List.mem_append.2 mem.1))).resolve_right mem.2
  · have locals := CallStack.identities_perm done.inOrder.locals
    rw [empty] at locals
    exact locals.eq_nil

namespace Scenario

/-- The loose coin is destroyed. -/
def burnt : State := keeping.after [.call (.destroy looseCoin.toValue)]

theorem run_burnt : Run begun [] burnt [] [⟨1⟩, ⟨2⟩, ⟨3⟩] [⟨3⟩] := by
  have regular : looseCoin.toValue.Regular := regular_coin (by decide) (by decide)
  exact run_keeping.snoc (@Step.returned _ [looseCoin] (.destroy looseCoin.toValue) [] .done _ rfl
    (.of_few (Nat.le_refl 1) rfl (List.forall_mem_singleton.2 regular)) (by decide)
    (List.Perm.refl _) rfl)

/-- The transaction commits. -/
def settled : State := burnt.committed

end Scenario

theorem commit_conserves_burnt :
    Reachable Settings.standard Scenario.registry
        (State.fresh Settings.standard Scenario.registry) []
      ∧ Returns (Transactions.start [Scenario.alice])
        (State.fresh Settings.standard Scenario.registry) () Scenario.begun
      ∧ Run Scenario.begun [] Scenario.burnt [] [⟨1⟩, ⟨2⟩, ⟨3⟩] [⟨3⟩]
      ∧ Returns Transactions.commit Scenario.burnt () Scenario.settled
      ∧ Scenario.settled.store.identities.Nodup
      ∧ (Scenario.settled.store.identities ++ [(⟨3⟩ : ResourceId)]).Perm [⟨1⟩, ⟨2⟩, ⟨3⟩] := by
  have began : Returns (Transactions.start [Scenario.alice])
      (State.fresh Settings.standard Scenario.registry) () Scenario.begun := rfl
  have committed : Returns Transactions.commit Scenario.burnt () Scenario.settled := rfl
  obtain ⟨distinct, -, kept, -, -⟩ :=
    commit_conserves .fresh Scenario.writable_fresh began Scenario.run_burnt committed
  exact ⟨.fresh, began, Scenario.run_burnt, committed, distinct, kept⟩

end Custody
