import Custody.Proofs.Layout

/-!
# Restarting

A custodian that stops keeps no more than the bytes of its store. One that
resumes from them walks the store that it reads back and records every resource
where the walk meets it. The ledger it replaces was not made like that: it was
kept up to date entry by entry, through every move, shift and teardown since the
custodian was new.

Between the transactions of a disciplined host the two ledgers have the same
records (`restart_faithful`). Both say where everything is, and they say nothing
else: what is stored is all that there is, and what was destroyed is forgotten
when a transaction ends.
-/

namespace Custody

open Ledger

variable {s s' : State} {hands hands' : List Resource} {minted torn : List ResourceId}
  {settings : Settings} {registry : Registry}

/-! ## The ledger of a store -/

namespace Ledger

variable {l l' : Ledger} {c : Census}

/-- What is done for one after the other enters the records of all, if each
enters its own. -/
theorem records_foldl {α : Type} {adopt : Ledger → α → Ledger} {standing : α → Census}
    (each : ∀ (l l' : Ledger) (x : α), l.records = l'.records →
      (adopt l x).records = (l'.recordAll (standing x)).records)
    (xs : List α) (same : l.records = l'.records) :
    (xs.foldl adopt l).records = (l'.recordAll (xs.flatMap standing)).records := by
  induction xs generalizing l l' with
  | nil => exact same
  | cons x xs ih =>
    rw [List.flatMap_cons, recordAll_append]
    exact ih (each l l' x same)

/-- **A store's ledger** records what stands in the store. -/
theorem records_ofStore (store : Store) :
    (ofStore store).records = (empty.recordAll store.standing).records := by
  unfold Store.standing Store.table
  rw [List.flatMap_map]
  refine records_foldl (fun l l' entry same => ?_) store.entries rfl
  obtain ⟨address, path, v | link⟩ := entry
  · show _ = (l'.recordAll (owning (v.inventory _))).records
    unfold owning
    rw [List.map_eq_flatMap]
    exact records_foldl (fun l l' r same => congrArg (·.insert r.1 (.owned r.2)) same) _ same
  · exact same

/-- **Everything recorded still exists.** -/
def Swept (l : Ledger) : Prop := ∀ id h, l.holding? id = some h → h.isLive = true

/-- **A ledger that records nothing else** than a census is made by entering
the census. -/
theorem Reflects.records_eq (reflects : l.Reflects c) (swept : l.Swept) :
    l.records = (empty.recordAll c).records := by
  refine SortedMap.ext fun id => ?_
  show l.holding? id = (empty.recordAll c).holding? id
  by_cases listed : id ∈ c.map Prod.fst
  · obtain ⟨⟨_, h⟩, mem, rfl⟩ := List.mem_map.1 listed
    rw [reflects.holding? mem, holding?_recordAll_of_mem reflects.distinct mem]
  · rw [holding?_recordAll_of_not_mem listed]
    cases known : l.holding? id with
    | none => rfl
    | some h =>
      have known' := (reflects.recorded id h).2 ⟨known, swept id h known⟩
      exact absurd (List.mem_map_of_mem known') listed

end Ledger

/-! ## What a disciplined host leaves between transactions -/

/-- A step is an inner move, and one that a host can make. -/
theorem Step.exists_move (h : Step s hands s' hands' minted torn) :
    ∃ m : Move, m.isInner = true ∧ m.Feasible s ∧ s' = m.next s := by
  have call {o : Operation} (inner : o.isBound = false) (permitted : o.Permitted) :
      (Move.call o).isInner = true ∧ (Move.call o).Feasible s := by
    have feasible : (∀ v ∈ o.arguments, v.Readable) ∧ ∀ key ∈ o.keys, key.InRange :=
      ⟨fun v hv => (permitted.values v hv).readable, permitted.keys⟩
    cases o with
    | start | commit | abort => cases inner
    | _ => exact ⟨rfl, feasible⟩
  cases h with
  | @returned o _ reply _ inner permitted _ _ h =>
    obtain ⟨isInner, feasible⟩ := call inner permitted
    exact ⟨.call o, isInner, feasible, (Move.next_of_returns (m := .call o) h).symm⟩
  | @failed o _ fault _ inner permitted _ _ h =>
    obtain ⟨isInner, feasible⟩ := call inner permitted
    exact ⟨.call o, isInner, feasible, (Move.next_of_fails (m := .call o) h).symm⟩
  | unwound frame => exact ⟨.unwind frame, rfl, trivial, rfl⟩
  | declared types => exact ⟨.declare types, rfl, trivial, rfl⟩

/-- **Storage lasts** in every state that a disciplined host can reach. -/
theorem Reachable.lasting (h : Reachable settings registry s hands) : s.Lasting Store.Durable := by
  induction h with
  | fresh => exact State.Lasting.ofStore Store.Durable.empty settings registry
  | step _ h ih =>
    obtain ⟨m, -, feasible, rfl⟩ := h.exists_move
    exact ih.next Store.upheld_durable feasible
  | start _ signers writable ih =>
    exact ih.start (Store.upheld_durable.readable ih.here) signers writable
  | finish _ bound ih => exact ih.finish bound

/-- **Nothing that was destroyed is on record between transactions**, and none
of it is among the records that a transaction keeps. -/
structure State.Swept (s : State) : Prop where
  between : s.transaction = none → s.ledger.Swept
  kept : s.Recoverable fun u => u.ledger.Swept

/-- The records of a reachable idle custodian have been swept. -/
theorem Reachable.swept (h : Reachable settings registry s hands) : s.Swept := by
  induction h with
  | fresh => exact ⟨fun _ _ _ known => (nomatch known), fun _ running => nomatch running⟩
  | @step s s' hands hands' _ _ reached h ih =>
    refine ⟨fun free' => ?_, ih.kept.continues h.continues fun _ _ back => back⟩
    -- a step neither begins nor ends a transaction, and rests outside of one
    rcases free : s.transaction with _ | t
    · obtain ⟨idle, rfl⟩ := reached.sound.idle free
      obtain ⟨same, -, -⟩ := h.idle idle (reached.sound.inOrder (State.isPoisoned_of_free free))
      exact same.ledger ▸ ih.between free
    · obtain ⟨t', running, -⟩ := h.continues.running t free
      rw [free'] at running
      cases running
  | @start s hands reached signers writable ih =>
    rcases Transactions.next_starting s signers with next | ⟨free, bytes, begins⟩
    · rwa [next]
    · refine ⟨fun free' => ?_, ?_⟩
      · rw [begins.transaction] at free'
        cases free'
      · exact begins.recoverable (reached.sound.idle free).1
          (reached.sound.inOrder (State.isPoisoned_of_free free)).store.readable writable
          fun u same => same.ledger ▸ ih.between free
  | @finish s hands o reached bound ih =>
    rcases running : s.transaction with _ | t
    · rwa [Transactions.next_of_idle bound running]
    · obtain ⟨ordered, store, decodes, back⟩ := ih.kept t running
      rcases Transactions.next_ending bound running ordered decodes with
        ⟨-, -, next⟩ | ⟨u, -, next⟩
      · exact next ▸ ⟨fun _ id h known => (holding?_forgetDestroyed.1 known).2,
          fun _ running => nomatch running⟩
      · exact next ▸ ⟨fun _ => back, fun _ running => nomatch running⟩

/-! ## Restarts -/

/-- **A restart changes nothing.** Between the transactions of a disciplined
host, storage can be written down, what is read back is the same storage, and a
custodian that resumes from it has the same records, whatever its settings and
types. -/
theorem restart_faithful (reached : Reachable settings registry s hands)
    (free : s.transaction = none) (writable : s.store.Writable) :
    ∃ bytes, s.store.toBytes = .ok bytes ∧ ∃ store, Store.ofBytes bytes = .ok store
      ∧ ∀ settings' registry', (State.ofStore store settings' registry').store = s.store
        ∧ (State.ofStore store settings' registry').ledger.records = s.ledger.records := by
  obtain ⟨bytes, written, read⟩ := reached.lasting.here.exists_bytes writable
  obtain ⟨idle, rfl⟩ := reached.sound.idle free
  have o := reached.sound.inOrder (State.isPoisoned_of_free free)
  -- with no frame open and nothing in hand, all there is stands in storage
  have all : s.census [] = s.store.standing := by
    have none : s.stack.standing = [] := by
      unfold CallStack.standing
      rw [idle.frames]
      rfl
    unfold State.census State.standing
    rw [none, List.append_nil]
    exact List.append_nil _
  have reflects : s.ledger.Reflects s.store.standing := all ▸ o.reflects
  refine ⟨bytes, written, s.store, read, fun _ _ => ⟨rfl, ?_⟩⟩
  exact (records_ofStore s.store).trans (reflects.records_eq (reached.swept.between free)).symm

namespace Scenario

/-- A vault with a coin is saved and committed. -/
def deposited : State := (Move.call .commit).next saved

/-- The deposit is a disciplined run. -/
theorem reachable_deposited : Reachable Settings.standard Scenario.registry deposited [] :=
  (run_saved.reachable (Reachable.start .fresh [alice] writable_fresh)).finish (.inl rfl)

/-- The bytes of the store with the deposit can be addressed. -/
theorem writable_deposited : deposited.store.Writable :=
  Store.writable_of_length (n := 202) rfl (by decide)

end Scenario

/-- The coin in the stored vault is on record, and after a restart too. -/
theorem restart_faithful_deposited :
    Scenario.deposited.ledger.holding? ⟨1⟩
        = some (.owned ((Place.field ⟨2⟩ "coins").element (.uint 0)))
      ∧ ∃ bytes, Scenario.deposited.store.toBytes = .ok bytes ∧ ∃ store,
        Store.ofBytes bytes = .ok store
          ∧ ∀ settings registry, (State.ofStore store settings registry).store
              = Scenario.deposited.store
            ∧ (State.ofStore store settings registry).ledger.records
              = Scenario.deposited.ledger.records :=
  ⟨rfl, restart_faithful Scenario.reachable_deposited rfl Scenario.writable_deposited⟩

end Custody
