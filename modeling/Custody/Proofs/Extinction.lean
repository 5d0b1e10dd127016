import Custody.Proofs.Restart
import Custody.Proofs.SingleOwner

/-!
# Dead identities stay dead

A rollback brings old records back, and a commit forgets what was destroyed.
Either way an identity goes off the record while the host may still hold a
value with that identity. Such a value is worthless for good: the identity is
not handed out again, since the next number never falls, and what is not on
record comes on record only by being handed out.

So the identities minted in a run are distinct, and none of them is one that
was found in storage at the beginning (`State.minted_inside` is about any part
of a run). Of what died with its transaction no record is left, and **every
call that is offered it fails**, for as long as the custodian runs.
-/

namespace Custody

open CustodyM Ledger

variable {s s' s1 s2 : State} {id : ResourceId} {m : Move} {moves : List Move}

/-! ## Minting -/

namespace Construction

variable {typeName : String} {fields : List (String × Value)} {u : State} {v : Value}

/-- What comes before a new resource is filled: the checks, and minting. -/
def mintFor (typeName : String) (fields : List (String × Value)) : CustodyM ResourceId := do
  let _ ← requireTransaction
  let _ ← requireComposite typeName .resource
  onLedger do
    (fields.flatMap fun f => f.2.rootIds).forM expectInFlight
    modifyGet mint

/-- What comes after. -/
def fill (typeName : String) (fields : List (String × Value)) (id : ResourceId) :
    CustodyM Value := do
  onLedger (settleFields id fields)
  return (Resource.ofAssignments id typeName fields).toValue

theorem createResource_eq :
    createResource typeName fields
      = guarded (mintFor typeName fields >>= fill typeName fields) := by
  unfold createResource enter mintFor fill
  simp only [onLedger_bind, onLedger_pure, bind_assoc, pure_bind]

/-- What is minted is new, and the next one will be another. -/
theorem next_of_mintFor (h : Returns (mintFor typeName fields) s id u) :
    id = ⟨s.ledger.next⟩ ∧ u.ledger.next = s.ledger.next + 1 := by
  obtain ⟨_, _, required, h⟩ := returns_bind.1 h
  obtain ⟨-, rfl⟩ := returns_requireTransaction.1 required
  obtain ⟨_, _, composite, h⟩ := returns_bind.1 h
  obtain rfl := Keeps.of_returns (R := Eq) keeps_requireComposite composite
  obtain ⟨l, entered, rfl⟩ := returns_onLedger.1 h
  obtain ⟨_, l', checked, new⟩ := returns_bind.1 entered
  have same : s.ledger = l' :=
    Keeps.of_returns (Keeps.forM (fun _ => keeps_expectInFlight) _) checked
  obtain ⟨rfl, rfl⟩ := Prod.mk.inj (returns_modifyGet.1 new)
  exact ⟨same ▸ rfl, same ▸ rfl⟩

/-- **Once an identity is minted, it will not be minted again**, even if its
resource cannot be filled. -/
theorem grows_of_mintFor (h : Returns (mintFor typeName fields) s id u) :
    u.ledger.Grows (outcome (createResource typeName fields) s).2.ledger := by
  have fills : Continuing (guarded (fill typeName fields id)) := by
    refine Continuing.guarded (Keeps.bind (fun s => ?_) fun _ => Keeps.pure)
    exact s.continues_ledger (keeps_settleFields lawful_grows s.ledger)
  have split : outcome (createResource typeName fields) s
      = outcome (guarded (fill typeName fields id)) u := by
    rw [createResource_eq, outcome_guarded, outcome_bind, h, outcome_guarded]
  rw [split]
  exact (fills u).ledger

end Construction

/-- **The identities that a move mints**, whether it returns or fails. -/
def Move.minted (s : State) : Move → List ResourceId
  | call (.createResource typeName fields) =>
    (outcome (Construction.mintFor typeName fields) s).1.toOption.toList
  | _ => []

namespace Ledger

/-- The next number never falls. -/
theorem enduring_le (n : Nat) : Enduring fun l => n ≤ l.next where
  record le _ _ _ := le
  mint le := Nat.le_succ_of_le le
  mono le le' := Nat.le_trans le le'
  forgetDestroyed le := le

end Ledger

theorem State.grows_after (s : State) (moves : List Move) : s.ledger.Grows (s.after moves).ledger :=
  have here : s.Endures fun l => s.ledger.next ≤ l.next := ⟨Nat.le_refl _, fun _ _ => Nat.le_refl _⟩
  (here.after (enduring_le s.ledger.next) moves).ledger

namespace Move

/-- **What a move mints has the next number**, and the number after it is
next. -/
theorem number_of_minted (minted : id ∈ m.minted s) :
    id = ⟨s.ledger.next⟩ ∧ s.ledger.next < (m.next s).ledger.next := by
  cases m with
  | call o =>
    cases o with
    | createResource typeName fields =>
      rcases h : outcome (Construction.mintFor typeName fields) s with ⟨_ | id', u⟩
      · rw [Move.minted, h] at minted
        cases minted
      · rw [Move.minted, h] at minted
        obtain rfl := List.mem_singleton.1 minted
        obtain ⟨rfl, next⟩ := Construction.next_of_mintFor h
        have above : s.ledger.next < u.ledger.next := next ▸ Nat.lt_succ_self s.ledger.next
        refine ⟨rfl, Nat.lt_of_lt_of_le above ?_⟩
        have reported := snd_outcome_report (Construction.createResource typeName fields)
          (fun v => Reply.value (some v)) s
        exact (congrArg (fun t => u.ledger.next ≤ t.ledger.next) reported).mpr
          (Construction.grows_of_mintFor h)
    | _ => cases minted
  | _ => cases minted

theorem nodup_minted (s : State) (m : Move) : (m.minted s).Nodup := by
  cases m with
  | call o =>
    cases o with
    | createResource typeName fields => exact Option.toList_nodup _
    | _ => exact List.nodup_nil
  | _ => exact List.nodup_nil

end Move

/-- **No identity is minted twice.** What a run mints has numbers from the one
that was next at its beginning up to the one that is next at its end. -/
theorem State.minted_inside (s : State) (moves : List Move) :
    (s.trace Move.minted moves).Nodup ∧ ∀ id ∈ s.trace Move.minted moves,
      s.ledger.next ≤ id.number ∧ id.number < (s.after moves).ledger.next := by
  induction moves generalizing s with
  | nil => exact ⟨List.nodup_nil, fun _ mem => nomatch mem⟩
  | cons m moves ih =>
    obtain ⟨distinct, between⟩ := ih (m.next s)
    have first : s.ledger.Grows (m.next s).ledger := s.grows_after [m]
    have rest : (m.next s).ledger.Grows (s.after (m :: moves)).ledger :=
      (m.next s).grows_after moves
    refine ⟨List.nodup_append.2 ⟨Move.nodup_minted s m, distinct, ?_⟩, fun id mem => ?_⟩
    · rintro _ minted id later rfl
      obtain ⟨rfl, less⟩ := Move.number_of_minted minted
      exact absurd (between _ later).1 (Nat.not_le_of_lt less)
    · rcases List.mem_append.1 mem with minted | later
      · obtain ⟨rfl, less⟩ := Move.number_of_minted minted
        exact ⟨Nat.le_refl _, Nat.lt_of_lt_of_le less rest⟩
      · exact ⟨Nat.le_trans first (between id later).1, (between id later).2⟩

/-- **What was found in storage was adopted**: it is on record. -/
theorem Ledger.recorded_ofStore {store : Store} (mem : id ∈ store.standing.map Prod.fst) :
    ∃ h, (Ledger.ofStore store).holding? id = some h := by
  have entered (l : Ledger) (c : Census) (mem : id ∈ c.map Prod.fst) :
      ∃ h, (l.recordAll c).holding? id = some h := by
    induction c generalizing l with
    | nil => cases mem
    | cons e c ih =>
      by_cases later : id ∈ c.map Prod.fst
      · exact ih _ later
      · obtain rfl := (List.mem_cons.1 mem).resolve_right later
        exact ⟨e.2, by rw [recordAll_cons, holding?_recordAll_of_not_mem later, holding?_record,
          if_pos rfl]⟩
  obtain ⟨h, recorded⟩ := entered empty store.standing mem
  exact ⟨h, (congrArg (·.get? id) (records_ofStore store)).trans recorded⟩

/-! ## Dying -/

namespace Ledger

/-- **The identity is dead**: it was handed out, and if it is on record it is
there as destroyed. -/
def Dead (id : ResourceId) (l : Ledger) : Prop :=
  id.number < l.next ∧ ∀ h, l.holding? id = some h → h.isLive = false

/-- **The identity is buried**: it was handed out, and no record of it is
left. -/
def Buried (id : ResourceId) (l : Ledger) : Prop := id.number < l.next ∧ l.holding? id = none

/-- The identity that is minted was not handed out before. -/
theorem holding?_mint_of_lt {l : Ledger} (old : id.number < l.next) :
    l.mint.2.holding? id = l.holding? id := by
  rw [holding?_mint, if_neg]
  rintro rfl
  exact Nat.lt_irrefl _ old

theorem stable_dead (id : ResourceId) : Stable (Dead id) where
  record := by
    intro l other known dead recorded live holding
    have apart : id ≠ other := by
      rintro rfl
      rw [dead.2 known recorded] at live
      cases live
    refine ⟨dead.1, fun h => ?_⟩
    rw [holding?_record, if_neg apart]
    exact dead.2 h
  mint dead := ⟨Nat.lt_succ_of_lt dead.1, fun h => by
    rw [holding?_mint_of_lt dead.1]
    exact dead.2 h⟩

theorem enduring_buried (id : ResourceId) : Enduring (Buried id) where
  record := by
    intro l other known buried recorded _ holding
    have apart : id ≠ other := by
      rintro rfl
      rw [buried.2] at recorded
      cases recorded
    exact ⟨buried.1, by rw [holding?_record, if_neg apart]; exact buried.2⟩
  mint buried := ⟨Nat.lt_succ_of_lt buried.1, (holding?_mint_of_lt buried.1).trans buried.2⟩
  mono buried le := ⟨Nat.lt_of_lt_of_le buried.1 le, buried.2⟩
  forgetDestroyed buried := ⟨buried.1, Option.eq_none_iff_forall_ne_some.2 fun h known => by
    have recorded := (holding?_forgetDestroyed.1 known).1
    rw [buried.2] at recorded
    cases recorded⟩

end Ledger

/-! ### How a transaction ends -/

/-- **The transaction is aborted**: the host aborts it, or it is refused to
commit. -/
inductive State.Aborts (s s' : State) : Prop
  | asked (h : Returns Transactions.abort s () s')
  | refused (reason : String) (h : Fails Transactions.commit s (.transactionAborted reason) s')

namespace Transactions

variable {reason why : String}

theorem rolledBack_of_abort (h : Returns abort s () s') :
    ∃ t store, s.transaction = some t ∧ s' = s.rolledBack store t.records := by
  obtain ⟨t, u, required, h⟩ := returns_bind.1 h
  obtain ⟨running, rfl⟩ := returns_requireTransaction.1 required
  rw [returns_modify_bind] at h
  obtain ⟨store, -, h⟩ := returns_ofExcept_bind.1 h
  exact ⟨t, store, running, (returns_modify.1 h).symm⟩

/-- A transaction that is refused with this fault was aborted. -/
theorem rolledBack_of_refuse (h : Fails (refuse why) s (.transactionAborted reason) s') :
    ∃ t store, s.transaction = some t ∧ s' = s.rolledBack store t.records := by
  rcases fails_bind.1 h with stuck | ⟨_, u, aborted, h⟩
  · -- an abort that gets stuck does so with another fault
    rcases fails_bind.1 stuck with stuck | ⟨t, u, -, stuck⟩
    · cases (fails_requireTransaction.1 stuck).2.1
    · rw [fails_modify_bind] at stuck
      rcases fails_bind.1 stuck with stuck | ⟨store, w, -, stuck⟩
      · have undecoded := (fails_ofExcept.1 stuck).1
        unfold Store.ofBytes at undecoded
        split at undecoded <;> cases undecoded
      · exact (not_fails_modify stuck).elim
  · obtain ⟨-, rfl⟩ := fails_throw.1 h
    exact rolledBack_of_abort aborted

end Transactions

/-- **A transaction that is aborted** goes back to its records, from where the
closing of frames has left it. -/
theorem State.Aborts.rolledBack (h : s.Aborts s') {t : Transaction}
    (running : s.transaction = some t) :
    ∃ u store, s.Continues u ∧ s' = u.rolledBack store t.records := by
  have from_ {u : State} (goes : s.Continues u)
      (h : ∃ t' store, u.transaction = some t' ∧ s' = u.rolledBack store t'.records) :
      ∃ u store, s.Continues u ∧ s' = u.rolledBack store t.records := by
    obtain ⟨t', store, running', rfl⟩ := h
    obtain ⟨_, still, same⟩ := goes.running t running
    obtain rfl := Option.some.inj (still.symm.trans running')
    exact ⟨u, store, goes, by rw [same.records]⟩
  cases h with
  | asked h => exact from_ (State.Continues.refl s) (Transactions.rolledBack_of_abort h)
  | refused reason h =>
    rcases fails_bind.1 h with h | ⟨t', w, required, h⟩
    · cases (fails_requireTransaction.1 h).2.1
    obtain ⟨-, rfl⟩ := returns_requireTransaction.1 required
    split at h
    · exact from_ (State.Continues.refl s) (Transactions.rolledBack_of_refuse h)
    · rw [fails_observing_bind] at h
      split at h
      · exact from_ (Transactions.continuing_settleUp s) (Transactions.rolledBack_of_refuse h)
      · exact (not_fails_modify h).elim

/-! ### What dies with a transaction -/

/-- **The identity dies with the transaction** in which the moves were made:
they minted it and the transaction was aborted, or they destroyed it and the
transaction committed. -/
inductive State.Dies (s1 : State) (moves : List Move) (id : ResourceId) (s2 : State) : Prop
  | unmade (minted : id ∈ s1.trace Move.minted moves) (aborted : (s1.after moves).Aborts s2)
  | destroyed {before after : List Move} (split : moves = before ++ after)
      (gone : (s1.after before).ledger.holding? id = some .destroyed)
      (committed : Returns Transactions.commit (s1.after moves) () s2)

namespace State.Dies

variable {signers : List Address} {bytes : Bytes}

/-- It takes another move. -/
theorem exists_move (dies : s1.Dies moves id s2) : ∃ m : Move, s2 = m.next (s1.after moves) := by
  cases dies with
  | unmade _ aborted =>
    cases aborted with
    | asked h =>
      exact ⟨_, (Move.next_of_returns (m := .call .abort) (Reply.returns_ofUnit.2 ⟨h, rfl⟩)).symm⟩
    | refused _ h =>
      exact ⟨_, (Move.next_of_fails (m := .call .commit) (Reply.fails_ofUnit.2 h)).symm⟩
  | destroyed _ _ h =>
    exact ⟨_, (Move.next_of_returns (m := .call .commit) (Reply.returns_ofUnit.2 ⟨h, rfl⟩)).symm⟩

theorem numbered (numbered : s1.Numbered) (dies : s1.Dies moves id s2) : s2.Numbered := by
  obtain ⟨m, rfl⟩ := dies.exists_move
  exact m.numbered_next (State.numbered_after numbered moves)

/-- **What dies is buried.** -/
theorem buried (begins : s.Begins signers bytes s1) (numbered : s1.Numbered)
    (inside : ∀ m ∈ moves, m.ends = false) (dies : s1.Dies moves id s2) :
    s2.Endures (Buried id) := by
  cases dies with
  | unmade minted aborted =>
    obtain ⟨above, below⟩ := (s1.minted_inside moves).2 id minted
    obtain ⟨t, running, same⟩ :=
      (continues_inside begins.running inside).running _ begins.transaction
    obtain ⟨u, store, goes, rfl⟩ := aborted.rolledBack running
    refine .of_idle ⟨Nat.lt_of_lt_of_le below goes.ledger, ?_⟩ rfl
    -- the records are those the transaction began with, and it was not minted then
    show t.records.get? id = none
    rw [same.records]
    refine Option.eq_none_iff_forall_ne_some.2 fun h recorded => ?_
    exact Nat.not_le_of_lt (numbered.kept _ begins.transaction id h recorded) above
  | @destroyed before after split gone committed =>
    subst split
    obtain ⟨-, ledger, idle⟩ := Transactions.ended_of_commit committed
    have early : ∀ m ∈ before, m.ends = false := fun m hm => inside m (List.mem_append_left _ hm)
    have goes := (continues_inside begins.running early).inTransaction begins.running
    have dead : Dead id (s1.after before).ledger := by
      refine ⟨(State.numbered_after numbered before).ledger id _ gone, fun h recorded => ?_⟩
      obtain rfl := Option.some.inj (gone.symm.trans recorded)
      rfl
    have still : Dead id (s1.after (before ++ after)).ledger := by
      rw [State.after_append]
      exact (extends_inside (stable_dead id) goes fun m hm =>
        inside m (List.mem_append_right _ hm)).holds dead
    refine .of_idle ?_ idle
    rw [ledger]
    refine ⟨still.1, Option.eq_none_iff_forall_ne_some.2 fun h recorded => ?_⟩
    obtain ⟨known, live⟩ := holding?_forgetDestroyed.1 recorded
    rw [still.2 h known] at live
    cases live

end State.Dies

/-- **What is not on record is not accepted.** -/
theorem Operation.fails_of_unrecorded {o : Operation} (numbered : s.ledger.Numbered)
    (offered : id ∈ o.offered.map Resource.id) (gone : s.ledger.holding? id = none) :
    ∃ fault t, Fails o.perform s fault t := by
  refine (returns_or_fails o.perform s).resolve_left ?_
  rintro ⟨reply, t, returned⟩
  have inner : o.isBound = false := by
    cases o with
    | start | commit | abort => cases offered
    | _ => rfl
  obtain ⟨r, mem, rfl⟩ := List.mem_map.1 offered
  rw [(inFlight_offered inner numbered returned).2 r mem] at gone
  cases gone

/-- **Dead identities stay dead.** In every run of a custodian, whatever the
host hands over:

* the identities minted are distinct, and none of them was found in storage at
  the beginning;
* once a transaction has ended, what died with it is on no record any more,
  and every call that is offered a value with it among its roots fails. -/
theorem dead_identities_stay_dead (store : Store) (settings : Settings) (registry : Registry)
    (history : List Move) :
    ((State.ofStore store settings registry).trace Move.minted history).Nodup
      ∧ (∀ id ∈ (State.ofStore store settings registry).trace Move.minted history,
          id ∉ store.standing.map Prod.fst)
      ∧ ∀ signers moves s1 s2 id,
        Returns (Transactions.start signers)
          ((State.ofStore store settings registry).after history) () s1 →
        (∀ m ∈ moves, m.ends = false) → s1.Dies moves id s2 →
          ∀ later, (s2.after later).ledger.holding? id = none
            ∧ ∀ o : Operation, id ∈ o.offered.map Resource.id →
              ∃ fault t, Fails o.perform (s2.after later) fault t := by
  have first : (State.ofStore store settings registry).Numbered :=
    State.numbered_ofStore store settings registry
  obtain ⟨distinct, between⟩ := (State.ofStore store settings registry).minted_inside history
  refine ⟨distinct, fun id mem found => ?_,
    fun signers moves s1 s2 id began inside dies later => ?_⟩
  · obtain ⟨h, recorded⟩ := recorded_ofStore found
    exact Nat.not_le_of_lt (first.ledger id h recorded) (between id mem).1
  · obtain ⟨bytes, begins⟩ := Transactions.begins_of_start began
    have started : (Move.call (.start signers)).next
        ((State.ofStore store settings registry).after history) = s1 :=
      Move.next_of_returns (Reply.returns_ofUnit.2 ⟨began, rfl⟩)
    have numbered : s1.Numbered := started ▸
      Move.numbered_next _ (State.numbered_after first history)
    have gone := ((dies.buried begins numbered inside).after (enduring_buried id) later).ledger.2
    exact ⟨gone, fun o offered => Operation.fails_of_unrecorded
      (State.numbered_after (dies.numbered numbered) later).ledger offered gone⟩

namespace Scenario

/-- Alice has made a coin and aborted. -/
def undone : State := begun.after [.call makeCoin, .call .abort]

/-- She begins anew and opens a frame. -/
def anew : List Move := [.call (.start [alice]), .call .pushFrame]

/-- The coin, which she still holds, goes to a local. -/
def bindCoin : Operation := .bind ⟨1⟩ "coin" keptCoin.toValue

theorem dies_coin : begun.Dies [.call makeCoin] ⟨1⟩ undone :=
  .unmade List.mem_cons_self (.asked rfl)

end Scenario

theorem dead_identities_stay_dead_coin :
    Returns (Transactions.start [Scenario.alice])
        ((State.ofStore Store.empty Settings.standard Scenario.registry).after []) () Scenario.begun
      ∧ Scenario.begun.Dies [.call Scenario.makeCoin] ⟨1⟩ Scenario.undone
      ∧ (Scenario.undone.after Scenario.anew).ledger.holding? ⟨1⟩ = none
      ∧ ∃ fault t,
        Fails Scenario.bindCoin.perform (Scenario.undone.after Scenario.anew) fault t := by
  have began : Returns (Transactions.start [Scenario.alice])
      ((State.ofStore Store.empty Settings.standard Scenario.registry).after [])
      () Scenario.begun :=
    rfl
  have all := (dead_identities_stay_dead Store.empty Settings.standard Scenario.registry []).2.2
  have dead := all [Scenario.alice] [.call Scenario.makeCoin] Scenario.begun Scenario.undone ⟨1⟩
    began (by decide) Scenario.dies_coin Scenario.anew
  exact ⟨began, Scenario.dies_coin, dead.1, dead.2 Scenario.bindCoin List.mem_cons_self⟩

end Custody
