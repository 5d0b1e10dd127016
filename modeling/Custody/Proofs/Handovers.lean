import Custody.Proofs.Discipline
import Custody.Proofs.Turns

/-!
# No resource is handed out twice

A host may call what it likes with whatever values it can write down: with a
resource it no longer has, with one it made up over an identity in use, with
one value twice. This module follows what happens to a single identity. A
call that returns takes in the roots of what it is given and hands out those
of what it gives back; passing a local hands its roots out and takes them in
again, and hands them out in any case if the second half fails.

Until a fatal fault marks the transaction, the handovers of an identity
**alternate**: it is never handed out while the host has it, and never taken
in while the custodian has it. Once it has been destroyed there are no more
(`handovers_alternate`).

After a mark this need not be so. A call that fails fatally may leave its
entries half made, which is why such a transaction cannot commit.
-/

namespace Custody

open Ledger CustodyM

variable {α : Type} {s s' : State} {v : Value} {A B : List Resource}

/-! ## What is handed over -/

namespace Operation

/-- **The handovers of a call**, in the order in which they happen. -/
def handovers (s : State) (o : Operation) : List Handover :=
  handOut ((o.swallowed s).map Resource.id) ++
    match (outcome o.perform s).1 with
    | .ok reply =>
      takeIn ((o.swallowed s ++ o.offered).map Resource.id)
        ++ handOut ((o.received reply).map Resource.id)
    | .error _ => []

/-- A call that returns hands out what it swallowed, takes in what it is given,
and hands out what it gives back. -/
theorem handovers_of_returns {o : Operation} {reply : Reply} (h : Returns o.perform s reply s') :
    o.handovers s = handOut ((o.swallowed s).map Resource.id)
      ++ (takeIn ((o.swallowed s ++ o.offered).map Resource.id)
        ++ handOut ((o.received reply).map Resource.id)) := by
  unfold handovers
  rw [h]

/-- A call that fails has handed out what it swallowed, and no more. -/
theorem handovers_of_fails {o : Operation} {fault : Fault} (h : Fails o.perform s fault s') :
    o.handovers s = handOut ((o.swallowed s).map Resource.id) := by
  unfold handovers
  rw [h]
  exact List.append_nil _

end Operation

/-- **The handovers of a move.** Closing frames and declaring types hand
nothing over. -/
def Move.handovers (s : State) : Move → List Handover
  | call o => o.handovers s
  | _ => []

/-! ## What operations take in and hand out -/

/-- The states have the same ledger. -/
def State.SameLedger (s s' : State) : Prop := s'.ledger = s.ledger

instance : IsPreorder State State.SameLedger where
  refl _ := rfl
  trans _ _ _ h h' := Eq.trans h' h

/-- Noting a fault leaves the ledger alone. -/
theorem State.sameLedger_note (s : State) (fault : Fault) : s.SameLedger (s.note fault) := by
  unfold note
  split <;> rfl

/-- What only looks leaves the ledger alone when it returns. -/
theorem Guards.sameLedger {m : CustodyM α} (h : Guards State.SameLedger m) {a : α}
    (returned : Returns m s a s') : s'.ledger = s.ledger :=
  (h.keeps State.sameLedger_note).of_returns returned

/-- **The change takes in** the resources offered, and then hands out those
received. -/
def Trades (s s' : State) (offered received : List Resource) : Prop :=
  s.ledger.Turns s'.ledger
    (takeIn (offered.map Resource.id) ++ handOut (received.map Resource.id))

/-- The roots of parts are those of all of them together. -/
theorem map_id_flatMap {β : Type} (parts : List β) (part : β → Value) :
    (parts.flatMap fun x => (part x).resources).map Resource.id
      = parts.flatMap fun x => (part x).rootIds := by
  rw [List.map_flatMap]
  exact List.flatMap_congr fun x _ => (part x).rootIds_eq.symm

namespace Trades

/-- Where the ledger stays nothing changes hands. -/
theorem of_ledger (same : s'.ledger = s.ledger) : Trades s s' [] [] := by
  unfold Trades
  rw [same]
  exact Turns.refl _

/-- A value that is taken in is offered, -/
theorem of_takeIn (h : s.ledger.Turns s'.ledger (takeIn v.rootIds)) :
    Trades s s' v.resources [] := by
  unfold Trades
  rw [← v.rootIds_eq]
  exact (List.append_nil (takeIn v.rootIds)).symm ▸ h

/-- and one that is handed out is received, -/
theorem of_handOut (h : s.ledger.Turns s'.ledger (handOut v.rootIds)) :
    Trades s s' [] v.resources := by
  unfold Trades
  rw [← v.rootIds_eq]
  exact h

/-- if there is one. -/
theorem of_taken {taken : Option Value}
    (h : s.ledger.Turns s'.ledger (handOut (taken.toList.flatMap Value.rootIds))) :
    Trades s s' [] (Value.resourcesOf taken) := by
  unfold Trades Value.resourcesOf
  rw [List.map_flatMap, List.flatMap_congr fun v _ => v.rootIds_eq.symm]
  exact h

end Trades

namespace Elements

variable {l l' : Ledger} {place : Place} {name field : String} {key : Key} {container new : Value}
  {r r' : Resource} {u : Unit}

/-- An element that comes in is taken in, and what shifts behind it is not
handed over, -/
theorem turns_insert
    (h : Returns (do return ((), ← insert container place name key v)) l (u, new) l') :
    l.Turns l' (takeIn v.rootIds) := by
  obtain ⟨w, t, inserted, h⟩ := returns_bind.1 h
  obtain ⟨-, rfl⟩ := returns_pure.1 h
  exact (inserted_insert inserted).turns

/-- nor is anything when the element comes last. -/
theorem turns_push
    (h : Returns (do return ((), ← push container place name v)) l (u, new) l') :
    l.Turns l' (takeIn v.rootIds) := by
  obtain ⟨w, t, pushed, h⟩ := returns_bind.1 h
  obtain ⟨-, rfl⟩ := returns_pure.1 h
  -- an array does not look at the key, so any key will do
  have inserted : Inserted place (.bool true) v l t container w := inserted_push pushed
  exact inserted.turns

end Elements

namespace Locals

variable {frame : FrameId} {name field : String} {key : Key}

/-- Binding takes in the value. -/
theorem trades_bind (h : Returns (bind frame name v) s () s') : Trades s s' v.resources [] := by
  obtain ⟨_, l, -, -, settled, rfl⟩ := settled_of_bind h
  exact Trades.of_takeIn (turns_settleValue settled)

/-- Taking a local hands its value out. -/
theorem trades_take (h : Returns (take frame name) s v s') : Trades s s' [] v.resources := by
  obtain ⟨-, ⟨none, rfl⟩ | ⟨-, l, released, rfl⟩⟩ := released_of_take h
  · rw [none]
    exact Trades.of_ledger rfl
  · exact Trades.of_handOut (turns_releaseValue released)

theorem trades_insert (h : Returns (insert frame name key v) s () s') :
    Trades s s' v.resources [] := by
  obtain ⟨_, _, l, -, acted, rfl⟩ := acted_of_change h
  exact Trades.of_takeIn (Elements.turns_insert acted)

theorem trades_push (h : Returns (push frame name v) s () s') : Trades s s' v.resources [] := by
  obtain ⟨_, _, l, -, acted, rfl⟩ := acted_of_change h
  exact Trades.of_takeIn (Elements.turns_push acted)

/-- An element that is removed is handed out, if there is one. -/
theorem trades_remove {taken : Option Value} (h : Returns (remove frame name key) s taken s') :
    Trades s s' [] (Value.resourcesOf taken) := by
  obtain ⟨_, _, l, -, acted, rfl⟩ := acted_of_change h
  exact Trades.of_taken (Elements.removed_remove acted).turns

theorem trades_takeField (h : Returns (takeField frame name field) s v s') :
    Trades s s' [] v.resources := by
  obtain ⟨_, _, l, -, acted, rfl⟩ := acted_of_changeResource h
  exact Trades.of_handOut (turns_releaseValue (Elements.returns_takeField acted).2.2)

theorem trades_putField (h : Returns (putField frame name field v) s () s') :
    Trades s s' v.resources [] := by
  obtain ⟨_, _, l, -, acted, rfl⟩ := acted_of_changeResource h
  obtain ⟨_, u, filled, done⟩ := returns_bind.1 acted
  obtain ⟨-, rfl⟩ := returns_pure.1 done
  exact Trades.of_takeIn (turns_settleValue (Elements.returns_putField filled).2.2)

end Locals

namespace Storage

variable {address : Address} {path : Path} {expected : Ty}

/-- Saving takes in the value. -/
theorem trades_save (h : Returns (save address path v) s () s') : Trades s s' v.resources [] := by
  obtain ⟨l, -, settled, rfl⟩ := settled_of_save h
  exact Trades.of_takeIn (turns_settleValue settled)

/-- Loading hands out the value, if there is one. -/
theorem trades_load {loaded : Option Value} (h : Returns (load address path expected) s loaded s') :
    Trades s s' [] (Value.resourcesOf loaded) := by
  obtain ⟨rfl, rfl⟩ | ⟨v, l, rfl, -, released, rfl⟩ := released_of_load h
  · exact Trades.of_ledger rfl
  · rw [Value.resourcesOf_some]
    exact Trades.of_handOut (turns_releaseValue released)

end Storage

namespace Members

variable {r : Reference} {member : String} {key : Key}

/-- Setting a member takes in the value, which holds no resource if the owner is
a struct. -/
theorem trades_set (h : Returns (set r member v) s () s') : Trades s s' v.resources [] := by
  obtain ⟨owner, l, -, filled, rfl⟩ | ⟨_, _, -, -, none, rfl⟩ := written_of_set h
  · refine Trades.of_takeIn ?_
    rw [ledger_replaced]
    exact turns_settleValue (Elements.returns_putField filled).2.2
  · rw [none]
    exact Trades.of_ledger (ledger_replaced _ _ _ _)

theorem trades_insert (h : Returns (insert r member key v) s () s') :
    Trades s s' v.resources [] := by
  unfold insert at h
  obtain ⟨_, t, storable, h⟩ := returns_bind.1 (returns_guarded.1 h)
  obtain rfl := (Storage.keeps_ensureStorable (R := Eq)).of_returns storable
  obtain ⟨_, _, _, l, -, -, acted, rfl⟩ := acted_of_change h
  refine Trades.of_takeIn ?_
  rw [ledger_replaced]
  exact Elements.turns_insert acted

theorem trades_push (h : Returns (push r member v) s () s') : Trades s s' v.resources [] := by
  unfold push at h
  obtain ⟨_, t, storable, h⟩ := returns_bind.1 (returns_guarded.1 h)
  obtain rfl := (Storage.keeps_ensureStorable (R := Eq)).of_returns storable
  obtain ⟨_, _, _, l, -, -, acted, rfl⟩ := acted_of_change h
  refine Trades.of_takeIn ?_
  rw [ledger_replaced]
  exact Elements.turns_push acted

theorem trades_remove {taken : Option Value} (h : Returns (remove r member key) s taken s') :
    Trades s s' [] (Value.resourcesOf taken) := by
  obtain ⟨_, _, _, l, -, -, acted, rfl⟩ := acted_of_change (returns_guarded.1 h)
  refine Trades.of_taken ?_
  rw [ledger_replaced]
  exact (Elements.removed_remove acted).turns

end Members

namespace Construction

variable {typeName : String} {fields : List (String × Value)}

/-- Making a resource takes in its fields and hands it out. Its identity was not
handed over before. -/
theorem trades_createResource (numbered : s.ledger.Numbered)
    (h : Returns (createResource typeName fields) s v s') :
    Trades s s' (fields.flatMap fun f => f.2.resources) v.resources := by
  obtain ⟨id, l, entered, rfl, rfl⟩ := entered_of_createResource h
  unfold Trades
  rw [map_id_flatMap fields Prod.snd, Value.resources_resource]
  exact turns_enter numbered entered

end Construction

namespace Teardown

variable {r : Resource} {p : Plan}

/-- Destroying takes in the value, and hands nothing out. -/
theorem trades_destroy (h : Returns (destroy v) s () s') : Trades s s' v.resources [] := by
  obtain ⟨l, razed, rfl⟩ := applied_of_destroy h
  obtain ⟨order, u, listed, applied⟩ := returns_bind.1 razed
  obtain rfl := (keeps_orderOf (R := Eq) v.resources).of_returns listed
  refine Trades.of_takeIn ?_
  rw [v.rootIds_eq, ← flyingIds_orderOf listed]
  exact turns_apply applied

/-- Destroying by a plan takes in the resource and hands out the fields that
move. -/
theorem trades_destroyWith {moved : List (String × Value)}
    (h : Returns (destroyWith r p) s moved s') :
    Trades s s' [r] (moved.flatMap fun f => f.2.resources) := by
  obtain ⟨rfl, -, owned, u, l, checked, listed, released, applied, rfl⟩ := applied_of_destroyWith h
  unfold Trades
  rw [map_id_flatMap (movedOut p r) Prod.snd]
  exact turns_planned checked listed released applied

/-- What was destroyed is gone. -/
theorem phase_of_destroy (h : Returns (destroy v) s () s') :
    ∀ id ∈ v.ids, s'.ledger.phase id = .gone := by
  obtain ⟨l, razed, rfl⟩ := applied_of_destroy h
  obtain ⟨order, u, listed, applied⟩ := returns_bind.1 razed
  intro id mem
  rw [← v.map_fst_afoot] at mem
  exact phase_of_apply applied ((orderOf_ids listed).mem_iff.2 mem)

/-- What a plan tears down is gone. -/
theorem phase_of_destroyWith (distinct : (Table.keys r.fields).Nodup)
    {moved : List (String × Value)} (h : Returns (destroyWith r p) s moved s') :
    ∀ id ∈ tornDown p r, s'.ledger.phase id = .gone := by
  obtain ⟨rfl, -, owned, u, l, -, listed, -, applied, rfl⟩ := applied_of_destroyWith h
  intro id mem
  exact phase_of_apply applied ((ids_perm_tornDown distinct listed).mem_iff.2 mem)

end Teardown

/-! ## All calls -/

namespace Operation

variable {o : Operation} {reply : Reply} {fault : Fault}

/-- Passing hands a local out and takes it in again. -/
theorem turns_pass {caller callee : FrameId} {argument parameter : String}
    (h : Returns (Locals.pass caller argument callee parameter) s () s') :
    s.ledger.Turns s'.ledger (handOut ((takenFrom s caller argument).map Resource.id)
      ++ (takeIn ((takenFrom s caller argument ++ []).map Resource.id) ++ [])) := by
  obtain ⟨v, u, taken, bound⟩ := returns_bind.1 h
  have swallowed : takenFrom s caller argument = v.resources := by
    unfold takenFrom
    rw [taken]
  rw [swallowed, List.append_nil v.resources]
  exact (Locals.trades_take taken).trans (Locals.trades_bind bound)

/-- **A call that returns** makes its handovers. -/
theorem turns_of_returns (inner : o.isBound = false) (numbered : s.ledger.Numbered)
    (h : Returns o.perform s reply s') : s.ledger.Turns s'.ledger (o.handovers s) := by
  rw [handovers_of_returns h]
  have plain {offered received : List Resource} (given : o.offered = offered)
      (back : o.received reply = received) (none : o.swallowed s = [])
      (trades : Trades s s' offered received) :
      s.ledger.Turns s'.ledger (handOut ((o.swallowed s).map Resource.id)
        ++ (takeIn ((o.swallowed s ++ o.offered).map Resource.id)
          ++ handOut ((o.received reply).map Resource.id))) := by
    rw [none, given, back]
    exact trades
  have nothing {v : Value} (h : v.resources = []) : Value.resourcesOf (some v) = [] := by
    rw [Value.resourcesOf_some, h]
  cases o with
  | start | commit | abort => cases inner
  | createResource typeName fields =>
    obtain ⟨v, made, rfl⟩ := Reply.returns_report h
    exact plain (List.flatMap_map _ _ _) (Value.resourcesOf_some v) rfl
      (Construction.trades_createResource numbered made)
  | createStruct typeName fields =>
    obtain ⟨v, made, rfl⟩ := Reply.returns_report h
    obtain ⟨none, given⟩ := Construction.resources_of_createStruct made
    obtain rfl := Construction.looks_createStruct.of_returns made
    exact plain ((List.flatMap_map _ _ _).trans (List.flatMap_eq_nil_iff.2 given)) (nothing none)
      rfl (Trades.of_ledger rfl)
  | pushFrame =>
    obtain ⟨id, pushed, rfl⟩ := Reply.returns_report h
    exact plain rfl rfl rfl (Trades.of_ledger
      ((Frames.guards_push fun _ _ _ _ _ => rfl).sameLedger pushed))
  | popFrame frame =>
    obtain ⟨closed, rfl⟩ := Reply.returns_ofUnit.1 h
    exact plain rfl rfl rfl (Trades.of_ledger
      ((Frames.guards_pop fun _ _ _ _ => rfl).sameLedger closed))
  | bind frame name v =>
    obtain ⟨bound, rfl⟩ := Reply.returns_ofUnit.1 h
    exact plain (offered_singleton rfl) rfl rfl (Locals.trades_bind bound)
  | take frame name =>
    obtain ⟨v, taken, rfl⟩ := Reply.returns_report h
    exact plain rfl (Value.resourcesOf_some v) rfl (Locals.trades_take taken)
  | readLocal frame name =>
    obtain ⟨v, looked, rfl⟩ := Reply.returns_report h
    obtain rfl := Locals.looks_read.of_returns looked
    exact plain rfl rfl rfl (Trades.of_ledger rfl)
  | copyLocal frame name =>
    obtain ⟨v, copied, rfl⟩ := Reply.returns_report h
    obtain rfl := Locals.looks_copy.of_returns copied
    exact plain rfl (nothing (Locals.resources_of_copy copied)) rfl (Trades.of_ledger rfl)
  | pass caller argument callee parameter =>
    obtain ⟨passed, rfl⟩ := Reply.returns_ofUnit.1 h
    exact turns_pass passed
  | assign frame source target =>
    obtain ⟨passed, rfl⟩ := Reply.returns_ofUnit.1 h
    exact turns_pass passed
  | insert frame name key v =>
    obtain ⟨inserted, rfl⟩ := Reply.returns_ofUnit.1 h
    exact plain (offered_singleton rfl) rfl rfl (Locals.trades_insert inserted)
  | push frame name v =>
    obtain ⟨pushed, rfl⟩ := Reply.returns_ofUnit.1 h
    exact plain (offered_singleton rfl) rfl rfl (Locals.trades_push pushed)
  | remove frame name key =>
    obtain ⟨taken, removed, rfl⟩ := Reply.returns_report h
    exact plain rfl rfl rfl (Locals.trades_remove removed)
  | takeField frame name field =>
    obtain ⟨v, taken, rfl⟩ := Reply.returns_report h
    exact plain rfl (Value.resourcesOf_some v) rfl (Locals.trades_takeField taken)
  | putField frame name field v =>
    obtain ⟨filled, rfl⟩ := Reply.returns_ofUnit.1 h
    exact plain (offered_singleton rfl) rfl rfl (Locals.trades_putField filled)
  | save address path v =>
    obtain ⟨saved, rfl⟩ := Reply.returns_ofUnit.1 h
    exact plain (offered_singleton rfl) rfl rfl (Storage.trades_save saved)
  | load address path expected =>
    obtain ⟨loaded, taken, rfl⟩ := Reply.returns_report h
    exact plain rfl rfl rfl (Storage.trades_load taken)
  | copyStored address path expected =>
    obtain ⟨copied, looked, rfl⟩ := Reply.returns_report h
    obtain rfl := Storage.looks_copy.of_returns looked
    exact plain rfl (Storage.resources_of_copy looked) rfl (Trades.of_ledger rfl)
  | typeAt address path =>
    obtain ⟨ty, looked, rfl⟩ := Reply.returns_report h
    obtain rfl := Storage.looks_typeAt.of_returns looked
    exact plain rfl rfl rfl (Trades.of_ledger rfl)
  | storedPaths address domain =>
    obtain ⟨paths, looked, rfl⟩ := Reply.returns_report h
    obtain rfl := Storage.looks_paths.of_returns looked
    exact plain rfl rfl rfl (Trades.of_ledger rfl)
  | link address source target promise =>
    obtain ⟨c, linked, rfl⟩ := Reply.returns_report h
    exact plain rfl rfl rfl (Trades.of_ledger
      ((Links.does_add (R := State.SameLedger) fun _ _ _ _ => rfl).sameLedger linked))
  | unlink address path =>
    obtain ⟨unlinked, rfl⟩ := Reply.returns_ofUnit.1 h
    exact plain rfl rfl rfl (Trades.of_ledger
      ((Links.does_remove (R := State.SameLedger) fun _ _ _ _ _ => rfl).sameLedger unlinked))
  | capability address path promise =>
    obtain ⟨c, looked, rfl⟩ := Reply.returns_report h
    obtain rfl := Links.looks_capability.of_returns looked
    exact plain rfl rfl rfl (Trades.of_ledger rfl)
  | linkTarget address path =>
    obtain ⟨target, looked, rfl⟩ := Reply.returns_report h
    obtain rfl := Links.looks_target.of_returns looked
    exact plain rfl rfl rfl (Trades.of_ledger rfl)
  | checkCapability c requested =>
    obtain ⟨t, looked, rfl⟩ := Reply.returns_report h
    obtain ⟨-, rfl⟩ := returns_get.1 looked
    exact plain rfl rfl rfl (Trades.of_ledger rfl)
  | borrow c requested =>
    obtain ⟨same, none⟩ := Reply.returns_ofBorrow Borrows.lends_throughCapability.sameGoods h
    exact plain rfl (none _) rfl (Trades.of_ledger same.ledger)
  | borrowStored address path requested =>
    obtain ⟨same, none⟩ := Reply.returns_ofBorrow Borrows.lends_stored.sameGoods h
    exact plain rfl (none _) rfl (Trades.of_ledger same.ledger)
  | borrowLocal frame name requested =>
    obtain ⟨same, none⟩ := Reply.returns_ofBorrow Borrows.lends_ofLocal.sameGoods h
    exact plain rfl (none _) rfl (Trades.of_ledger same.ledger)
  | isLive r =>
    obtain ⟨t, looked, rfl⟩ := Reply.returns_report h
    obtain ⟨-, rfl⟩ := returns_get.1 looked
    exact plain rfl rfl rfl (Trades.of_ledger rfl)
  | readMember r member =>
    obtain ⟨v, looked, rfl⟩ := Reply.returns_report h
    obtain rfl := Members.looks_read.of_returns looked
    exact plain rfl (nothing (Members.resources_of_read looked)) rfl (Trades.of_ledger rfl)
  | setMember r member v =>
    obtain ⟨written, rfl⟩ := Reply.returns_ofUnit.1 h
    exact plain (offered_singleton rfl) rfl rfl (Members.trades_set written)
  | insertMember r member key v =>
    obtain ⟨inserted, rfl⟩ := Reply.returns_ofUnit.1 h
    exact plain (offered_singleton rfl) rfl rfl (Members.trades_insert inserted)
  | pushMember r member v =>
    obtain ⟨pushed, rfl⟩ := Reply.returns_ofUnit.1 h
    exact plain (offered_singleton rfl) rfl rfl (Members.trades_push pushed)
  | removeMember r member key =>
    obtain ⟨taken, removed, rfl⟩ := Reply.returns_report h
    exact plain rfl rfl rfl (Members.trades_remove removed)
  | destroy v =>
    obtain ⟨torn, rfl⟩ := Reply.returns_ofUnit.1 h
    exact plain (offered_singleton rfl) rfl rfl (Teardown.trades_destroy torn)
  | destroyWith r p =>
    obtain ⟨moved, torn, rfl⟩ := Reply.returns_report h
    exact plain ((offered_singleton rfl).trans (Value.resources_resource r)) rfl rfl
      (Teardown.trades_destroyWith torn)

end Operation

namespace Operation

variable {o : Operation} {reply : Reply} {fault : Fault}

/-- What is dropped was handed out. -/
theorem Drops.turns {dropped : List Resource} (h : Drops s s' dropped) :
    s.ledger.Turns s'.ledger (handOut (dropped.map Resource.id)) := by
  obtain ⟨rfl, rfl⟩ | ⟨frame, name, v, taken, rfl⟩ := h
  · exact Turns.refl _
  · exact Locals.trades_take taken

/-- **A call that fails** makes its handovers on the way, and has done nothing
else unless it dooms the transaction. -/
theorem turns_of_fails (inner : o.isBound = false) (running : s.inTransaction = true)
    (failed : Fails o.perform s fault s') :
    ∃ l, s.ledger.Turns l (o.handovers s) ∧ (s'.isPoisoned = false → s'.ledger = l) := by
  rw [handovers_of_fails failed]
  rcases drops_of_fails inner running failed with doomed | dropped
  · obtain ⟨u, dropped⟩ := exists_drops s o
    refine ⟨u.ledger, dropped.turns, fun clean => ?_⟩
    rw [doomed] at clean
    cases clean
  · exact ⟨s'.ledger, dropped.turns, fun _ => rfl⟩

/-- **What a destroying call tore down is gone.** -/
theorem phase_of_torn (distinct : ∀ r p, o = destroyWith r p → (Table.keys r.fields).Nodup)
    (h : Returns o.perform s reply s') :
    ∀ id ∈ o.torn, s'.ledger.phase id = .gone := by
  cases o with
  | destroy v => exact Teardown.phase_of_destroy (Reply.returns_ofUnit.1 h).1
  | destroyWith r p =>
    obtain ⟨moved, torn, -⟩ := Reply.returns_report h
    exact Teardown.phase_of_destroyWith (distinct r p rfl) torn
  | _ => exact fun _ mem => nomatch mem

end Operation

/-! ## Runs -/

/-- **A move inside a transaction** makes its handovers, and leaves the ledger
as they leave it unless it dooms the transaction. -/
theorem Move.turns_next {m : Move} (inside : m.ends = false) (running : s.inTransaction = true)
    (numbered : s.ledger.Numbered) :
    ∃ l, s.ledger.Turns l (m.handovers s)
      ∧ ((m.next s).isPoisoned = false → (m.next s).ledger = l) := by
  rcases isInner_or_start inside with inner | ⟨signers, rfl⟩
  · cases m with
    | call o =>
      have inner : o.isBound = false := by simpa [isInner] using inner
      rcases returns_or_fails o.perform s with ⟨reply, t, returned⟩ | ⟨fault, t, failed⟩
      · rw [next_of_returns (m := .call o) returned]
        exact ⟨t.ledger, Operation.turns_of_returns inner numbered returned, fun _ => rfl⟩
      · rw [next_of_fails (m := .call o) failed]
        exact Operation.turns_of_fails inner running failed
    | unwind frame =>
      exact ⟨s.ledger, Turns.refl _, fun _ =>
        (Keeps.ofUnit Frames.sameHoldings_unwind s).ledger⟩
    | declare types => exact ⟨s.ledger, Turns.refl _, fun _ => rfl⟩
  · -- a transaction inside another is refused
    rw [Transactions.next_start running signers]
    refine ⟨s.ledger, ?_, fun _ => rfl⟩
    rcases returns_or_fails (Operation.start signers).perform s with ⟨_, t, began⟩ | ⟨_, t, failed⟩
    · obtain ⟨began, -⟩ := Reply.returns_ofUnit.1 began
      rw [State.inTransaction, (Transactions.returns_start began).1] at running
      cases running
    · show s.ledger.Turns s.ledger (Operation.handovers s _)
      rw [Operation.handovers_of_fails failed]
      exact Turns.refl _

/-- **Every move is made before the transaction is doomed.** -/
def State.runsClean : State → List Move → Bool
  | _, [] => true
  | s, m :: moves => !s.isPoisoned && (m.next s).runsClean moves

/-- A run is clean if its parts are, one after the other. -/
theorem State.runsClean_append (s : State) (moves moves' : List Move) :
    s.runsClean (moves ++ moves') = (s.runsClean moves && (s.after moves).runsClean moves') := by
  induction moves generalizing s with
  | nil => rfl
  | cons m moves ih =>
    show (!s.isPoisoned && (m.next s).runsClean (moves ++ moves')) = _
    rw [ih, ← Bool.and_assoc]
    rfl

/-- **A run inside a transaction makes its handovers**, as long as every move
is made before the transaction is doomed. -/
theorem State.turns_inside {moves : List Move} (running : s.inTransaction = true)
    (inside : ∀ m ∈ moves, m.ends = false) (clean : s.runsClean moves = true)
    (numbered : s.Numbered) : ∃ l, s.ledger.Turns l (s.trace Move.handovers moves) := by
  induction moves generalizing s with
  | nil => exact ⟨s.ledger, Turns.refl _⟩
  | cons m moves ih =>
    obtain ⟨l, first, undoomed⟩ := Move.turns_next (inside m List.mem_cons_self) running
      numbered.ledger
    have others : ∀ m' ∈ moves, m'.ends = false := fun m' mem =>
      inside m' (List.mem_cons_of_mem _ mem)
    have further : (m.next s).runsClean moves = true := (Bool.and_eq_true_iff.1 clean).2
    cases moves with
    | nil => exact ⟨l, by rwa [State.trace, State.trace, List.append_nil]⟩
    | cons m' moves =>
      -- another move follows, so this one has not doomed the transaction
      have unmarked : (m.next s).isPoisoned = false := by
        simpa using (Bool.and_eq_true_iff.1 further).1
      have goes := Move.continues_next (inside m List.mem_cons_self) running
      obtain ⟨l', rest⟩ := ih (goes.inTransaction running) others further (m.numbered_next numbered)
      rw [undoomed unmarked] at rest
      exact ⟨l', first.trans rest⟩

/-- What is gone is handed over no more. -/
theorem State.handovers_of_gone {moves : List Move} (running : s.inTransaction = true)
    (inside : ∀ m ∈ moves, m.ends = false) (clean : s.runsClean moves = true)
    (numbered : s.Numbered) {id : ResourceId} (gone : s.ledger.phase id = .gone) :
    ∀ h ∈ s.trace Move.handovers moves, h.id ≠ id := by
  obtain ⟨l, turns⟩ := State.turns_inside running inside clean numbered
  have passes := turns id
  rw [gone] at passes
  exact turnsOf_eq_nil_iff.1 passes.of_gone.1

/-! ## Alternation -/

/-- **No identity is handed out twice.** In a run from a fresh custodian, in
a transaction of it, as long as every move is made before the transaction is
doomed:

* the handovers of every identity alternate;
* what a call has destroyed is handed over no more.

Of a resource that is destroyed as planned, no two fields have one name. -/
theorem handovers_alternate {settings : Settings} {registry : Registry} {history moves : List Move}
    {signers : List Address} {s1 : State}
    (began : Returns (Transactions.start signers) ((State.fresh settings registry).after history) ()
      s1)
    (inside : ∀ m ∈ moves, m.ends = false) (clean : s1.runsClean moves = true) :
    (∀ id, (turnsOf id (s1.trace Move.handovers moves)).IsChain (· ≠ ·))
      ∧ ∀ before o after reply t, moves = before ++ .call o :: after →
        Returns o.perform (s1.after before) reply t →
        (∀ r p, o = .destroyWith r p → (Table.keys r.fields).Nodup) →
          ∀ id ∈ o.torn, ∀ h ∈ t.trace Move.handovers after, h.id ≠ id := by
  obtain ⟨bytes, begins⟩ := Transactions.begins_of_start began
  have numbered : s1.Numbered := by
    have next : (Move.call (.start signers)).next ((State.fresh settings registry).after history)
        = s1 := Move.next_of_returns (Reply.returns_ofUnit.2 ⟨began, rfl⟩)
    rw [← next]
    exact Move.numbered_next _ (State.numbered_after (State.numbered_fresh settings registry) _)
  refine ⟨fun id => ?_, ?_⟩
  · obtain ⟨l, turns⟩ := State.turns_inside begins.running inside clean numbered
    exact (turns id).alternates
  · rintro before o after reply t rfl returned distinct id mem
    obtain rfl : (Move.call o).next (s1.after before) = t := Move.next_of_returns returned
    have early : ∀ m ∈ before, m.ends = false := fun m hm => inside m (List.mem_append_left _ hm)
    have late : ∀ m ∈ .call o :: after, m.ends = false := fun m hm =>
      inside m (List.mem_append_right _ hm)
    have goes := (State.continues_inside begins.running early).inTransaction begins.running
    have still := (Move.continues_next (late _ List.mem_cons_self) goes).inTransaction goes
    rw [State.runsClean_append] at clean
    have rest := (Bool.and_eq_true_iff.1 (Bool.and_eq_true_iff.1 clean).2).2
    exact State.handovers_of_gone still (fun m hm => late m (List.mem_cons_of_mem _ hm)) rest
      (Move.numbered_next _ (State.numbered_after numbered before))
      (Operation.phase_of_torn distinct returned id mem)

namespace Scenario

/-- A coin of fifty. -/
def fifty : Value := .resource ⟨1⟩ "Coin" [("amount", some (.uint 50))]

/-- A coin is made, bound, taken and destroyed, and then the host binds it
once more. -/
def spendTwice : List Move :=
  [.call .pushFrame, .call (.createResource "Coin" [("amount", .uint 50)]),
    .call (.bind ⟨1⟩ "coin" fifty), .call (.take ⟨1⟩ "coin"), .call (.destroy fifty),
    .call (.bind ⟨1⟩ "coin" fifty)]

end Scenario

theorem handovers_alternate_spendTwice :
    Scenario.begun.runsClean Scenario.spendTwice = true
      ∧ turnsOf ⟨1⟩ (Scenario.begun.trace Move.handovers Scenario.spendTwice)
        = [.handedOut, .takenIn, .handedOut, .takenIn]
      ∧ (turnsOf ⟨1⟩
        (Scenario.begun.trace Move.handovers Scenario.spendTwice)).IsChain (· ≠ ·) := by
  have began : Returns (Transactions.start [Scenario.alice])
      ((State.fresh Settings.standard Scenario.registry).after []) () Scenario.begun := rfl
  have clean : Scenario.begun.runsClean Scenario.spendTwice = true := by decide
  exact ⟨clean, by decide, (handovers_alternate began (by decide) clean).1 ⟨1⟩⟩

end Custody
