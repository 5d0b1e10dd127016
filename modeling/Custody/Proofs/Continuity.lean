import Custody.Proofs.Footprint

/-!
# What goes on during a transaction

A host makes **moves**: it calls an operation, closes frames, declares types.
Between the beginning of a transaction and its end a move may change the
store, the ledger, the frames and the references as it pleases, and may fail
halfway; but some things it never touches (`State.Continues`): the signers,
the bytes and the records that the transaction keeps, and the mark that
dooms it once it is there. Numbers for new identities do not fall, and the
frames stay in the order in which they were opened.

Whether a move returns or fails makes no difference to this, so it is stated
of the state the move leaves, whatever its result.
-/

namespace Custody

/-! ## The relation -/

namespace CallStack

/-- The identities of the open frames, innermost first. -/
def ids (s : CallStack) : List FrameId := s.frames.map Frame.id

/-- **Frames are open in the order of their identities**: an inner frame is
newer, and all are older than the next one. -/
structure Ordered (s : CallStack) : Prop where
  /-- Inner frames are newer. -/
  newer : s.ids.Pairwise fun inner outer => outer.number < inner.number
  /-- The next frame is newer than all. -/
  older : ∀ id ∈ s.ids, id.number < s.next

/-- No two open frames have one identity. -/
theorem Ordered.nodup {s : CallStack} (h : s.Ordered) : s.ids.Nodup := by
  refine h.newer.imp fun {inner outer} newer => ?_
  rintro rfl
  exact Nat.lt_irrefl _ newer

/-- Writing a local opens and closes no frame, -/
theorem setLocalIn_ids (id : FrameId) (name : String) (b : Binding) (frames : List Frame) :
    (setLocalIn id name b frames).map Frame.id = frames.map Frame.id := by
  induction frames with
  | nil => rfl
  | cons f frames ih =>
    unfold setLocalIn
    split
    · rfl
    · rw [List.map_cons, ih, List.map_cons]

/-- so the open frames are the same ones, -/
@[simp] theorem ids_setLocal (s : CallStack) (id : FrameId) (name : String) (b : Binding) :
    (s.setLocal id name b).ids = s.ids :=
  setLocalIn_ids id name b s.frames

/-- and stay in order. -/
theorem Ordered.setLocal {s : CallStack} (h : s.Ordered) (id : FrameId) (name : String)
    (b : Binding) : (s.setLocal id name b).Ordered :=
  ⟨(ids_setLocal s id name b).symm ▸ h.newer, (ids_setLocal s id name b).symm ▸ h.older⟩

/-- Without frames they are in order. -/
theorem Ordered.clear {s : CallStack} : s.clear.Ordered :=
  ⟨List.Pairwise.nil, fun _ h => nomatch h⟩

/-- What it takes to open a frame, and what it does. -/
theorem push_eq_ok {s s' : CallStack} {limit : Nat} {id : FrameId}
    (h : s.push limit = .ok (id, s')) :
    id = ⟨s.next⟩ ∧ s' = ⟨⟨⟨s.next⟩, []⟩ :: s.frames, s.next + 1⟩ := by
  unfold push at h
  split at h
  · cases h
  · obtain ⟨rfl, rfl⟩ := Prod.mk.inj (Except.ok.inj h)
    exact ⟨rfl, rfl⟩

/-- A frame that is opened is the newest. -/
theorem Ordered.push {s s' : CallStack} {limit : Nat} {id : FrameId} (h : s.Ordered)
    (pushed : s.push limit = .ok (id, s')) : s'.Ordered := by
  obtain ⟨rfl, rfl⟩ := push_eq_ok pushed
  refine ⟨List.Pairwise.cons h.older h.newer, fun id mem => ?_⟩
  rcases List.mem_cons.1 mem with rfl | mem
  · exact Nat.lt_succ_self _
  · exact Nat.lt_succ_of_lt (h.older id mem)

/-- What it takes to close a frame, and what it does. -/
theorem pop_eq_ok {s s' : CallStack} {id : FrameId} {f : Frame}
    (h : s.pop id = .ok (f, s')) :
    f.id = id ∧ s.frames = f :: s'.frames ∧ s' = { s with frames := s'.frames } := by
  unfold pop at h
  split at h
  next top rest heq =>
    split at h
    next same =>
      obtain ⟨rfl, rfl⟩ := Prod.mk.inj (Except.ok.inj h)
      exact ⟨same, heq, rfl⟩
    · cases h
  · cases h

/-- A frame that is closed was the newest. -/
theorem Ordered.pop {s s' : CallStack} {id : FrameId} {f : Frame} (h : s.Ordered)
    (popped : s.pop id = .ok (f, s')) : s'.Ordered := by
  obtain ⟨-, frames, same⟩ := pop_eq_ok popped
  have ids : s.ids = f.id :: s'.ids := by rw [CallStack.ids, frames]; rfl
  have next : s'.next = s.next := by rw [same]
  refine ⟨(List.pairwise_cons.1 (ids ▸ h.newer)).2, fun id mem => ?_⟩
  rw [next]
  exact h.older id (ids ▸ List.mem_cons_of_mem _ mem)

end CallStack

/-- What it takes to lend a target, and what it does. -/
theorem Loans.acquire_eq_some {l loans : Loans} {target : Target} {frame : FrameId} {id : RefId}
    (h : l.acquire target frame = some (id, loans)) :
    Table.get? l.outstanding target = none ∧ id = ⟨l.next⟩
      ∧ loans = ⟨l.next + 1, Table.put l.outstanding target ⟨⟨l.next⟩, frame⟩⟩ := by
  unfold acquire isBorrowed at h
  split at h
  · cases h
  next free =>
    obtain ⟨rfl, rfl⟩ := Prod.mk.inj (Option.some.inj h)
    exact ⟨by simpa [Table.contains] using free, rfl, rfl⟩

/-- Whether the transaction is marked as doomed. -/
def Transaction.isPoisoned (t : Transaction) : Bool := t.poison.isSome

/-- The later transaction is the earlier one, perhaps doomed since. -/
structure Transaction.Continues (t t' : Transaction) : Prop where
  /-- The same accounts signed. -/
  signers : t'.signers = t.signers
  /-- The same bytes are kept. -/
  snapshot : t'.snapshot = t.snapshot
  /-- The same records are kept. -/
  records : t'.records = t.records
  /-- A mark stays. -/
  poison : t.isPoisoned = true → t'.isPoisoned = true

namespace State

/-- **What a move during a transaction never touches.** -/
structure Continues (s s' : State) : Prop where
  /-- Limits and switches stay. -/
  settings : s'.settings = s.settings
  /-- No transaction begins. -/
  idle : s.transaction = none → s'.transaction = none
  /-- A running transaction goes on. -/
  running : ∀ t, s.transaction = some t → ∃ t', s'.transaction = some t' ∧ t.Continues t'
  /-- No resource gets an identity again. -/
  ledger : s.ledger.Grows s'.ledger
  /-- No frame gets an identity again. -/
  stack : s.stack.next ≤ s'.stack.next
  /-- No reference gets an identity again. -/
  loans : s.loans.next ≤ s'.loans.next
  /-- Frames stay in order. -/
  ordered : s.stack.Ordered → s'.stack.Ordered

/-- Nothing has happened. -/
theorem Continues.refl (s : State) : s.Continues s where
  settings := rfl
  idle h := h
  running t h := ⟨t, h, rfl, rfl, rfl, id⟩
  ledger := Nat.le_refl _
  stack := Nat.le_refl _
  loans := Nat.le_refl _
  ordered := id

/-- **What goes on goes on step by step.** -/
theorem Continues.trans {s s' s'' : State} (h : s.Continues s') (h' : s'.Continues s'') :
    s.Continues s'' where
  settings := h'.settings.trans h.settings
  idle none := h'.idle (h.idle none)
  running t ht := by
    obtain ⟨t', ht', c⟩ := h.running t ht
    obtain ⟨t'', ht'', c'⟩ := h'.running t' ht'
    exact ⟨t'', ht'', c'.signers.trans c.signers, c'.snapshot.trans c.snapshot,
      c'.records.trans c.records, fun marked => c'.poison (c.poison marked)⟩
  ledger := Nat.le_trans h.ledger h'.ledger
  stack := Nat.le_trans h.stack h'.stack
  loans := Nat.le_trans h.loans h'.loans
  ordered o := h'.ordered (h.ordered o)

instance : IsPreorder State Continues where
  refl := Continues.refl
  trans _ _ _ := Continues.trans

variable (s : State)

/-- The store may change in any way, -/
theorem continues_store (store : Store) : s.Continues { s with store := store } :=
  { Continues.refl s with }

/-- and so may the declarations. -/
theorem continues_registry (registry : Registry) : s.Continues { s with registry := registry } :=
  { Continues.refl s with }

/-- Records may change as long as no number is handed out twice. -/
theorem continues_ledger {ledger : Ledger} (h : s.ledger.Grows ledger) :
    s.Continues { s with ledger := ledger } :=
  { Continues.refl s with ledger := h }

/-- References may be given and given back as long as no number of theirs is
used twice. -/
theorem continues_loans {loans : Loans} (h : s.loans.next ≤ loans.next) :
    s.Continues { s with loans := loans } :=
  { Continues.refl s with loans := h }

/-- The stack may change as long as its frames stay in order. -/
theorem continues_stack {stack : CallStack} (le : s.stack.next ≤ stack.next)
    (ordered : s.stack.Ordered → stack.Ordered) : s.Continues { s with stack := stack } :=
  { Continues.refl s with stack := le, ordered := ordered }

/-- Opening a frame uses up its number. -/
theorem continues_push {limit : Nat} {id : FrameId} {stack : CallStack}
    (pushed : s.stack.push limit = .ok (id, stack)) : s.Continues { s with stack := stack } := by
  obtain ⟨rfl, rfl⟩ := CallStack.push_eq_ok pushed
  exact s.continues_stack (Nat.le_succ _) fun o => o.push pushed

/-- Closing a frame gives its references back. -/
theorem continues_pop {frame : FrameId} {f : Frame} {stack : CallStack}
    (popped : s.stack.pop frame = .ok (f, stack)) :
    s.Continues { s with stack := stack, loans := s.loans.releaseFrame frame } := by
  have next : stack.next = s.stack.next := by rw [(CallStack.pop_eq_ok popped).2.2]
  exact (s.continues_stack (Nat.le_of_eq next.symm) fun o => o.pop popped).trans
    (continues_loans _ (Nat.le_refl _))

/-- Lending takes a new identity. -/
theorem continues_acquire {target : Target} {frame : FrameId} {id : RefId} {loans : Loans}
    (acquired : s.loans.acquire target frame = some (id, loans)) :
    s.Continues { s with loans := loans } := by
  obtain ⟨-, -, rfl⟩ := Loans.acquire_eq_some acquired
  exact s.continues_loans (Nat.le_succ _)

/-- Noting a fault marks the transaction and nothing else. -/
theorem continues_note (fault : Fault) : s.Continues (s.note fault) := by
  unfold note
  split
  · refine { Continues.refl s with idle := fun h => ?_, running := fun t h => ?_ }
    · show s.transaction.map _ = none
      rw [h]
      rfl
    · refine ⟨{ t with poison := some (t.poison.getD fault.message) }, ?_, rfl, rfl, rfl,
        fun _ => rfl⟩
      show s.transaction.map _ = _
      rw [h]
      rfl
  · exact Continues.refl s

end State

/-! ## The operations

What an operation does to the ledger, to locals, to frames and to references
continues the state before, and so does whatever it stores; noting its fault
marks the transaction and no more. -/

open CustodyM

variable {α : Type}

/-- The action leaves the transaction running as it was. -/
abbrev Continuing (m : CustodyM α) : Prop := Keeps State.Continues m

/-- A guard may mark the transaction, which goes on. -/
theorem Continuing.guarded {m : CustodyM α} (h : Continuing m) : Continuing (guarded m) :=
  Keeps.guarded h State.continues_note

/-- What guards actions that go on goes on. -/
theorem Guards.continuing {m : CustodyM α} (h : Guards State.Continues m) : Continuing m :=
  h.keeps State.continues_note

namespace State

/-- What is entered in the ledger and bound to locals leaves the transaction running, -/
theorem tolerates_continues : Tolerates Ledger.Grows Continues where
  entries := Ledger.lawful_grows
  ledger s _ grown := s.continues_ledger grown
  locals s frame name b := s.continues_stack (Nat.le_refl _) fun o => o.setLocal frame name b

/-- and so does whatever else a call does to frames, entries and targets. -/
theorem footprint_continues : Footprint Ledger.Grows Continues where
  toTolerates := tolerates_continues
  opened s _ _ _ pushed := s.continues_push pushed
  closed s _ _ _ popped := s.continues_pop popped
  written s _ _ _ _ := s.continues_store _
  cleared s _ _ _ := s.continues_store _
  rewrites r s old new _ _ _ _ := by
    obtain ⟨_, target, _, _, _⟩ := r
    cases target with
    | stored address path => exact s.continues_store _
    | binding frame name => exact s.continues_stack (Nat.le_refl _) fun o => o.setLocal _ _ _

/-- **Every deed** leaves the transaction running as it was. -/
theorem continues_of_does {s t : State} {o : Operation} (did : o.Does s t) : s.Continues t :=
  footprint_continues.of_does (fun _ s _ _ _ _ acquired => s.continues_acquire acquired) did

end State

open State (tolerates_continues continues_of_does)

namespace Construction

variable {typeName : String} {fields : List (String × Value)}

/-- Minting an identity uses up its number. -/
theorem continuing_createResource : Continuing (createResource typeName fields) :=
  (does_createResource fun _ =>
    continues_of_does (o := .createResource typeName fields) .made).continuing

theorem continuing_createStruct : Continuing (createStruct typeName fields) :=
  guards_createStruct.continuing

end Construction

namespace Frames

variable {frame : FrameId}

theorem continuing_push : Continuing push :=
  (guards_push fun s _ _ _ pushed => s.continues_push pushed).continuing

theorem continuing_pop : Continuing (pop frame) :=
  (guards_pop fun s _ _ popped => s.continues_pop popped).continuing

/-- Closing frames one after the other leaves the transaction running, -/
theorem continuing_popAll (frames : List FrameId) : Continuing (popAll frames) :=
  keeps_popAll (fun _ => continuing_pop) frames

/-- and so does unwinding, with the fault that it notes. -/
theorem continuing_unwind : Continuing (unwind frame) :=
  keeps_unwind (fun _ => continuing_pop) State.continues_note

end Frames

namespace Locals

variable {frame : FrameId} {name : String} {v : Value}

theorem continuing_bind : Continuing (bind frame name v) :=
  (does_bind fun _ free => continues_of_does (.bound free)).continuing

theorem continuing_take : Continuing (take frame name) :=
  (does_take fun _ _ free found => continues_of_does (.taken found free)).continuing

theorem continuing_read : Continuing (read frame name) := guards_read.continuing

theorem continuing_copy : Continuing (copy frame name) := guards_copy.continuing

/-- A change of a container leaves the transaction running if the change of its
elements does. -/
theorem continuing_change {action : Value → LedgerM (α × Value)}
    (h : ∀ v, Keeps Ledger.Grows (action v)) : Continuing (change frame name action) :=
  (does_change fun _ old _ _ => tolerates_continues.rebinding (h old)).continuing

end Locals

namespace Storage

variable {address : Address} {path : Path} {v : Value} {expected : Ty} {domain : Domain}

theorem continuing_save : Continuing (save address path v) :=
  (does_save fun _ may values storable free =>
    continues_of_does (.saved may values storable free)).continuing

theorem continuing_load : Continuing (load address path expected) :=
  (does_load fun _ _ may values found free =>
    continues_of_does (o := .load address path expected) (.loaded may values found free)).continuing

theorem continuing_copy : Continuing (copy address path expected) := guards_copy.continuing

theorem continuing_typeAt : Continuing (typeAt address path) := guards_typeAt.continuing

theorem continuing_paths : Continuing (paths address domain) := guards_paths.continuing

end Storage

namespace Links

variable {address : Address} {source target path : Path} {promise : RefTy}

theorem continuing_add : Continuing (add address source target promise) :=
  (does_add fun _ may links free => continues_of_does (.linked may links free)).continuing

theorem continuing_remove : Continuing (remove address path) :=
  (does_remove fun _ _ may links found =>
    continues_of_does (.unlinked may links found)).continuing

theorem continuing_capability {promise : Option RefTy} :
    Continuing (capability address path promise) := guards_capability.continuing

theorem continuing_target : Continuing (Links.target address path) := guards_target.continuing

end Links

namespace Members

variable {r : Reference} {member : String} {key : Key} {v : Value}

theorem continuing_read : Continuing (read r member) := guards_read.continuing

theorem continuing_set : Continuing (set r member v) :=
  (does_set (fun _ _ seen storable shown => continues_of_does (.filledMember seen storable shown))
    fun _ _ _ seen storable set shown has =>
      continues_of_does (.assignedMember seen storable set shown has)).continuing

theorem continuing_insert : Continuing (insert r member key v) :=
  (does_insert fun _ _ _ storable seen held shown =>
    continues_of_does (.insertedMember seen storable held shown)).continuing

theorem continuing_push : Continuing (push r member v) :=
  (does_push fun _ _ _ storable seen held shown =>
    continues_of_does (.pushedMember seen storable held shown)).continuing

theorem continuing_remove : Continuing (remove r member key) :=
  (does_remove fun _ _ _ seen held shown =>
    continues_of_does (.removedMember seen held shown)).continuing

end Members

namespace Teardown

variable {v : Value} {r : Resource} {p : Plan}

theorem continuing_destroy : Continuing (destroy v) :=
  (does_destroy fun _ => continues_of_does .destroyed).continuing

theorem continuing_destroyWith : Continuing (destroyWith r p) :=
  (does_destroyWith fun _ => continues_of_does .dismantled).continuing

end Teardown

end Custody
