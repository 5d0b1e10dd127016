import Custody.Proofs.Failures

/-!
# Outside a transaction

Between transactions a custodian is **idle**: there is no transaction, no
frame and no reference. Most operations refuse at once then, and the others
only look, so nothing a host calls but beginning a transaction changes an idle
custodian (`Operation.rests_perform`).
-/

namespace Custody

open CustodyM

variable {ε α β : Type}

/-- **Between transactions.** -/
structure State.Idle (s : State) : Prop where
  /-- No transaction is running. -/
  transaction : s.transaction = none
  /-- No frame is open. -/
  frames : s.stack.frames = []
  /-- No reference is outstanding. -/
  references : s.loans.outstanding = []

/-- There is no transaction to mark. -/
theorem State.Idle.note {s : State} (idle : s.Idle) (e : Fault) : s.note e = s := by
  unfold State.note
  split
  · rw [idle.transaction, Option.map_none, ← idle.transaction]
  · rfl

/-- **The action leaves an idle custodian as it is**, however it ends. -/
def Rests (m : ExceptT ε (StateM State) α) : Prop := ∀ s, s.Idle → (outcome m s).2 = s

/-- **An idle custodian refuses the action.** -/
def Refuses (m : ExceptT ε (StateM State) α) : Prop := ∀ s, s.Idle → ∃ e, Fails m s e s

namespace Rests

/-- What only looks leaves an idle custodian as it is, -/
theorem of_reads {m : ExceptT ε (StateM State) α} (h : Keeps Eq m) : Rests m :=
  fun s _ => (h s).symm

/-- and so does what it refuses. -/
theorem of_refuses {m : ExceptT ε (StateM State) α} (h : Refuses m) : Rests m := by
  intro s idle
  obtain ⟨e, failed⟩ := h s idle
  rw [failed]

/-- A sequence rests if both parts do. -/
theorem bind {m : ExceptT ε (StateM State) α} {k : α → ExceptT ε (StateM State) β}
    (hm : Rests m) (hk : ∀ a, Rests (k a)) : Rests (m >>= k) := by
  intro s idle
  rw [outcome_bind]
  rcases h : outcome m s with ⟨e | a, t⟩
  · have := hm s idle
    rwa [h] at this
  · have same : t = s := by
      have := hm s idle
      rwa [h] at this
    exact same ▸ hk a t (same ▸ idle)

/-- Reporting the result changes nothing. -/
theorem report {m : ExceptT ε (StateM State) α} (hm : Rests m) (f : α → β) :
    Rests (m >>= fun a => pure (f a)) :=
  hm.bind fun _ => of_reads Keeps.pure

/-- A guard has no transaction to mark. -/
theorem guarded {m : CustodyM α} (hm : Rests m) : Rests (guarded m) := by
  intro s idle
  have same := hm s idle
  rw [outcome_guarded]
  rcases h : outcome m s with ⟨e | a, t⟩
  · rw [h] at same
    obtain rfl : t = s := same
    exact idle.note e
  · rwa [h] at same

/-- A call that only looks leaves an idle custodian as it is. -/
theorem of_looks {m : CustodyM α} (h : Looks m) : Rests m := by
  obtain ⟨body, rfl, reads⟩ := h
  exact guarded (of_reads reads)

end Rests

namespace Refuses

/-- A sequence is refused if its first part is. -/
theorem bind {m : ExceptT ε (StateM State) α} {k : α → ExceptT ε (StateM State) β}
    (hm : Refuses m) : Refuses (m >>= k) := by
  intro s idle
  obtain ⟨e, failed⟩ := hm s idle
  exact ⟨e, fails_bind.2 (.inl failed)⟩

/-- A guard refuses what it guards. -/
theorem guarded {m : CustodyM α} (hm : Refuses m) : Refuses (guarded m) := by
  intro s idle
  obtain ⟨e, failed⟩ := hm s idle
  exact ⟨e, fails_guarded.2 ⟨s, failed, (idle.note e).symm⟩⟩

end Refuses

/-! ## What an idle custodian refuses -/

/-- Outside a transaction a call that requires one is refused, -/
theorem refuses_requireTransaction : Refuses requireTransaction := by
  intro s idle
  refine ⟨.noTransaction, ?_⟩
  unfold requireTransaction
  rw [fails_get_bind, idle.transaction]
  exact fails_throw.2 ⟨rfl, rfl⟩

/-- and so is a look at a path of values, -/
theorem Storage.refuses_checkPath {address : Address} {path : Path} :
    Refuses (checkPath address path) :=
  Refuses.bind (Refuses.bind refuses_requireTransaction)

/-- or at a path of links. -/
theorem Links.refuses_checkPath {address : Address} {path : Path} :
    Refuses (checkPath address path) :=
  Refuses.bind (Refuses.bind refuses_requireTransaction)

/-- Without references there is nothing to access. -/
theorem Members.refuses_checkAccess {r : Reference} {member : String} :
    Refuses (checkAccess r member) := by
  intro s idle
  refine ⟨dangling r, ?_⟩
  have ended : s.loans.isLive r = false := by
    unfold Loans.isLive
    rw [idle.references]
    rfl
  unfold checkAccess
  rw [fails_get_bind]
  simp [ended]

/-- A change of a member starts by checking a reference, and none is live. -/
theorem Members.rests_change {r : Reference} {member : String}
    {action : Value → Place → String → LedgerM (α × Value)} :
    Rests (change r member action) :=
  Rests.of_refuses (Refuses.bind Members.refuses_checkAccess)

/-- No frame is open, so none can be closed, -/
theorem Frames.rests_pop {frame : FrameId} : Rests (pop frame) := by
  refine Rests.guarded (Rests.of_refuses fun s idle => ?_)
  refine ⟨.frameMismatch frame.text s.stack.currentText, ?_⟩
  rw [fails_get_bind]
  refine fails_bind.2 (.inl (fails_ofExcept.2 ⟨?_, rfl⟩))
  unfold CallStack.pop
  rw [idle.frames]

/-- and unwinding finds none. -/
theorem Frames.rests_unwind {frame : FrameId} : Rests (unwind frame) := by
  intro s idle
  have closed : s.stack.contains frame = false := by
    unfold CallStack.contains
    rw [idle.frames]
    rfl
  have refused : Rests (guarded (throw (.frameMismatch frame.text s.stack.currentText)) :
      CustodyM Unit) := Rests.guarded (Rests.of_reads Keeps.throw)
  unfold unwind
  rw [outcome_bind]
  dsimp only
  show (outcome (if s.stack.contains frame = true then _ else _) s).2 = s
  rw [closed]
  exact refused s idle

namespace Borrows

/-- A borrow requires a transaction too. -/
theorem refuses_requireTransaction : Refuses Borrows.requireTransaction := by
  intro s idle
  refine ⟨.noTransaction, ?_⟩
  unfold Borrows.requireTransaction
  rw [fails_get_bind, idle.transaction]
  exact fails_throw.2 ⟨rfl, rfl⟩

theorem rests_throughCapability {c : Capability} {requested : RefTy} :
    Rests (throughCapability c requested) :=
  Rests.bind (Rests.of_reads Keeps.get) fun _ =>
    Rests.bind (Rests.of_reads Keeps.ofExcept) fun _ =>
      Rests.of_refuses (Refuses.bind refuses_requireTransaction)

theorem rests_stored {address : Address} {path : Path} {requested : RefTy} :
    Rests (stored address path requested) := by
  refine Rests.of_refuses fun s idle => ⟨.noTransaction, ?_⟩
  unfold stored
  rw [fails_get_bind, idle.transaction]
  exact fails_throw.2 ⟨rfl, rfl⟩

theorem rests_ofLocal {frame : FrameId} {name : String} {requested : RefTy} :
    Rests (ofLocal frame name requested) :=
  Rests.of_refuses (Refuses.bind refuses_requireTransaction)

end Borrows

/-- What starts by asking for the transaction is refused. -/
theorem refuses_requiring {k : Transaction → CustodyM α} :
    Refuses (guarded (requireTransaction >>= k)) :=
  Refuses.guarded (Refuses.bind refuses_requireTransaction)

/-- So is taking a local. -/
theorem Locals.refuses_take {frame : FrameId} {name : String} : Refuses (take frame name) :=
  refuses_requiring

/-- A borrow has a verdict, and it rests when the borrow does. -/
theorem Rests.ofBorrow {action : BorrowM Reference} (h : Rests action) :
    Rests (Reply.ofBorrow action) := by
  refine Rests.bind (fun s idle => h s idle) fun r => ?_
  split
  · exact Rests.of_reads Keeps.pure
  · exact Rests.of_reads Keeps.pure

/-- A local that cannot be taken is not passed. -/
theorem Locals.rests_pass {caller callee : FrameId} {argument parameter : String} :
    Rests (pass caller argument callee parameter) :=
  Rests.of_refuses (Refuses.bind refuses_take)

/-- **No call but beginning a transaction changes an idle custodian.** -/
theorem Operation.rests_perform {o : Operation} (inner : o.isBound = false) : Rests o.perform := by
  cases o with
  | start | commit | abort => cases inner
  | createStruct => exact (Rests.of_looks Construction.looks_createStruct).report _
  | popFrame => exact Frames.rests_pop.report _
  | readLocal => exact (Rests.of_looks Locals.looks_read).report _
  | copyLocal => exact (Rests.of_looks Locals.looks_copy).report _
  | pass => exact Locals.rests_pass.report _
  | assign => exact Locals.rests_pass.report _
  | save => exact (Rests.guarded (Rests.of_refuses Storage.refuses_checkPath.bind)).report _
  | load => exact (Rests.guarded (Rests.of_refuses Storage.refuses_checkPath.bind)).report _
  | copyStored => exact (Rests.of_looks Storage.looks_copy).report _
  | typeAt => exact (Rests.of_looks Storage.looks_typeAt).report _
  | storedPaths => exact (Rests.of_looks Storage.looks_paths).report _
  | link => exact (Rests.guarded (Rests.of_refuses Links.refuses_checkPath.bind)).report _
  | unlink => exact (Rests.guarded (Rests.of_refuses Links.refuses_checkPath.bind)).report _
  | capability => exact (Rests.of_looks Links.looks_capability).report _
  | linkTarget => exact (Rests.of_looks Links.looks_target).report _
  | checkCapability => exact (Rests.of_reads Keeps.get).report _
  | borrow => exact Borrows.rests_throughCapability.ofBorrow
  | borrowStored => exact Borrows.rests_stored.ofBorrow
  | borrowLocal => exact Borrows.rests_ofLocal.ofBorrow
  | isLive => exact (Rests.of_reads Keeps.get).report _
  | readMember => exact (Rests.of_looks Members.looks_read).report _
  | setMember =>
    exact (Rests.guarded (Rests.of_refuses Members.refuses_checkAccess.bind)).report _
  | insertMember =>
    exact (Rests.guarded (Rests.bind (Rests.of_reads Storage.keeps_ensureStorable) fun _ =>
      Members.rests_change)).report _
  | pushMember =>
    exact (Rests.guarded (Rests.bind (Rests.of_reads Storage.keeps_ensureStorable) fun _ =>
      Members.rests_change)).report _
  | removeMember => exact (Rests.guarded Members.rests_change).report _
  | _ => exact (Rests.of_refuses refuses_requiring).report _

end Custody
