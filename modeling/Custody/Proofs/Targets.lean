import Custody.Proofs.Tenure

/-!
# The value a reference points at

A reference points at a path of storage or at a local, and what is found there
is `Members.targetValue?`. This module says what becomes of it when something
is stored, bound, opened or closed: **what is written elsewhere leaves it as it
was**, and what is written at the target itself is found there afterwards.

It also says when a reference that is live after a change of the table of loans
was live before. A new loan has a number of its own, and closing a frame only
takes loans away; for the latter a target must not have two entries in the
table, of which one would appear when the other goes. So the table is asked to
be in order (`State.Orderly`), and so is the stack, where an inner frame might
hide an outer one of the same identity. Both are in order in every state of
every run, whatever the host does and whether or not a transaction can be
undone.
-/

namespace Custody

open CustodyM

/-! ## Locals of open frames -/

namespace CallStack

variable {s s' : CallStack} {id id' : FrameId} {name name' : String} {b : Binding} {v : Value}

/-- Binding a local is done in the frame that is found. -/
theorem find?_setLocalIn (frames : List Frame) :
    (setLocalIn id name b frames).find? (·.id = id')
      = (frames.find? (·.id = id')).map fun f => if id' = id then f.setLocal name b else f := by
  induction frames with
  | nil => rfl
  | cons f frames ih =>
    by_cases here : f.id = id
    · have first : setLocalIn id name b (f :: frames) = f.setLocal name b :: frames := if_pos here
      by_cases same : id' = id
      · simp [first, Frame.setLocal, here, same]
      · have other : f.id ≠ id' := fun h => same (h.symm.trans here)
        simp [first, Frame.setLocal, other, same]
    · have behind : setLocalIn id name b (f :: frames) = f :: setLocalIn id name b frames :=
        if_neg here
      rw [behind, List.find?_cons, List.find?_cons, ih]
      by_cases same : f.id = id'
      · simp [same, show id' ≠ id from same ▸ here]
      · simp [same]

/-- Writing a local changes a frame only if it is the one with that local. -/
theorem frame_setLocal (s : CallStack) (id id' : FrameId) (name : String) (b : Binding) :
    (s.setLocal id name b).frame id'
      = (s.frame id').map fun f => if id' = id then f.setLocal name b else f := by
  have found : (s.setLocal id name b).frames.find? (·.id = id')
      = (s.frames.find? (·.id = id')).map fun f => if id' = id then f.setLocal name b else f :=
    find?_setLocalIn s.frames
  unfold frame
  rw [found]
  cases s.frames.find? (·.id = id') <;> rfl

/-- What is bound elsewhere does not matter to a local. -/
theorem value_setLocal_of_ne (apart : (id', name') ≠ (id, name)) :
    (s.setLocal id name b).value id' name' = s.value id' name' := by
  unfold value
  rw [frame_setLocal]
  cases s.frame id' with
  | error fault => rfl
  | ok f =>
    show (if id' = id then f.setLocal name b else f).value name' = f.value name'
    split
    next same =>
      have other : name' ≠ name := fun h => apart (by rw [same, h])
      simp only [Frame.value, Frame.setLocal, Table.get?_put_of_ne _ _ other]
    next => rfl

/-- A local of an open frame is what was bound to it. -/
theorem value_setLocal_of_value (found : s.value id name = .ok v) (b : Binding) :
    (s.setLocal id name b).value id name
      = match b with
        | .live w => .ok w
        | .moved => .error (.useAfterMove name) := by
  obtain ⟨f, opened, -⟩ := value_eq_ok found
  unfold value
  rw [frame_setLocal, opened]
  show (if id = id then f.setLocal name b else f).value name = _
  rw [if_pos rfl]
  cases b <;> simp only [Frame.value, Frame.setLocal, Table.get?_put_self]

/-- What is bound to a local is found there. -/
theorem value_setLocal_self (found : s.value id name = .ok v) (w : Value) :
    (s.setLocal id name (.live w)).value id name = .ok w :=
  value_setLocal_of_value found (.live w)

/-- The later of two writes to a local stays. -/
theorem setLocalIn_setLocalIn (b b' : Binding) (frames : List Frame) :
    setLocalIn id name b' (setLocalIn id name b frames) = setLocalIn id name b' frames := by
  induction frames with
  | nil => rfl
  | cons f frames ih =>
    by_cases here : f.id = id
    · simp [setLocalIn, here, Frame.setLocal, Table.put_put]
    · simp [setLocalIn, here, ih]

/-- Writing what is bound already changes nothing. -/
theorem setLocalIn_eq_self {f : Frame} (bound : Table.get? f.locals name = some b)
    {frames : List Frame} (found : frames.find? (·.id = id) = some f) :
    setLocalIn id name b frames = frames := by
  induction frames with
  | nil => rfl
  | cons g frames ih =>
    by_cases here : g.id = id
    · obtain rfl : g = f := by simpa [here] using found
      rw [setLocalIn, if_pos here, Frame.setLocal, Table.put_eq_self bound]
    · rw [setLocalIn, if_neg here, ih (by simpa [here] using found)]

/-- Of two bindings of a local the later one stays. -/
theorem setLocal_setLocal (s : CallStack) (id : FrameId) (name : String) (b b' : Binding) :
    (s.setLocal id name b).setLocal id name b' = s.setLocal id name b' :=
  congrArg (CallStack.mk · s.next) (setLocalIn_setLocalIn b b' s.frames)

/-- Binding a local to the value it has changes nothing. -/
theorem setLocal_eq_self (found : s.value id name = .ok v) :
    s.setLocal id name (.live v) = s := by
  obtain ⟨f, opened, bound⟩ := value_eq_ok found
  exact congrArg (CallStack.mk · s.next) (setLocalIn_eq_self bound (frame_eq_ok opened))

/-- A new frame hides no older one. -/
theorem value_push {limit : Nat} {new : FrameId} (pushed : s.push limit = .ok (new, s'))
    (old : id.number < s.next) : s'.value id name = s.value id name := by
  obtain ⟨rfl, rfl⟩ := push_eq_ok pushed
  have other : (⟨s.next⟩ : FrameId) ≠ id := by
    rintro rfl
    exact Nat.lt_irrefl _ old
  simp [value, frame, other]

/-- Closing a frame leaves the others as they are. -/
theorem value_pop {top : FrameId} {f : Frame} (popped : s.pop top = .ok (f, s'))
    (other : id ≠ top) : s'.value id name = s.value id name := by
  obtain ⟨rfl, frames, -⟩ := pop_eq_ok popped
  simp [value, frame, frames, Ne.symm other]

end CallStack

/-! ## Slots without a value -/

namespace Store

variable {store : Store} {address : Address} {path : Path}

/-- An empty slot has no value, -/
theorem value?_of_not_contains (free : store.contains address path = false) :
    store.value? address path = none := by
  have empty : store.get? address path = none := by simpa [contains] using free
  rw [value?, empty]
  rfl

/-- and neither has one with a link. -/
theorem value?_of_link? {link : Link} (found : store.link? address path = some link) :
    store.value? address path = none := by
  obtain ⟨e, stored, linked⟩ := Option.bind_eq_some_iff.1 found
  rw [value?, stored]
  cases e with
  | value v => cases linked
  | link l => rfl

end Store

/-! ## Targets -/

namespace Members

variable {s : State} {target : Target} {v w : Value}

/-- A write to another local leaves a target as it is, -/
theorem targetValue?_setLocal {frame : FrameId} {name : String} {b : Binding}
    (apart : target ≠ .binding frame name) :
    targetValue? { s with stack := s.stack.setLocal frame name b } target
      = targetValue? s target := by
  cases target with
  | stored address path => rfl
  | binding frame' name' =>
    show (CallStack.value _ frame' name').toOption = (s.stack.value frame' name').toOption
    rw [CallStack.value_setLocal_of_ne]
    rintro ⟨rfl, rfl⟩
    exact apart rfl

/-- and so does an insertion at another path, -/
theorem targetValue?_insert {address : Address} {path : Path} {e : Entry}
    (apart : target ≠ .stored address path) :
    targetValue? { s with store := s.store.insert address path e } target
      = targetValue? s target := by
  cases target with
  | stored address' path' =>
    show (Store.get? _ address' path').bind _ = (s.store.get? address' path').bind _
    rw [Store.get?_insert, if_neg]
    rintro ⟨rfl, rfl⟩
    exact apart rfl
  | binding frame name => rfl

/-- an erasure there, -/
theorem targetValue?_erase {address : Address} {path : Path}
    (apart : target ≠ .stored address path) :
    targetValue? { s with store := s.store.erase address path } target
      = targetValue? s target := by
  cases target with
  | stored address' path' =>
    show (Store.get? _ address' path').bind _ = (s.store.get? address' path').bind _
    rw [Store.get?_erase, if_neg]
    rintro ⟨rfl, rfl⟩
    exact apart rfl
  | binding frame name => rfl

/-- and any write to another target. -/
theorem targetValue?_writeAt_of_ne {target' : Target} (apart : target ≠ target') :
    targetValue? (s.writeAt target' w) target = targetValue? s target := by
  cases target' with
  | stored address path => exact targetValue?_insert apart
  | binding frame name => exact targetValue?_setLocal apart

/-- A frame that is opened has none of the targets that were there. -/
theorem targetValue?_push {limit : Nat} {new : FrameId} {stack : CallStack}
    (pushed : s.stack.push limit = .ok (new, stack))
    (old : ∀ frame name, target = .binding frame name → frame.number < s.stack.next) :
    targetValue? { s with stack := stack } target = targetValue? s target := by
  cases target with
  | stored address path => rfl
  | binding frame name =>
    show (stack.value frame name).toOption = (s.stack.value frame name).toOption
    rw [CallStack.value_push pushed (old frame name rfl)]

/-- Closing a frame leaves all targets but its own locals. -/
theorem targetValue?_pop {frame : FrameId} {f : Frame} {stack : CallStack}
    (popped : s.stack.pop frame = .ok (f, stack)) (apart : ∀ name, target ≠ .binding frame name) :
    targetValue? { s with stack := stack } target = targetValue? s target := by
  cases target with
  | stored address path => rfl
  | binding frame' name =>
    show (stack.value frame' name).toOption = (s.stack.value frame' name).toOption
    rw [CallStack.value_pop popped]
    rintro rfl
    exact apart name rfl

/-- What is written at a target is found there. -/
theorem targetValue?_writeAt_self (found : targetValue? s target = some v) (w : Value) :
    targetValue? (s.writeAt target w) target = some w := by
  cases target with
  | stored address path =>
    show ((s.store.insert address path (.value w)).get? address path).bind _ = _
    rw [Store.get?_insert, if_pos rfl]
    rfl
  | binding frame name =>
    have bound : s.stack.value frame name = .ok v := by
      revert found
      show (s.stack.value frame name).toOption = some v → _
      cases s.stack.value frame name <;> simp [Except.toOption]
    show ((s.stack.setLocal frame name (.live w)).value frame name).toOption = _
    rw [CallStack.value_setLocal_self bound]
    rfl

end Members

/-! ## Loans -/

namespace Loans

variable {l loans : Loans} {r : Reference} {target : Target} {frame : FrameId} {id : RefId}

/-- What a live reference points at is borrowed. -/
theorem isBorrowed_of_isLive (live : l.isLive r = true) : l.isBorrowed r.target = true := by
  unfold isLive at live
  obtain ⟨loan, found, -⟩ := (Option.any_eq_true _ _).1 live
  unfold isBorrowed Table.contains
  rw [found]
  rfl

/-- Nothing that is not borrowed is the target of a live reference. -/
theorem target_ne_of_free (live : l.isLive r = true) (free : l.isBorrowed target = false) :
    r.target ≠ target := by
  rintro rfl
  rw [isBorrowed_of_isLive live] at free
  cases free

/-- **A new loan** makes no earlier reference live. -/
theorem isLive_of_acquire (acquired : l.acquire target frame = some (id, loans))
    (old : r.id.number < l.next) (live : loans.isLive r = true) : l.isLive r = true := by
  obtain ⟨-, rfl, rfl⟩ := acquire_eq_some acquired
  unfold isLive at live ⊢
  rw [Table.get?_put] at live
  split at live
  · have same : (⟨l.next⟩ : RefId) = r.id := by simpa using live
    rw [← same] at old
    exact absurd old (Nat.lt_irrefl _)
  · exact live

/-- **A frame that closes** makes no reference live, and ends those onto its
own locals. -/
theorem isLive_of_releaseFrame (distinct : (Table.keys l.outstanding).Nodup)
    (live : (l.releaseFrame frame).isLive r = true) :
    l.isLive r = true ∧ ∀ name, r.target ≠ .binding frame name := by
  have sublist : ((l.releaseFrame frame).outstanding.map Prod.fst).Sublist
      (l.outstanding.map Prod.fst) := List.filter_sublist.map _
  obtain ⟨owner, mem⟩ := (isLive_iff (distinct.sublist sublist)).1 live
  obtain ⟨mem, stays⟩ := List.mem_filter.1 mem
  refine ⟨(isLive_iff distinct).2 ⟨owner, mem⟩, fun name same => ?_⟩
  simp [endsWith, same] at stays

end Loans

/-! ## Tables in order -/

namespace State

variable {s t : State} {moves : List Move}

/-- **The stack and the table of loans are in order.** -/
structure Orderly (s : State) : Prop where
  ordered : s.stack.Ordered
  distinct : (Table.keys s.loans.outstanding).Nodup

/-- **Whatever a call does keeps a state orderly.** -/
theorem footprint_orderly : Footprint Ledger.Grows (Preserves Orderly) where
  entries := Ledger.lawful_grows
  ledger s _ _ orderly := ⟨orderly.ordered, orderly.distinct⟩
  locals s frame name b orderly := ⟨orderly.ordered.setLocal frame name b, orderly.distinct⟩
  opened s _ _ _ pushed orderly := ⟨orderly.ordered.push pushed, orderly.distinct⟩
  closed s _ _ _ popped orderly :=
    ⟨orderly.ordered.pop popped, orderly.distinct.sublist (List.filter_sublist.map _)⟩
  written s _ _ _ _ orderly := ⟨orderly.ordered, orderly.distinct⟩
  cleared s _ _ _ orderly := ⟨orderly.ordered, orderly.distinct⟩
  rewrites r s old new _ _ _ _ := by
    rw [Members.outcome_replace]
    obtain ⟨_, target, _, _, _⟩ := r
    cases target with
    | stored address path => exact fun orderly => ⟨orderly.ordered, orderly.distinct⟩
    | binding frame name => exact fun orderly => ⟨orderly.ordered.setLocal _ _ _, orderly.distinct⟩

/-- **Every deed keeps the tables in order.** -/
theorem Orderly.of_does {o : Operation} (orderly : s.Orderly) (did : o.Does s t) : t.Orderly := by
  refine footprint_orderly.of_does (fun _ s target _ _ _ acquired orderly => ?_) did orderly
  obtain ⟨-, -, rfl⟩ := Loans.acquire_eq_some acquired
  exact ⟨orderly.ordered, Table.nodup_keys_put orderly.distinct _ _⟩

/-- Noting a fault keeps it orderly. -/
theorem Orderly.note (orderly : s.Orderly) (fault : Fault) : (s.note fault).Orderly := by
  unfold State.note
  split
  · exact ⟨orderly.ordered, orderly.distinct⟩
  · exact orderly

/-- **Every move keeps the tables in order.** -/
theorem Orderly.next (orderly : s.Orderly) (m : Move) : (m.next s).Orderly := by
  have inner (m : Move) (inner : m.isInner = true) : Keeps (Preserves Orderly) m.perform :=
    Move.keeps_perform inner (fun o _ s t did orderly => orderly.of_does did)
      (fun frame s t did orderly => orderly.of_does did)
      (fun _ _ s orderly => ⟨orderly.ordered, orderly.distinct⟩) fun s fault orderly =>
        orderly.note fault
  refine Move.keeps_next (R := Preserves Orderly) (inner m) (fun frame => inner (.unwind frame) rfl)
    ?_ ?_ ?_ ?_ s orderly
  · intro s signers bytes t begins _
    exact ⟨begins.stack ▸ CallStack.Ordered.clear, begins.loans ▸ List.nodup_nil⟩
  · exact fun s orderly => ⟨orderly.ordered, orderly.distinct⟩
  · exact fun s store records _ => ⟨CallStack.Ordered.clear, List.nodup_nil⟩
  · exact fun s orderly => ⟨orderly.ordered, List.nodup_nil⟩

/-- A custodian that resumes from stored state has empty tables. -/
theorem Orderly.ofStore (store : Store) (settings : Settings) (registry : Registry) :
    (State.ofStore store settings registry).Orderly :=
  ⟨⟨List.Pairwise.nil, fun _ mem => nomatch mem⟩, List.nodup_nil⟩

/-- The tables are in order in every state of every run. -/
theorem Orderly.after (orderly : s.Orderly) : (s.after moves).Orderly := by
  induction moves generalizing s with
  | nil => exact orderly
  | cons m moves ih => exact ih (orderly.next m)

end State

end Custody
