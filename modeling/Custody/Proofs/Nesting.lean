import Custody.Proofs.Departure
import Custody.Proofs.Tenure

/-!
# Nested frames of a host program

A host works in frames of its own: it opens a frame, does something in it, and
the frame is closed whatever happened there, with all that was opened further in.
What is done in such a frame may itself be done in frames of its own, may open
frames and forget about them, and may fail at any point. As long as it does not
close the frame it was given and leaves the transaction alone, **the open frames
are the same afterwards** (`within_restores`), no reference outlives the frame it
belongs to or points into, and the result tells what happened: the failure of what
was done comes first, then a resource that one of the closed frames still had.

`Program` is what such a host does, with calls and frames of its own nested at
will. The proof goes along its structure, with two invariants: the frames below
the innermost frame of its own stay where they are (`State.Standing`), and every
reference has its frame (`State.Moored`).
-/

namespace Custody

open CustodyM

variable {α β : Type} {s t u : State} {frame : FrameId}

/-! ## What a call does to the open frames -/

namespace State

theorem ids_doing {action : LedgerM α} {finish : α → State → State}
    (same : ∀ a u, (finish a u).stack.ids = u.stack.ids) :
    (s.doing action finish).stack.ids = s.stack.ids :=
  doing_cases (P := fun t => t.stack.ids = s.stack.ids) (fun _ _ _ => rfl) fun a _ _ => same a _

@[simp] theorem ids_writeAt (s : State) (target : Target) (v : Value) :
    (s.writeAt target v).stack.ids = s.stack.ids := by
  cases target with
  | stored => rfl
  | binding => exact CallStack.ids_setLocal _ _ _ _

@[simp] theorem stack_note (s : State) (fault : Fault) : (s.note fault).stack = s.stack := by
  unfold note
  split <;> rfl

@[simp] theorem loans_note (s : State) (fault : Fault) : (s.note fault).loans = s.loans := by
  unfold note
  split <;> rfl

end State

/-- **The frames that were open still are**, with nothing but newer ones further
in. -/
def State.Under (s t : State) : Prop := s.stack.ids <:+ t.stack.ids

instance : IsPreorder State State.Under where
  refl _ := List.suffix_refl _
  trans _ _ _ h h' := h.trans h'

theorem State.under_of_ids (same : t.stack.ids = s.stack.ids) : s.Under t :=
  ⟨[], same.symm⟩

/-- **A deed closes no frame** but the innermost, and that one only when it was
asked to. -/
theorem Operation.Does.under {o : Operation} (did : o.Does s t) :
    s.Under t ∨ ∃ frame, o = popFrame frame := by
  have rebinds {γ : Type} {s : State} {action : LedgerM γ} {frame : FrameId} {name : String}
      {b : γ → Binding} : s.Under (s.doing action fun a u =>
        { u with stack := u.stack.setLocal frame name (b a) }) :=
    State.under_of_ids (State.ids_doing fun _ _ => CallStack.ids_setLocal _ _ _ _)
  induction did with
  | made | destroyed | dismantled | saved | loaded =>
    exact .inl (State.under_of_ids (State.ids_doing fun _ _ => rfl))
  | bound | taken | inserted | pushed | removed | emptied | filled => exact .inl rebinds
  | linked | unlinked | lent => exact .inl (State.under_of_ids rfl)
  | filledMember | insertedMember | pushedMember | removedMember =>
    exact .inl (State.under_of_ids (State.ids_doing fun _ _ => State.ids_writeAt _ _ _))
  | assignedMember => exact .inl (State.under_of_ids (State.ids_writeAt _ _ _))
  | opened pushed =>
    obtain ⟨rfl, rfl⟩ := CallStack.push_eq_ok pushed
    exact .inl (List.suffix_cons _ _)
  | closed => exact .inr ⟨_, rfl⟩
  | passedOut _ ih | passedIn _ ih | assigned _ ih =>
    exact ih.imp_right fun ⟨_, asked⟩ => nomatch asked

namespace Frames

/-- Closing a frame that is not the innermost is refused. -/
theorem fails_pop_of_refused {fault : Fault} (refused : s.stack.pop frame = .error fault) :
    Fails (pop frame) s fault (s.note fault) := by
  unfold pop
  refine fails_guarded.2 ⟨s, ?_, rfl⟩
  rw [fails_get_bind]
  exact fails_bind.2 (.inl (fails_ofExcept.2 ⟨refused, rfl⟩))

theorem ids_pop (frame : FrameId) (s : State) :
    (outcome (pop frame) s).2.stack.ids = s.stack.ids
      ∨ s.stack.ids = frame :: (outcome (pop frame) s).2.stack.ids := by
  rcases popped : s.stack.pop frame with fault | ⟨f, stack⟩
  · rw [fails_pop_of_refused popped, State.stack_note]
    exact .inl rfl
  · obtain ⟨rfl, innermost, -⟩ := CallStack.pop_eq_ok popped
    obtain ⟨result, t, done, -, frames, -⟩ := outcome_pop innermost
    rw [done]
    refine .inr ?_
    unfold CallStack.ids
    rw [innermost, frames]
    rfl

end Frames

namespace Operation

variable {o : Operation}

/-- **The call closes the frame**: it asks to, and the frame is the innermost. -/
def Closes (o : Operation) (s : State) (frame : FrameId) : Prop :=
  o = popFrame frame ∧ s.stack.current? = some frame

/-- **A call closes one frame or none.** -/
theorem under_perform (inner : o.isBound = false) (s : State) :
    s.Under (outcome o.perform s).2 ∨ ∃ frame, o.Closes s frame
      ∧ s.stack.ids = frame :: (outcome o.perform s).2.stack.ids := by
  by_cases closing : ∃ frame, o = popFrame frame
  · obtain ⟨frame, rfl⟩ := closing
    have same : (outcome (popFrame frame).perform s).2 = (outcome (Frames.pop frame) s).2 :=
      snd_outcome_report (Frames.pop frame) (fun _ => Reply.done) s
    rw [same]
    rcases Frames.ids_pop frame s with kept | popped
    · exact .inl (State.under_of_ids kept)
    · refine .inr ⟨frame, ⟨rfl, ?_⟩, popped⟩
      unfold CallStack.current?
      rw [← List.head?_map]
      exact congrArg List.head? popped
  · have keeps : Composed State.Under o.perform :=
      o.composed inner fun s t did => did.under.resolve_right closing
    exact .inl (keeps.keeps (fun s fault => State.under_of_ids (by rw [State.stack_note])) s)

end Operation

/-! ## Every reference has its frame -/

namespace State

/-- **Every reference has its frame**: the frame it belongs to is open, or stands
for the transaction, and the frame whose local it is onto is open. -/
structure Moored (s : State) : Prop where
  ordered : s.stack.Ordered
  /-- No frame to come is mistaken for the transaction. -/
  apart : FrameId.transaction.number < s.stack.next
  owned : ∀ e ∈ s.loans.outstanding, e.2.frame = FrameId.transaction ∨ e.2.frame ∈ s.stack.ids
  onto : ∀ owner name loan, (.binding owner name, loan) ∈ s.loans.outstanding →
    owner ∈ s.stack.ids

namespace Moored

/-- What leaves the frames and the references alone leaves them moored. -/
theorem of_same (moored : s.Moored) (ids : t.stack.ids = s.stack.ids)
    (next : t.stack.next = s.stack.next) (loans : t.loans = s.loans) : t.Moored where
  ordered := ⟨ids ▸ moored.ordered.newer, ids ▸ next ▸ moored.ordered.older⟩
  apart := next ▸ moored.apart
  owned e mem := ids ▸ moored.owned e (loans ▸ mem)
  onto owner name loan mem := ids ▸ moored.onto owner name loan (loans ▸ mem)

/-- Where there are no references, all are moored. -/
theorem of_ended (ordered : t.stack.Ordered) (apart : FrameId.transaction.number < t.stack.next)
    (ended : t.loans.outstanding = []) : t.Moored where
  ordered := ordered
  apart := apart
  owned e mem := nomatch (ended ▸ mem : e ∈ [])
  onto owner name loan mem := nomatch (ended ▸ mem : (Target.binding owner name, loan) ∈ [])

theorem note (moored : s.Moored) (fault : Fault) : (s.note fault).Moored :=
  moored.of_same (by rw [stack_note]) (by rw [stack_note]) (loans_note s fault)

theorem push {limit : Nat} {id : FrameId} {stack : CallStack} (moored : s.Moored)
    (pushed : s.stack.push limit = .ok (id, stack)) : Moored { s with stack := stack } := by
  have ordered := moored.ordered.push pushed
  obtain ⟨rfl, rfl⟩ := CallStack.push_eq_ok pushed
  exact ⟨ordered, Nat.lt_succ_of_lt moored.apart,
    fun e mem => (moored.owned e mem).imp_right (List.mem_cons_of_mem _),
    fun owner name loan mem => List.mem_cons_of_mem _ (moored.onto owner name loan mem)⟩

/-- A frame that closes takes its references with it, and those onto its
locals. -/
theorem pop {f : Frame} {stack : CallStack} (moored : s.Moored)
    (popped : s.stack.pop frame = .ok (f, stack)) :
    Moored { s with stack := stack, loans := s.loans.releaseFrame frame } := by
  have ordered := moored.ordered.pop popped
  obtain ⟨rfl, frames, same⟩ := CallStack.pop_eq_ok popped
  have ids : s.stack.ids = f.id :: stack.ids := by rw [CallStack.ids, frames]; rfl
  have stays {id : FrameId} (opened : id ∈ s.stack.ids) (apart : id ≠ f.id) : id ∈ stack.ids :=
    (List.mem_cons.1 (ids ▸ opened)).resolve_left apart
  refine ⟨ordered, by rw [same]; exact moored.apart, fun e mem => ?_, fun owner name loan mem => ?_⟩
  · obtain ⟨mem, apart, -⟩ := Loans.mem_releaseFrame_iff.1 mem
    exact (moored.owned e mem).imp_right fun opened => stays opened apart
  · obtain ⟨mem, -, onto⟩ := Loans.mem_releaseFrame_iff.1 mem
    exact stays (moored.onto owner name loan mem) fun same => onto name (by rw [same])

/-- A new reference belongs to the innermost frame and is onto a local of an open
one. -/
theorem acquire {target : Target} {id : RefId} {loans : Loans} (moored : s.Moored)
    (may : s.MayLend target) (acquired : s.loans.acquire target s.borrower = some (id, loans)) :
    Moored { s with loans := loans } := by
  obtain ⟨absent, rfl, rfl⟩ := Loans.acquire_eq_some acquired
  refine ⟨moored.ordered, moored.apart, fun e mem => ?_, fun owner name loan mem => ?_⟩
  · rcases (Table.mem_put_iff absent).1 mem with rfl | mem
    · exact s.borrower_opened
    · exact moored.owned e mem
  · rcases (Table.mem_put_iff absent).1 mem with same | mem
    · obtain ⟨rfl, -⟩ := Prod.mk.inj same
      exact may.opened
    · exact moored.onto owner name loan mem

end Moored

theorem footprint_moored : Footprint Ledger.Grows (Preserves Moored) where
  entries := Ledger.lawful_grows
  ledger s _ _ moored := moored.of_same rfl rfl rfl
  locals s frame name b moored := moored.of_same (CallStack.ids_setLocal _ _ _ _) rfl rfl
  opened s _ _ _ pushed moored := moored.push pushed
  closed s _ _ _ popped moored := moored.pop popped
  written s _ _ _ _ moored := moored.of_same rfl rfl rfl
  cleared s _ _ _ moored := moored.of_same rfl rfl rfl
  rewrites r s old new _ _ _ _ := by
    rw [Members.outcome_replace]
    obtain ⟨_, target, _, _, _⟩ := r
    cases target with
    | stored address path => exact fun moored => moored.of_same rfl rfl rfl
    | binding frame name =>
      exact fun moored => moored.of_same (CallStack.ids_setLocal _ _ _ _) rfl rfl

/-- **Every move** leaves the references moored. -/
theorem Moored.next (moored : s.Moored) (m : Move) : (m.next s).Moored := by
  have did (o : Operation) (s t : State) (did : o.Does s t) : Preserves Moored s t :=
    footprint_moored.of_does (fun _ _ _ _ _ may acquired moored => moored.acquire may acquired) did
  have inner (m : Move) (inner : m.isInner = true) : Keeps (Preserves Moored) m.perform :=
    Move.keeps_perform inner (fun o _ => did o) (fun frame => did (.popFrame frame))
      (fun _ _ s moored => moored.of_same rfl rfl rfl) fun s fault moored => moored.note fault
  refine Move.keeps_next (R := Preserves Moored) (inner m) (fun frame => inner (.unwind frame) rfl)
    ?_ ?_ ?_ ?_ s moored
  · intro s signers bytes t begins moored
    exact .of_ended (begins.stack ▸ CallStack.Ordered.clear) (begins.stack ▸ moored.apart)
      (by rw [begins.loans]; rfl)
  · exact fun s moored => moored.of_same rfl rfl rfl
  · exact fun s store records moored => .of_ended CallStack.Ordered.clear moored.apart rfl
  · exact fun s moored => .of_ended moored.ordered moored.apart rfl

/-- **In every state of every run** the references are moored. -/
theorem Moored.after {moves : List Move} (moored : s.Moored) : (s.after moves).Moored := by
  induction moves generalizing s with
  | nil => exact moored
  | cons m moves ih => exact ih (moored.next m)

theorem Moored.ofStore (store : Store) (settings : Settings) (registry : Registry) :
    (State.ofStore store settings registry).Moored :=
  of_ended ⟨List.Pairwise.nil, fun _ mem => nomatch mem⟩ Nat.zero_lt_one rfl

end State

/-! ## Closing frames from the inside -/

/-- **Nothing is recorded in the frames**: no resource is owned by a place that is
rooted in a local of one of them. -/
def Ledger.Vacates (l : Ledger) (frames : List FrameId) : Prop :=
  ∀ id place, l.holding? id = some (.owned place) → ∀ f ∈ frames, place.frame? ≠ some f

theorem Ledger.vacates_iff {l : Ledger} {frames : List FrameId} :
    l.Vacates frames ↔ ∀ f ∈ frames, l.heldIn f = [] := by
  constructor
  · refine fun vacates f mem => List.eq_nil_iff_forall_not_mem.2 fun ⟨id, place⟩ held => ?_
    obtain ⟨known, there⟩ := mem_heldIn_iff.1 held
    exact vacates id place known f mem there
  · intro empty id place known f mem there
    have held := mem_heldIn_iff.2 ⟨known, there⟩
    rw [empty f mem] at held
    cases held

namespace Frames

/-- **What closing frames reports**: nothing when nothing is recorded in them, and
otherwise a resource that is recorded in the first of them with one. -/
inductive Reports (l : Ledger) : List FrameId → Except Fault Unit → Prop where
  | clear {frames : List FrameId} (empty : l.Vacates frames) : Reports l frames (.ok ())
  | caught {inner outer : List FrameId} {frame : FrameId} {id : ResourceId} {place : Place}
      (empty : l.Vacates inner) (held : (id, place) ∈ l.heldIn frame) :
    Reports l (inner ++ frame :: outer) (.error (.unhandledResource id place.text))

variable {inner closed rest : List FrameId}

/-- A frame in which nothing is recorded adds nothing to the report. -/
theorem Reports.cons {l : Ledger} {result : Except Fault Unit} (reports : Reports l closed result)
    (empty : l.heldIn frame = []) : Reports l (frame :: closed) result := by
  have adds {frames : List FrameId} (others : l.Vacates frames) : l.Vacates (frame :: frames) :=
    Ledger.vacates_iff.2 (List.forall_mem_cons.2 ⟨empty, Ledger.vacates_iff.1 others⟩)
  cases reports with
  | clear others => exact .clear (adds others)
  | @caught inner _ _ _ _ others held =>
    exact @Reports.caught _ (frame :: inner) _ _ _ _ (adds others) held

/-- **All the frames are closed**, in spite of what is caught in the first of
them. -/
theorem outcome_popAll (opened : s.stack.ids = closed ++ rest) :
    (outcome (popAll closed) s).2.stack.ids = rest
      ∧ (outcome (popAll closed) s).2.ledger = s.ledger
      ∧ Reports s.ledger closed (outcome (popAll closed) s).1 := by
  induction closed generalizing s with
  | nil => exact ⟨opened, rfl, .clear fun _ _ _ _ mem => nomatch mem⟩
  | cons frame closed ih =>
    obtain ⟨f, frames, innermost, rfl, others⟩ := List.map_eq_cons_iff.1 opened
    obtain ⟨first, u, popped, verdict, below, -, same, -⟩ := outcome_pop innermost
    have opened' : u.stack.ids = closed ++ rest := by
      rw [CallStack.ids, below, others]
      rfl
    obtain ⟨ids, ledger, reports⟩ := ih opened'
    rcases closing : outcome (popAll closed) u with ⟨last, t⟩
    rw [closing] at ids ledger reports
    have ran : outcome (popAll (f.id :: closed)) s
        = outcome (do ofExcept first; ofExcept last) t := by
      unfold popAll
      rw [outcome_observing_bind, popped, outcome_observing_bind, closing]
    rw [ran]
    rw [same] at reports ledger
    rcases verdict with ⟨rfl, empty⟩ | ⟨id, place, held, rfl⟩
    · have told : outcome (do ofExcept (.ok ()); ofExcept last : CustodyM Unit) t = (last, t) := by
        cases last <;> rfl
      rw [told]
      exact ⟨ids, ledger, reports.cons empty⟩
    · exact ⟨ids, ledger, @Reports.caught _ [] _ _ _ _ (fun _ _ _ _ mem => nomatch mem) held⟩

end Frames

/-- **The given frames stand**, in a running transaction, below whatever else is
open. -/
structure State.Standing (below : List FrameId) (s : State) : Prop where
  running : s.inTransaction = true
  moored : s.Moored
  under : below <:+ s.stack.ids

namespace Frames

variable {inner closed rest below : List FrameId}

/-- **Unwinding closes the frame** and all that are open further in, and reports
on them. -/
theorem unwind_standing (standing : s.Standing (frame :: rest)) :
    ∃ closed, s.stack.ids = closed ++ rest ∧ frame ∈ closed
      ∧ (outcome (unwind frame) s).2.stack.ids = rest
      ∧ Reports s.ledger closed (outcome (unwind frame) s).1 := by
  obtain ⟨inner, opened⟩ := standing.under
  have apart : frame ∉ inner := fun mem => by
    have distinct := opened ▸ standing.moored.ordered.nodup
    exact (List.nodup_append.1 distinct).2.2 frame mem frame List.mem_cons_self rfl
  have opened' : s.stack.ids = (inner ++ [frame]) ++ rest := by
    rw [List.append_assoc, ← opened]
    rfl
  have among : s.stack.contains frame = true := by
    have mem : frame ∈ s.stack.ids := opened ▸ List.mem_append_right _ List.mem_cons_self
    obtain ⟨f, mem, same⟩ := List.mem_map.1 mem
    exact List.any_eq_true.2 ⟨f, mem, by simpa using same⟩
  have closes : outcome (unwind frame) s = outcome (popAll (inner ++ [frame])) s := by
    show outcome (if s.stack.contains frame then popAll (downTo frame s.stack.frames) else _) s = _
    rw [if_pos among, downTo_eq opened.symm apart]
  obtain ⟨ids, -, reports⟩ := outcome_popAll opened'
  rw [closes]
  exact ⟨_, opened', List.mem_append_right _ List.mem_cons_self, ids, reports⟩

/-- **Leaving a frame** gives the failure of what was done in it, or else that of
unwinding. -/
theorem outcome_leave (result : Except Fault α) (s : State) :
    outcome (leave frame result) s
      = (result >>= fun a => (outcome (unwind frame) s).1 >>= fun _ => .ok a,
        (outcome (unwind frame) s).2) := by
  unfold leave
  rw [outcome_observing_bind]
  rcases outcome (unwind frame) s with ⟨unwound, t⟩
  cases result with
  | error fault => rfl
  | ok a => cases unwound <;> rfl

theorem returns_push (opened : Returns push s frame t) :
    s.inTransaction = true ∧ ∃ stack, s.stack.push s.settings.maxFrames = .ok (frame, stack)
      ∧ t = { s with stack := stack } := by
  unfold push at opened
  obtain ⟨tx, u, required, opened⟩ := returns_bind.1 (returns_guarded.1 opened)
  obtain ⟨running, rfl⟩ := returns_requireTransaction.1 required
  rw [returns_get_bind] at opened
  obtain ⟨⟨id, stack⟩, pushed, opened⟩ := returns_ofExcept_bind.1 opened
  dsimp only at opened
  rw [returns_modify_bind] at opened
  obtain ⟨rfl, rfl⟩ := returns_pure.1 opened
  exact ⟨Option.isSome_iff_exists.2 ⟨tx, running⟩, stack, pushed, rfl⟩

/-- The frame that was opened stands on those that were open. -/
theorem standing_push (moored : s.Moored) (opened : Returns push s frame t) :
    t.Standing (frame :: s.stack.ids) := by
  obtain ⟨running, stack, pushed, rfl⟩ := returns_push opened
  refine ⟨running, moored.push pushed, ?_⟩
  obtain ⟨rfl, rfl⟩ := CallStack.push_eq_ok pushed
  exact List.suffix_refl _

/-- Unwinding a frame leaves those below it standing. -/
theorem standing_unwind (standing : s.Standing (frame :: rest)) :
    (outcome (unwind frame) s).2.Standing rest := by
  obtain ⟨closed, -, -, ids, -⟩ := unwind_standing standing
  have moored := standing.moored.next (.unwind frame)
  rw [show (Move.unwind frame).next s = (outcome (unwind frame) s).2 from
    snd_outcome_report (unwind frame) (fun _ => Reply.done) s] at moored
  exact ⟨(continuing_unwind s).inTransaction standing.running, moored, ids ▸ List.suffix_refl _⟩

/-- The body leaves the frame it is given open, and what is below it. -/
def Respects (body : FrameId → CustodyM α) (s : State) : Prop :=
  ∀ frame t, Returns push s frame t → (outcome (body frame) t).2.Standing (frame :: s.stack.ids)

/-- A frame that cannot be opened changes nothing but the mark of the
transaction. -/
theorem fails_push {fault : Fault} (refused : Fails push s fault t) : t = s.note fault := by
  obtain ⟨u, failed, rfl⟩ := fails_guarded.1 refused
  rcases fails_bind.1 failed with failed | ⟨_, v, required, failed⟩
  · rw [(keeps_requireTransaction (R := Eq)).of_fails failed]
  · obtain ⟨-, rfl⟩ := returns_requireTransaction.1 required
    rw [fails_get_bind] at failed
    rcases fails_bind.1 failed with failed | ⟨⟨id, stack⟩, w, -, failed⟩
    · obtain ⟨-, rfl⟩ := fails_ofExcept.1 failed
      rfl
    · dsimp only at failed
      rw [fails_modify_bind] at failed
      exact (not_fails_pure failed).elim

/-- **A frame of its own leaves no trace** on the open frames. -/
theorem moored_within {body : FrameId → CustodyM α} (moored : s.Moored)
    (respects : Respects body s) : (outcome (within body) s).2.Moored
      ∧ (outcome (within body) s).2.stack.ids = s.stack.ids := by
  rcases returns_or_fails push s with ⟨frame, t, opened⟩ | ⟨fault, t, refused⟩
  · rw [outcome_within opened, outcome_leave]
    have standing := respects frame t opened
    obtain ⟨_, -, -, ids, -⟩ := unwind_standing standing
    exact ⟨(standing_unwind standing).moored, ids⟩
  · rw [fails_within_of_refused refused, fails_push refused]
    exact ⟨moored.note fault, by rw [State.stack_note]⟩

/-- **What is restored** when something is done in a frame of its own, from the
state `s`. Frames opened meanwhile have numbers from that of the next frame on. -/
structure Restores (body : FrameId → CustodyM α) (s : State) : Prop where
  /-- The open frames are those that were open before. -/
  ids : (outcome (within body) s).2.stack.ids = s.stack.ids
  /-- No reference belongs to a frame opened meanwhile or is onto a local of one. -/
  loans : ∀ target loan, (target, loan) ∈ (outcome (within body) s).2.loans.outstanding →
    loan.frame.number < s.stack.next
      ∧ ∀ owner name, target = .binding owner name → owner.number < s.stack.next
  /-- Where no frame can be opened, this is the failure. -/
  refused : ∀ fault t, Fails push s fault t → Fails (within body) s fault t
  /-- When what is done fails, this is the failure. -/
  failed : ∀ frame t fault u, Returns push s frame t → Fails (body frame) t fault u →
    ∃ v, Fails (within body) s fault v
  /-- When what is done returns, the frames opened meanwhile that are still open are
  closed. It is returned if nothing is recorded in them, and otherwise a resource
  recorded in the innermost of those with one is reported and the transaction
  doomed. -/
  returned : ∀ frame t a u, Returns push s frame t → Returns (body frame) t a u →
    ∃ closed, u.stack.ids = closed ++ s.stack.ids ∧ frame ∈ closed
      ∧ ((∃ v, Returns (within body) s a v) ↔ u.ledger.Vacates closed)
      ∧ (¬u.ledger.Vacates closed → ∃ inner f outer id place v, closed = inner ++ f :: outer
          ∧ u.ledger.Vacates inner
          ∧ u.ledger.holding? id = some (.owned place) ∧ place.frame? = some f
          ∧ Fails (within body) s (.unhandledResource id place.text) v ∧ v.isPoisoned = true)

/-- **A body that respects its frame is restored from.** -/
theorem restores {body : FrameId → CustodyM α} (moored : s.Moored) (respects : Respects body s) :
    Restores body s := by
  obtain ⟨moored', ids⟩ := moored_within moored respects
  refine ⟨ids, fun target loan mem => ⟨?_, fun owner name onto => ?_⟩,
    fun fault t refused => fails_within_of_refused refused, fun frame t fault u opened failed => ?_,
    fun frame t a u opened returned => ?_⟩
  · rcases moored'.owned _ mem with same | opened
    · rw [same]
      exact moored.apart
    · exact moored.ordered.older _ (ids ▸ opened)
  · exact moored.ordered.older _ (ids ▸ moored'.onto owner name loan (onto ▸ mem))
  · refine ⟨(outcome (unwind frame) u).2, (outcome_within opened).trans ?_⟩
    rw [failed]
    exact outcome_leave _ _
  · have standing := respects frame t opened
    rw [returned] at standing
    obtain ⟨closed, above, among, -, reports⟩ := unwind_standing standing
    have left : outcome (within body) s = ((outcome (unwind frame) u).1 >>= fun _ => .ok a,
        (outcome (unwind frame) u).2) := by
      rw [outcome_within opened, returned]
      exact outcome_leave _ _
    refine ⟨closed, above, among, ?_⟩
    rcases unwound : outcome (unwind frame) u with ⟨result, v⟩
    rw [unwound] at reports left
    cases reports with
    | clear empty => exact ⟨iff_of_true ⟨v, left⟩ empty, fun held => absurd empty held⟩
    | @caught inner outer f id place empty held =>
      obtain ⟨known, there⟩ := Ledger.mem_heldIn_iff.1 held
      have caught : ¬u.ledger.Vacates (inner ++ f :: outer) := fun vacates =>
        vacates id place known f (List.mem_append_right _ List.mem_cons_self) there
      have failed : Fails (within body) s (.unhandledResource id place.text) v := left
      exact ⟨iff_of_false (fun ⟨w, done⟩ => done.not_fails failed) caught, fun _ =>
        ⟨inner, f, outer, id, place, v, rfl, empty, known, there, failed,
          dooming_unwind u _ v standing.running unwound⟩⟩

end Frames

/-! ## Host programs -/

/-- **What a host does**, with frames of its own nested at will. It goes on from
the result of each step, and so may pass a failure on or go on in spite of it. -/
inductive Program : Type → Type 1 where
  /-- It is done, and returns or fails. -/
  | done {α : Type} (result : Except Fault α) : Program α
  /-- It looks at the custodian. -/
  | look {α : Type} (next : State → Program α) : Program α
  /-- It declares types: the declared types are now these. -/
  | declare {α : Type} (types : Registry) (next : Program α) : Program α
  /-- It makes a call. -/
  | call {α : Type} (o : Operation) (next : Except Fault Reply → Program α) : Program α
  /-- It does something in a frame of its own. -/
  | within {α β : Type} (body : FrameId → Program β) (next : Except Fault β → Program α) :
    Program α

namespace Program

/-- Carries out the program. -/
def run : {α : Type} → Program α → CustodyM α
  | _, done result => ofExcept result
  | _, look next => do (next (← get)).run
  | _, declare types next => do
    modify fun s => { s with registry := types }
    next.run
  | _, call o next => do (next (← observing o.perform)).run
  | _, within body next => do
    (next (← observing (Frames.within fun frame => (body frame).run))).run

theorem outcome_call (o : Operation) (next : Except Fault Reply → Program α) (s : State) :
    outcome (call o next).run s
      = outcome (next (outcome o.perform s).1).run (outcome o.perform s).2 :=
  outcome_observing_bind _ _ _

theorem outcome_within (body : FrameId → Program β) (next : Except Fault β → Program α)
    (s : State) : outcome (within body next).run s
      = outcome (next (outcome (Frames.within fun frame => (body frame).run) s).1).run
        (outcome (Frames.within fun frame => (body frame).run) s).2 :=
  outcome_observing_bind _ _ _

/-- **What a program does is a run.** -/
theorem exists_moves (p : Program α) (s : State) :
    ∃ moves, (outcome p.run s).2 = s.after moves := by
  induction p generalizing s with
  | done result => exact ⟨[], (Keeps.ofExcept (R := Eq) s).symm⟩
  | look next ih => exact ih s s
  | declare types next ih =>
    obtain ⟨moves, same⟩ := ih { s with registry := types }
    exact ⟨.declare types :: moves, same⟩
  | call o next ih =>
    obtain ⟨moves, same⟩ := ih (outcome o.perform s).1 (outcome o.perform s).2
    exact ⟨.call o :: moves, (congrArg Prod.snd (outcome_call o next s)).trans same⟩
  | within body next ihBody ihNext =>
    have inside : ∃ moves, (outcome (Frames.within fun frame => (body frame).run) s).2
        = s.after moves := by
      rcases returns_or_fails Frames.push s with ⟨frame, t, opened⟩ | ⟨fault, t, refused⟩
      · obtain ⟨moves, did⟩ := ihBody frame t
        exact ⟨_, Frames.after_within opened did⟩
      · refine ⟨[.call .pushFrame], ?_⟩
        rw [Frames.fails_within_of_refused refused]
        exact (Move.next_of_fails (m := .call .pushFrame) (fails_bind.2 (.inl refused))).symm
    obtain ⟨moves, did⟩ := inside
    obtain ⟨moves', same⟩ := ihNext (outcome (Frames.within fun frame => (body frame).run) s).1
      (s.after moves)
    refine ⟨moves ++ moves', ?_⟩
    rw [outcome_within, did, same, State.after_append]

/-- **The program respects its frames**, when it is run from the given state in a
frame of its own or in none. In a frame of its own it neither begins nor ends a
transaction, and does not close the frame itself, so it closes only what was opened
further in. What is done in its frames respects them in turn. -/
def Proper : {α : Type} → Program α → Option FrameId → State → Prop
  | _, done _, _, _ => True
  | _, look next, own, s => (next s).Proper own s
  | _, declare types next, own, s => next.Proper own { s with registry := types }
  | _, call o next, own, s =>
    (∀ frame ∈ own, o.isBound = false ∧ ¬o.Closes s frame)
      ∧ (next (outcome o.perform s).1).Proper own (outcome o.perform s).2
  | _, within body next, own, s =>
    (∀ frame t, Returns Frames.push s frame t → (body frame).Proper (some frame) t)
      ∧ (next (outcome (Frames.within fun frame => (body frame).run) s).1).Proper own
        (outcome (Frames.within fun frame => (body frame).run) s).2

/-- **The program does something in a frame of its own** when it is run from the
state `s`: it comes to do `body` so in the state `u`, perhaps inside another frame
of its own. -/
inductive Enters : {α β : Type} → Program α → State → (FrameId → Program β) → State → Prop where
  | here {α β : Type} {body : FrameId → Program β} {next : Except Fault β → Program α} {s : State} :
    (within body next).Enters s body s
  | inside {α β γ : Type} {body : FrameId → Program β} {next : Except Fault β → Program α}
      {frame : FrameId} {nested : FrameId → Program γ} {s t u : State}
      (opened : Returns Frames.push s frame t) (nests : (body frame).Enters t nested u) :
    (within body next).Enters s nested u
  | after {α β γ : Type} {body : FrameId → Program β} {next : Except Fault β → Program α}
      {later : FrameId → Program γ} {s u : State}
      (follows : (next (outcome (Frames.within fun frame => (body frame).run) s).1).Enters
        (outcome (Frames.within fun frame => (body frame).run) s).2 later u) :
    (within body next).Enters s later u
  | called {α β : Type} {o : Operation} {next : Except Fault Reply → Program α}
      {body : FrameId → Program β} {s u : State}
      (follows : (next (outcome o.perform s).1).Enters (outcome o.perform s).2 body u) :
    (call o next).Enters s body u
  | looked {α β : Type} {next : State → Program α} {body : FrameId → Program β} {s u : State}
      (follows : (next s).Enters s body u) : (look next).Enters s body u
  | declared {α β : Type} {types : Registry} {next : Program α} {body : FrameId → Program β}
      {s u : State} (follows : next.Enters { s with registry := types } body u) :
    (declare types next).Enters s body u

end Program

namespace State.Standing

variable {below : List FrameId}

/-- What leaves frames and references alone leaves the frames standing. -/
theorem of_same (standing : s.Standing below) (running : t.inTransaction = true)
    (ids : t.stack.ids = s.stack.ids) (next : t.stack.next = s.stack.next)
    (loans : t.loans = s.loans) : t.Standing below :=
  ⟨running, standing.moored.of_same ids next loans, ids ▸ standing.under⟩

/-- **A call that does not close the innermost of the frames** leaves them
standing. -/
theorem call {o : Operation} (standing : s.Standing (frame :: below)) (inner : o.isBound = false)
    (keeps : ¬o.Closes s frame) : (outcome o.perform s).2.Standing (frame :: below) := by
  refine ⟨(o.continuing_perform inner s).inTransaction standing.running,
    standing.moored.next (.call o), ?_⟩
  rcases o.under_perform inner s with under | ⟨innermost, closes, ids⟩
  · exact standing.under.trans under
  · -- the frame that was closed is another one
    rcases List.suffix_cons_iff.1 (ids ▸ standing.under) with same | under
    · obtain ⟨rfl, -⟩ := List.cons.inj same
      exact absurd closes keeps
    · exact under

/-- **What is done in a frame of its own** leaves the frames standing. -/
theorem within {body : FrameId → CustodyM α} (standing : s.Standing below)
    (respects : Frames.Respects body s) : (outcome (Frames.within body) s).2.Standing below := by
  obtain ⟨moored, ids⟩ := Frames.moored_within standing.moored respects
  refine ⟨?_, moored, ids ▸ standing.under⟩
  rcases returns_or_fails Frames.push s with ⟨frame, t, opened⟩ | ⟨fault, t, refused⟩
  · rw [Frames.outcome_within opened, Frames.outcome_leave]
    exact (Frames.standing_unwind (respects frame t opened)).running
  · rw [Frames.fails_within_of_refused refused, Frames.fails_push refused]
    exact (s.continues_note fault).inTransaction standing.running

end State.Standing

namespace Program

variable {p : Program α} {own : FrameId} {below : List FrameId}

/-- **A program that respects its frames** leaves its own frame open, and all that
are below it. The induction is on the program, and goes into the bodies. -/
theorem Proper.standing (proper : p.Proper (some own) s) (standing : s.Standing (own :: below)) :
    (outcome p.run s).2.Standing (own :: below) := by
  induction p generalizing s own below with
  | done result =>
    have same : s = (outcome (done result).run s).2 := Keeps.ofExcept (R := Eq) s
    rw [← same]
    exact standing
  | look next ih => exact ih s proper standing
  | declare types next ih => exact ih proper (standing.of_same standing.running rfl rfl rfl)
  | call o next ih =>
    obtain ⟨calls, rest⟩ := proper
    obtain ⟨inner, keeps⟩ := calls own rfl
    rw [outcome_call]
    exact ih _ rest (standing.call inner keeps)
  | within body next ihBody ihNext =>
    obtain ⟨inside, rest⟩ := proper
    rw [outcome_within]
    exact ihNext _ rest (standing.within fun frame t opened =>
      ihBody frame (inside frame t opened) (Frames.standing_push standing.moored opened))

/-- What is done in its frames is done in a state of the run. -/
theorem Enters.exists_moves {p : Program α} {body : FrameId → Program β}
    (entered : p.Enters s body u) : ∃ moves, u = s.after moves := by
  have onward {s t u : State} (moves : List Move) (first : t = s.after moves)
      (rest : ∃ moves', u = t.after moves') : ∃ moves', u = s.after moves' := by
    obtain ⟨moves', rfl⟩ := rest
    exact ⟨moves ++ moves', first ▸ (State.after_append s moves moves').symm⟩
  induction entered with
  | here => exact ⟨[], rfl⟩
  | inside opened _ ih =>
    exact onward [.call .pushFrame] (Move.next_of_returns (m := .call .pushFrame)
      (returns_bind.2 ⟨_, _, opened, returns_pure.2 ⟨rfl, rfl⟩⟩)).symm ih
  | @after _ _ _ body _ _ s _ _ ih =>
    obtain ⟨moves, did⟩ := (within body fun _ => done (.ok ())).exists_moves s
    rw [outcome_within] at did
    exact onward moves did ih
  | @called _ _ o _ _ _ _ _ ih => exact onward [.call o] rfl ih
  | looked _ ih => exact ih
  | @declared _ _ types _ _ _ _ _ ih => exact onward [.declare types] rfl ih

/-- What is done in its frames respects them in turn. -/
theorem Enters.proper {p : Program α} {body : FrameId → Program β} {own : Option FrameId}
    (entered : p.Enters s body u) (proper : p.Proper own s) :
    ∀ frame t, Returns Frames.push u frame t → (body frame).Proper (some frame) t := by
  induction entered generalizing own with
  | here => exact proper.1
  | inside opened _ ih => exact ih (proper.1 _ _ opened)
  | after _ ih => exact ih proper.2
  | called _ ih => exact ih proper.2
  | looked _ ih => exact ih proper
  | declared _ ih => exact ih proper

end Program

/-- **Frames of its own are restored.** Take any state of any run from stored
state, and any program run from it that respects its frames. Whenever the program
does something in a frame of its own, at whatever depth and however that ends, the
open frames are afterwards those that were open before, and no reference belongs to
a frame opened meanwhile or is onto a local of one. When what was done failed, that
is the failure; when it returned, its result is given exactly if nothing is recorded
in the frames that unwinding closed, and otherwise a resource recorded in one of
them is reported and the transaction doomed. -/
theorem within_restores {store : Store} {settings : Settings} {registry : Registry}
    {history : List Move} {p : Program α} {body : FrameId → Program β}
    (reached : s = (State.ofStore store settings registry).after history)
    (proper : p.Proper none s) (entered : p.Enters s body u) :
    Frames.Restores (fun frame => (body frame).run) u := by
  have moored : u.Moored := by
    obtain ⟨moves, rfl⟩ := entered.exists_moves
    exact (reached ▸ (State.Moored.ofStore store settings registry).after).after
  exact Frames.restores moored fun frame t opened =>
    (entered.proper proper frame t opened).standing (Frames.standing_push moored opened)

namespace Scenario

/-- Alice opens two frames further in, one in a frame of its own, and leaves both
open, with a coin in the first. -/
def spill (_ : FrameId) : Program Unit :=
  .call .pushFrame fun _ =>
    .call makeCoin fun _ =>
      .call (.bind ⟨2⟩ "coin" keptCoin.toValue) fun _ =>
        .within (fun _ => .call .pushFrame fun _ => .done (.ok ())) .done

theorem proper_spill : (Program.within spill .done).Proper none begun := by
  have asks {o : Operation} {s : State} {own : FrameId} (inner : o.isBound = false)
      (keeps : o ≠ .popFrame own) :
      ∀ frame ∈ some own, o.isBound = false ∧ ¬o.Closes s frame := fun frame mem =>
    ⟨inner, fun closes => keeps (Option.some.inj mem ▸ closes.1)⟩
  refine ⟨fun frame t opened => ?_, trivial⟩
  refine ⟨asks rfl (fun same => nomatch same), asks rfl (fun same => nomatch same),
    asks rfl (fun same => nomatch same), fun frame' t' opened' => ?_, trivial⟩
  exact ⟨asks rfl (fun same => nomatch same), trivial⟩

end Scenario

/-- The coin is caught, and all frames are closed. -/
theorem within_restores_spill :
    (outcome (Frames.within fun frame => (Scenario.spill frame).run) Scenario.begun).1
        = .error (.unhandledResource ⟨1⟩ "frame2:coin")
      ∧ (outcome (Frames.within fun frame => (Scenario.spill frame).run)
        Scenario.begun).2.stack.ids = []
      ∧ Frames.Restores (fun frame => (Scenario.spill frame).run) Scenario.begun :=
  ⟨rfl, rfl, @within_restores _ _ _ _ Store.empty Settings.standard Scenario.registry
    [.call (.start [Scenario.alice])] _ _ rfl Scenario.proper_spill .here⟩

end Custody
