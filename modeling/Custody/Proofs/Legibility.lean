import Custody.Proofs.Indivisible
import Custody.Proofs.Layout

/-!
# What stays readable

A release may rely on the keys of a dictionary and the names of fields being
different only because every write sees to it. What a host hands over is
readable (`Move.Feasible`), and no call makes anything else of it: this holds of
storage (`Store.upheld_readable`), and so of what a transaction keeps, and it
holds of the locals. So all that a host ever meets are states in which an
indivisible call happens whole or not at all.
-/

namespace Custody

open CustodyM

/-! ## Stacks -/

/-- **A readable binding.** -/
def Binding.Readable : Binding → Prop
  | .live v => v.Readable
  | .moved => True

/-- **A stack of readable locals**, those of hidden frames too. -/
def CallStack.Readable (s : CallStack) : Prop := ∀ f ∈ s.frames, ∀ b ∈ f.locals, b.2.Readable

namespace CallStack.Readable

variable {s s' : CallStack} {id : FrameId} {name : String} {v : Value}

theorem empty : CallStack.Readable .empty := fun _ mem => nomatch mem

theorem clear : s.clear.Readable := fun _ mem => nomatch mem

/-- A local read from a readable stack can be read back from its bytes. -/
theorem value (readable : s.Readable) (bound : s.value id name = .ok v) : v.Readable := by
  obtain ⟨f, opened, live⟩ := value_eq_ok bound
  exact readable f (mem_of_frame_eq_ok opened) _ (Table.mem_of_get?_eq_some live)

/-- Setting a local to a readable binding keeps the stack readable. -/
theorem setLocal (readable : s.Readable) {b : Binding} (part : b.Readable) :
    (s.setLocal id name b).Readable := forall_setLocal readable id name part

/-- A new frame starts empty, so opening it keeps the stack readable. -/
theorem push (readable : s.Readable) {limit : Nat} (pushed : s.push limit = .ok (id, s')) :
    s'.Readable := by
  obtain ⟨-, rfl⟩ := push_eq_ok pushed
  intro f opened
  rcases List.mem_cons.1 opened with rfl | opened
  · exact fun _ mem => nomatch mem
  · exact readable f opened

/-- Popping a frame keeps the stack readable. -/
theorem pop (readable : s.Readable) {f : Frame} (popped : s.pop id = .ok (f, s')) :
    s'.Readable := by
  obtain ⟨-, frames, -⟩ := pop_eq_ok popped
  exact fun f opened => readable f (frames ▸ List.mem_cons_of_mem _ opened)

end CallStack.Readable

/-- A field may be emptied. -/
theorem Resource.readable_empty {r : Resource} (readable : r.toValue.Readable) (field : String) :
    (Resource.toValue { r with fields := Table.put r.fields field none }).Readable :=
  everywhere_setSlot readable ⟨readable.here.1, Table.nodup_keys_put readable.here.2 field none⟩
    fun _ mem => nomatch mem

/-! ## Deeds -/

namespace State

variable {s u : State} {r : Reference} {old new : Value} {given : List Value}

/-- An action on the ledger and what leaves the locals readable. -/
theorem readable_doing {α : Type} {action : LedgerM α} {finish : α → State → State}
    (readable : s.stack.Readable)
    (finishes : ∀ a l, Returns action s.ledger a l →
      (finish a { s with ledger := l }).stack.Readable) :
    (s.doing action finish).stack.Readable :=
  doing_cases (P := fun t => t.stack.Readable) (fun _ _ _ => readable) finishes

/-- **What is written through a reference** leaves the locals readable. -/
theorem readable_writeAt (readable : s.stack.Readable) (same : u.stack = s.stack)
    (seen : Members.Sees r s old) (edited : Value.Edited given old new)
    (part : ∀ v ∈ given, v.Readable) : (u.writeAt r.target new).stack.Readable := by
  obtain ⟨id, target, identity, granted, frame⟩ := r
  cases target with
  | stored address path => exact same ▸ readable
  | binding frame name =>
    show (u.stack.setLocal frame name (.live new)).Readable
    rw [same]
    exact readable.setLocal (edited _ Value.enduring_wellWritten part
      (readable.value (Members.value_of_targetValue? seen.2)))

end State

namespace Operation

variable {s t : State}

/-- Whether the call takes a local and binds it again. -/
def isPassing : Operation → Bool
  | pass _ _ _ _ | assign _ _ _ => true
  | _ => false

/-- **No deed leaves an unreadable local**, if the call says itself what it
binds. -/
theorem readable_of_does {o : Operation} (did : o.Does s t) (stated : o.isPassing = false)
    (given : ∀ v ∈ o.arguments, v.Readable) (keys : ∀ key ∈ o.keys, key.InRange)
    (readable : s.stack.Readable) : t.stack.Readable := by
  have enduring := Value.enduring_wellWritten
  have edited {frame : FrameId} {name : String} {old new : Value} {vs : List Value}
      (found : s.stack.value frame name = .ok old) (edited : Value.Edited vs old new)
      (part : ∀ v ∈ vs, v.Readable) : (s.stack.setLocal frame name (.live new)).Readable :=
    readable.setLocal (edited _ enduring part (readable.value found))
  cases did with
  | made | destroyed | dismantled | saved | loaded =>
    exact State.readable_doing readable fun _ _ _ => readable
  | linked | unlinked | lent => exact readable
  | opened pushed => exact readable.push pushed
  | closed popped => exact readable.pop popped
  | bound =>
    exact State.readable_doing readable fun _ _ _ => readable.setLocal (given _ List.mem_cons_self)
  | taken => exact State.readable_doing readable fun _ _ _ => readable.setLocal trivial
  | passedOut | passedIn | assigned => cases stated
  | inserted found =>
    exact State.readable_doing readable fun _ _ inserted =>
      edited found (Elements.edited_insert inserted (keys _ List.mem_cons_self)) given
  | pushed found =>
    exact State.readable_doing readable fun _ _ pushed =>
      edited found (Elements.edited_push pushed) given
  | removed found =>
    exact State.readable_doing readable fun _ _ removed =>
      edited found (Elements.edited_remove removed) given
  | emptied found =>
    refine State.readable_doing readable fun p l emptied => readable.setLocal ?_
    obtain ⟨-, same, -⟩ := Elements.returns_takeField emptied
    show p.2.toValue.Readable
    rw [same]
    exact Resource.readable_empty (readable.value found) _
  | filled found =>
    refine State.readable_doing readable fun r' l filled => readable.setLocal ?_
    obtain ⟨-, rfl, -⟩ := Elements.returns_putField filled
    exact Resource.everywhere_putField enduring (readable.value found)
      (given _ List.mem_cons_self)
  | filledMember seen =>
    refine State.readable_doing readable fun owner' l filled => ?_
    obtain ⟨-, rfl, -⟩ := Elements.returns_putField filled
    exact State.readable_writeAt readable rfl seen (fun P enduring all everywhere =>
      Resource.everywhere_putField enduring everywhere (all _ List.mem_cons_self)) given
  | assignedMember seen storable set =>
    exact State.readable_writeAt readable rfl seen (fun P enduring all everywhere =>
      Struct.everywhere_set enduring everywhere (all _ List.mem_cons_self) set) given
  | insertedMember seen storable held =>
    exact State.readable_doing readable fun _ _ inserted => State.readable_writeAt readable rfl seen
      ((Elements.edited_insert inserted (keys _ List.mem_cons_self)).inField held) given
  | pushedMember seen storable held =>
    exact State.readable_doing readable fun _ _ pushed => State.readable_writeAt readable rfl seen
      ((Elements.edited_push pushed).inField held) given
  | removedMember seen held =>
    exact State.readable_doing readable fun _ _ removed => State.readable_writeAt readable rfl seen
      ((Elements.edited_remove removed).inField held) given

end Operation

/-! ## Calls -/

/-- The locals of the later state are readable if those of the earlier one
are. -/
abbrev State.KeepsReadable : State → State → Prop := Preserves fun s => s.stack.Readable

/-- A mark for abort touches neither the store nor the stack. -/
theorem State.readable_note (s : State) (fault : Fault) : s.KeepsReadable (s.note fault) := by
  unfold State.note
  split
  · exact id
  · exact id

namespace Locals

variable {caller callee frame : FrameId} {argument parameter name : String} {v : Value}

/-- Taking a value out of a local keeps every value readable. -/
theorem readable_take : Keeps State.KeepsReadable (take frame name) :=
  (does_take fun _ _ free found =>
    Operation.readable_of_does (.taken found free) rfl (fun _ mem => nomatch mem)
      fun _ mem => nomatch mem).keeps State.readable_note

/-- Binding a readable value keeps every value readable. -/
theorem readable_bind (part : v.Readable) : Keeps State.KeepsReadable (bind frame name v) :=
  (does_bind fun _ free =>
    Operation.readable_of_does (.bound free) rfl (fun _ mem => List.mem_singleton.1 mem ▸ part)
      fun _ mem => nomatch mem).keeps State.readable_note

/-- **What is passed was a local**, so it is readable where it arrives. -/
theorem readable_pass :
    Keeps State.KeepsReadable (pass caller argument callee parameter) := by
  intro s readable
  unfold pass
  rw [outcome_bind]
  rcases taken : outcome (take caller argument) s with ⟨e | v, u⟩
  · exact readable_take.of_fails taken readable
  · have part : v.Readable := readable.value (released_of_take taken).1
    exact readable_bind part u (readable_take.of_returns taken readable)

end Locals

/-- **A call leaves readable locals**, however it ends. -/
theorem Operation.readable_perform {o : Operation} (inner : o.isBound = false)
    (given : ∀ v ∈ o.arguments, v.Readable) (keys : ∀ key ∈ o.keys, key.InRange) :
    Keeps State.KeepsReadable o.perform := by
  have deeds (stated : o.isPassing = false) : Keeps State.KeepsReadable o.perform :=
    (composed (R := State.KeepsReadable) inner fun _ _ did =>
      readable_of_does did stated given keys).keeps State.readable_note
  cases o with
  | pass | assign => exact Keeps.ofUnit Locals.readable_pass
  | _ => exact deeds rfl

/-! ## Moves and runs -/

/-- An inner move leaves readable locals. -/
theorem Move.readable_perform {m : Move} (inner : m.isInner = true) {s : State}
    (feasible : m.Feasible s) : Keeps State.KeepsReadable m.perform := by
  have plain (moves : ∀ o, m ≠ call o) : Keeps State.KeepsReadable m.perform :=
    keeps_perform inner (fun o same => (moves o same).elim)
      (fun _ _ _ did => Operation.readable_of_does did rfl (fun _ mem => nomatch mem)
        fun _ mem => nomatch mem)
      (fun _ _ _ => id) State.readable_note
  cases m with
  | call o =>
    obtain ⟨given, keys⟩ := feasible.given inner
    exact Operation.readable_perform (by simpa [isInner] using inner) given keys
  | unwind | declare =>
    refine plain fun o same => ?_
    cases same

namespace State

variable {s : State} {moves : List Move}

/-- **The host's next move** leaves readable locals. -/
theorem readable_next {m : Move} (feasible : m.Feasible s) : s.KeepsReadable (m.next s) := by
  refine Move.keeps_next (R := KeepsReadable) (fun inner => Move.readable_perform inner feasible)
    (fun frame => Move.readable_perform (m := .unwind frame) rfl (s := s) trivial) ?_ ?_ ?_ ?_ s
  · intro s signers bytes t begins _
    show t.stack.Readable
    rw [begins.stack]
    exact .clear
  · exact fun s => id
  · exact fun s store records _ => CallStack.Readable.clear
  · exact fun s => id

/-- A whole run of feasible moves keeps the stack readable. -/
theorem readable_stack_after (readable : s.stack.Readable)
    (feasible : s.Along (fun s m => m.Feasible s) moves) : (s.after moves).stack.Readable := by
  induction moves generalizing s with
  | nil => exact readable
  | cons m moves ih => exact ih (readable_next feasible.1 readable) feasible.2

/-- **In every state of a run** from a fresh custodian what is stored and bound
is readable. -/
theorem readable_after {settings : Settings} {registry : Registry}
    (feasible : (State.fresh settings registry).Along (fun s m => m.Feasible s) moves) :
    ((State.fresh settings registry).after moves).Readable where
  store := ((Lasting.ofStore Store.Durable.empty.readable settings registry).after
    Store.upheld_readable feasible).here
  locals _ _ _ := (readable_stack_after (s := .fresh settings registry) .empty feasible).value

end State

/-- **Along a run** an indivisible call leaves no more than a mark when it
fails. -/
theorem Operation.contained_after {settings : Settings} {registry : Registry} {moves : List Move}
    (feasible : (State.fresh settings registry).Along (fun s m => m.Feasible s) moves)
    {o : Operation} (whole : o.isIndivisible = true) (inner : o.isBound = false) :
    Contained o.perform ((State.fresh settings registry).after moves) :=
  contained whole inner (State.readable_after feasible)

end Custody
