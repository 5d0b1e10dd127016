import Custody.Proofs.Deeds
import Custody.Proofs.Transfers

/-!
# The footprint of an operation

Whatever an operation does to a custodian it does in a few ways: it acts on
the ledger, binds a local, opens or closes a frame, replaces the value a live
reference points at, writes or clears one slot of storage, or lends a target.
Its checks only look. So a relation between the state before and the state
after that tolerates these ways holds of every operation, **however the
operation ends**. This is a coarser account than that of the deeds
(`Operation.Does`), for relations that do not depend on which call it is.
-/

namespace Custody

open CustodyM

/-- **The relation tolerates work** on the ledger within `Q`, and on
locals. -/
structure Tolerates (Q : Ledger → Ledger → Prop) (R : State → State → Prop) : Prop where
  /-- The ledger stays within `Q` when every entry does. -/
  entries : Ledger.Lawful Q
  ledger : ∀ s l, Q s.ledger l → R s { s with ledger := l }
  locals : ∀ s frame name b, R s { s with stack := s.stack.setLocal frame name b }

variable {Q : Ledger → Ledger → Prop} [IsPreorder Ledger Q] {R : State → State → Prop}
  [IsPreorder State R] {α : Type}

omit [IsPreorder Ledger Q] in
/-- An action on the ledger within `Q`, and then what follows it. -/
theorem Tolerates.doing (tolerates : Tolerates Q R) {s : State} {action : LedgerM α}
    {finish : α → State → State} (h : Keeps Q action)
    (follows : ∀ a l, Returns action s.ledger a l →
      R { s with ledger := l } (finish a { s with ledger := l })) :
    R s (s.doing action finish) :=
  State.doing_cases (fun _ l failed => tolerates.ledger s l (h.of_fails failed)) fun a l returned =>
    IsTrans.trans _ _ _ (tolerates.ledger s l (h.of_returns returned)) (follows a l returned)

omit [IsPreorder Ledger Q] in
/-- An action on the ledger within `Q`, and then work on a local. -/
theorem Tolerates.rebinding (tolerates : Tolerates Q R) {s : State} {action : LedgerM α}
    {frame : FrameId} {name : String} {b : α → Binding} (h : Keeps Q action) :
    R s (s.doing action fun a u => { u with stack := u.stack.setLocal frame name (b a) }) :=
  tolerates.doing h fun a l _ => tolerates.locals { s with ledger := l } frame name (b a)

/-- **The relation tolerates what a reference writes**: the value a live
reference points at is replaced by one of the same type, and of the same
identity. -/
def Members.Rewrites (R : State → State → Prop) (r : Reference) : Prop :=
  ∀ s old new, s.loans.isLive r = true → targetValue? s r.target = some old →
    new.ty = old.ty → new.resourceId? = old.resourceId? →
      R s (outcome (replace r.target new) s).2

/-- **The relation holds of whatever an operation does**, lending apart. -/
structure Footprint (Q : Ledger → Ledger → Prop) (R : State → State → Prop) : Prop
    extends Tolerates Q R where
  /-- A frame is opened. -/
  opened : ∀ s limit id stack, s.stack.push limit = .ok (id, stack) →
    R s { s with stack := stack }
  /-- A frame is closed. -/
  closed : ∀ s frame f stack, s.stack.pop frame = .ok (f, stack) →
    R s { s with stack := stack, loans := s.loans.releaseFrame frame }
  /-- An entry is written with the authority of its account. -/
  written : ∀ s address path e, s.Authorizes address →
    R s { s with store := s.store.insert address path e }
  /-- An entry is removed with the authority of its account. -/
  cleared : ∀ s address path, s.Authorizes address →
    R s { s with store := s.store.erase address path }
  /-- A value is replaced through a live reference. -/
  rewrites : ∀ r, Members.Rewrites R r

namespace Footprint

omit [IsPreorder Ledger Q] in
theorem keeps_unwind (footprint : Footprint Q R)
    (note : ∀ s fault, R s (s.note fault)) (frame : FrameId) : Keeps R (Frames.unwind frame) :=
  Frames.keeps_unwind (fun frame =>
    (Frames.guards_pop fun s => footprint.closed s frame).keeps note) note

variable {s : State} {r : Reference}

omit [IsPreorder Ledger Q] [IsPreorder State R] in
/-- What is written through a reference, in place of the resource or struct
that it sees. -/
theorem writes (footprint : Footprint Q R) {old new : Value} (seen : Members.Sees r s old)
    (ty : new.ty = old.ty) (identity : new.resourceId? = old.resourceId?) :
    R s (s.writeAt r.target new) := by
  have rewritten := footprint.rewrites r s old new seen.1 seen.2 ty identity
  rwa [Members.outcome_replace] at rewritten

omit [IsPreorder Ledger Q] in
/-- An action on the ledger within `Q`, and then the member of a resource is
replaced through a reference. -/
theorem rewriting (footprint : Footprint Q R) {action : LedgerM α} {owner : Resource}
    {member : String} {w : α → Value} (seen : Members.Sees r s owner.toValue)
    (h : Keeps Q action) :
    R s (s.doing action fun a u => u.writeAt r.target (owner.putField member (w a)).toValue) :=
  footprint.doing h fun _ l _ => footprint.writes (s := { s with ledger := l }) seen rfl rfl

/-- **Every deed but lending** is within the footprint. -/
theorem of_does (footprint : Footprint Q R) {o : Operation} {t : State}
    (lent : o.isBorrow = true → ∀ (s : State) target id loans, s.MayLend target →
      s.loans.acquire target s.borrower = some (id, loans) → R s { s with loans := loans })
    (did : o.Does s t) : R s t := by
  have law := footprint.entries
  have settles {v place} : Keeps Q (Ledger.settleValue v place) := Ledger.keeps_settleValue law
  have releases {v place} : Keeps Q (Ledger.releaseValue v place) :=
    Ledger.keeps_releaseValue law fun _ _ _ => trivial
  induction did with
  | made => exact footprint.doing (Construction.keeps_enter law) fun _ _ _ => Std.Refl.refl _
  | destroyed =>
    exact footprint.doing ((Teardown.keeps_orderOf _).bind fun _ =>
      Teardown.keeps_apply law fun _ _ _ _ => trivial)
      fun _ _ _ => Std.Refl.refl _
  | dismantled =>
    exact footprint.doing (Teardown.keeps_razePlanned law) fun _ _ _ => Std.Refl.refl _
  | opened pushed => exact footprint.opened _ _ _ _ pushed
  | closed popped => exact footprint.closed _ _ _ _ popped
  | bound => exact footprint.rebinding settles
  | taken => exact footprint.rebinding releases
  | passedOut _ ih | passedIn _ ih | assigned _ ih => exact ih fun asked => nomatch asked
  | inserted => exact footprint.rebinding (Elements.keeps_insert law fun _ _ _ => trivial)
  | pushed => exact footprint.rebinding (Elements.keeps_push law)
  | removed =>
    exact footprint.rebinding
      (Elements.keeps_remove law (fun _ _ _ => trivial) fun _ _ _ => trivial)
  | emptied => exact footprint.rebinding (Elements.keeps_takeField law fun _ _ _ => trivial)
  | filled => exact footprint.rebinding (Elements.keeps_putField law)
  | saved may => exact footprint.doing settles fun _ l _ => footprint.written _ _ _ _ may
  | loaded may => exact footprint.doing releases fun _ l _ => footprint.cleared _ _ _ may
  | linked may => exact footprint.written _ _ _ _ may
  | unlinked may => exact footprint.cleared _ _ _ may
  | lent asked may acquired => exact lent asked _ _ _ _ may acquired
  | @filledMember s r member v owner seen =>
    refine footprint.doing (Elements.keeps_putField law) fun owner' l filled => ?_
    obtain ⟨-, rfl, -⟩ := Elements.returns_putField filled
    exact footprint.writes (s := { s with ledger := l }) seen rfl rfl
  | assignedMember seen _ assigned =>
    obtain ⟨-, rfl⟩ := Struct.set_eq_ok_iff.1 assigned
    exact footprint.writes seen rfl rfl
  | insertedMember seen =>
    exact footprint.rewriting seen (Elements.keeps_insert law fun _ _ _ => trivial)
  | pushedMember seen => exact footprint.rewriting seen (Elements.keeps_push law)
  | removedMember seen =>
    exact footprint.rewriting seen
      (Elements.keeps_remove law (fun _ _ _ => trivial) fun _ _ _ => trivial)

end Footprint

/-- **Every call is composed** of what the footprint is about, except for the
calls that begin or end a transaction. -/
theorem Operation.composed_perform {o : Operation} (inner : o.isBound = false)
    (footprint : Footprint Q R)
    (lent : o.isBorrow = true → ∀ (s : State) target id loans, s.MayLend target →
      s.loans.acquire target s.borrower = some (id, loans) → R s { s with loans := loans }) :
    Composed R o.perform :=
  composed inner fun _ _ => footprint.of_does lent

end Custody
