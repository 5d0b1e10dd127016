import Custody.Proofs.Resolution
import Custody.Proofs.Targets

/-!
# A live reference pins its target

While a reference is live, the value it points at stays where it is. Every call
that could move it, overwrite it or change it asks the table of loans first,
each at a point of its own; only what is written **through a reference onto the
same target** reaches it, and since a target has one live reference at a time
this is the reference itself, or one that the host made up to look like it.
What is written replaces a member (`Value.Rewritten`), so the type and the
identity of the value stay in any case.

What is to be said of the value may be more than that, so it is a parameter:
`State.Pins` is about a property of values that may depend on the declared
types, and `Move.Respects` says what a move must not do to it.
-/

namespace Custody

open CustodyM

variable {s t : State} {o : Operation} {m : Move} {moves : List Move} {r r' : Reference}
  {P : Registry → Value → Prop} {member : String} {old new : Value}

/-- **The value with a member replaced**, which it had before. -/
inductive Value.Rewritten (member : String) : Value → Value → Prop where
  | field {owner : Resource} {v : Value} (has : owner.hasField member = true) :
    Rewritten member owner.toValue (owner.putField member v).toValue
  | entry {old new : Struct} {v : Value} (has : Table.contains old.fields member = true)
      (assigned : old.set member v = .ok new) : Rewritten member old.toValue new.toValue

/-- A rewritten value has the type that it had, -/
theorem Value.Rewritten.ty (h : Rewritten member old new) : new.ty = old.ty := by
  cases h with
  | field => rfl
  | entry has assigned =>
    obtain ⟨-, rfl⟩ := Struct.set_eq_ok_iff.1 assigned
    rfl

/-- and the identity. -/
theorem Value.Rewritten.resourceId? (h : Rewritten member old new) :
    new.resourceId? = old.resourceId? := by
  cases h with
  | field => rfl
  | entry => rfl

/-- **The call leaves the property** to the value that a reference points at:
what it writes through the reference does not spoil it. -/
def Operation.Respects (r : Reference) (P : Registry → Value → Prop) (g : Registry)
    (o : Operation) : Prop :=
  ∀ r' member old new, o.reaches = some (r', member) → r'.target = r.target → r'.id = r.id →
    g.Shows r'.granted.target member → Value.Rewritten member old new → P g old → P g new

/-- What reaches no member respects every property. -/
theorem Operation.Respects.of_not_reaches {g : Registry} (plain : o.reaches = none) :
    o.Respects r P g := by
  intro r' member old new through
  rw [plain] at through
  cases through

/-! ## What is held -/

namespace State

@[simp] theorem loans_writeAt (s : State) (target : Target) (v : Value) :
    (s.writeAt target v).loans = s.loans := by
  cases target <;> rfl

@[simp] theorem registry_writeAt (s : State) (target : Target) (v : Value) :
    (s.writeAt target v).registry = s.registry := by
  cases target <;> rfl

/-- **As long as the reference is live**, it points at a value with the
property. -/
def Holds (r : Reference) (P : Registry → Value → Prop) (s : State) : Prop :=
  s.loans.isLive r = true → ∃ v, Members.targetValue? s r.target = some v ∧ P s.registry v

namespace Holds

/-- It makes no difference what becomes of the rest. -/
theorem congr (h : s.Holds r P) (live : t.loans.isLive r = true → s.loans.isLive r = true)
    (registry : t.registry = s.registry)
    (value : t.loans.isLive r = true → s.loans.isLive r = true →
      Members.targetValue? t r.target = Members.targetValue? s r.target) : t.Holds r P := by
  intro lives
  obtain ⟨v, found, holds⟩ := h (live lives)
  exact ⟨v, (value lives (live lives)).trans found, registry ▸ holds⟩

/-- What the ledger records makes no difference. -/
theorem ofLedger (h : s.Holds r P) (l : Ledger) : State.Holds r P { s with ledger := l } := h

/-- A local that is not borrowed may be written, -/
theorem setLocal (h : s.Holds r P) {frame : FrameId} {name : String} {b : Binding}
    (free : s.loans.isBorrowed (.binding frame name) = false) :
    State.Holds r P { s with stack := s.stack.setLocal frame name b } :=
  h.congr id rfl fun _ live => Members.targetValue?_setLocal (Loans.target_ne_of_free live free)

/-- Acting on the ledger does not touch the value. -/
theorem doing (h : s.Holds r P) {α : Type} {action : LedgerM α} {finish : α → State → State}
    (finished : ∀ a l, Returns action s.ledger a l →
      (finish a { s with ledger := l }).Holds r P) : (s.doing action finish).Holds r P :=
  State.doing_cases (P := fun t => t.Holds r P) (fun _ l _ => h.ofLedger l) finished

/-- also after an action on the ledger. -/
theorem rebinding (h : s.Holds r P) {α : Type} {action : LedgerM α} {frame : FrameId}
    {name : String} {b : α → Binding} (free : s.loans.isBorrowed (.binding frame name) = false) :
    (s.doing action fun a u => { u with stack := u.stack.setLocal frame name (b a) }).Holds r P :=
  h.doing fun _ l _ => (h.ofLedger l).setLocal free

/-- A path at which there is no value is not the target of a live reference. -/
theorem target_ne_of_absent (h : s.Holds r P) (live : s.loans.isLive r = true) {address : Address}
    {path : Path} (absent : s.store.value? address path = none) :
    r.target ≠ .stored address path := by
  intro same
  obtain ⟨v, found, -⟩ := h live
  rw [same] at found
  exact nomatch absent.symm.trans found

/-- **What is written through a reference**: if it is onto the target, it is
the one live reference there. -/
theorem writeAt (h : s.Holds r P) (seen : Members.Sees r' s old)
    (stable : r'.target = r.target → r'.id = r.id → P s.registry old → P s.registry new) :
    (s.writeAt r'.target new).Holds r P := by
  by_cases same : r'.target = r.target
  · intro live
    rw [loans_writeAt] at live
    obtain ⟨v, found, holds⟩ := h live
    have here : Members.targetValue? s r.target = some old := same ▸ seen.2
    obtain rfl : v = old := Option.some.inj (found.symm.trans here)
    rw [registry_writeAt, same]
    exact ⟨new, Members.targetValue?_writeAt_self found new,
      stable same (Loans.eq_of_isLive live seen.1 same) holds⟩
  · refine h.congr (by simp) (by simp) fun _ _ => ?_
    exact Members.targetValue?_writeAt_of_ne (Ne.symm same)

end Holds

/-- **The reference pins its target**: the number of the reference and that of
the frame of a local are used up, the tables are in order, and as long as it is
live it points at a value with the property. -/
structure Pins (r : Reference) (P : Registry → Value → Prop) (s : State) : Prop
    extends Orderly s where
  numbered : r.id.number < s.loans.next
  opened : ∀ frame name, r.target = .binding frame name → frame.number < s.stack.next
  held : s.Holds r P

/-- **No deed gets at the value**, but what is written through the reference. -/
theorem Holds.of_does (pins : s.Pins r P) (did : o.Does s t)
    (respects : o.Respects r P s.registry) : t.Holds r P := by
  have held := pins.held
  induction did with
  | made | destroyed | dismantled => exact held.doing fun _ l _ => held.ofLedger l
  | opened pushed =>
    exact held.congr id rfl fun _ _ => Members.targetValue?_push pushed pins.opened
  | @closed s frame _ _ popped =>
    have released := @Loans.isLive_of_releaseFrame s.loans r frame pins.distinct
    exact held.congr (fun live => (released live).1) rfl fun live _ =>
      Members.targetValue?_pop popped (released live).2
  | bound free => exact held.rebinding free
  | taken _ free => exact held.rebinding free
  | passedOut _ ih | passedIn _ ih | assigned _ ih =>
    exact ih pins (Operation.Respects.of_not_reaches rfl) held
  | inserted _ free => exact held.rebinding free
  | pushed _ free => exact held.rebinding free
  | removed _ free => exact held.rebinding free
  | emptied _ free => exact held.rebinding free
  | filled _ free => exact held.rebinding free
  | saved _ _ _ free =>
    exact held.doing fun _ l _ => (held.ofLedger l).congr id rfl fun _ live =>
      Members.targetValue?_insert
        (held.target_ne_of_absent live (Store.value?_of_not_contains free))
  | loaded _ _ _ free =>
    exact held.doing fun _ l _ => (held.ofLedger l).congr id rfl fun _ live =>
      Members.targetValue?_erase (Loans.target_ne_of_free live free)
  | linked _ _ free =>
    exact held.congr id rfl fun _ live =>
      Members.targetValue?_insert
        (held.target_ne_of_absent live (Store.value?_of_not_contains free))
  | unlinked _ _ found =>
    exact held.congr id rfl fun _ live =>
      Members.targetValue?_erase (held.target_ne_of_absent live (Store.value?_of_link? found))
  | lent _ _ acquired =>
    exact held.congr (Loans.isLive_of_acquire acquired pins.numbered) rfl fun _ _ => rfl
  | filledMember seen _ shown =>
    refine held.doing fun owner' l filled => ?_
    have has := Elements.hasField_of_putField filled
    obtain ⟨-, rfl, -⟩ := Elements.returns_putField filled
    exact (held.ofLedger l).writeAt seen fun same id =>
      respects _ _ _ _ rfl same id shown (.field has)
  | assignedMember seen _ assigned shown has =>
    exact held.writeAt seen fun same id => respects _ _ _ _ rfl same id shown (.entry has assigned)
  | insertedMember seen _ there shown | pushedMember seen _ there shown =>
    exact held.doing fun _ l _ => (held.ofLedger l).writeAt seen fun same id =>
      respects _ _ _ _ rfl same id shown (.field (Resource.hasField_of_field? there))
  | removedMember seen there shown =>
    exact held.doing fun _ l _ => (held.ofLedger l).writeAt seen fun same id =>
      respects _ _ _ _ rfl same id shown (.field (Resource.hasField_of_field? there))

/-- **Every deed keeps a pin**, if what it writes through the reference keeps
the property. -/
theorem Pins.of_does (pins : s.Pins r P) (did : o.Does s t)
    (respects : o.Respects r P s.registry) : t.Pins r P := by
  have goes := State.continues_of_does did
  exact ⟨pins.toOrderly.of_does did, Nat.lt_of_lt_of_le pins.numbered goes.loans,
    fun frame name same => Nat.lt_of_lt_of_le (pins.opened frame name same) goes.stack,
    Holds.of_does pins did respects⟩

end State

/-! ## Moves and runs -/

/-- **The move leaves the property** to the value that a reference points at,
and so does declaring types. -/
structure Move.Respects (r : Reference) (P : Registry → Value → Prop) (m : Move) : Prop where
  written : ∀ o, m = .call o → ∀ g, o.Respects r P g
  declared : ∀ types, m = .declare types → ∀ g v, P g v → P types v

/-- Closing frames respects every property. -/
theorem Move.Respects.unwind (frame : FrameId) : (Move.unwind frame).Respects r P :=
  ⟨fun _ same => (nomatch same), fun _ same => nomatch same⟩

namespace State

/-- Noting a fault keeps a pin. -/
theorem Pins.note (pins : s.Pins r P) (fault : Fault) : (s.note fault).Pins r P := by
  unfold State.note
  split
  · exact ⟨⟨pins.ordered, pins.distinct⟩, pins.numbered, pins.opened, pins.held⟩
  · exact pins

/-- Where all references ended, nothing is pinned. -/
theorem Pins.of_ended (pins : s.Pins r P) (ordered : t.stack.Ordered)
    (stack : t.stack.next = s.stack.next) (loans : t.loans = s.loans.releaseAll) : t.Pins r P where
  ordered := ordered
  distinct := loans ▸ List.nodup_nil
  numbered := loans ▸ pins.numbered
  opened frame name same := stack ▸ pins.opened frame name same
  held live := by
    rw [loans] at live
    cases live

/-- **Every move leaves the value pinned**, with the property if it respects
it. -/
theorem Pins.next (pins : s.Pins r P) (respects : m.Respects r P) : (m.next s).Pins r P := by
  have inner (m : Move) (respects : m.Respects r P) (inner : m.isInner = true) :
      Keeps (Preserves (Pins r P)) m.perform := by
    refine Move.keeps_perform inner
      (fun o same s t did pins => pins.of_does did (respects.written o same _))
      (fun frame s t did pins => pins.of_does did (Operation.Respects.of_not_reaches rfl))
      (fun types same s pins => ?_) fun s fault pins => pins.note fault
    refine ⟨⟨pins.ordered, pins.distinct⟩, pins.numbered, pins.opened, fun live => ?_⟩
    obtain ⟨v, found, holds⟩ := pins.held live
    exact ⟨v, found, respects.declared types same _ v holds⟩
  refine Move.keeps_next (R := Preserves (Pins r P)) (inner m respects)
    (fun frame => inner _ (.unwind frame) rfl) ?_ ?_ ?_ ?_ s pins
  · intro s signers bytes t begins pins
    exact pins.of_ended (begins.stack ▸ CallStack.Ordered.clear) (by rw [begins.stack]; rfl)
      begins.loans
  · exact fun s pins => ⟨⟨pins.ordered, pins.distinct⟩, pins.numbered, pins.opened, pins.held⟩
  · exact fun s store records pins => pins.of_ended CallStack.Ordered.clear rfl rfl
  · exact fun s pins => pins.of_ended pins.ordered rfl rfl

/-- **A run leaves the value pinned.** -/
theorem Pins.after (pins : s.Pins r P) (respects : ∀ m ∈ moves, m.Respects r P) :
    (s.after moves).Pins r P := by
  induction moves generalizing s with
  | nil => exact pins
  | cons m moves ih =>
    exact ih (pins.next (respects m List.mem_cons_self)) fun m' mem =>
      respects m' (List.mem_cons_of_mem _ mem)

end State

/-! ## What a reference is issued for -/

/-- **The reference points at a value**, which is the one it names. -/
structure State.Points (s : State) (r : Reference) (v : Value) : Prop where
  found : Members.targetValue? s r.target = some v
  identity : v.resourceId? = r.identity

namespace Borrows

variable {target : Target} {identity : Option ResourceId} {requested : RefTy} {c : Capability}
  {address : Address} {path : Path} {frame : FrameId} {name : String}

/-- What a borrow found is what its reference points at. -/
theorem points_of_issue {v : Value} (found : Members.targetValue? s target = some v)
    (issued : Returns (issue target v.resourceId? requested) s r t) : s.Points r v := by
  obtain ⟨-, rfl, -⟩ := returns_issue_iff.1 issued
  exact ⟨found, rfl⟩

/-- So it is with what a resolution found, -/
theorem points_of_issueStored {resolution : Resolution}
    (issued : Returns (issueStored resolution requested) s r t) : ∃ v, s.Points r v := by
  obtain ⟨_, u, checked, issued⟩ := returns_bind.1 issued
  obtain rfl : s = u := keeps_requireTransaction.of_returns checked
  rw [returns_get_bind, returns_ofExcept_bind] at issued
  obtain ⟨v, resolved, issued⟩ := issued
  have found : Members.targetValue? s (.stored resolution.address resolution.path) = some v :=
    (State.resolvedValue_eq_ok_iff.1 resolved).1
  exact ⟨v, points_of_issue found issued⟩

/-- with what a capability led to, -/
theorem points_of_throughCapability (issued : Returns (throughCapability c requested) s r t) :
    ∃ v, s.Points r v := by
  unfold throughCapability at issued
  rw [returns_get_bind, returns_ofExcept_bind] at issued
  obtain ⟨_, -, issued⟩ := issued
  exact points_of_issueStored issued

/-- and with what is in storage. -/
theorem points_of_stored (issued : Returns (stored address path requested) s r t) :
    ∃ v, s.Points r v := by
  unfold stored at issued
  rw [returns_get_bind] at issued
  cases running : s.transaction with
  | none => simp [running] at issued
  | some tx =>
    simp only [running, returns_refusal_bind] at issued
    exact points_of_issueStored issued.2.2

/-- What a local is bound to is what its reference points at. -/
theorem points_of_ofLocal (issued : Returns (ofLocal frame name requested) s r t) :
    ∃ v, s.Points r v := by
  obtain ⟨_, u, checked, issued⟩ := returns_bind.1 issued
  obtain rfl : s = u := keeps_requireTransaction.of_returns checked
  rw [returns_get_bind] at issued
  cases bound : s.stack.value frame name with
  | error fault => simp [bound] at issued
  | ok v =>
    simp only [bound] at issued
    split at issued
    · have found : Members.targetValue? s (.binding frame name) = some v := by
        show (s.stack.value frame name).toOption = some v
        rw [bound]
        rfl
      exact ⟨v, points_of_issue found issued⟩
    · exact (not_returns_throw issued).elim

end Borrows

namespace Reply

/-- A reference in a reply is the one that the borrow gave. -/
theorem returned_of_ofBorrow {action : BorrowM Reference}
    (h : Returns (ofBorrow action) s (.reference r) t) : Returns action s r t := by
  obtain ⟨result, u, acted, h⟩ := returns_bind.1 h
  cases result with
  | error failure => cases (returns_pure.1 h).1
  | ok r' =>
    obtain ⟨same, rfl⟩ := returns_pure.1 h
    obtain rfl := Reply.reference.inj same
    exact Custody.returns_ofBorrow.1 acted

end Reply

/-- **A reference that a call gives** points at the value that it names. -/
theorem Operation.points_of_returns (issued : Returns o.perform s (.reference r) t) :
    ∃ v, s.Points r v := by
  cases o with
  | borrow => exact Borrows.points_of_throughCapability (Reply.returned_of_ofBorrow issued)
  | borrowStored => exact Borrows.points_of_stored (Reply.returned_of_ofBorrow issued)
  | borrowLocal => exact Borrows.points_of_ofLocal (Reply.returned_of_ofBorrow issued)
  | _ =>
    obtain ⟨_, _, -, replied⟩ := returns_bind.1 issued
    cases (returns_pure.1 replied).1

/-- **A reference is issued for a value**, which it pins with every property it
has. -/
theorem State.Orderly.pins_of_returns (orderly : s.Orderly)
    (issued : Returns o.perform s (.reference r) t) :
    ∃ v, t.Points r v ∧ ∀ P : Registry → Value → Prop, P t.registry v → t.Pins r P := by
  obtain ⟨v, points⟩ := Operation.points_of_returns issued
  obtain ⟨loans, may, acquired, rfl⟩ := Operation.acquired_of_returns issued
  obtain ⟨-, id, rfl⟩ := Loans.acquire_eq_some acquired
  refine ⟨v, ⟨points.found, points.identity⟩, fun P holds =>
    ⟨?_, ?_, ?_, fun _ => ⟨v, points.found, holds⟩⟩⟩
  · exact ⟨orderly.ordered, Table.nodup_keys_put orderly.distinct _ _⟩
  · rw [id]
    exact Nat.lt_succ_self _
  · intro frame name same
    obtain ⟨v, bound⟩ := may.bound frame name same
    obtain ⟨f, opened, -⟩ := CallStack.value_eq_ok bound
    obtain rfl := CallStack.id_of_frame_eq_ok opened
    exact orderly.ordered.older _ (List.mem_map_of_mem (CallStack.mem_of_frame_eq_ok opened))

end Custody
