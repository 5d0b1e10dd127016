import Custody.Proofs.Pinning

/-!
# Live references are attached

An access through a reference is refused with a complaint about the reference
in two cases: the reference is not live, or what it points at is not the value
that it was issued for. A reference pins its target, so as long as it is live
neither is the case, and an access that fails does so for another reason
(`Trusts`). What an access does after it has found the value may fail in many
ways, but none of them is about the reference.

With this the module says what a live reference is worth as a whole
(`live_reference_pins`).
-/

namespace Custody

open CustodyM

/-! ## Complaints about references -/

/-- Whether the fault is the complaint that a reference has ended. -/
def Fault.isDangling : Fault → Bool
  | danglingReference _ => true
  | _ => false

/-- **The action trusts references**: if it fails from there, it does not
complain that one has ended. -/
def Trusts {σ α : Type} (m : ExceptT Fault (StateM σ) α) (s : σ) : Prop :=
  ∀ e t, Fails m s e t → e.isDangling = false

namespace Trusts

variable {σ α β : Type} {s : σ} {m n : ExceptT Fault (StateM σ) α}
  {k : α → ExceptT Fault (StateM σ) β} {e : Fault}

theorem pure {a : α} : Trusts (pure a : ExceptT Fault (StateM σ) α) s :=
  fun _ _ failed => (not_fails_pure failed).elim

/-- A fault that is about something else may be raised. -/
theorem throw (other : e.isDangling = false) : Trusts (throw e : ExceptT Fault (StateM σ) α) s := by
  intro e' t failed
  obtain ⟨rfl, -⟩ := fails_throw.1 failed
  exact other

theorem modify {f : σ → σ} : Trusts (modify f : ExceptT Fault (StateM σ) PUnit) s :=
  fun _ _ failed => (not_fails_modify failed).elim

/-- A computation is trusted if its faults are about something else. -/
theorem ofExcept {x : Except Fault α} (other : ∀ e, x = .error e → e.isDangling = false) :
    Trusts (ofExcept x : ExceptT Fault (StateM σ) α) s :=
  fun e _ failed => other e (fails_ofExcept.1 failed).1

/-- **A sequence trusts references** if its first part does, and the rest where
that returned. -/
theorem bind (first : Trusts m s) (next : ∀ a t, Returns m s a t → Trusts (k a) t) :
    Trusts (m >>= k) s := by
  intro e t failed
  rcases fails_bind.1 failed with failed | ⟨a, u, returned, failed⟩
  · exact first e t failed
  · exact next a u returned e t failed

/-- First look, then go on from the same state. -/
theorem reads_bind (looks : Keeps Eq m) (first : Trusts m s)
    (next : ∀ a, Returns m s a s → Trusts (k a) s) : Trusts (m >>= k) s := by
  refine first.bind fun a t returned => ?_
  obtain rfl : s = t := looks.of_returns returned
  exact next a returned

/-- After a look the rest goes on from the same state. -/
theorem get_bind {k : σ → ExceptT Fault (StateM σ) β} (next : Trusts (k s) s) :
    Trusts (get >>= k) s :=
  fun e t failed => next e t (fails_get_bind.1 failed)

/-- A choice trusts references if both branches do. -/
theorem ite {c : Prop} [Decidable c] (yes : Trusts m s) (no : Trusts n s) :
    Trusts (if c then m else n) s := by
  split
  · exact yes
  · exact no

/-- A loop trusts them if each round does, wherever it starts. -/
theorem forM {γ : Type} {f : γ → ExceptT Fault (StateM σ) PUnit} (each : ∀ x s, Trusts (f x) s)
    (l : List γ) : Trusts (l.forM f) s := by
  induction l generalizing s with
  | nil => exact pure
  | cons x l ih => exact (each x s).bind fun _ _ _ => ih

theorem report {f : α → β} (h : Trusts m s) : Trusts (m >>= fun a => Pure.pure (f a)) s :=
  h.bind fun _ _ _ => pure

variable {s : State}

/-- A guard raises the fault of what it guards. -/
theorem guarded {m : CustodyM α} (h : Trusts m s) : Trusts (guarded m) s := by
  intro e t failed
  obtain ⟨u, failed, -⟩ := fails_guarded.1 failed
  exact h e u failed

/-- What fails on the ledger fails as it does alone. -/
theorem onLedger {action : LedgerM α} (h : Trusts action s.ledger) :
    Trusts (onLedger action) s := by
  intro e t failed
  obtain ⟨l, failed, -⟩ := fails_onLedger.1 failed
  exact h e l failed

/-- The faults of values are about values. -/
theorem ofValueFault {x : Except ValueFault α} : Trusts (ofValueFault x) s := by
  cases x with
  | ok a => exact pure
  | error fault =>
    refine throw ?_
    cases fault <;> rfl

end Trusts

/-! ## Moving values -/

namespace Ledger

variable {l : Ledger} {id : ResourceId} {place : Place} {v : Value} {seen : List ResourceId}

/-- An identity that is not in flight is the complaint of the ledger, -/
theorem trusts_expectInFlight : Trusts (expectInFlight id) l := by
  refine Trusts.get_bind ?_
  split
  · exact Trusts.pure
  · exact Trusts.throw rfl
  · exact Trusts.throw rfl
  · exact Trusts.throw rfl

/-- and so is one that cannot be settled, -/
theorem trusts_settle : Trusts (settle id place) l :=
  trusts_expectInFlight.bind fun _ _ _ => Trusts.modify

/-- or released, -/
theorem trusts_release : Trusts (release id place) l := by
  refine Trusts.get_bind ?_
  split
  · exact Trusts.modify.ite (Trusts.throw rfl)
  · exact Trusts.throw rfl
  · exact Trusts.throw rfl
  · exact Trusts.throw rfl

/-- or that comes twice, -/
theorem trusts_expectDistinct {placings : List (ResourceId × Place)} :
    Trusts (expectDistinct seen placings) l := by
  induction placings generalizing seen l with
  | nil => exact Trusts.pure
  | cons root placings ih =>
    refine trusts_expectInFlight.bind fun _ _ _ => ?_
    dsimp only
    split
    · exact (Trusts.throw rfl).bind fun _ _ _ => ih
    · exact ih

theorem trusts_settleValue : Trusts (settleValue v place) l :=
  trusts_expectDistinct.bind fun _ _ _ => Trusts.forM (fun _ _ => trusts_settle) _

/-- or that is held elsewhere. -/
theorem trusts_expectHeld {placings : List (ResourceId × Place)} :
    Trusts (expectHeld placings) l := by
  induction placings generalizing l with
  | nil => exact Trusts.pure
  | cons root placings ih => exact Trusts.get_bind (ih.ite trusts_release)

theorem trusts_releaseValue : Trusts (releaseValue v place) l :=
  trusts_expectHeld.bind fun _ _ _ => Trusts.forM (fun _ _ => trusts_release) _

end Ledger

namespace Elements

variable {l : Ledger} {container v : Value} {place : Place} {name field : String} {key : Key}
  {owner : Resource}

/-- Putting an element in may be refused for its key, its container or the
ledger. -/
theorem trusts_insert : Trusts (insert container place name key v) l := by
  unfold insert
  split
  · split
    · exact Ledger.trusts_settleValue.bind fun _ _ _ => Trusts.modify.bind fun _ _ _ => Trusts.pure
    · exact Trusts.throw rfl
  · dsimp only
    split
    · exact Trusts.throw rfl
    · exact Ledger.trusts_settleValue.bind fun _ _ _ => Trusts.pure
  · exact Trusts.throw rfl

theorem trusts_push : Trusts (push container place name v) l := by
  unfold push
  split
  · exact Ledger.trusts_settleValue.bind fun _ _ _ => Trusts.pure
  · exact Trusts.throw rfl

/-- Taking one out may be refused by the ledger. -/
theorem trusts_remove : Trusts (remove container place name key) l := by
  unfold remove
  split
  · split
    · split
      · exact Ledger.trusts_releaseValue.bind fun _ _ _ =>
          Trusts.modify.bind fun _ _ _ => Trusts.pure
      · exact Trusts.pure
    · exact Trusts.pure
  · split
    · exact Ledger.trusts_releaseValue.bind fun _ _ _ => Trusts.pure
    · exact Trusts.pure
  · exact Trusts.throw rfl

/-- A field that is filled already is no complaint about a reference. -/
theorem trusts_putField : Trusts (putField owner name field v) l := by
  unfold putField
  split
  · dsimp only
    split
    · exact Trusts.throw rfl
    · exact Ledger.trusts_settleValue.bind fun _ _ _ => Trusts.pure
  · exact Trusts.throw rfl

end Elements

/-! ## Access through a live reference -/

namespace Members

variable {s : State} {r : Reference} {member : String} {key : Key} {v w : Value} {α : Type}

/-- While the reference is live, access may be refused for the member only. -/
theorem trusts_checkAccess (live : s.loans.isLive r = true) : Trusts (checkAccess r member) s := by
  refine Trusts.get_bind ?_
  simp only [live, Bool.not_true, Bool.false_eq_true, if_false]
  exact (Trusts.throw rfl).ite Trusts.pure

/-- What the reference points at is found. -/
theorem trusts_value (points : s.Points r v) : Trusts (value r) s := by
  refine Trusts.get_bind ?_
  simp only [points.found, points.identity, if_true]
  exact Trusts.pure

theorem trusts_ensureStorable : Trusts (Storage.ensureStorable v) s :=
  Trusts.pure.ite (Trusts.throw rfl)

/-- That a member is not there is a complaint about the member. -/
theorem not_dangling_of_memberOf {e : Fault} (refused : memberOf v member = .error e) :
    e.isDangling = false := by
  unfold memberOf at refused
  split at refused
  · dsimp only at refused
    split at refused
    · split at refused <;> cases refused
      rfl
    · cases refused
      rfl
  · split at refused <;> cases refused
    rfl
  · cases refused
    rfl

/-- **Reading through a live reference** that points at a value fails for other
reasons only, -/
theorem trusts_read (live : s.loans.isLive r = true) (points : s.Points r v) :
    Trusts (read r member) s :=
  Trusts.guarded <| Trusts.reads_bind keeps_checkAccess (trusts_checkAccess live) fun _ _ =>
    Trusts.reads_bind keeps_value (trusts_value points) fun _ _ =>
      (Trusts.ofExcept fun _ => not_dangling_of_memberOf).bind fun _ _ _ => Trusts.ofValueFault

/-- **and so does setting a member** through it. -/
theorem trusts_set (live : s.loans.isLive r = true) (points : s.Points r v) :
    Trusts (set r member w) s := by
  refine Trusts.guarded <| Trusts.reads_bind keeps_checkAccess (trusts_checkAccess live) fun _ _ =>
    Trusts.reads_bind Storage.keeps_ensureStorable trusts_ensureStorable fun _ _ =>
      Trusts.reads_bind keeps_value (trusts_value points) fun owner _ => ?_
  split
  · exact (Trusts.onLedger Elements.trusts_putField).bind fun _ _ _ => Trusts.modify
  · split
    · exact (Trusts.throw rfl).bind fun _ _ _ =>
        Trusts.ofValueFault.bind fun _ _ _ => Trusts.modify
    · exact Trusts.ofValueFault.bind fun _ _ _ => Trusts.modify
  · exact Trusts.throw rfl

/-- Changing a container fails as the change of the container does, if not
earlier. -/
theorem trusts_change {action : Value → Place → String → LedgerM (α × Value)}
    (live : s.loans.isLive r = true) (points : s.Points r v)
    (changes : ∀ container place name l, Trusts (action container place name) l) :
    Trusts (change r member action) s := by
  refine Trusts.reads_bind keeps_checkAccess (trusts_checkAccess live) fun _ _ =>
    Trusts.reads_bind keeps_value (trusts_value points) fun owner _ => ?_
  split
  · exact Trusts.throw rfl
  · dsimp only
    split
    · exact Trusts.throw rfl
    · split
      · exact Trusts.throw rfl
      · exact (Trusts.onLedger (changes _ _ _ _)).bind fun _ _ _ =>
          Trusts.modify.bind fun _ _ _ => Trusts.pure

end Members

/-- **An access through a live reference** never complains that the reference
has ended. -/
theorem Operation.trusts_of_reaches {o : Operation} {s : State} {r : Reference} {member : String}
    {v : Value} (through : o.reaches = some (r, member)) (live : s.loans.isLive r = true)
    (points : s.Points r v) : Trusts o.perform s := by
  cases o with
  | readMember =>
    cases through
    exact (Members.trusts_read live points).report
  | setMember =>
    cases through
    exact (Members.trusts_set live points).report
  | insertMember =>
    cases through
    refine Trusts.report (Trusts.guarded (Trusts.reads_bind Storage.keeps_ensureStorable
      Members.trusts_ensureStorable fun _ _ => Members.trusts_change live points fun _ _ _ _ => ?_))
    exact Elements.trusts_insert.report
  | pushMember =>
    cases through
    refine Trusts.report (Trusts.guarded (Trusts.reads_bind Storage.keeps_ensureStorable
      Members.trusts_ensureStorable fun _ _ => Members.trusts_change live points fun _ _ _ _ => ?_))
    exact Elements.trusts_push.report
  | removeMember =>
    cases through
    exact Trusts.report (Trusts.guarded
      (Members.trusts_change live points fun _ _ _ _ => Elements.trusts_remove))
  | _ => cases through

/-! ## What a live reference is worth -/

namespace Operation

variable {o : Operation} {s t : State}

/-- **Whether the call handles values** where they are stored or bound: takes
them away, puts others in their place or changes what is in them. -/
def handles : Operation → Bool
  | load _ _ _ | take _ _ | bind _ _ _ | assign _ _ _ | pass _ _ _ _ | insert _ _ _ _
  | push _ _ _ | remove _ _ _ | takeField _ _ _ | putField _ _ _ _ => true
  | _ => false

/-- A call that handles values reaches for no member. -/
theorem reaches_of_handles (handling : o.handles = true) : o.reaches = none := by
  cases o with
  | readMember | setMember | insertMember | pushMember | removeMember => cases handling
  | _ => rfl

/-- Handling a value begins and ends no reference. -/
theorem loans_of_does (handling : o.handles = true) (did : o.Does s t) : t.loans = s.loans := by
  have doing {α : Type} {s : State} {action : LedgerM α} {finish : α → State → State}
      (same : ∀ a u, (finish a u).loans = u.loans) : (s.doing action finish).loans = s.loans :=
    State.doing_cases (P := fun t => t.loans = s.loans) (fun _ _ _ => rfl) fun a _ _ => same a _
  induction did with
  | bound | taken | inserted | pushed | removed | emptied | filled | loaded =>
    exact doing fun _ _ => rfl
  | passedOut _ ih | passedIn _ ih | assigned _ ih => exact ih rfl
  | @lent o _ _ _ _ asked =>
    cases o with
    | borrow | borrowStored | borrowLocal => cases handling
    | _ => cases asked
  | _ => cases handling

/-- So it is whether the call returns or fails. -/
theorem loans_of_handles (handling : o.handles = true) (s : State) :
    ((Move.call o).next s).loans = s.loans := by
  have inner : o.isBound = false := by
    cases o with
    | start | commit | abort => cases handling
    | _ => rfl
  have kept : Keeps (State.Preserves fun u => u.loans = s.loans) o.perform := by
    refine (o.composed inner fun u w did same => ?_).keeps fun u fault same => ?_
    · exact (loans_of_does handling did).trans same
    · unfold State.note
      split <;> exact same
  exact kept s rfl

end Operation

namespace State

variable {s : State} {r : Reference} {o : Operation} {P Q : Registry → Value → Prop} {v : Value}

/-- What is pinned is pinned with every property it has. -/
theorem Pins.of_found (pins : s.Pins r P) (found : Members.targetValue? s r.target = some v)
    (holds : Q s.registry v) : s.Pins r Q :=
  ⟨pins.toOrderly, pins.numbered, pins.opened, fun _ => ⟨v, found, holds⟩⟩

/-- **No call that handles values** gets at what is pinned. -/
theorem Pins.unhandled (pins : s.Pins r P) (live : s.loans.isLive r = true)
    (found : Members.targetValue? s r.target = some v) (handling : o.handles = true) :
    Members.targetValue? ((Move.call o).next s) r.target = some v := by
  have respects : (Move.call o).Respects r fun _ w => w = v := by
    refine ⟨fun o' same g => ?_, fun _ same => nomatch same⟩
    cases same
    exact Operation.Respects.of_not_reaches (Operation.reaches_of_handles handling)
  have pinned : s.Pins r fun _ w => w = v := pins.of_found found rfl
  obtain ⟨w, there, rfl⟩ := (pinned.next respects).held
    (by rw [Operation.loans_of_handles handling]; exact live)
  exact there

end State

/-- **A live reference pins its target.** Take any run from stored state, and a
reference that a call in it gave. As long as it is live, whatever moves are
made, there is a value at its target of the same type and with the same
identity as when it was issued. No call that handles values where they are
stored or bound gets at it, and no access through the reference complains that
it has ended. -/
theorem live_reference_pins {store : Store} {settings : Settings} {registry : Registry}
    {before moves : List Move} {o : Operation} {r : Reference} {s t : State}
    (reached : s = (State.ofStore store settings registry).after before)
    (issued : Returns o.perform s (.reference r) t)
    (live : (t.after moves).loans.isLive r = true) :
    ∃ v w, Members.targetValue? t r.target = some v ∧ v.resourceId? = r.identity
      ∧ Members.targetValue? (t.after moves) r.target = some w
      ∧ w.resourceId? = v.resourceId? ∧ w.ty = v.ty
      ∧ (∀ o', Operation.handles o' = true →
        Members.targetValue? ((Move.call o').next (t.after moves)) r.target = some w)
      ∧ ∀ o' member text u, Operation.reaches o' = some (r, member) →
        ¬Fails o'.perform (t.after moves) (.danglingReference text) u := by
  have orderly : s.Orderly := reached ▸ (State.Orderly.ofStore store settings registry).after
  obtain ⟨v, points, pinned⟩ := orderly.pins_of_returns issued
  have pins : (t.after moves).Pins r fun _ w => w.resourceId? = v.resourceId? ∧ w.ty = v.ty := by
    refine (pinned _ ⟨rfl, rfl⟩).after fun m _ =>
      ⟨fun o _ g r' member old new _ _ _ _ written h => ?_, fun types _ g w h => h⟩
    exact ⟨written.resourceId?.trans h.1, written.ty.trans h.2⟩
  obtain ⟨w, found, identity, ty⟩ := pins.held live
  refine ⟨v, w, points.found, points.identity, found, identity, ty,
    fun o' handling => pins.unhandled live found handling,
    fun o' member text u through failed => ?_⟩
  have attached : (t.after moves).Points r w := ⟨found, identity.trans points.identity⟩
  exact nomatch Operation.trusts_of_reaches through live attached _ _ failed

namespace Scenario

/-- Alice has borrowed the coin. -/
def peeking : State := (Move.call peek).next ((State.fresh Settings.standard registry).after framed)

/-- While she has it borrowed, she fails to load the coin, and in another frame
she changes its amount through the reference. -/
def recounted : State :=
  peeking.after [.call (.load alice spendingPath (.composite "Coin")), .call .pushFrame,
    .call (.setMember peeked "amount" (.uint 7))]

/-- The coin with another amount. -/
def recountedCoin : Value := .resource ⟨1⟩ "Coin" [("amount", some (.uint 7))]

/-- The borrow gives her the reference. -/
theorem returns_peek : Returns peek.perform ((State.fresh Settings.standard registry).after framed)
    (.reference peeked) peeking := rfl

end Scenario

/-- The coin is still there, with the amount that was written through the
reference, and taking it away is refused. -/
theorem live_reference_pins_recounted :
    Scenario.recounted.loans.isLive Scenario.peeked = true
      ∧ Members.targetValue? Scenario.recounted Scenario.peeked.target = some Scenario.recountedCoin
      ∧ Members.targetValue? ((Move.call (.load Scenario.alice Scenario.spendingPath
          (.composite "Coin"))).next Scenario.recounted) Scenario.peeked.target
        = some Scenario.recountedCoin := by
  have live : Scenario.recounted.loans.isLive Scenario.peeked = true := rfl
  have there : Members.targetValue? Scenario.recounted Scenario.peeked.target
      = some Scenario.recountedCoin := rfl
  obtain ⟨v, w, -, -, found, -, -, unhandled, -⟩ :=
    @live_reference_pins Store.empty Settings.standard Scenario.registry Scenario.framed
      _ Scenario.peek Scenario.peeked _ _ rfl Scenario.returns_peek live
  have same : w = Scenario.recountedCoin := Option.some.inj (found.symm.trans there)
  refine ⟨live, there, ?_⟩
  rw [← same]
  exact unhandled _ rfl

end Custody
