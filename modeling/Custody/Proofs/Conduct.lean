import Custody.Operations.Borrows
import Custody.Proofs.Outcome
import Mathlib.Order.Defs.Unbundled

/-!
# What actions leave alone

Three properties of actions recur in everything that is said about runs, and
all three are closed under sequencing.

* `Keeps R` – **however the action ends**, the state before and the state
  after are related by the preorder `R`. An action that keeps equality only
  looks at the state.
* `Firm` – the action fails with fatal faults only.
* `Careful` – a failure with a fault that is not fatal has changed nothing.

The second half of the module says how the actions that the operations are
written with behave: guarding, acting on the ledger, and the refusals.
-/

namespace Custody

variable {ε σ α β : Type}

/-- **However it ends, the action relates** the state before to the state
after. -/
def Keeps (R : σ → σ → Prop) (m : ExceptT ε (StateM σ) α) : Prop :=
  ∀ s, R s (outcome m s).2

/-- **The action fails fatally or not at all.** -/
def Firm (m : ExceptT Fault (StateM σ) α) : Prop :=
  ∀ s e t, Fails m s e t → e.isFatal = true

/-- **The action recovers**: a fault that is not fatal leaves the state as it
was. -/
def Careful (m : ExceptT Fault (StateM σ) α) : Prop :=
  ∀ s e t, Fails m s e t → e.isFatal = false → t = s

/-! ## Keeping a preorder -/

namespace Keeps

variable {R : σ → σ → Prop}

/-- The states of a run that returned are related, -/
theorem of_returns {m : ExceptT ε (StateM σ) α} (h : Keeps R m) {s t : σ} {a : α}
    (hm : Returns m s a t) : R s t := by
  have := h s
  rwa [hm] at this

/-- and so are those of a run that failed. -/
theorem of_fails {m : ExceptT ε (StateM σ) α} (h : Keeps R m) {s t : σ} {e : ε}
    (hm : Fails m s e t) : R s t := by
  have := h s
  rwa [hm] at this

/-- Giving back a value changes nothing, -/
theorem pure [Std.Refl R] {a : α} : Keeps R (pure a : ExceptT ε (StateM σ) α) :=
  fun s => Std.Refl.refl s

/-- nor does failing, -/
theorem throw [Std.Refl R] {e : ε} : Keeps R (throw e : ExceptT ε (StateM σ) α) :=
  fun s => Std.Refl.refl s

/-- nor does looking at the state, -/
theorem get [Std.Refl R] : Keeps R (get : ExceptT ε (StateM σ) σ) :=
  fun s => Std.Refl.refl s

/-- nor does passing on a result. -/
theorem ofExcept [Std.Refl R] {x : Except ε α} :
    Keeps R (ofExcept x : ExceptT ε (StateM σ) α) := by
  cases x with
  | ok a => exact Keeps.pure
  | error e => exact Keeps.throw

/-- A write keeps what it keeps in every state. -/
theorem modify {f : σ → σ} (h : ∀ s, R s (f s)) :
    Keeps R (modify f : ExceptT ε (StateM σ) PUnit) := h

theorem modifyGet {f : σ → α × σ} (h : ∀ s, R s (f s).2) :
    Keeps R (modifyGet f : ExceptT ε (StateM σ) α) := h

/-- **Sequencing keeps what both parts keep**, whether it ends in the first or
in the second. -/
theorem bind [IsTrans σ R] {m : ExceptT ε (StateM σ) α} {k : α → ExceptT ε (StateM σ) β}
    (hm : Keeps R m) (hk : ∀ a, Keeps R (k a)) : Keeps R (m >>= k) := by
  intro s
  rw [outcome_bind]
  rcases h : outcome m s with ⟨e | a, t⟩
  · exact hm.of_fails h
  · exact IsTrans.trans _ _ _ (hm.of_returns h) (hk a t)

/-- An action that looks at the state and goes on from what it saw. -/
theorem get_bind {k : σ → ExceptT ε (StateM σ) β} (hk : ∀ s, R s (outcome (k s) s).2) :
    Keeps R (MonadState.get >>= k) := hk

/-- First look, then go on from the same state. -/
theorem reads_bind [Std.Refl R] {m : ExceptT ε (StateM σ) α} {k : α → ExceptT ε (StateM σ) β}
    {s : σ} (hm : Keeps Eq m) (hk : ∀ a, Returns m s a s → R s (outcome (k a) s).2) :
    R s (outcome (m >>= k) s).2 := by
  rw [outcome_bind]
  rcases h : outcome m s with ⟨e | a, t⟩
  · obtain rfl := hm.of_fails h
    exact Std.Refl.refl s
  · obtain rfl := hm.of_returns h
    exact hk a h

/-- An action that first looks fails there, or is what it goes on with. -/
theorem outcome_reads_bind {m : ExceptT ε (StateM σ) α} {k : α → ExceptT ε (StateM σ) β}
    (hm : Keeps Eq m) (s : σ) :
    (∃ e, Fails (m >>= k) s e s)
      ∨ ∃ a, Returns m s a s ∧ outcome (m >>= k) s = outcome (k a) s := by
  rcases h : outcome m s with ⟨e | a, t⟩
  · obtain rfl := hm.of_fails h
    exact .inl ⟨e, fails_bind.2 (.inl h)⟩
  · obtain rfl := hm.of_returns h
    refine .inr ⟨a, h, ?_⟩
    rw [outcome_bind, h]

/-- An action that first looks has changed nothing when it fails there. -/
theorem fails_reads_bind {m : ExceptT ε (StateM σ) α} {k : α → ExceptT ε (StateM σ) β} {s t : σ}
    {e : ε} (hm : Keeps Eq m) (h : Fails (m >>= k) s e t) :
    t = s ∨ ∃ a, Returns m s a s ∧ Fails (k a) s e t := by
  rcases fails_bind.1 h with failed | ⟨a, u, returned, failed⟩
  · exact .inl (hm.of_fails failed).symm
  · obtain rfl := hm.of_returns returned
    exact .inr ⟨a, returned, failed⟩

/-- A choice keeps what both branches keep. -/
theorem ite {c : Prop} [Decidable c] {m n : ExceptT ε (StateM σ) α} (hm : Keeps R m)
    (hn : Keeps R n) : Keeps R (if c then m else n) := by
  split
  · exact hm
  · exact hn

/-- Catching the failure makes no difference to the state. -/
theorem observing {m : ExceptT ε (StateM σ) α} (hm : Keeps R m) :
    Keeps R (observing m) := by
  intro s
  rw [outcome_observing]
  exact hm s

/-- A loop keeps what each of its rounds keeps. -/
theorem forM_mem [IsPreorder σ R] {γ : Type} {f : γ → ExceptT ε (StateM σ) PUnit} {l : List γ}
    (hf : ∀ x ∈ l, Keeps R (f x)) : Keeps R (l.forM f) := by
  induction l with
  | nil => exact Keeps.pure
  | cons x l ih =>
    exact (hf x List.mem_cons_self).bind fun _ => ih fun y hy => hf y (List.mem_cons_of_mem _ hy)

/-- A relation that each turn keeps is kept by the whole loop. -/
theorem forM [IsPreorder σ R] {γ : Type} {f : γ → ExceptT ε (StateM σ) PUnit}
    (hf : ∀ x, Keeps R (f x)) (l : List γ) : Keeps R (l.forM f) := forM_mem fun x _ => hf x

end Keeps

/-! ## Failing fatally, and recovering -/

namespace Firm

/-- What cannot fail does not fail with a recoverable fault. -/
theorem of_not_fails {m : ExceptT Fault (StateM σ) α} (h : ∀ s e t, ¬Fails m s e t) : Firm m :=
  fun s e t hm => (h s e t hm).elim

theorem pure {a : α} : Firm (pure a : ExceptT Fault (StateM σ) α) :=
  of_not_fails fun _ _ _ => not_fails_pure

/-- A fatal fault may be raised. -/
theorem throw {e : Fault} (h : e.isFatal = true) :
    Firm (throw e : ExceptT Fault (StateM σ) α) := by
  intro s e' t hm
  obtain ⟨rfl, -⟩ := fails_throw.1 hm
  exact h

theorem get : Firm (get : ExceptT Fault (StateM σ) σ) :=
  of_not_fails fun _ _ _ => not_fails_get

theorem modify {f : σ → σ} : Firm (modify f : ExceptT Fault (StateM σ) PUnit) :=
  of_not_fails fun _ _ _ => not_fails_modify

theorem modifyGet {f : σ → α × σ} : Firm (modifyGet f : ExceptT Fault (StateM σ) α) :=
  of_not_fails fun _ _ _ => not_fails_modifyGet

/-- **Sequencing is firm** if both parts are. -/
theorem bind {m : ExceptT Fault (StateM σ) α} {k : α → ExceptT Fault (StateM σ) β}
    (hm : Firm m) (hk : ∀ a, Firm (k a)) : Firm (m >>= k) := by
  intro s e t h
  rcases fails_bind.1 h with h | ⟨a, u, -, h⟩
  · exact hm s e t h
  · exact hk a u e t h

/-- A choice is firm if both branches are. -/
theorem ite {c : Prop} [Decidable c] {m n : ExceptT Fault (StateM σ) α} (hm : Firm m)
    (hn : Firm n) : Firm (if c then m else n) := by
  split
  · exact hm
  · exact hn

/-- A loop is firm if its rounds are. -/
theorem forM {γ : Type} {f : γ → ExceptT Fault (StateM σ) PUnit} (hf : ∀ x, Firm (f x))
    (l : List γ) : Firm (l.forM f) := by
  induction l with
  | nil => exact Firm.pure
  | cons x l ih => exact (hf x).bind fun _ => ih

end Firm

namespace Careful

variable {m : ExceptT Fault (StateM σ) α}

/-- What is firm recovers, having nothing to recover from. -/
theorem of_firm (h : Firm m) : Careful m := by
  intro s e t hm recoverable
  rw [h s e t hm] at recoverable
  contradiction

/-- What only looks has changed nothing when it fails. -/
theorem of_reads (h : Keeps Eq m) : Careful m :=
  fun _ _ _ hm _ => (h.of_fails hm).symm

/-- A choice recovers if both branches do. -/
theorem ite {c : Prop} [Decidable c] {n : ExceptT Fault (StateM σ) α} (hm : Careful m)
    (hn : Careful n) : Careful (if c then m else n) := by
  split
  · exact hm
  · exact hn

/-- First look, then act. -/
theorem reads_bind {k : α → ExceptT Fault (StateM σ) β} (hm : Keeps Eq m)
    (hk : ∀ a, Careful (k a)) : Careful (m >>= k) := by
  intro s e t h recoverable
  rcases fails_bind.1 h with h | ⟨a, u, hu, h⟩
  · exact (hm.of_fails h).symm
  · rw [hm.of_returns hu]
    exact hk a u e t h recoverable

/-- Act, and then do what can only fail fatally. -/
theorem bind_firm {k : α → ExceptT Fault (StateM σ) β} (hm : Careful m)
    (hk : ∀ a, Firm (k a)) : Careful (m >>= k) := by
  intro s e t h recoverable
  rcases fails_bind.1 h with h | ⟨a, u, -, h⟩
  · exact hm s e t h recoverable
  · rw [hk a u e t h] at recoverable
    contradiction

end Careful

/-! ## Guarding, and acting on the ledger -/

section Custodian

open CustodyM

variable {s t : State} {a : α} {e : Fault}

/-- A fault that is not fatal is not noted. -/
theorem State.note_of_recoverable (s : State) (h : e.isFatal = false) : s.note e = s := by
  unfold State.note
  rw [h]
  rfl

/-- **What a guard adds** is the note of the fault that it lets pass. -/
theorem outcome_guarded (m : CustodyM α) (s : State) :
    outcome (guarded m) s = match outcome m s with
      | (.ok a, t) => (.ok a, t)
      | (.error e, t) => (.error e, t.note e) := by
  unfold guarded
  rw [outcome_tryCatch]
  rcases outcome m s with ⟨_ | _, t⟩ <;> rfl

/-- What a guarded action returns, it returns unguarded. -/
@[simp] theorem returns_guarded {m : CustodyM α} :
    Returns (guarded m) s a t ↔ Returns m s a t := by
  unfold Returns
  rw [outcome_guarded]
  rcases outcome m s with ⟨_ | _, u⟩ <;> simp

/-- A guarded action fails as the action does, and the fault is noted. -/
@[simp] theorem fails_guarded {m : CustodyM α} :
    Fails (guarded m) s e t ↔ ∃ u, Fails m s e u ∧ t = u.note e := by
  unfold Fails
  rw [outcome_guarded]
  rcases outcome m s with ⟨_ | _, u⟩
  · simp only [Prod.mk.injEq, Except.error.injEq]
    constructor
    · rintro ⟨rfl, rfl⟩
      exact ⟨u, ⟨rfl, rfl⟩, rfl⟩
    · rintro ⟨_, ⟨rfl, rfl⟩, rfl⟩
      exact ⟨rfl, rfl⟩
  · simp

/-- Guarding an action that recovers notes nothing where it recovers. -/
theorem Careful.guarded {m : CustodyM α} (careful : Careful m) : Careful (guarded m) := by
  intro s e t failed recoverable
  obtain ⟨u, hu, rfl⟩ := fails_guarded.1 failed
  rw [State.note_of_recoverable u recoverable]
  exact careful s e u hu recoverable

/-- A guard keeps what the action and a note keep. -/
theorem Keeps.guarded {R : State → State → Prop} [IsTrans State R] {m : CustodyM α}
    (hm : Keeps R m) (note : ∀ s fault, R s (s.note fault)) : Keeps R (guarded m) := by
  intro s
  rw [outcome_guarded]
  rcases h : outcome m s with ⟨e | a, t⟩
  · exact IsTrans.trans _ _ _ (hm.of_fails h) (note t e)
  · exact hm.of_returns h

/-- An action on the ledger changes nothing else of the state. -/
theorem outcome_onLedger (action : LedgerM α) (s : State) :
    outcome (onLedger action) s
      = ((outcome action s.ledger).1, { s with ledger := (outcome action s.ledger).2 }) := rfl

@[simp] theorem onLedger_pure (a : α) : onLedger (pure a) = pure a := rfl

/-- What is done on the ledger in two steps is done there step by step. -/
theorem onLedger_bind {β : Type} (action : LedgerM α) (k : α → LedgerM β) :
    onLedger (action >>= k) = onLedger action >>= fun a => onLedger (k a) := by
  refine funext fun s => ?_
  show outcome (onLedger (action >>= k)) s = outcome (onLedger action >>= _) s
  rw [outcome_bind, outcome_onLedger, outcome_onLedger, outcome_bind]
  rcases outcome action s.ledger with ⟨_ | _, l⟩ <;> rfl

/-- An action on the ledger returns as it does alone, -/
@[simp] theorem returns_onLedger {action : LedgerM α} :
    Returns (onLedger action) s a t
      ↔ ∃ l, Returns action s.ledger a l ∧ { s with ledger := l } = t := by
  unfold Returns
  rw [outcome_onLedger, Prod.mk.injEq]
  exact ⟨fun ⟨h, h'⟩ => ⟨_, Prod.ext h rfl, h'⟩, fun ⟨l, h, h'⟩ => by rw [h]; exact ⟨rfl, h'⟩⟩

/-- and fails as it does alone. -/
@[simp] theorem fails_onLedger {action : LedgerM α} :
    Fails (onLedger action) s e t
      ↔ ∃ l, Fails action s.ledger e l ∧ { s with ledger := l } = t := by
  unfold Fails
  rw [outcome_onLedger, Prod.mk.injEq]
  exact ⟨fun ⟨h, h'⟩ => ⟨_, Prod.ext h rfl, h'⟩, fun ⟨l, h, h'⟩ => by rw [h]; exact ⟨rfl, h'⟩⟩

/-- An action on the ledger fails fatally if it does so alone. -/
theorem Firm.onLedger {action : LedgerM α} (h : Firm action) : Firm (onLedger action) := by
  intro s e t hm
  obtain ⟨l, hl, -⟩ := fails_onLedger.1 hm
  exact h _ e l hl

/-- An action on the ledger recovers if it does so alone. -/
theorem Careful.onLedger {action : LedgerM α} (h : Careful action) :
    Careful (onLedger action) := by
  intro s e t hm recoverable
  obtain ⟨l, hl, rfl⟩ := fails_onLedger.1 hm
  rw [h _ e l hl recoverable]

/-- A borrow never fails as an action: its verdict is what it returns. -/
@[simp] theorem returns_ofBorrow {action : BorrowM α} {r : Except BorrowFailure α} :
    Returns (ofBorrow action) s r t ↔ outcome action s = (r, t) := by
  show (Except.ok (outcome action s).1, (outcome action s).2) = (Except.ok r, t) ↔ _
  rw [Prod.mk.injEq, Except.ok.injEq, Prod.ext_iff]

/-- A borrow that gives no reference does not fail; it says why. -/
@[simp] theorem not_fails_ofBorrow {action : BorrowM α} : ¬Fails (ofBorrow action) s e t :=
  returns_ofBorrow.2 rfl |>.not_fails

/-- Giving the reason in place of a reference keeps what the borrow keeps. -/
theorem Keeps.ofBorrow {R : State → State → Prop} {action : BorrowM α}
    (h : Keeps R action) : Keeps R (ofBorrow action) := h

/-! ## Refusals

Each looks at the state and leaves it alone. What it means that one of them
let an operation go on is its `returns` lemma. -/

/-- A fault of a value is passed on, and nothing is changed. -/
@[simp] theorem returns_ofValueFault {x : Except ValueFault α} :
    Returns (ofValueFault x) s a t ↔ x = .ok a ∧ s = t := by
  cases x with
  | ok b => exact returns_pure.trans (by rw [Except.ok.injEq])
  | error fault => exact iff_of_false not_returns_throw (fun h => nomatch h.1)

/-- A transaction is required: there is one, or nothing has happened. -/
@[simp] theorem returns_requireTransaction {tx : Transaction} :
    Returns requireTransaction s tx t ↔ s.transaction = some tx ∧ s = t := by
  unfold requireTransaction
  rw [returns_get_bind]
  cases s.transaction <;> simp

/-- Outside a transaction the check fails, and in no other way. -/
@[simp] theorem fails_requireTransaction {e : Fault} :
    Fails requireTransaction s e t ↔ s.transaction = none ∧ e = .noTransaction ∧ s = t := by
  unfold requireTransaction
  rw [fails_get_bind]
  cases s.transaction <;> simp [eq_comm]

/-- A target is not borrowed, or nothing has happened. -/
@[simp] theorem returns_ensureNotBorrowed {target : Target} {u : Unit} :
    Returns (ensureNotBorrowed target) s u t ↔ s.loans.isBorrowed target = false ∧ s = t := by
  unfold ensureNotBorrowed
  rw [returns_get_bind]
  cases s.loans.isBorrowed target <;> simp

/-- The check fails for a borrowed target, and in no other way. -/
@[simp] theorem fails_ensureNotBorrowed {target : Target} :
    Fails (ensureNotBorrowed target) s e t
      ↔ s.loans.isBorrowed target = true ∧ e = .alreadyBorrowed target.text ∧ s = t := by
  unfold ensureNotBorrowed
  rw [fails_get_bind]
  cases s.loans.isBorrowed target <;> simp [eq_comm]

/-- A fault of a value changes nothing. -/
theorem keeps_ofValueFault {R : State → State → Prop} [Std.Refl R] {x : Except ValueFault α} :
    Keeps R (ofValueFault x) := by
  cases x with
  | ok a => exact Keeps.pure
  | error fault => exact Keeps.throw

variable {R : State → State → Prop} [IsPreorder State R]

/-- The check for a transaction changes nothing. -/
theorem keeps_requireTransaction : Keeps R requireTransaction := by
  refine Keeps.get.bind fun s => ?_
  split
  · exact Keeps.pure
  · exact Keeps.throw

/-- The check for authority changes nothing. -/
theorem keeps_requireAuthority {address : Address} : Keeps R (requireAuthority address) :=
  keeps_requireTransaction.bind fun _ => Keeps.get.bind fun _ => Keeps.throw.ite Keeps.pure

/-- The check for loans changes nothing. -/
theorem keeps_ensureNotBorrowed {target : Target} : Keeps R (ensureNotBorrowed target) :=
  Keeps.get.bind fun _ => Keeps.throw.ite Keeps.pure

/-- The check for a composite changes nothing. -/
theorem keeps_requireComposite {name : String} {kind : Kind} :
    Keeps R (requireComposite name kind) := by
  refine Keeps.get.bind fun s => ?_
  split
  · exact Keeps.pure.ite Keeps.throw
  · exact Keeps.throw

end Custodian

end Custody
