import Custody.Proofs.Census
import Custody.Proofs.Inside
import Custody.Proofs.Tables

/-!
# Isolation of accounts

A transaction that an account did not sign cannot touch what the account
stores, unless it borrows from it. Storage is written in two ways. Saving,
loading, linking and unlinking ask for the authority of the account. A write
through a reference asks for none, but it needs a reference that is live, so
one that was issued inside this transaction onto the very path; and it
replaces a value by one of the same type and the same identity.

So two things hold of every run inside a transaction without authority over
an account. Its **outline** stays: the paths in use, the links, and the type
and identity of every value. And as long as nothing of the account was
borrowed, **every entry** stays. References and capabilities that the host
made up, or kept from earlier transactions, make no difference: a transaction
begins with no outstanding reference.
-/

namespace Custody

open CustodyM

variable {A : Address} {s s' t : State}

/-! ## What stays of an account -/

/-- **The outline of an entry**: a link as it is, and of a value its type and
its identity. -/
inductive Outline where
  | link (l : Link)
  | value (ty : Ty) (identity : Option ResourceId)

/-- The outline of an entry. -/
def Entry.outline : Entry → Outline
  | .link l => .link l
  | .value v => .value v.ty v.resourceId?

namespace Store

/-- The account has the same entries in both stores. -/
def SameEntries (A : Address) (s s' : Store) : Prop := ∀ path, s'.get? A path = s.get? A path

/-- The account has entries of the same outline at the same paths in both
stores. -/
def SameOutline (A : Address) (s s' : Store) : Prop :=
  ∀ path, (s'.get? A path).map Entry.outline = (s.get? A path).map Entry.outline

/-- The same entries have the same outline. -/
theorem SameEntries.outline {s s' : Store} (h : SameEntries A s s') : SameOutline A s s' :=
  fun path => by rw [h path]

/-- The same entries hold the same values. -/
theorem SameEntries.value? {s s' : Store} (h : SameEntries A s s') (path : Path) :
    s'.value? A path = s.value? A path := by
  unfold Store.value?
  rw [h path]

/-- Writing at another account keeps the entries of this one. -/
theorem SameEntries.insert (s : Store) {address : Address} (ne : address ≠ A) (path : Path)
    (e : Entry) : SameEntries A s (s.insert address path e) := by
  intro path'
  rw [get?_insert, if_neg fun same => ne (Prod.mk.inj same).1.symm]

/-- Erasing at another account keeps the entries of this one. -/
theorem SameEntries.erase (s : Store) {address : Address} (ne : address ≠ A) (path : Path) :
    SameEntries A s (s.erase address path) := by
  intro path'
  rw [get?_erase, if_neg fun same => ne (Prod.mk.inj same).1.symm]

/-- A value that is replaced by one of its type and identity keeps the
outline. -/
theorem SameOutline.insert {s : Store} {address : Address} {path : Path} {old new : Value}
    (found : s.value? address path = some old) (ty : new.ty = old.ty)
    (identity : new.resourceId? = old.resourceId?) :
    SameOutline A s (s.insert address path (.value new)) := by
  obtain ⟨e, entry, value⟩ := Option.bind_eq_some_iff.1 found
  intro path'
  rw [get?_insert]
  split
  next same =>
    obtain ⟨rfl, rfl⟩ := Prod.mk.inj same
    cases e with
    | link l => cases value
    | value v =>
      obtain rfl := Option.some.inj value
      rw [entry]
      show some (Outline.value new.ty new.resourceId?) = some (Outline.value v.ty v.resourceId?)
      rw [ty, identity]
  · rfl

end Store

/-- The account a target is stored in. -/
def Target.address? : Target → Option Address
  | stored address _ => some address
  | binding _ _ => none

namespace State

/-- Nothing that the account stores is borrowed. -/
def Unlent (A : Address) (s : State) : Prop :=
  ∀ target ∈ Table.keys s.loans.outstanding, target.address? ≠ some A

/-- **An account without authority keeps its outline.** -/
def Outlines (A : Address) (s s' : State) : Prop :=
  ¬s.Authorizes A → ¬s'.Authorizes A ∧ s.store.SameOutline A s'.store

/-- **An account without authority keeps its entries** while nothing of it is
borrowed, and its outline in any case. -/
structure Spares (A : Address) (s s' : State) : Prop where
  outlines : s.Outlines A s'
  entries : ¬s.Authorizes A → s.Unlent A → s'.Unlent A ∧ s.store.SameEntries A s'.store

/-- Outlines compose. -/
theorem Outlines.trans (h : s.Outlines A s') (h' : s'.Outlines A t) : s.Outlines A t := by
  intro unsigned
  obtain ⟨unsigned', same⟩ := h unsigned
  obtain ⟨unsigned'', same'⟩ := h' unsigned'
  exact ⟨unsigned'', fun path => (same' path).trans (same path)⟩

/-- Sparing composes. -/
theorem Spares.trans (h : s.Spares A s') (h' : s'.Spares A t) : s.Spares A t where
  outlines := h.outlines.trans h'.outlines
  entries unsigned unlent := by
    obtain ⟨unlent', same⟩ := h.entries unsigned unlent
    obtain ⟨unlent'', same'⟩ := h'.entries (h.outlines unsigned).1 unlent'
    exact ⟨unlent'', fun path => (same' path).trans (same path)⟩

/-- Whoever keeps the entries without authority spares the account. -/
theorem Spares.of_entries (authority : s'.Authorizes A → s.Authorizes A)
    (lent : s.Unlent A → s'.Unlent A)
    (store : ¬s.Authorizes A → s.store.SameEntries A s'.store) : s.Spares A s' where
  outlines unsigned := ⟨fun signed => unsigned (authority signed), (store unsigned).outline⟩
  entries unsigned unlent := ⟨lent unlent, store unsigned⟩

theorem Spares.refl (s : State) : s.Spares A s := of_entries id id fun _ _ => rfl

instance : IsPreorder State (Spares A) where
  refl := Spares.refl
  trans _ _ _ := Spares.trans

/-- A mark for abort spares every account. -/
theorem spares_note (s : State) (fault : Fault) : s.Spares A (s.note fault) := by
  unfold note
  split
  · refine Spares.of_entries ?_ id fun _ _ => rfl
    rintro ⟨t, running, signed⟩
    obtain ⟨t', running', rfl⟩ := Option.map_eq_some_iff.1 running
    exact ⟨t', running', signed⟩
  · exact Spares.refl s

/-- What an account's authority allows concerns this account. -/
theorem spares_store {address : Address} (s : State) (may : s.Authorizes address) {store : Store}
    (same : address ≠ A → s.store.SameEntries A store) : s.Spares A { s with store := store } :=
  Spares.of_entries id id fun unsigned => same fun here => unsigned (here ▸ may)

/-- **A write through a reference** keeps the outline, and cannot concern an
account of which nothing is borrowed. -/
theorem spares_rewrites (r : Reference) : Members.Rewrites (Spares A) r := by
  intro s old new live found sameTy sameIdentity
  obtain ⟨_, target, _, _, _⟩ := r
  cases target with
  | binding frame name => exact Spares.of_entries id id fun _ _ => rfl
  | stored address path =>
    by_cases here : address = A
    · subst here
      refine ⟨fun unsigned => ⟨unsigned, Store.SameOutline.insert found sameTy sameIdentity⟩,
        fun _ unlent => ?_⟩
      obtain ⟨loan, lent, -⟩ := (Option.any_eq_true _ _).1 live
      exact (unlent _ (List.mem_map_of_mem (Table.mem_of_get?_eq_some lent)) rfl).elim
    · exact Spares.of_entries id id fun _ => Store.SameEntries.insert s.store here path _

/-- Whatever an operation does, lending apart, spares an account. -/
theorem footprint_spares : Footprint Ledger.Grows (Spares A) where
  entries := Ledger.lawful_grows
  ledger _ _ _ := Spares.of_entries id id fun _ _ => rfl
  locals _ _ _ _ := Spares.of_entries id id fun _ _ => rfl
  opened _ _ _ _ _ := Spares.of_entries id id fun _ _ => rfl
  closed s frame _ _ _ := by
    refine Spares.of_entries id (fun unlent target mem => unlent target ?_) fun _ _ => rfl
    obtain ⟨e, he, rfl⟩ := List.mem_map.1 mem
    exact List.mem_map_of_mem (List.mem_filter.1 he).1
  written s address path e may := s.spares_store may fun ne => Store.SameEntries.insert _ ne path e
  cleared s address path may := s.spares_store may fun ne => Store.SameEntries.erase _ ne path
  rewrites := spares_rewrites

end State

/-! ## What a move does to an account -/

/-- The target of the reference a call gave, if it gave one. -/
def borrowedBy : Except Fault Reply → List Target
  | .ok (.reference r) => [r.target]
  | _ => []

/-- **What a move borrows.** -/
def Move.borrowed (s : State) : Move → List Target
  | call o => borrowedBy (outcome o.perform s).1
  | _ => []

/-- **What the account sees of a move or a run** that borrowed the targets:
its outline stays, and its entries do unless something of it was borrowed. -/
structure State.Isolates (A : Address) (s : State) (borrowed : List Target) (s' : State) :
    Prop where
  outlines : s.Outlines A s'
  spares : (∀ target ∈ borrowed, target.address? ≠ some A) → s.Spares A s'

namespace State

/-- What spares an account isolates it, whatever was borrowed. -/
theorem Spares.isolates (h : s.Spares A s') (borrowed : List Target) :
    s.Isolates A borrowed s' := ⟨h.outlines, fun _ => h⟩

/-- Isolation composes, over the borrowed targets of both parts. -/
theorem Isolates.trans {borrowed borrowed' : List Target} (h : s.Isolates A borrowed s')
    (h' : s'.Isolates A borrowed' t) : s.Isolates A (borrowed ++ borrowed') t where
  outlines := h.outlines.trans h'.outlines
  spares none := (h.spares fun target mem => none target (List.mem_append_left _ mem)).trans
    (h'.spares fun target mem => none target (List.mem_append_right _ mem))

/-- Lending a target leaves the store alone. -/
theorem isolates_acquire {target : Target} {frame : FrameId} {id : RefId} {loans : Loans}
    (acquired : s.loans.acquire target frame = some (id, loans)) :
    s.Isolates A [target] { s with loans := loans } := by
  refine ⟨fun unsigned => ⟨unsigned, fun _ => rfl⟩, fun foreign => ?_⟩
  refine Spares.of_entries (fun h => h) (fun unlent other mem => ?_) fun _ _ => rfl
  obtain ⟨-, -, rfl⟩ := Loans.acquire_eq_some acquired
  obtain ⟨e, he, rfl⟩ := List.mem_map.1 mem
  rcases Table.mem_put he with rfl | he
  · exact foreign _ List.mem_cons_self
  · exact unlent _ (List.mem_map_of_mem he)

end State

/-- An operation inside a transaction isolates the account. -/
theorem Operation.isolates_perform {o : Operation} (inner : o.isBound = false) (s : State) :
    s.Isolates A (borrowedBy (outcome o.perform s).1) (outcome o.perform s).2 := by
  cases asks : o.isBorrow with
  | false =>
    have composed := o.composed_perform inner (State.footprint_spares (A := A))
      (fun asked => by rw [asks] at asked; cases asked)
    exact (composed.keeps State.spares_note s).isolates _
  | true =>
    obtain ⟨action, same, lends⟩ := lends_of_isBorrow asks
    rw [same]
    rcases lends.reply s with ⟨failure, returned⟩ | ⟨r, loans, -, acquired, returned⟩
    · rw [returned]
      exact (State.Spares.refl s).isolates _
    · rw [returned]
      exact State.isolates_acquire acquired

/-- A move inside a transaction isolates the account. -/
theorem Move.isolates_next {m : Move} (inside : m.ends = false) (running : s.inTransaction = true) :
    s.Isolates A (m.borrowed s) (m.next s) := by
  rcases isInner_or_start inside with inner | ⟨signers, rfl⟩
  · cases m with
    | call o => exact o.isolates_perform (by simpa [isInner] using inner) s
    | unwind frame =>
      have kept : Keeps (State.Spares A) (Frames.unwind frame) :=
        State.footprint_spares.keeps_unwind State.spares_note frame
      exact (kept.ofUnit s).isolates _
    | declare types =>
      have kept : s.Spares A { s with registry := types } :=
        State.Spares.of_entries id id fun _ _ => rfl
      exact kept.isolates _
  · rw [Transactions.next_start running signers]
    exact (State.Spares.refl s).isolates _

/-- **What an account sees of a run inside a transaction.** -/
theorem State.isolates_inside {moves : List Move} (running : s.inTransaction = true)
    (inside : ∀ m ∈ moves, m.ends = false) :
    s.Isolates A (s.trace Move.borrowed moves) (s.after moves) := by
  induction moves generalizing s with
  | nil => exact (Spares.refl s).isolates _
  | cons m moves ih =>
    have first := Move.isolates_next (A := A) (inside m List.mem_cons_self) running
    have still := (Move.continues_next (inside m List.mem_cons_self) running).inTransaction running
    exact first.trans (ih still fun m' mem => inside m' (List.mem_cons_of_mem _ mem))

/-! ## Transactions without a signature -/

/-- **The account is isolated** from a transaction that began at `s` and
borrowed the targets: in `s'` its links, the paths in use, and the type and
the identity of every value are those of `s`; and unless something of it was
borrowed, so is every entry. -/
structure Store.Isolated (A : Address) (s : Store) (borrowed : List Target) (s' : Store) :
    Prop where
  outline : s.SameOutline A s'
  entries : (∀ target ∈ borrowed, target.address? ≠ some A) → s.SameEntries A s'

/-- **Isolation of accounts.** With signatures enforced, an account that did
not sign a transaction is isolated from it: at every point of the
transaction, whatever moves were made; after a commit that succeeds; and
after a commit that fails and after an abort, which leave the store as it was
before the transaction if that is readable and fits into memory. -/
theorem account_isolated {s s1 : State} {signers : List Address} {moves : List Move}
    (enforced : s.settings.enforceAuthority = true) (unsigned : A ∉ signers)
    (began : Returns (Transactions.start signers) s () s1)
    (inside : ∀ m ∈ moves, m.ends = false) :
    s.store.Isolated A (s1.trace Move.borrowed moves) (s1.after moves).store
      ∧ (∀ s', Returns Transactions.commit (s1.after moves) () s' →
        s.store.Isolated A (s1.trace Move.borrowed moves) s'.store)
      ∧ (s.store.Readable → s.store.Writable →
        (∀ fault s', Fails Transactions.commit (s1.after moves) fault s' → s'.store = s.store)
          ∧ ∃ s', Returns Transactions.abort (s1.after moves) () s' ∧ s'.store = s.store) := by
  obtain ⟨bytes, begins⟩ := Transactions.begins_of_start began
  have unlent : s1.Unlent A := by
    intro target mem
    rw [begins.loans] at mem
    cases mem
  have foreign : ¬s1.Authorizes A := by
    rintro ⟨t, running, signed⟩
    obtain rfl := Option.some.inj (begins.transaction.symm.trans running)
    exact unsigned (SortedSet.contains_ofList_iff.1 (signed (begins.settings ▸ enforced)))
  have isolates := State.isolates_inside (A := A) begins.running inside
  have isolated : s.store.Isolated A (s1.trace Move.borrowed moves) (s1.after moves).store := by
    rw [← begins.store]
    exact ⟨(isolates.outlines foreign).2, fun none =>
      ((isolates.spares none).entries foreign unlent).2⟩
  refine ⟨isolated, fun s' returned => ?_, fun readable writable => ?_⟩
  · rwa [Transactions.store_of_commit returned]
  · obtain ⟨t, still, -, decodes⟩ := begins.kept readable writable inside
    have ordered : (s1.after moves).stack.Ordered :=
      (State.continues_inside begins.running inside).ordered
        (begins.stack ▸ CallStack.Ordered.clear)
    refine ⟨fun fault s' failed => ?_, _, Transactions.returns_abort still decodes, rfl⟩
    obtain ⟨u, -, rfl⟩ := Transactions.rolledBack_of_commit still ordered decodes failed
    rfl

namespace Scenario

/-- Alice keeps a vault with a label and publishes its deposit side. -/
def published : State :=
  State.ofStore
    ((Store.empty.insert alice vaultPath
        (.value (.resource ⟨1⟩ "Vault"
          [("coins", some (.array [])), ("label", some (.str "alice"))]))).insert
      alice receiverPath (.link ⟨receiverPath, vaultPath, receiver⟩))
    Settings.standard registry

/-- Bob begins a transaction. -/
def visited : State := (outcome (Transactions.start [bob]) published).2

/-- A reference onto the vault that was never issued. -/
def forged : Reference := ⟨⟨1⟩, .stored alice vaultPath, some ⟨1⟩, ⟨true, .composite "Vault"⟩, ⟨0⟩⟩

/-- Bob tries to revoke the link, to load the vault, and to change its label
through a reference he made up. -/
def intrude : List Move :=
  [.call (.unlink alice receiverPath), .call (.load alice vaultPath (.composite "Vault")),
    .call (.setMember forged "label" (.str "bob"))]

end Scenario

/-- Bob's attempts on Alice's account leave her entries as they were. -/
theorem account_isolated_intrude :
    Returns (Transactions.start [Scenario.bob]) Scenario.published () Scenario.visited
      ∧ Scenario.published.store.SameEntries Scenario.alice
        (Scenario.visited.after Scenario.intrude).store := by
  have began : Returns (Transactions.start [Scenario.bob]) Scenario.published ()
    Scenario.visited := rfl
  exact ⟨began, (account_isolated rfl (by decide) began (by decide)).1.entries (by decide)⟩

end Custody
