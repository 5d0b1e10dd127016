import Custody.Proofs.Codec.Storable
import Custody.Proofs.Tracking

/-!
# The layout of storage

Storage has a layout: values under the value domain, links under the link
domains and each at its own source, nothing stored that may not be stored, and
no map without entries. No host can spoil it, whatever values it makes up, since
every write is checked and every removal prunes (`Store.Tidy`).

On this rests that a transaction can always begin and always be undone. Storage
in its layout can be written down, and a transaction keeps what it wrote; so
what it keeps can be read back, and is in its layout again.
-/

namespace Custody

open CustodyM

/-! ## Stores -/

/-- **The entry may stand at the path**: a storable value under the value
domain, or a link under a link domain, at its source. -/
def Entry.FitsAt (path : Path) : Entry → Prop
  | .value v => path.domain.holdsValues = true ∧ v.isStorable = true
  | .link l => path.domain.holdsLinks = true ∧ l.source = path

/-- **Storage in its layout.** -/
structure Store.Tidy (s : Store) : Prop where
  entries : ∀ address path e, s.get? address path = some e → e.FitsAt path
  /-- Every account has a domain, -/
  accounts : ∀ address domains, s.accounts.get? address = some domains → domains.isEmpty = false
  /-- and every domain of an account an entry. -/
  domains : ∀ address domains domain slots, s.accounts.get? address = some domains →
    domains.get? domain = some slots → slots.isEmpty = false

/-- A map with an entry is not empty. -/
theorem SortedMap.isEmpty_eq_false {κ α : Type} [Ord κ] [DecidableEq κ] {m : SortedMap κ α}
    {key : κ} {a : α} (h : m.get? key = some a) : m.isEmpty = false := by
  cases empty : m.isEmpty with
  | false => rfl
  | true =>
    rw [eq_empty_of_isEmpty empty] at h
    cases h

namespace Store

variable {s : Store} {address : Address} {path : Path} {e : Entry}

/-- What an account has is among its domains. -/
theorem get?_accounts_of_domains {domain : Domain} {slots : Slots}
    (h : (s.domains address).get? domain = some slots) :
    s.accounts.get? address = some (s.domains address) := by
  unfold domains at h ⊢
  cases found : s.accounts.get? address with
  | none =>
    rw [found] at h
    cases h
  | some domains => rfl

namespace Tidy

/-- The empty store is tidy. -/
theorem empty : Tidy empty where
  entries _ _ _ found := nomatch found
  accounts _ _ found := nomatch found
  domains _ _ _ _ found := nomatch found

/-- A tidy store can be stored. -/
theorem storable (tidy : s.Tidy) : s.Storable := by
  rintro ⟨address, path, e⟩ mem
  have fits := tidy.entries _ _ _ (mem_entries_iff.1 mem)
  cases e with
  | value v => exact fits.2
  | link l => trivial

/-- **Storing** an entry where it may stand keeps the layout. -/
theorem insert (tidy : s.Tidy) (fits : e.FitsAt path) : (s.insert address path e).Tidy where
  entries address' path' e' found := by
    rw [get?_insert] at found
    split at found
    next same =>
      obtain ⟨-, rfl⟩ := Prod.mk.inj same
      exact Option.some.inj found ▸ fits
    · exact tidy.entries _ _ _ found
  accounts address' domains found := by
    rw [Store.insert, SortedMap.get?_insert] at found
    split at found
    · obtain rfl := Option.some.inj found
      exact SortedMap.isEmpty_eq_false (SortedMap.get?_insert_self _ _ _)
    · exact tidy.accounts _ _ found
  domains address' domains domain slots found held := by
    rw [Store.insert, SortedMap.get?_insert] at found
    split at found
    · obtain rfl := Option.some.inj found
      rw [SortedMap.get?_insert] at held
      split at held
      · obtain rfl := Option.some.inj held
        exact SortedMap.isEmpty_eq_false (SortedMap.get?_insert_self _ _ _)
      · exact tidy.domains _ _ _ _ (get?_accounts_of_domains held) held
    · exact tidy.domains _ _ _ _ found held

/-- **Removing** an entry keeps the layout: a map it leaves empty goes
too. -/
theorem erase (tidy : s.Tidy) : (s.erase address path).Tidy where
  entries address' path' e' found := by
    rw [get?_erase] at found
    split at found
    · cases found
    · exact tidy.entries _ _ _ found
  accounts address' domains found := by
    unfold Store.erase withDomains at found
    dsimp only at found
    split at found
    · rw [SortedMap.get?_erase] at found
      split at found
      · cases found
      · exact tidy.accounts _ _ found
    next filled =>
      rw [SortedMap.get?_insert] at found
      split at found
      · exact Option.some.inj found ▸ by simpa using filled
      · exact tidy.accounts _ _ found
  domains address' domains domain slots found held := by
    -- the domains of an account after one of them has lost an entry
    have pruned {slots : Slots} {domain : Domain}
        (held : (withSlots (s.domains address) path.domain
          ((s.slots address path.domain).erase path.identifier)).get? domain = some slots) :
        slots.isEmpty = false := by
      unfold withSlots at held
      split at held
      · rw [SortedMap.get?_erase] at held
        split at held
        · cases held
        · exact tidy.domains _ _ _ _ (get?_accounts_of_domains held) held
      next filled =>
        rw [SortedMap.get?_insert] at held
        split at held
        · exact Option.some.inj held ▸ by simpa using filled
        · exact tidy.domains _ _ _ _ (get?_accounts_of_domains held) held
    unfold Store.erase withDomains at found
    dsimp only at found
    split at found
    · rw [SortedMap.get?_erase] at found
      split at found
      · cases found
      · exact tidy.domains _ _ _ _ found held
    · rw [SortedMap.get?_insert] at found
      split at found
      · exact pruned (Option.some.inj found ▸ held)
      · exact tidy.domains _ _ _ _ found held

end Tidy

/-- **A store that lasts**: it is in its layout, and its values are what is
read back from their bytes. -/
structure Durable (s : Store) : Prop where
  tidy : s.Tidy
  readable : s.Readable

namespace Durable

/-- The empty store is durable. -/
theorem empty : Durable empty := ⟨Tidy.empty, fun _ mem => nomatch mem⟩

/-- Writing a readable entry that fits its path keeps a store durable. -/
theorem insert (durable : s.Durable) (fits : e.FitsAt path) (readable : e.Readable) :
    (s.insert address path e).Durable :=
  ⟨durable.tidy.insert fits, forall_entries_insert durable.readable address path readable⟩

/-- Erasing an entry keeps a store durable. -/
theorem erase (durable : s.Durable) : (s.erase address path).Durable :=
  ⟨durable.tidy.erase, forall_entries_erase durable.readable address path⟩

/-- **A store that lasts can be written down and read back.** -/
theorem exists_bytes (durable : s.Durable) (writable : s.Writable) :
    ∃ bytes, s.toBytes = .ok bytes ∧ ofBytes bytes = .ok s := by
  obtain ⟨bytes, written⟩ := durable.tidy.storable.exists_toBytes
  exact ⟨bytes, written, durable.readable.ofBytes_toBytes written (writable bytes written)⟩

end Durable

end Store

/-! ## What is written through references -/

/-- **The value is edited** with what is given: everything that endures edits
and holds everywhere in what is given and in the value before holds everywhere
in the value after. -/
def Value.Edited (given : List Value) (old new : Value) : Prop :=
  ∀ P, Enduring P → (∀ v ∈ given, Everywhere P v) → Everywhere P old → Everywhere P new

namespace Elements

variable {container container' v : Value} {place : Place} {name : String} {key : Key}
  {taken : Option Value} {l l' : Ledger}

/-- Inserting edits the container with the value alone. -/
theorem edited_insert (h : Returns (insert container place name key v) l container' l')
    (range : key.InRange) : Value.Edited [v] container container' := fun _ enduring given all =>
  (inserted_insert h).everywhere enduring all (given v List.mem_cons_self) range

/-- Appending edits the container with the value alone. -/
theorem edited_push (h : Returns (push container place name v) l container' l') :
    Value.Edited [v] container container' := by
  intro P enduring given all
  -- an array does not look at the key, so any key in range will do
  have inserted : Inserted place (.bool true) v l l' container container' := inserted_push h
  exact inserted.everywhere enduring all (given v List.mem_cons_self) trivial

/-- Removing edits the container with nothing new. -/
theorem edited_remove (h : Returns (remove container place name key) l (taken, container') l') :
    Value.Edited [] container container' := fun _ enduring _ all =>
  ((removed_remove h).everywhere enduring all).1

end Elements

/-- Editing a container in a field edits the resource. -/
theorem Value.Edited.inField {given : List Value} {owner : Resource} {field : String}
    {container container' : Value} (held : owner.field? field = some container)
    (edited : Edited given container container') :
    Edited given owner.toValue (owner.putField field container').toValue :=
  fun P enduring all everywhere => Resource.everywhere_putField enduring everywhere
    (edited P enduring all (Resource.everywhere_field? everywhere held))

/-! ## What no write spoils -/

/-- **A property of stores that no write spoils**: storing what fits, removing
and editing keep it. It is one of readable stores. -/
structure Store.Upheld (Q : Store → Prop) : Prop where
  readable : ∀ {s}, Q s → s.Readable
  inserted : ∀ {s address path e}, Q s → e.FitsAt path → e.Readable → Q (s.insert address path e)
  erased : ∀ {s address path}, Q s → Q (s.erase address path)
  edited : ∀ {s address path old new given}, Q s → s.get? address path = some (.value old) →
    Value.Edited given old new → (∀ v ∈ given, v.isStorable = true) →
      (∀ v ∈ given, v.Readable) → Q (s.insert address path (.value new))

/-- Stores stay readable. -/
theorem Store.upheld_readable : Upheld Readable where
  readable := id
  inserted readable _ fits := forall_entries_insert readable _ _ fits
  erased readable := forall_entries_erase readable _ _
  edited readable stored edited _ given := forall_entries_insert readable _ _
    (edited _ Value.enduring_wellWritten given (forall_entries_iff.1 readable _ _ _ stored))

/-- **No write spoils a store that lasts.** -/
theorem Store.upheld_durable : Upheld Durable where
  readable durable := durable.readable
  inserted durable fits readable := durable.insert fits readable
  erased durable := durable.erase
  edited durable stored edited storable given := by
    -- what is edited stands where a value may
    obtain ⟨values, kept⟩ := durable.tidy.entries _ _ _ stored
    have intact := edited _ Value.enduring_intact
      (fun w hw => Value.isStorable_iff.1 (storable w hw)) (Value.isStorable_iff.1 kept)
    exact ⟨durable.tidy.insert ⟨values, Value.isStorable_iff.2 intact⟩,
      upheld_readable.edited durable.readable stored edited storable given⟩

namespace State

variable {s u : State} {r : Reference} {old new : Value} {given : List Value} {Q : Store → Prop}

/-- **What is written through a reference** does not spoil the store. -/
theorem upheld_writeAt (upheld : Store.Upheld Q) (holds : Q s.store) (same : u.store = s.store)
    (seen : Members.Sees r s old) (edited : Value.Edited given old new)
    (storable : ∀ v ∈ given, v.isStorable = true) (readable : ∀ v ∈ given, v.Readable) :
    Q (u.writeAt r.target new).store := by
  obtain ⟨id, target, identity, granted, frame⟩ := r
  cases target with
  | binding frame name => exact same ▸ holds
  | stored address path =>
    obtain ⟨e, stored, value⟩ := Option.bind_eq_some_iff.1 seen.2
    cases e with
    | link l => cases value
    | value v =>
      obtain rfl := Option.some.inj value
      show Q (u.store.insert address path (.value new))
      rw [same]
      exact upheld.edited holds stored edited storable readable

/-- An action on the ledger and what is done without touching storage. -/
theorem store_doing {α : Type} {action : LedgerM α} {finish : α → State → State}
    (finishes : ∀ a u, (finish a u).store = u.store) : (s.doing action finish).store = s.store :=
  doing_cases (P := fun t => t.store = s.store) (fun _ _ _ => rfl) fun a _ _ => finishes a _

/-- An action on the ledger and what does not spoil the store. -/
theorem upheld_doing {α : Type} {action : LedgerM α} {finish : α → State → State}
    (holds : Q s.store)
    (finishes : ∀ a l, Returns action s.ledger a l → Q (finish a { s with ledger := l }).store) :
    Q (s.doing action finish).store :=
  doing_cases (P := fun t => Q t.store) (fun _ _ _ => holds) finishes

end State

/-! ## Calls -/

namespace Operation

variable {s t : State}

/-- Taking a value out of a local leaves the store alone. -/
theorem store_of_take {frame : FrameId} {name : String} (did : (take frame name).Does s t) :
    t.store = s.store := by
  cases did with
  | taken => exact State.store_doing fun _ _ => rfl
  | lent => rfl

/-- Binding a value leaves the store alone. -/
theorem store_of_bind {frame : FrameId} {name : String} {v : Value}
    (did : (bind frame name v).Does s t) : t.store = s.store := by
  cases did with
  | bound => exact State.store_doing fun _ _ => rfl
  | lent => rfl

/-- Passing a local does not touch storage. -/
theorem store_of_pass {caller callee : FrameId} {argument parameter : String}
    (did : (pass caller argument callee parameter).Does s t) : t.store = s.store := by
  cases did with
  | passedOut taken => exact store_of_take taken
  | passedIn bound => exact store_of_bind bound
  | lent => rfl

/-- **No deed spoils the store.** -/
theorem upheld_of_does {Q : Store → Prop} {o : Operation} (upheld : Store.Upheld Q)
    (did : o.Does s t) (readable : ∀ v ∈ o.arguments, v.Readable)
    (keys : ∀ key ∈ o.keys, key.InRange) (holds : Q s.store) : Q t.store := by
  have given {v : Value} (h : v.isStorable = true) : ∀ w ∈ [v], w.isStorable = true :=
    fun w hw => List.mem_singleton.1 hw ▸ h
  cases did with
  | made | destroyed | dismantled | bound | taken | inserted | pushed | removed
  | emptied | filled =>
    exact State.upheld_doing holds fun _ _ _ => holds
  | opened | closed | lent => exact holds
  | passedOut taken => exact store_of_take taken ▸ holds
  | passedIn bound => exact store_of_bind bound ▸ holds
  | assigned passed => exact store_of_pass passed ▸ holds
  | saved may values storable =>
    exact State.upheld_doing holds fun _ _ _ => upheld.inserted (e := .value _) holds
      ⟨values, storable⟩ (readable _ List.mem_cons_self)
  | loaded => exact State.upheld_doing holds fun _ _ _ => upheld.erased holds
  | linked may links => exact upheld.inserted (e := .link _) holds ⟨links, rfl⟩ trivial
  | unlinked => exact upheld.erased holds
  | filledMember seen storable =>
    refine State.upheld_doing holds fun owner' l filled => ?_
    obtain ⟨-, rfl, -⟩ := Elements.returns_putField filled
    exact State.upheld_writeAt upheld holds rfl seen (fun P enduring all everywhere =>
      Resource.everywhere_putField enduring everywhere (all _ List.mem_cons_self))
      (given storable) readable
  | assignedMember seen storable set =>
    exact State.upheld_writeAt upheld holds rfl seen (fun P enduring all everywhere =>
      Struct.everywhere_set enduring everywhere (all _ List.mem_cons_self) set)
      (given storable) readable
  | insertedMember seen storable held =>
    exact State.upheld_doing holds fun new l inserted => State.upheld_writeAt upheld holds rfl seen
      ((Elements.edited_insert inserted (keys _ List.mem_cons_self)).inField held)
      (given storable) readable
  | pushedMember seen storable held =>
    exact State.upheld_doing holds fun new l pushed => State.upheld_writeAt upheld holds rfl seen
      ((Elements.edited_push pushed).inField held) (given storable) readable
  | removedMember seen held =>
    exact State.upheld_doing holds fun new l removed => State.upheld_writeAt upheld holds rfl seen
      ((Elements.edited_remove removed).inField held) (fun _ mem => nomatch mem) readable

end Operation

/-! ## Moves and runs -/

namespace Move

variable {m : Move} {s : State}

/-- **What a host can express**: the values and keys of a call are those of a
machine, and at the beginning of a transaction the store can be held in memory
when it is written down. -/
def Feasible (s : State) : Move → Prop
  | call (.start _) => s.store.Writable
  | call o => (∀ v ∈ o.arguments, v.Readable) ∧ ∀ key ∈ o.keys, key.InRange
  | _ => True

/-- What an inner call is given can be read back. -/
theorem Feasible.given {o : Operation} (feasible : (call o).Feasible s)
    (inner : (call o).isInner = true) :
    (∀ v ∈ o.arguments, v.Readable) ∧ ∀ key ∈ o.keys, key.InRange := by
  cases o with
  | start => cases inner
  | _ => exact feasible

/-- **No inner move spoils the store.** -/
theorem upheld_next {Q : Store → Prop} (upheld : Store.Upheld Q) (inner : m.isInner = true)
    (feasible : m.Feasible s) (holds : Q s.store) : Q (m.next s).store := by
  have kept : Keeps (State.Preserves fun s => Q s.store) m.perform := by
    refine keeps_perform inner (fun o same s t did => ?_) (fun frame s t did => ?_)
      (fun _ _ _ holds => holds) fun s fault holds => ?_
    · subst same
      obtain ⟨given, keys⟩ := feasible.given inner
      exact Operation.upheld_of_does upheld did given keys
    · exact Operation.upheld_of_does upheld did (fun _ mem => nomatch mem) fun _ mem => nomatch mem
    · unfold State.note
      split <;> exact holds
  exact kept s holds

end Move

namespace State

variable {s : State} {Q : Store → Prop} {moves : List Move}

/-- **The store has the property, and so has what a transaction keeps**: this
holds of every state of a run when no write spoils the property. -/
structure Lasting (Q : Store → Prop) (s : State) : Prop where
  here : Q s.store
  kept : s.Recoverable fun u => Q u.store

namespace Lasting

/-- A custodian that resumes from stored state has begun no transaction. -/
theorem ofStore {store : Store} (holds : Q store) (settings : Settings) (registry : Registry) :
    (State.ofStore store settings registry).Lasting Q :=
  ⟨holds, fun _ running => nomatch running⟩

/-- An inner move changes nothing of what a transaction keeps. -/
theorem inner {m : Move} (lasting : s.Lasting Q) (inner : m.isInner = true)
    (here : Q (m.next s).store) : (m.next s).Lasting Q :=
  ⟨here, lasting.kept.continues (Move.continuing_perform inner s) fun _ _ back => back⟩

/-- A transaction that begins keeps the store it begins with. -/
theorem start (lasting : s.Lasting Q) (readable : s.store.Readable) (signers : List Address)
    (writable : s.store.Writable) : ((Move.call (.start signers)).next s).Lasting Q := by
  rcases Transactions.next_starting s signers with next | ⟨-, bytes, begins⟩
  · rwa [next]
  · refine ⟨begins.store ▸ lasting.here, fun t running => ?_⟩
    obtain rfl := Option.some.inj (begins.transaction.symm.trans running)
    exact ⟨begins.stack ▸ CallStack.Ordered.clear, s.store,
      readable.ofBytes_toBytes begins.written (writable bytes begins.written), lasting.here⟩

/-- A transaction that ends leaves its store or the one that it kept. -/
theorem finish (lasting : s.Lasting Q) {o : Operation} (bound : o = .commit ∨ o = .abort) :
    ((Move.call o).next s).Lasting Q := by
  rcases running : s.transaction with _ | t
  · rwa [Transactions.next_of_idle bound running]
  · obtain ⟨ordered, store, decodes, back⟩ := lasting.kept t running
    rcases Transactions.next_ending bound running ordered decodes with
      ⟨-, -, next⟩ | ⟨u, -, next⟩
    · exact next ▸ ⟨lasting.here, fun _ none => nomatch none⟩
    · exact next ▸ ⟨back, fun _ none => nomatch none⟩

/-- Every feasible move keeps what the store upholds. -/
theorem next {m : Move} (lasting : s.Lasting Q) (upheld : Store.Upheld Q)
    (feasible : m.Feasible s) : (m.next s).Lasting Q := by
  cases m with
  | call o =>
    cases o with
    | start signers => exact lasting.start (upheld.readable lasting.here) signers feasible
    | commit => exact lasting.finish (.inl rfl)
    | abort => exact lasting.finish (.inr rfl)
    | _ => exact lasting.inner rfl (Move.upheld_next upheld rfl feasible lasting.here)
  | _ => exact lasting.inner rfl (Move.upheld_next upheld rfl feasible lasting.here)

/-- **This holds all along a run.** -/
theorem after (lasting : s.Lasting Q) (upheld : Store.Upheld Q)
    (feasible : s.Along (fun s m => m.Feasible s) moves) : (s.after moves).Lasting Q := by
  induction moves generalizing s with
  | nil => exact lasting
  | cons m moves ih => exact ih (lasting.next upheld feasible.1) feasible.2

/-- What a transaction keeps can be read back. -/
theorem exists_store (lasting : s.Lasting Q) :
    ∀ t, s.transaction = some t → ∃ store, Store.ofBytes t.snapshot = .ok store := by
  intro t running
  obtain ⟨-, store, decodes, -⟩ := lasting.kept t running
  exact ⟨store, decodes⟩

end Lasting

end State

/-! ## Beginning and ending transactions -/

namespace Transactions

variable {s s' : State} {e : Fault}

/-- When storage can be written down, all that keeps a transaction from
beginning is another one. -/
theorem eq_nestedTransaction_of_start {signers : List Address} {bytes : Bytes}
    (written : s.store.toBytes = .ok bytes) (h : Fails (start signers) s e s') :
    e = .nestedTransaction := by
  unfold start at h
  rw [fails_get_bind] at h
  split at h
  · rcases fails_bind.1 h with h | ⟨_, _, h, -⟩
    · exact (fails_throw.1 h).1.symm
    · exact (not_returns_throw h).elim
  · rcases fails_bind.1 h with h | ⟨_, _, -, h⟩
    · rw [written] at h
      exact (not_fails_pure h).elim
    · exact (not_fails_set h).elim

/-- When what the transaction keeps can be read back, an abort is refused only
outside a transaction. -/
theorem eq_noTransaction_of_abort
    (kept : ∀ t, s.transaction = some t → ∃ store, Store.ofBytes t.snapshot = .ok store)
    (h : Fails abort s e s') : e = .noTransaction ∧ s.transaction = none := by
  rcases running : s.transaction with _ | t
  · rcases fails_bind.1 h with h | ⟨t, _, h, -⟩
    · exact ⟨(fails_requireTransaction.1 h).2.1, rfl⟩
    · rw [(returns_requireTransaction.1 h).1] at running
      cases running
  · obtain ⟨store, decodes⟩ := kept t running
    exact ((returns_abort running decodes).not_fails h).elim

/-- A commit that fails inside a transaction says that it was aborted. -/
theorem aborted_of_commit
    (kept : ∀ t, s.transaction = some t → ∃ store, Store.ofBytes t.snapshot = .ok store)
    (h : Fails commit s e s') :
    e = .noTransaction ∧ s.transaction = none ∨ ∃ reason, e = .transactionAborted reason := by
  rcases fails_bind.1 h with h | ⟨t, w, required, h⟩
  · obtain ⟨free, rfl, -⟩ := fails_requireTransaction.1 h
    exact .inl ⟨rfl, free⟩
  · obtain ⟨running, rfl⟩ := returns_requireTransaction.1 required
    obtain ⟨store, decodes⟩ := kept t running
    refine .inr ?_
    split at h
    next reason marked => exact ⟨reason, (h.unique (fails_refuse running decodes)).1⟩
    next unmarked =>
      rw [fails_observing_bind] at h
      split at h
      next fault settled =>
        -- the frames that were closed on the way change nothing of what is kept
        obtain ⟨t', running', same⟩ := (continuing_settleUp s).running t running
        have decodes' : Store.ofBytes t'.snapshot = .ok store := by rw [same.snapshot, decodes]
        exact ⟨fault.message, (h.unique (fails_refuse running' decodes')).1⟩
      · exact (not_fails_modify h).elim

end Transactions

/-- **Storage keeps its layout.** In every state of a run from a fresh
custodian, whatever the host hands over, storage is in its layout and can be
written down; a transaction is refused only inside another one, and it can
always be undone: an abort inside it returns, and a commit that fails says that
it was aborted. -/
theorem storage_tidy {settings : Settings} {registry : Registry} {moves : List Move} {s : State}
    (feasible : (State.fresh settings registry).Along (fun s m => m.Feasible s) moves)
    (reached : s = (State.fresh settings registry).after moves) :
    s.store.Tidy ∧ (∃ bytes, s.store.toBytes = .ok bytes)
      ∧ (∀ signers e t, Fails (Operation.start signers).perform s e t → e = .nestedTransaction)
      ∧ (∀ e t, Fails Operation.abort.perform s e t → e = .noTransaction ∧ s.transaction = none)
      ∧ ∀ e t, Fails Operation.commit.perform s e t →
        e = .noTransaction ∧ s.transaction = none ∨ ∃ reason, e = .transactionAborted reason := by
  have lasting : s.Lasting Store.Durable := reached ▸
    (State.Lasting.ofStore Store.Durable.empty settings registry).after Store.upheld_durable
      feasible
  have kept := lasting.exists_store
  obtain ⟨bytes, written⟩ := lasting.here.tidy.storable.exists_toBytes
  refine ⟨lasting.here.tidy, ⟨bytes, written⟩, fun signers e t h => ?_, fun e t h => ?_,
    fun e t h => ?_⟩
  · exact Transactions.eq_nestedTransaction_of_start written (Reply.fails_ofUnit.1 h)
  · exact Transactions.eq_noTransaction_of_abort kept (Reply.fails_ofUnit.1 h)
  · exact Transactions.aborted_of_commit kept (Reply.fails_ofUnit.1 h)

namespace Scenario

/-- A coin whose field was emptied. -/
def emptiedCoin : Resource := ⟨⟨1⟩, "Coin", [("amount", none)]⟩

/-- A reference that was never issued. -/
def madeUp : Reference := ⟨⟨7⟩, .stored bob vaultPath, none, receiver, ⟨3⟩⟩

/-- The host makes a coin and tries to save it without its contents, and then a
reference, before it saves the coin as it is. -/
def spoil : List Move :=
  [.call (.start [alice]), .call makeCoin, .call (.save alice vaultPath emptiedCoin.toValue),
    .call (.save alice copyPath (.reference madeUp)),
    .call (.save alice spendingPath keptCoin.toValue)]

/-- The emptied coin can be read back from its bytes. -/
theorem readable_emptiedCoin : emptiedCoin.toValue.Readable := by
  refine Value.Everywhere.resource_iff.2
    ⟨⟨by decide, List.nodup_singleton "amount"⟩, fun f hf v hv => ?_⟩
  obtain rfl := List.mem_singleton.1 hf
  cases hv

/-- The attempts at spoiling the store are feasible. -/
theorem feasible_spoil :
    (State.fresh Settings.standard registry).Along (fun s m => m.Feasible s) spoil := by
  have one {v w : Value} (h : v.Readable) (hw : w ∈ [v]) : w.Readable :=
    List.mem_singleton.1 hw ▸ h
  have kept : keptCoin.toValue.Readable := (regular_coin (by decide) (by decide)).readable
  exact ⟨writable_fresh, ⟨fun _ => one (regular_uint (by decide)).readable, fun _ h => nomatch h⟩,
    ⟨fun _ => one readable_emptiedCoin, fun _ h => nomatch h⟩,
    ⟨fun _ => one ⟨trivial, fun _ mem => nomatch mem⟩, fun _ h => nomatch h⟩,
    ⟨fun _ => one kept, fun _ h => nomatch h⟩, trivial⟩

end Scenario

/-- Of all that was tried only the coin is saved, and the store is tidy. -/
theorem storage_tidy_spoil :
    let s := (State.fresh Settings.standard Scenario.registry).after Scenario.spoil
    s.store.paths Scenario.alice .storage = [Scenario.spendingPath]
      ∧ s.store.Tidy ∧ ∃ bytes, s.store.toBytes = .ok bytes :=
  ⟨rfl, (storage_tidy Scenario.feasible_spoil rfl).1,
    (storage_tidy Scenario.feasible_spoil rfl).2.1⟩

end Custody
