import Custody.Proofs.Layout
import Custody.Proofs.Resolution

/-!
# Removing a link revokes what leads through it

A capability is a name. Nothing of it is kept in the custodian, copies of it
may be anywhere, and it may be made anew at any time. What it opens is read off
the links from its path on, so once there is **no link at a path**, no
capability of the account opens anything through this path: not the ones that
name it, and not those that lead to it through other links. What has to be
shown is that the path stays without a link.

## How long a link stays away

A move puts a link at the path only if it is a call that links it and gives a
capability for it (`Move.Links`). All other calls write somewhere else, write a
value, or clear an entry. The ends of transactions are different: they may
bring a whole store back. The transaction that removed the link must not be
rolled back, and that is asked for (`State.Stands`). Every later one begins
without the link, and so does the store that it keeps to go back to. Hence
after the first commit the path has no link in the store **and none in what a
running transaction keeps**, which is what `State.Lasting` says, and that holds
of every state from then on.
-/

namespace Custody

open CustodyM

variable {s t : State} {A address : Address} {p path : Path} {o : Operation} {m : Move}
  {moves : List Move}

/-! ## Paths without a link -/

/-- **No link is at the path.** -/
def Store.Unlinked (address : Address) (path : Path) (store : Store) : Prop :=
  store.link? address path = none

namespace Store.Unlinked

variable {store : Store} {e : Entry}

/-- An entry that is no link or goes to another path makes no difference. -/
theorem insert (h : store.Unlinked A p) (apart : e.link? = none ∨ (A, p) ≠ (address, path)) :
    (store.insert address path e).Unlinked A p := by
  unfold Store.Unlinked link? at *
  rw [get?_insert]
  split
  next same => exact apart.resolve_right fun ne => ne same
  next => exact h

/-- Erasing an entry links nothing. -/
theorem erase (h : store.Unlinked A p) : (store.erase address path).Unlinked A p := by
  unfold Store.Unlinked link? at *
  rw [get?_erase]
  split
  · rfl
  · exact h

end Store.Unlinked

/-- Writing at a target links nothing. -/
theorem State.unlinked_writeAt {target : Target} {v : Value} (h : s.store.Unlinked A p) :
    (s.writeAt target v).store.Unlinked A p := by
  cases target with
  | stored address path => exact h.insert (.inl rfl)
  | binding frame name => exact h

/-- **No deed links the path**, unless it is that of a call that links it. -/
theorem Operation.unlinked_of_does (did : o.Does s t)
    (others : ∀ target promise, o ≠ link A p target promise) (absent : s.store.Unlinked A p) :
    t.store.Unlinked A p := by
  cases did with
  | made | destroyed | dismantled | bound | taken | inserted | pushed | removed
  | emptied | filled =>
    exact State.upheld_doing absent fun _ _ _ => absent
  | opened | closed | lent => exact absent
  | passedOut taken => exact store_of_take taken ▸ absent
  | passedIn bound => exact store_of_bind bound ▸ absent
  | assigned passed => exact store_of_pass passed ▸ absent
  | saved => exact State.upheld_doing absent fun _ _ _ => absent.insert (.inl rfl)
  | loaded => exact State.upheld_doing absent fun _ _ _ => absent.erase
  | linked =>
    refine absent.insert (.inr fun same => ?_)
    obtain ⟨rfl, rfl⟩ := Prod.mk.inj same
    exact others _ _ rfl
  | unlinked => exact absent.erase
  | filledMember | insertedMember | pushedMember | removedMember =>
    exact State.upheld_doing absent fun _ _ _ => State.unlinked_writeAt absent
  | assignedMember => exact State.unlinked_writeAt absent

/-! ## Moves and runs -/

/-- A link that is refused is not made. -/
theorem Links.store_of_fails_add {source target : Path} {promise : RefTy} {e : Fault}
    (h : Fails (add address source target promise) s e t) : t.store = s.store := by
  obtain ⟨u, failed, rfl⟩ := fails_guarded.1 h
  have same : u = s := by
    rcases fails_bind.1 failed with refused | ⟨_, w, -, failed⟩
    · exact ((keeps_checkPath (R := Eq)).of_fails refused).symm
    · rw [fails_get_bind] at failed
      split at failed
      · exact (not_fails_pure failed).elim
      · exact ((fails_bind.1 failed).elim not_fails_modify fun ⟨_, _, _, failed⟩ =>
          not_fails_pure failed).elim
  rw [same]
  unfold State.note
  split <;> rfl

/-- **The move links the path**: it is a call that gives a capability for the
link that it makes there. -/
def Move.Links (A : Address) (p : Path) (s : State) (m : Move) : Prop :=
  ∃ target promise c t, m = .call (.link A p target promise)
    ∧ Returns m.perform s (.capability (some c)) t

/-- A move that does not link the path leaves it unlinked. -/
theorem Move.unlinked_next (inner : m.isInner = true) (spared : ¬m.Links A p s)
    (absent : s.store.Unlinked A p) : (m.next s).store.Unlinked A p := by
  by_cases linking : ∃ target promise, m = .call (.link A p target promise)
  · obtain ⟨target, promise, rfl⟩ := linking
    have store : (Move.call (.link A p target promise)).next s
        = (outcome (Links.add A p target promise) s).2 := snd_outcome_report _ _ s
    rw [store]
    rcases returns_or_fails (Links.add A p target promise) s with ⟨c, t, returned⟩ | ⟨e, t, failed⟩
    · rw [returned]
      obtain ⟨-, rfl⟩ | ⟨some, -, -⟩ := Links.added_of_add returned
      · exact absent
      · obtain ⟨c, rfl⟩ := Option.isSome_iff_exists.1 some
        exact absurd ⟨target, promise, c, t, rfl,
          returns_bind.2 ⟨_, t, returned, returns_pure.2 ⟨rfl, rfl⟩⟩⟩ spared
    · rw [failed]
      exact Links.store_of_fails_add failed ▸ absent
  · have kept : Keeps (State.Preserves fun s => s.store.Unlinked A p) m.perform := by
      refine keeps_perform inner (fun o same s t did => ?_) (fun frame s t did => ?_)
        (fun _ _ _ absent => absent) fun s fault absent => ?_
      · exact Operation.unlinked_of_does did fun target promise link =>
          linking ⟨target, promise, link ▸ same⟩
      · exact Operation.unlinked_of_does did fun target promise link => nomatch link
      · unfold State.note
        split <;> exact absent
    exact kept s absent

namespace State

/-- A later transaction goes back to a store without the link, if it goes back
at all. -/
theorem Lasting.unlinked_next (lasting : s.Lasting (Store.Unlinked A p))
    (readable : s.store.Readable) (feasible : m.Feasible s) (spared : ¬m.Links A p s) :
    (m.next s).Lasting (Store.Unlinked A p) := by
  cases m with
  | call o =>
    cases o with
    | start signers => exact lasting.start readable signers feasible
    | commit => exact lasting.finish (.inl rfl)
    | abort => exact lasting.finish (.inr rfl)
    | _ => exact lasting.inner rfl (Move.unlinked_next rfl spared lasting.here)
  | _ => exact lasting.inner rfl (Move.unlinked_next rfl spared lasting.here)

/-- A run that does not link the path leaves it unlinked, also by a rollback. -/
theorem Lasting.unlinked_after (lasting : s.Lasting (Store.Unlinked A p))
    (readable : s.Lasting Store.Readable) (feasible : s.Along (fun s m => m.Feasible s) moves)
    (spared : s.Along (fun s m => ¬m.Links A p s) moves) :
    (s.after moves).store.Unlinked A p := by
  induction moves generalizing s with
  | nil => exact lasting.here
  | cons m moves ih =>
    exact ih (lasting.unlinked_next readable.here feasible.1 spared.1)
      (readable.next Store.upheld_readable feasible.1) feasible.2 spared.2

/-- **What was done in the running transaction stands** along a run: the first
move that ends a transaction, if there is one, is a commit that returns. -/
inductive Stands : State → List Move → Prop where
  | open {s : State} : Stands s []
  | onward {s : State} {m : Move} {moves : List Move} (inside : m.ends = false)
      (rest : (m.next s).Stands moves) : Stands s (m :: moves)
  | committed {s t : State} {moves : List Move}
      (returned : Returns Transactions.commit s () t) : Stands s (.call .commit :: moves)

/-- **The path stays without a link**, when the transaction that removed it is
not rolled back and no move links it again. -/
theorem Stands.unlinked_after (stands : s.Stands moves) (running : s.inTransaction = true)
    (absent : s.store.Unlinked A p) (readable : s.Lasting Store.Readable)
    (feasible : s.Along (fun s m => m.Feasible s) moves)
    (spared : s.Along (fun s m => ¬m.Links A p s) moves) :
    (s.after moves).store.Unlinked A p := by
  induction stands with
  | «open» => exact absent
  | @onward s m moves inside rest ih =>
    refine ih ((Move.continues_next inside running).inTransaction running) ?_
      (readable.next Store.upheld_readable feasible.1) feasible.2 spared.2
    rcases Move.isInner_or_start inside with inner | ⟨signers, rfl⟩
    · exact Move.unlinked_next inner spared.1 absent
    · rwa [Transactions.next_start running]
  | @committed s t moves returned =>
    obtain ⟨tx, htx⟩ := Option.isSome_iff_exists.1 running
    obtain ⟨ordered, store, decodes, -⟩ := readable.kept tx htx
    obtain ⟨-, -, rfl⟩ := Transactions.committed_of_commit htx ordered decodes returned
    have next : (Move.call .commit).next s = s.committed :=
      Move.next_of_returns (Reply.returns_ofUnit.2 ⟨returned, rfl⟩)
    have later := readable.next Store.upheld_readable feasible.1
    obtain ⟨-, feasible⟩ := feasible
    obtain ⟨-, spared⟩ := spared
    rw [next] at later feasible spared
    show Store.Unlinked A p (((Move.call .commit).next s).after moves).store
    rw [next]
    exact Lasting.unlinked_after ⟨absent, fun _ none => nomatch none⟩ later feasible spared

/-! ## What leads through a path -/

/-- **The links from a path on lead to the other path**, which may be the same. -/
inductive Leads (s : State) (address : Address) (p : Path) : Path → Prop where
  | here : Leads s address p p
  | through {path : Path} {link : Link} (leads : path.domain.holdsLinks = true)
      (found : s.store.link? address path = some link) (rest : Leads s address p link.target) :
      Leads s address p path

/-- No chain gets past a path without a link. -/
theorem Leads.not_chain (h : s.Leads address p path) (links : p.domain.holdsLinks = true)
    (absent : s.store.Unlinked address p) {chain : List Link} {final : Path} :
    ¬s.Chain address path chain final := by
  intro followed
  induction h generalizing chain with
  | here =>
    obtain ⟨link, rest, -, found, -⟩ := (Chain.links_iff links).1 followed
    exact nomatch absent.symm.trans found
  | through leads found _ ih =>
    obtain ⟨link, rest, -, found', followed⟩ := (Chain.links_iff leads).1 followed
    obtain rfl := Option.some.inj (found.symm.trans found')
    exact ih followed

/-- **A capability that leads through a path without a link opens nothing.** -/
theorem Leads.revoked {c : Capability} {requested : RefTy} (h : s.Leads c.address p c.path)
    (links : p.domain.holdsLinks = true) (absent : s.store.Unlinked c.address p) :
    Links.check s c requested = false
      ∧ ∃ failure, Returns (Operation.borrow c requested).perform s (.refused failure) s := by
  constructor
  · refine Bool.eq_false_iff.2 fun good => ?_
    obtain ⟨_, _, _, opens⟩ := Links.check_iff.1 good
    exact h.not_chain links absent opens.chain
  · rcases @Borrows.lends_throughCapability requested c s with
      ⟨failure, failed⟩ | ⟨ref, _, -, -, returned⟩
    · exact ⟨failure, returns_bind.2 ⟨_, s, returns_ofBorrow.2 failed, returns_pure.2 ⟨rfl, rfl⟩⟩⟩
    · obtain ⟨⟨r, resolved⟩, -⟩ := Borrows.resolved_of_throughCapability returned
      obtain ⟨-, _, _, followed, -⟩ := resolve_eq_ok_iff.1 resolved
      exact (h.not_chain links absent followed).elim

end State

/-- **Removing a link is complete.** Take any run from stored state with a call
in it that removes the link at a path and returns. The call changes the entry
at the path and nothing else. In every later state, as long as the transaction
it was made in is not rolled back and the path is not linked again, no
capability of the account that leads through the path is good for anything:
whatever is asked for, the check denies it and a borrow gives no reference. -/
theorem unlink_revokes {store : Store} {settings : Settings} {registry : Registry}
    {before later : List Move} {reply : Reply} (readable : store.Readable)
    (feasible : (State.ofStore store settings registry).Along (fun s m => m.Feasible s)
      (before ++ .call (.unlink A p) :: later))
    (reached : s = (State.ofStore store settings registry).after before)
    (unlinked : Returns (Operation.unlink A p).perform s reply t) (stands : t.Stands later)
    (spared : t.Along (fun s m => ¬m.Links A p s) later) :
    (t = { s with store := t.store } ∧ ∀ address path, (address, path) ≠ (A, p) →
        t.store.get? address path = s.store.get? address path)
      ∧ ∀ c : Capability, c.address = A → (t.after later).Leads A p c.path → ∀ requested,
        Links.check (t.after later) c requested = false ∧ ∃ failure,
          Returns (Operation.borrow c requested).perform (t.after later) (.refused failure)
            (t.after later) := by
  obtain ⟨first, here, rest⟩ := State.along_append.1 feasible
  obtain rfl : (Move.call (.unlink A p)).next s = t :=
    Move.next_of_returns (m := .call (.unlink A p)) unlinked
  rw [← reached] at here rest
  have lasting : s.Lasting Store.Readable := reached ▸
    (State.Lasting.ofStore readable settings registry).after Store.upheld_readable first
  have lasting' := lasting.next Store.upheld_readable here
  obtain ⟨returned, -⟩ := Reply.returns_ofUnit.1 unlinked
  obtain ⟨⟨tx, running, -⟩, links, removed⟩ := Links.removed_of_remove returned
  refine ⟨?_, fun c owner leads requested => ?_⟩
  · obtain ⟨-, same⟩ | ⟨link, -, same⟩ := removed
    · rw [same]
      exact ⟨rfl, fun _ _ _ => rfl⟩
    · rw [same]
      refine ⟨rfl, fun address path ne => ?_⟩
      show (s.store.erase A p).get? address path = _
      rw [Store.get?_erase, if_neg ne]
  · have absent : ((Move.call (.unlink A p)).next s).store.Unlinked A p := by
      obtain ⟨none, same⟩ | ⟨link, -, same⟩ := removed
      · rwa [same]
      · rw [same]
        show (s.store.erase A p).link? A p = none
        rw [Store.link?, Store.get?_erase, if_pos rfl]
        rfl
    have goes : s.Continues ((Move.call (.unlink A p)).next s) :=
      Move.continuing_perform (m := .call (.unlink A p)) rfl s
    have inside := goes.inTransaction (Option.isSome_iff_exists.2 ⟨tx, running⟩)
    subst owner
    exact leads.revoked links (stands.unlinked_after inside absent lasting' rest spared)

namespace Scenario

/-- A second link, to the slot. -/
def aliasPath : Path := ⟨.privateLinks, "alias"⟩

/-- Alice saves a vault, publishes its slot and links the slot once more. -/
def aliased : List Move :=
  [.call (.start [alice]),
    .call (.createResource "Vault" [("coins", .array []), ("label", .str "alice")]),
    .call (.save alice vaultPath slottedVault.toValue),
    .call (.link alice receiverPath vaultPath slot),
    .call (.link alice aliasPath receiverPath slot)]

/-- The state before she removes the link of the slot. -/
def publishedTwice : State := (State.fresh Settings.standard registry).after aliased

/-- The state after. -/
def withdrawn : State := (Move.call (.unlink alice receiverPath)).next publishedTwice

/-- She commits, and a transaction of Bob's is rolled back. -/
def commitThenAbort : List Move := [.call .commit, .call (.start [bob]), .call .abort]

/-- The capability for the second link. -/
def aliasCapability : Capability := ⟨alice, aliasPath, none⟩

/-- The capability for the alias opens the vault over both links. -/
theorem opens_alias : publishedTwice.Opens aliasCapability slot
    [⟨aliasPath, receiverPath, slot⟩, ⟨receiverPath, vaultPath, slot⟩] vaultPath
    slottedVault.toValue where
  own _ declared := nomatch declared
  chain := .through rfl rfl (.through rfl rfl (.arrived rfl))
  linked := by decide
  within := by decide
  admitted := List.forall_mem_cons.2 ⟨rfl, List.forall_mem_singleton.2 rfl⟩
  stored := rfl
  asked := isSubtype_slot
  promised := List.forall_mem_cons.2 ⟨isSubtype_slot, List.forall_mem_singleton.2 isSubtype_slot⟩

/-- From the alias the links lead over the path that was withdrawn. -/
theorem leads_alias :
    (withdrawn.after commitThenAbort).Leads alice receiverPath aliasCapability.path := by
  have kept : (withdrawn.after commitThenAbort).store.link? alice aliasPath
      = some ⟨aliasPath, receiverPath, slot⟩ := by decide +kernel
  exact .through rfl kept .here

/-- The bytes of the store can still be addressed. -/
theorem writable_withdrawn : ((Move.call .commit).next withdrawn).store.Writable :=
  Store.writable_of_length (n := 252) (by decide +kernel) (by decide)

/-- The vault can be read back from its bytes. -/
theorem readable_slottedVault : slottedVault.toValue.Readable := by
  have coins : (Value.array []).Readable :=
    Value.Everywhere.array_iff.2 ⟨trivial, fun _ mem => nomatch mem⟩
  refine Value.Everywhere.resource_iff.2 ⟨⟨by decide, by decide⟩, fun f hf v hv => ?_⟩
  rcases List.mem_cons.1 hf with rfl | hf
  · exact Option.some.inj hv ▸ coins
  · obtain rfl := List.mem_singleton.1 hf
    exact Option.some.inj hv ▸ (regular_str "alice").readable

/-- Withdrawing the link is feasible. -/
theorem feasible_withdrawn : (State.fresh Settings.standard registry).Along
    (fun s m => m.Feasible s)
      (aliased ++ .call (.unlink alice receiverPath) :: commitThenAbort) := by
  have nothing : (∀ v ∈ ([] : List Value), v.Readable) ∧ ∀ key ∈ ([] : List Key), key.InRange :=
    ⟨fun _ mem => (nomatch mem), fun _ mem => nomatch mem⟩
  refine State.along_append.2 ⟨⟨writable_fresh, ⟨?_, nothing.2⟩, ⟨?_, nothing.2⟩, nothing, nothing,
    trivial⟩, nothing, nothing, writable_withdrawn, nothing, trivial⟩
  · refine List.forall_mem_cons.2 ⟨Value.Everywhere.array_iff.2 ⟨trivial, fun _ mem => nomatch mem⟩,
      List.forall_mem_singleton.2 (regular_str "alice").readable⟩
  · exact List.forall_mem_singleton.2 readable_slottedVault

end Scenario

/-- The slot is reached over a second link, until the first is removed; a later
transaction that is rolled back does not bring it back. -/
theorem unlink_revokes_slot :
    Links.check Scenario.publishedTwice Scenario.aliasCapability Scenario.slot = true
      ∧ Scenario.withdrawn.Stands Scenario.commitThenAbort
      ∧ Links.check (Scenario.withdrawn.after Scenario.commitThenAbort) Scenario.aliasCapability
        Scenario.slot = false := by
  have stands : Scenario.withdrawn.Stands Scenario.commitThenAbort := .committed rfl
  have spared : Scenario.withdrawn.Along
      (fun s m => ¬m.Links Scenario.alice Scenario.receiverPath s) Scenario.commitThenAbort :=
    ⟨fun ⟨_, _, _, _, call, _⟩ => (nomatch call), fun ⟨_, _, _, _, call, _⟩ => (nomatch call),
      fun ⟨_, _, _, _, call, _⟩ => (nomatch call), trivial⟩
  refine ⟨Links.check_iff.2 ⟨_, _, _, Scenario.opens_alias⟩, stands, ?_⟩
  have readable : Store.empty.Readable := fun _ mem => nomatch mem
  exact ((unlink_revokes readable Scenario.feasible_withdrawn rfl rfl stands spared).2
    Scenario.aliasCapability rfl Scenario.leads_alias Scenario.slot).1

end Custody
