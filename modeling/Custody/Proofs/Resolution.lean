import Custody.Proofs.Confinement

/-!
# What resolving a capability means

A capability opens a value when the links from its path on lead to it and every
type declared on the way admits the request. `State.resolve` finds this out by
following the links one by one, with a count of those that may still be
followed and a list of what was promised so far. Here the same is said without
a procedure: a **chain** of links leads from the path of the capability to a
path that holds values (`State.Chain`), it is not empty and not too long, and
each of its links admits the request and keeps its promise (`State.Opens`).

Nothing is assumed of the store. Links may lead in a circle, and then no chain
ends; they may lead to nothing, or to a value of another type. There is at most
one chain from a path (`State.Chain.unique`), so the question whether there is
one that will do is the question whether the one there is will do.
-/

namespace Custody

open CustodyM

variable {s s' : State} {address : Address} {path final final' : Path} {link : Link}
  {links links' : List Link} {c : Capability} {requested declared : RefTy} {ref : Reference}
  {v : Value} {r : Resolution}

namespace State

/-- The declared type admits the request. -/
def Admits (s : State) (declared requested : RefTy) : Prop :=
  (s.registry.admission declared requested).isAdmitted = true

/-- **A chain of links** of an account, from a path outside the value domain to
one inside, with the links in the order in which they are followed. -/
inductive Chain (s : State) (address : Address) : Path → List Link → Path → Prop where
  | arrived {path : Path} (values : path.domain.holdsLinks = false) : Chain s address path [] path
  | through {path final : Path} {link : Link} {links : List Link}
      (leads : path.domain.holdsLinks = true) (found : s.store.link? address path = some link)
      (rest : Chain s address link.target links final) : Chain s address path (link :: links) final

/-- **The capability opens the value** at the end of the chain. -/
structure Opens (s : State) (c : Capability) (requested : RefTy) (links : List Link)
    (final : Path) (v : Value) : Prop where
  /-- The type that the capability declares itself, if any. -/
  own : ∀ declared, c.promise = some declared → s.Admits declared requested
  chain : s.Chain c.address c.path links final
  linked : 1 ≤ links.length
  within : links.length ≤ s.settings.maxLinks
  admitted : ∀ link ∈ links, s.Admits link.promise requested
  stored : s.store.value? c.address final = some v
  asked : s.registry.isSubtype v.ty requested.target = true
  promised : ∀ link ∈ links, s.registry.isSubtype v.ty link.promise.target = true

/-! ## Chains -/

namespace Chain

theorem values_iff (values : path.domain.holdsLinks = false) :
    s.Chain address path links final ↔ links = [] ∧ final = path := by
  constructor
  · intro h
    cases h with
    | arrived => exact ⟨rfl, rfl⟩
    | through leads => rw [values] at leads; cases leads
  · rintro ⟨rfl, rfl⟩
    exact .arrived values

theorem links_iff (leads : path.domain.holdsLinks = true) :
    s.Chain address path links final ↔ ∃ link rest, links = link :: rest
      ∧ s.store.link? address path = some link ∧ s.Chain address link.target rest final := by
  constructor
  · intro h
    cases h with
    | arrived values => rw [leads] at values; cases values
    | through _ found rest => exact ⟨_, _, rfl, found, rest⟩
  · rintro ⟨link, rest, rfl, found, chain⟩
    exact .through leads found chain

/-- **At most one chain starts at a path.** -/
theorem unique (h : s.Chain address path links final) (h' : s.Chain address path links' final') :
    links = links' ∧ final = final' := by
  induction h generalizing links' with
  | arrived values =>
    obtain ⟨rfl, rfl⟩ := (values_iff values).1 h'
    exact ⟨rfl, rfl⟩
  | through leads found _ ih =>
    obtain ⟨link, rest, rfl, found', chain⟩ := (links_iff leads).1 h'
    obtain rfl := Option.some.inj (found.symm.trans found')
    obtain ⟨rfl, rfl⟩ := ih chain
    exact ⟨rfl, rfl⟩

end Chain

/-- A capability opens one value at most. -/
theorem Opens.unique {v' : Value} (h : s.Opens c requested links final v)
    (h' : s.Opens c requested links' final' v') : final = final' ∧ v = v' := by
  obtain ⟨-, rfl⟩ := h.chain.unique h'.chain
  exact ⟨rfl, Option.some.inj (h.stored.symm.trans h'.stored)⟩

/-! ## Following links -/

theorem checkPromise_eq_ok_iff {u : Unit} :
    s.checkPromise declared requested = .ok u ↔ s.Admits declared requested := by
  unfold checkPromise Admits
  cases s.registry.admission declared requested <;> simp [Admission.isAdmitted]

section follow

variable {hops : Nat} {promised : List Ty}

/-- Nothing is followed from a path of the value domain. -/
theorem follow_values_eq_ok_iff (values : path.domain.holdsLinks = false) :
    s.follow address requested hops path promised = .ok r ↔
      promised ≠ [] ∧ r = ⟨address, path, promised⟩ := by
  cases hops <;> cases promised <;> simp [follow, values, eq_comm]

/-- One link is followed, if another one may be. -/
theorem follow_links_eq_ok_iff (leads : path.domain.holdsLinks = true) :
    s.follow address requested (hops + 1) path promised = .ok r ↔
      ∃ link, s.store.link? address path = some link ∧ s.Admits link.promise requested
        ∧ s.follow address requested hops link.target (promised ++ [link.promise.target])
          = .ok r := by
  simp only [follow, leads, if_true]
  cases s.store.link? address path <;> simp [bind_eq_ok_iff, checkPromise_eq_ok_iff]

/-- **Following links finds the chain**, when it is not longer than it may be
and every link of it admits the request. -/
theorem follow_eq_ok_iff :
    s.follow address requested hops path promised = .ok r ↔
      ∃ links final, s.Chain address path links final ∧ links.length ≤ hops
        ∧ (∀ link ∈ links, s.Admits link.promise requested)
        ∧ promised ++ links.map (·.promise.target) ≠ []
        ∧ r = ⟨address, final, promised ++ links.map (·.promise.target)⟩ := by
  induction hops generalizing path promised with
  | zero =>
    cases leads : path.domain.holdsLinks with
    | false => simp [follow_values_eq_ok_iff leads, Chain.values_iff leads]
    | true => simp [follow, leads, Chain.links_iff leads]
  | succ hops ih =>
    cases leads : path.domain.holdsLinks with
    | false => simp [follow_values_eq_ok_iff leads, Chain.values_iff leads]
    | true =>
      rw [follow_links_eq_ok_iff leads]
      constructor
      · rintro ⟨link, found, admitted, h⟩
        obtain ⟨links, final, chain, short, all, -, rfl⟩ := ih.1 h
        refine ⟨link :: links, final, .through leads found chain, Nat.succ_le_succ short,
          List.forall_mem_cons.2 ⟨admitted, all⟩, ?_, ?_⟩
        · simp
        · simp
      · rintro ⟨_, final, chain, short, all, -, rfl⟩
        obtain ⟨link, links, rfl, found, rest⟩ := (Chain.links_iff leads).1 chain
        obtain ⟨admitted, all⟩ := List.forall_mem_cons.1 all
        refine ⟨link, found, admitted, ih.2 ⟨links, final, rest, Nat.le_of_succ_le_succ short,
          all, ?_, ?_⟩⟩
        · simp
        · simp

end follow

/-- **Resolving a capability** finds a chain that is not empty. -/
theorem resolve_eq_ok_iff :
    s.resolve c requested = .ok r ↔
      (∀ declared, c.promise = some declared → s.Admits declared requested)
        ∧ ∃ links final, s.Chain c.address c.path links final
          ∧ links.length ≤ s.settings.maxLinks ∧ (∀ link ∈ links, s.Admits link.promise requested)
          ∧ 1 ≤ links.length ∧ r = ⟨c.address, final, links.map (·.promise.target)⟩ := by
  have resolving : s.resolve c requested = .ok r ↔
      (∀ declared, c.promise = some declared → s.Admits declared requested)
        ∧ s.follow c.address requested s.settings.maxLinks c.path [] = .ok r := by
    unfold resolve
    cases c.promise <;> simp [bind_eq_ok_iff, checkPromise_eq_ok_iff]
  have linked (links : List Link) :
      links.map (·.promise.target) ≠ [] ↔ 1 ≤ links.length := by
    simp [Nat.one_le_iff_ne_zero]
  rw [resolving, follow_eq_ok_iff]
  simp only [List.nil_append, linked]

theorem resolvedValue_eq_ok_iff :
    s.resolvedValue r requested = .ok v ↔
      s.store.value? r.address r.path = some v
        ∧ s.registry.isSubtype v.ty requested.target = true
        ∧ ∀ t ∈ r.promised, s.registry.isSubtype v.ty t = true := by
  unfold resolvedValue
  cases s.store.value? r.address r.path with
  | none => simp
  | some w =>
    by_cases fits : (requested.target :: r.promised).all (s.registry.isSubtype w.ty) = true
    · have all := List.forall_mem_cons.1 (List.all_eq_true.1 fits)
      simp only [fits, if_true, Except.ok.injEq, Option.some.injEq]
      exact ⟨fun same => ⟨same, same ▸ all⟩, And.left⟩
    · simp only [fits, Option.some.injEq]
      refine iff_of_false (by simp) fun ⟨same, all⟩ => fits ?_
      exact List.all_eq_true.2 (List.forall_mem_cons.2 (same ▸ all))

/-- What is found behind a capability is opened by it. -/
theorem opens_of_resolve (resolved : s.resolve c requested = .ok r)
    (found : s.resolvedValue r requested = .ok v) :
    r.address = c.address ∧ ∃ links, s.Opens c requested links r.path v := by
  obtain ⟨own, links, final, chain, within, admitted, linked, rfl⟩ := resolve_eq_ok_iff.1 resolved
  obtain ⟨stored, asked, promised⟩ := resolvedValue_eq_ok_iff.1 found
  refine ⟨rfl, links, own, chain, linked, within, admitted, stored, asked, ?_⟩
  simpa using promised

/-- What a capability opens is found behind it. -/
theorem Opens.resolves (h : s.Opens c requested links final v) :
    ∃ r, s.resolve c requested = .ok r ∧ s.resolvedValue r requested = .ok v
      ∧ r.address = c.address ∧ r.path = final := by
  refine ⟨⟨c.address, final, links.map (·.promise.target)⟩, ?_, ?_, rfl, rfl⟩
  · exact resolve_eq_ok_iff.2 ⟨h.own, links, final, h.chain, h.within, h.admitted, h.linked, rfl⟩
  · refine resolvedValue_eq_ok_iff.2 ⟨h.stored, h.asked, ?_⟩
    simpa using h.promised

end State

/-! ## The two entry points -/

/-- **A capability is good for a request** if it opens a value. -/
theorem Links.check_iff :
    Links.check s c requested = true ↔ ∃ links final v, s.Opens c requested links final v := by
  have found : Links.check s c requested = true ↔
      ∃ r v, s.resolve c requested = .ok r ∧ s.resolvedValue r requested = .ok v := by
    rw [exists_comm]
    simp only [← bind_eq_ok_iff]
    unfold Links.check
    cases s.resolve c requested >>= fun r => s.resolvedValue r requested <;> simp
  rw [found]
  constructor
  · rintro ⟨r, v, resolved, value⟩
    obtain ⟨-, links, opens⟩ := State.opens_of_resolve resolved value
    exact ⟨links, r.path, v, opens⟩
  · rintro ⟨links, final, v, opens⟩
    obtain ⟨r, resolved, value, -, -⟩ := opens.resolves
    exact ⟨r, v, resolved, value⟩

namespace Borrows

/-- A target is lent if it is not lent already. -/
theorem returns_issue_iff {target : Target} {identity : Option ResourceId} :
    Returns (issue target identity requested) s ref s' ↔
      s.loans.isBorrowed target = false
        ∧ ref = ⟨⟨s.loans.next⟩, target, identity, requested, s.borrower⟩
        ∧ s' = { s with loans := ⟨s.loans.next + 1,
            Table.put s.loans.outstanding target ⟨⟨s.loans.next⟩, s.borrower⟩⟩ } := by
  unfold issue Loans.acquire
  rw [returns_get_bind]
  cases free : s.loans.isBorrowed target with
  | true => simp
  | false =>
    refine returns_bind.trans ?_
    simp [State.borrower, eq_comm]

theorem returns_issueStored_iff {r : Resolution} (running : s.transaction ≠ none) :
    Returns (issueStored r requested) s ref s'
      ↔ ∃ v, s.resolvedValue r requested = .ok v
        ∧ Returns (issue (.stored r.address r.path) v.resourceId? requested) s ref s' := by
  simp [issueStored, requireTransaction, running]

/-- **A borrow through a capability** inside a transaction lends what the
capability opens. -/
theorem returns_throughCapability_iff (running : s.inTransaction = true) :
    Returns (throughCapability c requested) s ref s' ↔
      ∃ links final v, s.Opens c requested links final v
        ∧ Returns (issue (.stored c.address final) v.resourceId? requested) s ref s' := by
  have started : s.transaction ≠ none := by
    simpa [State.inTransaction, Option.isSome_iff_ne_none] using running
  have stages : Returns (throughCapability c requested) s ref s' ↔
      ∃ r v, s.resolve c requested = .ok r ∧ s.resolvedValue r requested = .ok v
        ∧ Returns (issue (.stored r.address r.path) v.resourceId? requested) s ref s' := by
    simp [throughCapability, returns_issueStored_iff, started]
  rw [stages]
  constructor
  · rintro ⟨r, v, resolved, value, issued⟩
    obtain ⟨same, links, opens⟩ := State.opens_of_resolve resolved value
    exact ⟨links, r.path, v, opens, same ▸ issued⟩
  · rintro ⟨links, final, v, opens, issued⟩
    obtain ⟨r, resolved, value, same, rfl⟩ := opens.resolves
    exact ⟨r, v, resolved, value, same ▸ issued⟩

/-- **A borrow with the account's signature** lends the value of a slot, at a type
that the value has. -/
theorem returns_stored_iff :
    Returns (stored address path requested) s ref s'
      ↔ (s.Authorizes address ∧ path.domain.holdsValues = true)
        ∧ ∃ v, s.store.value? address path = some v
          ∧ s.registry.isSubtype v.ty requested.target = true
          ∧ Returns (issue (.stored address path) v.resourceId? requested) s ref s' := by
  unfold stored
  rw [returns_get_bind]
  cases running : s.transaction with
  | none => simp [State.Authorizes, running]
  | some tx =>
    have started : s.transaction ≠ none := by simp [running]
    simp only [returns_refusal_bind, returns_issueStored_iff started, State.resolvedValue_eq_ok_iff]
    simp [State.Authorizes, running, and_assoc]

/-- **What it takes to borrow a stored value** with the account's signature. -/
theorem exists_returns_stored_iff :
    (∃ ref t, Returns (stored address path requested) s ref t)
      ↔ (s.Authorizes address ∧ path.domain.holdsValues = true)
        ∧ s.loans.isBorrowed (.stored address path) = false
        ∧ ∃ v, s.store.value? address path = some v
          ∧ s.registry.isSubtype v.ty requested.target = true := by
  simp only [returns_stored_iff, returns_issue_iff]
  constructor
  · rintro ⟨ref, t, may, v, found, fits, free, -, -⟩
    exact ⟨may, free, v, found, fits⟩
  · rintro ⟨may, free, v, found, fits⟩
    exact ⟨_, _, may, v, found, fits, free, rfl, rfl⟩

end Borrows

/-- **Resolving a capability finds what it opens**, and nothing else. Inside a
transaction, whatever is stored and however many links may be followed, a
borrow gives a reference exactly if the capability opens a value that is not
borrowed; the reference is onto that value, for the resource that it is, at the
type asked for. The check answers the same question but for the outstanding
references, and a borrow that fails has changed nothing. -/
theorem capability_resolution (running : s.inTransaction = true) (c : Capability)
    (requested : RefTy) :
    ((∃ ref s', Returns (Borrows.throughCapability c requested) s ref s') ↔
        ∃ links final v, s.Opens c requested links final v
          ∧ s.loans.isBorrowed (.stored c.address final) = false)
      ∧ (∀ ref s' links final v, Returns (Borrows.throughCapability c requested) s ref s' →
        s.Opens c requested links final v →
          ref.target = .stored c.address final ∧ ref.identity = v.resourceId?
            ∧ ref.granted = requested)
      ∧ (Links.check s c requested = true ↔ ∃ links final v, s.Opens c requested links final v)
      ∧ ∀ failure s', Fails (Borrows.throughCapability c requested) s failure s' → s' = s := by
  refine ⟨⟨?_, ?_⟩, fun ref s' links final v returned opens => ?_, Links.check_iff,
    fun failure s' failed => ?_⟩
  · rintro ⟨ref, s', returned⟩
    obtain ⟨links, final, v, opens, issued⟩ :=
      (Borrows.returns_throughCapability_iff running).1 returned
    exact ⟨links, final, v, opens, (Borrows.returns_issue_iff.1 issued).1⟩
  · rintro ⟨links, final, v, opens, free⟩
    have issued : Returns (Borrows.issue (.stored c.address final) v.resourceId? requested) s _ _ :=
      Borrows.returns_issue_iff.2 ⟨free, rfl, rfl⟩
    exact ⟨_, _, (Borrows.returns_throughCapability_iff running).2
      ⟨links, final, v, opens, issued⟩⟩
  · obtain ⟨_, _, _, opens', issued⟩ := (Borrows.returns_throughCapability_iff running).1 returned
    obtain ⟨rfl, rfl⟩ := opens.unique opens'
    obtain ⟨-, rfl, -⟩ := Borrows.returns_issue_iff.1 issued
    exact ⟨rfl, rfl, rfl⟩
  · rcases @Borrows.lends_throughCapability requested c s with
      ⟨_, failed'⟩ | ⟨_, _, _, _, returned⟩
    · exact (failed.unique failed').2
    · exact (returned.not_fails failed).elim

namespace Scenario

/-- The vault behind its slot, when so many links may be followed. -/
def limited (maxLinks : Nat) : State :=
  { slotted with settings := { slotted.settings with maxLinks := maxLinks } }

theorem opens_limited : (limited 1).Opens slotCapability slot
    [⟨receiverPath, vaultPath, slot⟩] vaultPath slottedVault.toValue where
  own _ declared := nomatch declared
  chain := .through rfl rfl (.arrived rfl)
  linked := Nat.le_refl 1
  within := Nat.le_refl 1
  admitted := by
    rw [List.forall_mem_singleton]
    rfl
  stored := rfl
  asked := isSubtype_slot
  promised := List.forall_mem_singleton.2 isSubtype_slot

end Scenario

/-- The slot opens its vault with the one link that may be followed, and with
none it opens nothing. -/
theorem capability_resolution_limited :
    (Scenario.limited 1).inTransaction = true ∧ (Scenario.limited 0).inTransaction = true
      ∧ (∃ ref s', Returns (Borrows.throughCapability Scenario.slotCapability Scenario.slot)
        (Scenario.limited 1) ref s')
      ∧ ¬∃ ref s', Returns (Borrows.throughCapability Scenario.slotCapability Scenario.slot)
        (Scenario.limited 0) ref s' := by
  refine ⟨rfl, rfl, ?_, fun returned => ?_⟩
  · exact (capability_resolution rfl _ _).1.2 ⟨_, _, _, Scenario.opens_limited, rfl⟩
  · obtain ⟨links, final, v, opens, -⟩ := (capability_resolution rfl _ _).1.1 returned
    exact Nat.not_succ_le_zero 0 (Nat.le_trans opens.linked opens.within)

end Custody
