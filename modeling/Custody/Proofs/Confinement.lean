import Custody.Proofs.Admission
import Custody.Proofs.Atomicity

/-!
# What a capability opens

A borrow through a capability is checked against every type declared on the
way to its value: the one the capability declares itself, if it does, and
that of every link that is followed. None of them has to be authorized for a
request that asks for less. This module bounds what such a borrow opens: **a
reference shows no member that an unauthorized type on the way hides**, apart
from what escapes the comparison of the two types (`Registry.Escapes`), and
an access to any other member is refused before it does anything.

What escapes is exact. A type on the way hides a member that the reference
shows if and only if it escapes in one of the three ways.
-/

namespace Custody

open CustodyM

variable {s s' u : State} {address : Address} {path : Path} {link : Link} {c : Capability}
  {requested declared : RefTy} {ref : Reference} {member : String}

/-! ## The types on the way -/

namespace State

/-- **The links that are followed** from a path of an account on. -/
inductive Follows (s : State) (address : Address) : Path → Link → Prop where
  | here {path : Path} {link : Link} (leads : path.domain.holdsLinks = true)
      (h : s.store.link? address path = some link) : Follows s address path link
  | onward {path : Path} {first link : Link} (leads : path.domain.holdsLinks = true)
      (h : s.store.link? address path = some first)
      (rest : Follows s address first.target link) : Follows s address path link

/-- **The types declared on the way** of a capability. -/
inductive Declares (s : State) (c : Capability) : RefTy → Prop where
  /-- The capability declares a type itself. -/
  | own {declared : RefTy} (h : c.promise = some declared) : Declares s c declared
  /-- A link that is followed declares one. -/
  | link {link : Link} (h : s.Follows c.address c.path link) : Declares s c link.promise

/-- Following a link checks it and goes on behind it. -/
theorem follow_of_link {hops : Nat} {promised : List Ty} {r : Resolution}
    (leads : path.domain.holdsLinks = true) (h : s.store.link? address path = some link)
    (found : s.follow address requested hops path promised = .ok r) :
    s.checkPromise link.promise requested = .ok () ∧
      ∃ hops promised, s.follow address requested hops link.target promised = .ok r := by
  unfold follow at found
  rw [if_pos leads] at found
  cases hops with
  | zero => cases found
  | succ hops =>
    dsimp only at found
    rw [h] at found
    obtain ⟨_, checked, further⟩ := bind_eq_ok_iff.1 found
    exact ⟨checked, hops, _, further⟩

/-- Following links checks every one of them. -/
theorem Follows.checkPromise (h : s.Follows address path link) {hops : Nat} {promised : List Ty}
    {r : Resolution} (found : s.follow address requested hops path promised = .ok r) :
    s.checkPromise link.promise requested = .ok () := by
  induction h generalizing hops promised with
  | here leads h => exact (follow_of_link leads h found).1
  | onward leads h rest ih =>
    obtain ⟨-, hops, promised, further⟩ := follow_of_link leads h found
    exact ih further

/-- A resolved capability leads past types that admit the request. -/
theorem Declares.checkPromise (way : s.Declares c declared) {r : Resolution}
    (found : s.resolve c requested = .ok r) : s.checkPromise declared requested = .ok () := by
  unfold resolve at found
  cases way with
  | own h =>
    rw [h] at found
    obtain ⟨_, checked, -⟩ := bind_eq_ok_iff.1 found
    exact checked
  | link h =>
    cases promise : c.promise with
    | none =>
      rw [promise] at found
      exact h.checkPromise found
    | some own =>
      rw [promise] at found
      obtain ⟨_, -, followed⟩ := bind_eq_ok_iff.1 found
      exact h.checkPromise followed

/-- An unauthorized type admits a request for a supertype only. -/
theorem isSubtype_of_checkPromise (h : s.checkPromise declared requested = .ok ())
    (plain : declared.authorized = false) :
    s.registry.isSubtype declared.target requested.target = true := by
  by_contra more
  have verdict : s.registry.admission declared requested = .unauthorized
      ∨ s.registry.admission declared requested = .mismatch := by
    unfold Registry.admission
    rw [if_neg more, plain]
    split
    · exact .inl rfl
    · split
      · exact .inl rfl
      · exact .inr rfl
  unfold checkPromise at h
  rcases verdict with refused | refused
  · rw [refused] at h
    cases h
  · rw [refused] at h
    cases h

end State

namespace Borrows

/-- A reference is issued at the type asked for. -/
theorem granted_of_issue {target : Target} {identity : Option ResourceId}
    (h : Returns (issue target identity requested) s ref s') : ref.granted = requested := by
  unfold issue at h
  simp only [returns_get_bind] at h
  split at h
  · exact absurd h not_returns_throw
  · simp only [returns_bind, returns_set, returns_pure] at h
    obtain ⟨-, -, -, rfl, -⟩ := h
    rfl

/-- A borrow through a capability resolves it and grants what was asked
for. -/
theorem resolved_of_throughCapability (h : Returns (throughCapability c requested) s ref s') :
    (∃ r, s.resolve c requested = .ok r) ∧ ref.granted = requested := by
  unfold throughCapability issueStored at h
  rw [returns_get_bind, returns_ofExcept_bind] at h
  obtain ⟨r, resolved, issuing⟩ := h
  obtain ⟨_, u, -, checked⟩ := returns_bind.1 issuing
  rw [returns_get_bind, returns_ofExcept_bind] at checked
  obtain ⟨v, -, issued⟩ := checked
  exact ⟨⟨r, resolved⟩, granted_of_issue issued⟩

end Borrows

/-! ## Access -/

/-- **The member a call reaches**, and the reference it goes through. -/
def Operation.reaches : Operation → Option (Reference × String)
  | readMember r member | setMember r member _ | insertMember r member _ _
  | pushMember r member _ | removeMember r member _ => some (r, member)
  | _ => none

namespace Members

variable {α : Type}

/-- A reference gives no access to a member that it does not show. -/
theorem fails_checkAccess (hidden : ¬s.registry.Shows ref.granted.target member) :
    ∃ fault, Fails (checkAccess ref member) s fault s := by
  have absent : (s.registry.members ref.granted.target).contains member = false :=
    Bool.eq_false_iff.2 hidden
  cases live : s.loans.isLive ref with
  | false =>
    refine ⟨dangling ref, ?_⟩
    simp [checkAccess, live]
  | true =>
    refine ⟨.memberNotGranted member ref.granted.text, ?_⟩
    simp [checkAccess, live, absent]

/-- Checking first that a value can be stored refuses no less. -/
theorem fails_ensureStorable_bind {v : Value} {action : CustodyM α}
    (refused : ∃ fault, Fails action s fault s) :
    ∃ fault, Fails (Storage.ensureStorable v >>= fun _ => action) s fault s := by
  unfold Storage.ensureStorable
  cases v.isStorable with
  | true =>
    obtain ⟨fault, h⟩ := refused
    exact ⟨fault, fails_bind.2 (.inr ⟨(), s, returns_pure.2 ⟨rfl, rfl⟩, h⟩)⟩
  | false => exact ⟨_, fails_bind.2 (.inl (fails_throw.2 ⟨rfl, rfl⟩))⟩

/-- A guarded operation that is refused before it has done anything is
noted. -/
theorem fails_report_guarded {action : CustodyM α} {report : α → CustodyM Reply}
    (refused : ∃ fault, Fails action s fault s) :
    ∃ fault, Fails (guarded action >>= report) s fault (s.note fault) := by
  obtain ⟨fault, h⟩ := refused
  exact ⟨fault, fails_bind.2 (.inl (fails_guarded.2 ⟨s, h, rfl⟩))⟩

/-- What starts by checking access to a hidden member is refused. -/
theorem fails_checkAccess_bind (hidden : ¬s.registry.Shows ref.granted.target member)
    {rest : Unit → CustodyM α} :
    ∃ fault, Fails (checkAccess ref member >>= rest) s fault s := by
  obtain ⟨fault, refused⟩ := fails_checkAccess hidden
  exact ⟨fault, fails_bind.2 (.inl refused)⟩

end Members

/-- **A member that is not shown is out of reach**: the call fails before it
has done anything. -/
theorem Operation.refused_of_hidden {o : Operation} (through : o.reaches = some (ref, member))
    (hidden : ¬s.registry.Shows ref.granted.target member) :
    ∃ fault, Fails o.perform s fault (s.note fault) := by
  cases o with
  | readMember | setMember | removeMember =>
    obtain ⟨rfl, rfl⟩ := Prod.mk.inj (Option.some.inj through)
    exact Members.fails_report_guarded (Members.fails_checkAccess_bind hidden)
  | insertMember | pushMember =>
    obtain ⟨rfl, rfl⟩ := Prod.mk.inj (Option.some.inj through)
    exact Members.fails_report_guarded
      (Members.fails_ensureStorable_bind (Members.fails_checkAccess_bind hidden))
  | _ => cases through

/-! ## What a borrow opens -/

/-- **A capability never opens more than the unauthorized types on its way
show**, apart from what escapes them: of the members a reference shows, an
unauthorized type on the way hides exactly those that escape it, and while
the declared types stay the same no call reaches any other hidden member
through the reference. -/
theorem borrow_confined (covers : s.registry.Covers)
    (borrowed : Returns (Borrows.throughCapability c requested) s ref s')
    (way : s.Declares c declared) (plain : declared.authorized = false) :
    (∀ m, s.registry.Shows requested.target m ∧ ¬s.registry.Shows declared.target m ↔
      s.registry.Escapes m declared.target requested.target) ∧
    ∀ u o m, u.registry = s.registry → Operation.reaches o = some (ref, m) →
      ¬s.registry.Shows declared.target m →
      ¬s.registry.Escapes m declared.target requested.target →
        ∃ fault, Fails o.perform u fault (u.note fault) := by
  obtain ⟨⟨r, resolved⟩, granted⟩ := Borrows.resolved_of_throughCapability borrowed
  have sub : s.registry.isSubtype declared.target requested.target = true :=
    State.isSubtype_of_checkPromise (way.checkPromise resolved) plain
  refine ⟨fun m => ⟨fun ⟨shown, hidden⟩ => ?_, Registry.Escapes.exposed⟩, ?_⟩
  · exact (covers.shows_of_isSubtype sub shown).resolve_left hidden
  · intro u o m same through hidden confined
    refine o.refused_of_hidden through fun shown => ?_
    rw [granted, same] at shown
    exact confined ((covers.shows_of_isSubtype sub shown).resolve_left hidden)

namespace Scenario

/-- A vault as its deposit slot, and nothing else of it. -/
def slot : RefTy := ⟨false, .restricted (some "Vault") ["Receiver"]⟩

/-- A vault without the restriction. -/
def bareVault : RefTy := ⟨false, .restricted (some "Vault") []⟩

/-- The vault behind the slot. -/
def slottedVault : Resource :=
  ⟨⟨1⟩, "Vault", [("coins", some (.array [])), ("label", some (.str "alice"))]⟩

/-- Alice saves a vault and publishes its slot. -/
def slotted : State :=
  begun.after
    [.call (.createResource "Vault" [("coins", .array []), ("label", .str "alice")]),
      .call (.save alice vaultPath slottedVault.toValue),
      .call (.link alice receiverPath vaultPath slot)]

/-- The capability for the slot. -/
def slotCapability : Capability := ⟨alice, receiverPath, none⟩

/-- Where it leads. -/
def slotResolution : Resolution := ⟨alice, vaultPath, [slot.target]⟩

/-- The reference that a borrow of the vault at a type gives. -/
def vaultReference (granted : RefTy) : Reference :=
  ⟨⟨1⟩, .stored alice vaultPath, some ⟨1⟩, granted, FrameId.transaction⟩

/-- The state with that reference outstanding. -/
def lent : State :=
  { slotted with loans := ⟨2, [(.stored alice vaultPath, ⟨⟨1⟩, FrameId.transaction⟩)]⟩ }

theorem interface?_registry (name : String) :
    registry.interface? name = if name = "Receiver" then some (resource [] ["coins"]) else none :=
  rfl

theorem composite?_registry (name : String) :
    registry.composite? name =
      if name = "Coin" then some (resource [] ["amount"])
      else if name = "Vault" then some (resource ["Receiver"] ["coins", "label"]) else none :=
  rfl

theorem apart_registry : registry.Apart := by
  intro name
  rw [interface?_registry]
  by_cases h : name = "Receiver"
  · subst h
    exact .inl rfl
  · exact .inr (if_neg h)

theorem covers_registry : registry.Covers := by
  intro name d hd i e inherited declared m hm
  rw [composite?_registry] at hd
  rw [interface?_registry] at declared
  split at declared
  case isFalse => cases declared
  case isTrue =>
    obtain rfl := Option.some.inj declared
    obtain rfl := List.mem_singleton.1 (SortedSet.contains_ofList_iff.1 hm)
    split at hd
    case isTrue coin =>
      subst coin
      obtain ⟨x, seed, -⟩ := Registry.contains_closure_iff.1 inherited
      cases seed
    case isFalse =>
      split at hd
      case isTrue =>
        obtain rfl := Option.some.inj hd
        exact SortedSet.contains_ofList_iff.2 List.mem_cons_self
      case isFalse => cases hd

/-- The slot hides the label. -/
theorem slot_hides_label : ¬registry.Shows slot.target "label" := by
  intro shown
  obtain ⟨j, -, inside⟩ := Registry.shows_restricted_cons.1 shown
  obtain ⟨i, d, -, declared, hm⟩ := Registry.contains_closureMembers_iff.1 inside
  rw [interface?_registry] at declared
  split at declared
  case isFalse => cases declared
  case isTrue =>
    obtain rfl := Option.some.inj declared
    exact absurd (SortedSet.contains_ofList_iff.1 hm) (by decide)

/-- A vault has the type of its slot. -/
theorem isSubtype_slot : registry.isSubtype (.composite "Vault") slot.target = true := by
  have reached : (registry.closure "Vault").contains "Receiver" = true :=
    Registry.contains_closure_iff.2 ⟨"Receiver", List.mem_singleton_self _, .refl⟩
  show (true && ((decide ("Vault" = "Receiver")
    || (registry.closure "Vault").contains "Receiver") && true)) = true
  rw [reached]
  rfl

/-- A request that the slot and the vault admit gives a reference. -/
theorem returns_borrow_slotted {requested : RefTy}
    (admitted : slotted.resolve slotCapability requested = .ok slotResolution)
    (fits : registry.isSubtype (.composite "Vault") requested.target = true) :
    Returns (Borrows.throughCapability slotCapability requested) slotted
      (vaultReference requested) lent := by
  have found : slotted.resolvedValue slotResolution requested = .ok slottedVault.toValue := by
    show (if [requested.target, slot.target].all (registry.isSubtype (.composite "Vault"))
      then Except.ok slottedVault.toValue else _) = _
    rw [List.all_cons, List.all_cons, fits, isSubtype_slot]
    rfl
  unfold Borrows.throughCapability Borrows.issueStored
  rw [returns_get_bind, returns_ofExcept_bind]
  refine ⟨slotResolution, admitted, returns_bind.2 ⟨(), slotted, rfl, ?_⟩⟩
  rw [returns_get_bind, returns_ofExcept_bind]
  exact ⟨_, found, rfl⟩

theorem slot_declared : slotted.Declares slotCapability slot :=
  @State.Declares.link slotted slotCapability ⟨receiverPath, vaultPath, slot⟩ (.here rfl rfl)

end Scenario

theorem borrow_confined_slot :
    Scenario.slotted.registry.Covers
      ∧ Returns (Borrows.throughCapability Scenario.slotCapability Scenario.slot)
        Scenario.slotted (Scenario.vaultReference Scenario.slot) Scenario.lent
      ∧ Scenario.slotted.Declares Scenario.slotCapability Scenario.slot
      ∧ Scenario.slot.authorized = false
      ∧ ∃ fault, Fails
        (Operation.setMember (Scenario.vaultReference Scenario.slot) "label" (.str "bob")).perform
        Scenario.lent fault (Scenario.lent.note fault) := by
  have borrowed : Returns (Borrows.throughCapability Scenario.slotCapability Scenario.slot)
      Scenario.slotted (Scenario.vaultReference Scenario.slot) Scenario.lent :=
    Scenario.returns_borrow_slotted rfl Scenario.isSubtype_slot
  refine ⟨Scenario.covers_registry, borrowed, Scenario.slot_declared, rfl, ?_⟩
  exact (borrow_confined Scenario.covers_registry borrowed Scenario.slot_declared rfl).2
    Scenario.lent _ "label" rfl rfl Scenario.slot_hides_label
    fun escapes => escapes.exposed.2 escapes.exposed.1

/-- **The restriction is dropped**: a borrower who is offered the slot of a
vault only asks for a `Vault{}`, gets it and reads the label. -/
theorem borrow_bareVault_reads_label :
    Scenario.slotted.registry.Apart ∧ Scenario.slotted.registry.Covers
      ∧ Scenario.slotted.Declares Scenario.slotCapability Scenario.slot
      ∧ Scenario.slot.authorized = false
      ∧ Returns (Borrows.throughCapability Scenario.slotCapability Scenario.bareVault)
        Scenario.slotted (Scenario.vaultReference Scenario.bareVault) Scenario.lent
      ∧ (Scenario.vaultReference Scenario.bareVault).identity.isSome = true
      ∧ Scenario.slotted.registry.Shows Scenario.bareVault.target "label"
      ∧ ¬Scenario.slotted.registry.Shows Scenario.slot.target "label"
      ∧ Returns (Members.read (Scenario.vaultReference Scenario.bareVault) "label")
        Scenario.lent (.str "alice") Scenario.lent :=
  ⟨Scenario.apart_registry, Scenario.covers_registry, Scenario.slot_declared, rfl,
    Scenario.returns_borrow_slotted rfl rfl, rfl, rfl, Scenario.slot_hides_label, rfl⟩

end Custody
