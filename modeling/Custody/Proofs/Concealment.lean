import Custody.Proofs.Pinning

/-!
# Fields that a reference hides

A reference is granted at a type, and the type shows some members. As long as
the reference is live, the fields of its target that the type does not show
**stay as they are** (`hidden_fields_kept`), whatever anybody does: the value
is pinned, and what is written through the reference goes into a member that
it shows.

That takes two things of the host. It does not make up references, because one
with the identity of a live reference and another type would be let through;
and it does not declare types in between, because what a type shows is looked
up at each access. References that a call gave have an identity of their own
(`State.eq_of_issued`), so the only one to get at the target is the one that
was issued for it.
-/

namespace Custody

open CustodyM

/-! ## Fields -/

/-- **The fields of a composite**, filled or empty. -/
def Value.slots : Value → Table String (Option Value)
  | .struct _ fields => fields.map fun f => (f.1, some f.2)
  | .resource _ _ fields => fields
  | _ => []

/-- **Two composites agree outside the fields that are shown**: they are the
same resource, or both none, of the same type and with the same fields, and
what is in a field that is not shown is the same. -/
structure Value.AgreeOutside (shown : String → Prop) (v w : Value) : Prop where
  ty : w.ty = v.ty
  identity : w.resourceId? = v.resourceId?
  names : Table.keys w.slots = Table.keys v.slots
  hidden : ∀ name, ¬shown name → Table.get? w.slots name = Table.get? v.slots name

namespace Value

variable {shown : String → Prop} {member : String} {u v w old new : Value}

theorem AgreeOutside.refl (v : Value) : AgreeOutside shown v v :=
  ⟨rfl, rfl, rfl, fun _ _ => rfl⟩

theorem AgreeOutside.trans (h : AgreeOutside shown u v) (h' : AgreeOutside shown v w) :
    AgreeOutside shown u w where
  ty := h'.ty.trans h.ty
  identity := h'.identity.trans h.identity
  names := h'.names.trans h.names
  hidden name hides := (h'.hidden name hides).trans (h.hidden name hides)

/-- **Replacing a member** puts a value into a field that is there. -/
theorem Rewritten.slots (h : Rewritten member old new) :
    Table.contains old.slots member = true
      ∧ ∃ v, new.slots = Table.put old.slots member (some v) := by
  cases h with
  | field has => exact ⟨has, _, rfl⟩
  | @entry old new v has assigned =>
    refine ⟨(Table.contains_map old.fields member some).trans has, v, ?_⟩
    obtain ⟨-, rfl⟩ := Struct.set_eq_ok_iff.1 assigned
    exact Table.map_put old.fields member v some

/-- What is written into a member that is shown is not seen outside. -/
theorem Rewritten.agreeOutside (h : Rewritten member old new) (shows : shown member) :
    AgreeOutside shown old new := by
  obtain ⟨has, v, written⟩ := h.slots
  refine ⟨h.ty, h.resourceId?, ?_, fun name hides => ?_⟩
  · rw [written, Table.keys_put has]
  · have other : name ≠ member := fun same => hides (same ▸ shows)
    rw [written, Table.get?_put_of_ne _ _ other]

end Value

/-! ## Issued references -/

variable {s t : State} {m : Move} {moves : List Move} {r r' : Reference}

/-- **The reference that a move gives**, if it gives one. -/
def Move.issued (s : State) (m : Move) : List Reference :=
  match (outcome m.perform s).1 with
  | .ok (.reference r) => [r]
  | _ => []

namespace Move

theorem mem_issued_iff : r ∈ issued s m ↔ ∃ t, Returns m.perform s (.reference r) t := by
  unfold issued Returns
  rcases outcome m.perform s with ⟨_ | reply, t⟩
  · simp
  · cases reply <;> simp [eq_comm]

theorem eq_of_mem_issued (h : r ∈ issued s m) (h' : r' ∈ issued s m) : r' = r := by
  obtain ⟨t, given⟩ := mem_issued_iff.1 h
  obtain ⟨t', given'⟩ := mem_issued_iff.1 h'
  exact Reply.reference.inj (given'.unique given).1

/-- **A new reference gets the next number.** -/
theorem number_of_mem_issued (h : r ∈ issued s m) :
    r.id.number = s.loans.next ∧ (m.next s).loans.next = s.loans.next + 1 := by
  obtain ⟨t, given⟩ := mem_issued_iff.1 h
  rw [next_of_returns given]
  cases m with
  | call o =>
    obtain ⟨loans, -, acquired, rfl⟩ := Operation.acquired_of_returns given
    obtain ⟨-, id, rfl⟩ := Loans.acquire_eq_some acquired
    exact ⟨congrArg RefId.number id, rfl⟩
  | unwind frame => exact nomatch (Reply.returns_ofUnit.1 given).2
  | declare types => exact nomatch (Reply.returns_ofUnit.1 given).2

/-- The numbers of references only grow. -/
theorem loans_next_le (m : Move) (s : State) : s.loans.next ≤ (m.next s).loans.next := by
  let R := State.Preserves fun u => s.loans.next ≤ u.loans.next
  have inner (m : Move) (inner : m.isInner = true) (u : State) : R u (m.next u) :=
    fun le => Nat.le_trans le (continuing_perform inner u).loans
  refine keeps_next (R := R) (inner m) (fun frame => inner (.unwind frame) rfl) ?_ ?_ ?_ ?_ s
    (Nat.le_refl _)
  · intro u signers bytes t begins le
    rw [begins.loans]
    exact le
  · exact fun _ le => le
  · exact fun _ _ _ le => le
  · exact fun _ le => le

end Move

namespace State

theorem number_of_issued (h : r ∈ s.trace Move.issued moves) : s.loans.next ≤ r.id.number := by
  induction moves generalizing s with
  | nil => cases h
  | cons m moves ih =>
    rcases List.mem_append.1 h with first | later
    · exact Nat.le_of_eq (Move.number_of_mem_issued first).1.symm
    · exact Nat.le_trans (m.loans_next_le s) (ih later)

/-- **A run gives no two references the same identity.** -/
theorem eq_of_issued (h : r ∈ s.trace Move.issued moves) (h' : r' ∈ s.trace Move.issued moves)
    (same : r'.id = r.id) : r' = r := by
  -- one that is given later has a greater number
  have apart {r r' : Reference} {s : State} {m : Move} {moves : List Move}
      (first : r ∈ Move.issued s m) (later : r' ∈ (m.next s).trace Move.issued moves) :
      r.id ≠ r'.id := by
    obtain ⟨number, next⟩ := Move.number_of_mem_issued first
    have above := number_of_issued later
    intro same
    rw [← same, number, next] at above
    exact Nat.not_succ_le_self _ above
  induction moves generalizing s with
  | nil => cases h
  | cons m moves ih =>
    rcases List.mem_append.1 h with first | later
    · rcases List.mem_append.1 h' with first' | later'
      · exact Move.eq_of_mem_issued first first'
      · exact absurd same.symm (apart first later')
    · rcases List.mem_append.1 h' with first' | later'
      · exact absurd same (apart first' later)
      · exact ih later later'

end State

/-! ## The run of a reference -/

/-- **What a reference does not show stays as it is.** Take any run from stored
state, and a reference that a call in it gave, and further moves in which
members are reached only through references that were given in the run, and no
other types are declared. As long as the reference is live, its target is the
same resource as when it was issued, or still none, of the same type and with
the same fields, and every field that the granted type does not show is as it
was. -/
theorem hidden_fields_kept {store : Store} {settings : Settings} {registry : Registry}
    {before moves : List Move} {o : Operation} {r : Reference} {s t : State}
    (reached : s = (State.ofStore store settings registry).after before)
    (issued : Returns o.perform s (.reference r) t)
    (genuine : ∀ o' r' member, Move.call o' ∈ moves → o'.reaches = some (r', member) →
      r' ∈ (State.ofStore store settings registry).trace Move.issued (before ++ .call o :: moves))
    (declared : ∀ types, Move.declare types ∈ moves → types = t.registry)
    (live : (t.after moves).loans.isLive r = true) :
    ∃ v w, Members.targetValue? t r.target = some v
      ∧ Members.targetValue? (t.after moves) r.target = some w
      ∧ v.AgreeOutside (t.registry.Shows r.granted.target) w := by
  have orderly : s.Orderly := reached ▸ (State.Orderly.ofStore store settings registry).after
  have among : r ∈ (State.ofStore store settings registry).trace Move.issued
      (before ++ .call o :: moves) := by
    rw [State.trace_append, ← reached]
    exact List.mem_append_right _ (List.mem_append_left _ (Move.mem_issued_iff.2 ⟨t, issued⟩))
  obtain ⟨v, points, pinned⟩ := orderly.pins_of_returns issued
  have pins : (t.after moves).Pins r fun g w =>
      g = t.registry ∧ v.AgreeOutside (t.registry.Shows r.granted.target) w := by
    refine (pinned _ ⟨rfl, .refl v⟩).after fun m mem => ⟨?_, ?_⟩
    · rintro o' rfl g r' member old new through - id shown written ⟨rfl, agree⟩
      obtain rfl := State.eq_of_issued among (genuine o' r' member mem through) id
      exact ⟨rfl, agree.trans (written.agreeOutside shown)⟩
    · rintro types rfl g w ⟨rfl, agree⟩
      exact ⟨declared types mem, agree⟩
  obtain ⟨w, found, -, agree⟩ := pins.held live
  exact ⟨v, w, points.found, found, agree⟩

namespace Scenario

/-- Alice saves a vault and publishes its slot, in a run of its own. -/
def publishing : List Move :=
  [.call (.start [alice]),
    .call (.createResource "Vault" [("coins", .array []), ("label", .str "alice")]),
    .call (.save alice vaultPath slottedVault.toValue),
    .call (.link alice receiverPath vaultPath slot)]

/-- Who has borrowed the slot puts something into the vault, and tries to change
its label. -/
def gifts : List Move :=
  [.call (.pushMember (vaultReference slot) "coins" (.uint 7)),
    .call (.setMember (vaultReference slot) "label" (.str "bob"))]

theorem returns_borrow_slot :
    Returns (Operation.borrow slotCapability slot).perform slotted
      (.reference (vaultReference slot)) lent := by
  have returned : Returns (Borrows.throughCapability slotCapability slot) slotted
      (vaultReference slot) lent := returns_borrow_slotted rfl isSubtype_slot
  exact returns_bind.2 ⟨_, lent, Custody.returns_ofBorrow.2 returned, returns_pure.2 ⟨rfl, rfl⟩⟩

/-- The slot shows the coins. -/
theorem slot_shows_coins : registry.Shows slot.target "coins" := by
  have itself : (registry.closure "Receiver").contains "Receiver" = true :=
    Registry.contains_closure_iff.2 ⟨"Receiver", List.mem_singleton_self _, .refl⟩
  have coins : (resource [] ["coins"]).members.contains "coins" = true :=
    SortedSet.contains_ofList_iff.2 (List.mem_singleton_self _)
  exact Registry.shows_restricted_cons.2 ⟨"Receiver", List.mem_singleton_self _,
    Registry.contains_closureMembers_iff.2 ⟨"Receiver", resource [] ["coins"], itself, rfl, coins⟩⟩

/-- The vault with what was put into it. -/
def giftedVault : Resource := slottedVault.putField "coins" (.array [.uint 7])

/-- The vault is stored with it. -/
def gifted : State := lent.writeAt (.stored alice vaultPath) giftedVault.toValue

/-- The gift is accepted. -/
theorem returns_gift :
    Returns (Operation.pushMember (vaultReference slot) "coins" (.uint 7)).perform lent .done
      gifted := by
  have checked : Returns (Members.checkAccess (vaultReference slot) "coins") lent () lent := by
    have granted : (registry.members slot.target).contains "coins" = true := slot_shows_coins
    unfold Members.checkAccess
    rw [returns_get_bind]
    show Returns (if !((registry.members slot.target).contains "coins") then throw _ else pure ())
      lent () lent
    rw [granted]
    rfl
  refine Reply.returns_ofUnit.2 ⟨returns_guarded.2 (returns_bind.2 ⟨(), lent, rfl, ?_⟩), rfl⟩
  exact returns_bind.2 ⟨(), lent, checked, rfl⟩

/-- The label cannot be changed. -/
theorem after_gifts : ∃ fault, lent.after gifts = gifted.note fault := by
  have given :
      (Move.call (.pushMember (vaultReference slot) "coins" (.uint 7))).next lent = gifted :=
    Move.next_of_returns (m := .call (.pushMember _ _ _)) returns_gift
  obtain ⟨fault, refused⟩ : ∃ fault,
      Fails (Operation.setMember (vaultReference slot) "label" (.str "bob")).perform gifted fault
        (gifted.note fault) :=
    Operation.refused_of_hidden rfl slot_hides_label
  refine ⟨fault, ?_⟩
  show (Move.call (.setMember _ _ _)).next ((Move.call (.pushMember _ _ _)).next lent) = _
  rw [given]
  exact Move.next_of_fails (m := .call (.setMember _ _ _)) refused

theorem among_gifts {o : Operation} {r : Reference} {member : String} (mem : .call o ∈ gifts)
    (through : o.reaches = some (r, member)) : r = vaultReference slot := by
  rcases List.mem_cons.1 mem with same | mem
  · cases same
    cases through
    rfl
  · cases List.mem_singleton.1 mem
    cases through
    rfl

end Scenario

/-- The coins in the vault changed, and its label did not. -/
theorem hidden_fields_kept_slot :
    let u := Scenario.lent.after Scenario.gifts
    u.loans.isLive (Scenario.vaultReference Scenario.slot) = true
      ∧ ∃ w, Members.targetValue? u (.stored Scenario.alice Scenario.vaultPath) = some w
        ∧ Table.get? w.slots "coins" = some (some (.array [.uint 7]))
        ∧ Table.get? w.slots "label" = some (some (.str "alice")) := by
  intro u
  obtain ⟨fault, done⟩ : ∃ fault, u = Scenario.gifted.note fault := Scenario.after_gifts
  have live : u.loans.isLive (Scenario.vaultReference Scenario.slot) = true := by
    rw [done]
    unfold State.note
    split <;> rfl
  have stored : Members.targetValue? u (.stored Scenario.alice Scenario.vaultPath)
      = some Scenario.giftedVault.toValue := by
    rw [done]
    unfold State.note
    split <;> rfl
  have given : Scenario.vaultReference Scenario.slot ∈
      (State.ofStore Store.empty Settings.standard Scenario.registry).trace Move.issued
        (Scenario.publishing ++ .call (.borrow Scenario.slotCapability Scenario.slot)
          :: Scenario.gifts) := by
    rw [State.trace_append]
    exact List.mem_append_right _ (List.mem_append_left _
      (Move.mem_issued_iff.2 ⟨_, Scenario.returns_borrow_slot⟩))
  obtain ⟨v, w, lent, found, agree⟩ := @hidden_fields_kept Store.empty Settings.standard
    Scenario.registry Scenario.publishing Scenario.gifts _ _ _ _ rfl Scenario.returns_borrow_slot
    (fun o r member mem through => Scenario.among_gifts mem through ▸ given)
    (fun types mem => by simp [Scenario.gifts] at mem) live
  obtain rfl : w = Scenario.giftedVault.toValue := Option.some.inj (found.symm.trans stored)
  obtain rfl : v = Scenario.slottedVault.toValue := Option.some.inj (lent.symm.trans rfl)
  exact ⟨live, _, stored, rfl, (agree.hidden "label" Scenario.slot_hides_label).trans rfl⟩

end Custody
