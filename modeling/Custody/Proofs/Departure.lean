import Custody.Proofs.Contents

/-!
# Closing a frame catches what its locals hold

The check of `Frames.pop` never looks at the locals of the frame: it scans the
ledger for places that lie in one. It is right because the ledger says where
everything is. A place lies in a local of a frame exactly when it was reached
from that local through containers alone, since what a resource owns is recorded
in the fields of its owner, wherever the owner stands; and frames are told apart
by their identities. So in every state that a disciplined host can reach inside a
transaction that is not doomed, closing the innermost frame returns if and only if
no live local of it has a resource in it, and otherwise it names one that is there
(`pop_exact`). Either way the frame is closed, the references that end are the
ones it asked for and the ones onto its locals, and nothing else has changed.
-/

namespace Custody

open Ledger CustodyM

variable {s t : State} {hands : List Resource} {f : Frame} {rest : List Frame}
  {id : ResourceId} {place spot : Place}

/-! ## What a frame holds -/

/-- **A frame holds a resource** at a place: it is in a live local, reached through
containers alone. -/
def Frame.Holds (f : Frame) (id : ResourceId) (place : Place) : Prop :=
  ∃ name v, (name, .live v) ∈ f.locals ∧ v.Found (.binding f.id name) id place
    ∧ place.base = .binding f.id name

namespace Value

variable {v : Value}

/-- What is found in a frame was looked for in that frame. -/
theorem Found.frame? {frame : FrameId} (found : v.Found place id spot)
    (there : spot.frame? = some frame) : spot.base = place.base ∧ place.frame? = some frame := by
  unfold Place.frame? at there ⊢
  rcases found.base with same | ⟨_, _, _, _, field⟩
  · exact ⟨same, same ▸ there⟩
  · rw [field] at there
    cases there

/-- A regular value with a resource in it has one that is reached through
containers alone. -/
theorem exists_found (regular : v.Regular) (filled : v.identities ≠ []) (place : Place) :
    ∃ id spot, v.Found place id spot ∧ spot.base = place.base := by
  have rooted : v.held ≠ [] := by
    intro none
    have listed := identities_perm_ids regular
    rw [ids_of_resources_eq_nil (resources_eq_nil_iff.2 none)] at listed
    exact filled (List.perm_nil.1 listed)
  obtain ⟨root, mem⟩ := List.exists_mem_of_ne_nil _ rooted
  have placed : (root.2.id, place.within root.1) ∈ v.placings place := by
    rw [placings_eq]
    exact List.mem_map_of_mem mem
  exact ⟨_, _, found_of_mem_placings placed, Place.base_within place root.1⟩

/-- Where there is no resource, none is found. -/
theorem not_found (regular : v.Regular) (none : v.identities = []) : ¬v.Found place id spot := by
  intro found
  have listed : id ∈ v.ids := by
    rw [← map_fst_inventory v place]
    exact List.mem_map_of_mem (mem_inventory_iff.2 found)
  have empty : v.ids = [] := by
    have same := identities_perm_ids regular
    rw [none] at same
    exact List.nil_perm.1 same
  rw [empty] at listed
  cases listed

end Value

/-- **A frame holds nothing** exactly when no live local of it has a resource in
it, at whatever depth. -/
theorem Frame.holds_nothing_iff (regular : ∀ b ∈ f.locals, b.2.Regular) :
    (∀ id place, ¬f.Holds id place)
      ↔ ∀ name v, (name, .live v) ∈ f.locals → v.identities = [] := by
  constructor
  · intro nothing name v bound
    by_contra filled
    obtain ⟨id, spot, found, based⟩ :=
      Value.exists_found (regular _ bound) filled (.binding f.id name)
    exact nothing id spot ⟨name, v, bound, found, based⟩
  · rintro none id place ⟨name, v, bound, found, -⟩
    exact Value.not_found (regular _ bound) (none name v bound) found

/-- **The ledger says what a frame holds**: while everything is in order, the
records rooted in an open frame are of what its locals hold. -/
theorem State.InOrder.mem_heldIn_iff (o : s.InOrder hands) (ordered : s.stack.Ordered)
    (opened : f ∈ s.stack.frames) : (id, place) ∈ s.ledger.heldIn f.id ↔ f.Holds id place := by
  rw [Ledger.mem_heldIn_iff]
  constructor
  · rintro ⟨known, there⟩
    rcases State.mem_census_iff.1 ((o.reflects.recorded _ _).2 ⟨known, rfl⟩) with
      ⟨_, _, _, afloat⟩ | ⟨place, same, placed⟩
    · cases afloat
    · obtain rfl := Holding.owned.inj same
      cases placed with
      | stored _ inside => exact nomatch (inside.frame? there).2
      | inHand _ _ inside => exact nomatch (inside.frame? there).2
      | @bound g name v _ _ openedToo bound inside =>
        -- two open frames of one identity are the same frame
        obtain ⟨based, same⟩ := inside.frame? there
        obtain rfl : g = f :=
          List.inj_on_of_nodup_map ordered.nodup openedToo opened (Option.some.inj same)
        exact ⟨name, v, bound, inside, based⟩
  · rintro ⟨name, v, bound, found, based⟩
    have listed : (id, .owned place) ∈ s.census hands :=
      State.mem_census_iff.2 (.inr ⟨place, rfl, .bound opened bound found⟩)
    refine ⟨o.reflects.holding? listed, ?_⟩
    unfold Place.frame?
    rw [based]

/-! ## Closing the innermost frame -/

/-- **What ends with a frame**: the references it asked for, and those onto its
locals. -/
theorem Loans.mem_releaseFrame_iff {l : Loans} {frame : FrameId} {target : Target} {loan : Loan} :
    (target, loan) ∈ (l.releaseFrame frame).outstanding
      ↔ (target, loan) ∈ l.outstanding ∧ loan.frame ≠ frame
        ∧ ∀ name, target ≠ .binding frame name := by
  unfold releaseFrame endsWith
  rw [List.mem_filter]
  refine and_congr_right fun _ => ?_
  cases target with
  | stored => simp
  | binding owner name =>
    simp only [Bool.not_or, Bool.and_eq_true, Bool.not_eq_true', decide_eq_false_iff_not, ne_eq,
      Target.binding.injEq, not_and]
    refine and_congr_right fun _ => ⟨fun apart _ same => absurd same apart, fun apart same => ?_⟩
    exact apart name same rfl

namespace Frames

/-- **Closing the innermost frame** goes well when nothing is recorded in it, and
names something that is recorded there otherwise. -/
theorem outcome_pop (innermost : s.stack.frames = f :: rest) :
    ∃ result t, outcome (pop f.id) s = (result, t)
      ∧ (result = .ok () ∧ s.ledger.heldIn f.id = []
        ∨ ∃ id place, (id, place) ∈ s.ledger.heldIn f.id
          ∧ result = .error (.unhandledResource id place.text))
      ∧ t.stack.frames = rest ∧ t.loans = s.loans.releaseFrame f.id
      ∧ t.ledger = s.ledger ∧ t.store = s.store := by
  have popped : s.stack.pop f.id = .ok (f, { s.stack with frames := rest }) := by
    unfold CallStack.pop
    rw [innermost]
    exact if_pos rfl
  cases first : (s.ledger.heldIn f.id).head? with
  | none =>
    have empty := List.head?_eq_none_iff.1 first
    exact ⟨_, _, returns_pop popped empty, .inl ⟨rfl, empty⟩, rfl, rfl, rfl, rfl⟩
  | some e =>
    obtain ⟨id, place⟩ := e
    -- the frame is closed before the ledger is looked at
    let closed : State :=
      { s with stack := { s.stack with frames := rest }, loans := s.loans.releaseFrame f.id }
    have failed : Fails (pop f.id) s (.unhandledResource id place.text)
        (closed.note (.unhandledResource id place.text)) := by
      unfold pop
      refine fails_guarded.2 ⟨_, ?_, rfl⟩
      rw [fails_get_bind]
      refine fails_bind.2 (.inr ⟨_, _, returns_ofExcept.2 ⟨popped, rfl⟩, ?_⟩)
      dsimp only
      rw [fails_modify_bind, fails_get_bind]
      simp only [first]
      exact fails_throw.2 ⟨rfl, rfl⟩
    refine ⟨_, _, failed, .inr ⟨id, place, List.mem_of_head? first, rfl⟩, ?_⟩
    unfold State.note
    split <;> exact ⟨rfl, rfl, rfl, rfl⟩

/-- **Closing a frame catches exactly the unhandled resources.** In every state a
disciplined host can reach inside a transaction that is not doomed, closing the
innermost frame returns if and only if no live local of it has a resource in it, at
whatever depth, and otherwise fails by naming a resource that one of them holds. In
both cases the frame is closed, the references it asked for and those onto its
locals have ended, and no other; and no record, no entry of the store and no other
frame has changed. -/
theorem pop_exact {settings : Settings} {registry : Registry}
    (reached : Reachable settings registry s hands) (running : s.inTransaction = true)
    (clean : s.isPoisoned = false) (innermost : s.stack.frames = f :: rest) :
    ∃ result t, outcome (pop f.id) s = (result, t)
      ∧ (result = .ok () ↔ ∀ name v, (name, .live v) ∈ f.locals → v.identities = [])
      ∧ (∀ fault, result = .error fault → ∃ id place, f.Holds id place
          ∧ fault = .unhandledResource id place.text)
      ∧ t.stack.frames = rest
      ∧ (∀ target loan, (target, loan) ∈ t.loans.outstanding
          ↔ (target, loan) ∈ s.loans.outstanding ∧ loan.frame ≠ f.id
            ∧ ∀ name, target ≠ .binding f.id name)
      ∧ t.ledger = s.ledger ∧ t.store = s.store := by
  have o : s.InOrder hands := reached.sound.inOrder clean
  obtain ⟨tx, htx⟩ := Option.isSome_iff_exists.1 running
  have opened : f ∈ s.stack.frames := innermost ▸ List.mem_cons_self
  have holds {id : ResourceId} {place : Place} :
      (id, place) ∈ s.ledger.heldIn f.id ↔ f.Holds id place :=
    o.mem_heldIn_iff (reached.sound.kept tx htx).1 opened
  have nothing := Frame.holds_nothing_iff (o.locals f opened)
  obtain ⟨result, t, done, verdict, frames, loans, ledger, store⟩ := outcome_pop innermost
  refine ⟨result, t, done, ?_, fun fault failed => ?_, frames, fun target loan => ?_, ledger, store⟩
  · rw [← nothing]
    rcases verdict with ⟨rfl, empty⟩ | ⟨id, place, held, rfl⟩
    · refine iff_of_true rfl fun id place held => ?_
      have recorded := holds.2 held
      rw [empty] at recorded
      cases recorded
    · exact iff_of_false (fun same => nomatch same) fun none => none id place (holds.1 held)
  · rcases verdict with ⟨rfl, -⟩ | ⟨id, place, held, rfl⟩
    · cases failed
    · exact ⟨id, place, holds.1 held, (Except.error.inj failed).symm⟩
  · rw [loans]
    exact Loans.mem_releaseFrame_iff

end Frames

namespace Scenario

/-- Alice puts the coin into a bag. -/
def bindBag : Operation := .bind ⟨1⟩ "bag" (.array [keptCoin.toValue])

/-- A frame is open in which a bag holds a coin. -/
def bagged : State := begun.after [.call .pushFrame, .call makeCoin, .call bindBag]

theorem permitted_bindBag : bindBag.Permitted :=
  .of_few (Nat.le_refl 1) rfl (List.forall_mem_singleton.2 regular_coins)

theorem reachable_bagged : Reachable Settings.standard registry bagged [] := by
  have opened := Run.nil.snoc (@Step.returned begun [] .pushFrame [] (.frame ⟨1⟩) _ rfl
    (.of_few (Nat.zero_le 1) rfl (List.forall_mem_nil _)) (by decide) (List.Perm.refl _) rfl)
  have coin := opened.snoc (@Step.returned _ [] makeCoin []
    (.value (some keptCoin.toValue)) _ rfl (permitted_coin (by decide)) (by decide)
    (List.Perm.refl _) rfl)
  have bag := coin.snoc (@Step.returned _ [keptCoin] bindBag [] .done _ rfl permitted_bindBag
    (by decide) (List.Perm.refl _) rfl)
  exact bag.reachable (Reachable.start .fresh [alice] writable_fresh)

end Scenario

/-- The coin in the bag is caught, with the place where it is. -/
theorem Frames.pop_exact_bagged :
    ∃ t, Fails (Frames.pop ⟨1⟩) Scenario.bagged (.unhandledResource ⟨1⟩ "frame1:bag[0]") t
      ∧ t.stack.frames = [] ∧ t.ledger = Scenario.bagged.ledger
      ∧ t.store = Scenario.bagged.store := by
  have innermost : Scenario.bagged.stack.frames
      = [⟨⟨1⟩, [("bag", .live (.array [Scenario.keptCoin.toValue]))]⟩] := rfl
  obtain ⟨result, t, done, -, -, frames, -, ledger, store⟩ :=
    Frames.pop_exact Scenario.reachable_bagged rfl rfl innermost
  have caught : (outcome (Frames.pop ⟨1⟩) Scenario.bagged).1
      = .error (.unhandledResource ⟨1⟩ "frame1:bag[0]") := rfl
  rw [done] at caught
  exact ⟨t, done.trans (Prod.ext caught rfl), frames, ledger, store⟩

end Custody
