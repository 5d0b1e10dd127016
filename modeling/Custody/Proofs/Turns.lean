import Custody.Proofs.Lifetimes
import Custody.Proofs.Numbering
import Mathlib.Data.List.Chain

/-!
# Turns of a resource

A resource that exists is with the custodian or with the host, and it changes
sides by a **handover**: it is handed out, or it is taken in. The ledger knows
on which side it is, since *in flight* means that the host has it. So what a
ledger records of an identity is a state of a small automaton (`Phase`), whose
steps are the handovers, and a sequence of handovers that leads from one state
to another alternates (`Passes.alternates`).

The automaton has two more steps. A resource that is taken in to be destroyed
is gone, and so is one that is destroyed together with its owner, which is no
handover of its own. From there no step leads on.

`Ledger.Turns` says of a change of the ledger which handovers it makes. There
is one lemma for each action on the ledger, and none of them asks where the
values come from: what a host made up passes the checks or it does not.
-/

namespace Custody

open Ledger

/-! ## Handovers -/

/-- **The way a resource goes.** -/
inductive Turn where
  /-- From the custodian to the host. -/
  | handedOut
  /-- From the host to the custodian. -/
  | takenIn
deriving DecidableEq

/-- **A handover** of a resource. -/
structure Handover where
  id : ResourceId
  turn : Turn
deriving DecidableEq

/-- The handovers by which resources are handed out. -/
def handOut (ids : List ResourceId) : List Handover := ids.map fun id => ⟨id, .handedOut⟩

/-- The handovers by which resources are taken in. -/
def takeIn (ids : List ResourceId) : List Handover := ids.map fun id => ⟨id, .takenIn⟩

/-- **The turns of a resource** among handovers. -/
def turnsOf (id : ResourceId) (hs : List Handover) : List Turn :=
  (hs.filter fun h => h.id = id).map Handover.turn

/-- Handing out two lists is handing out one and then the other. -/
@[simp] theorem handOut_append (ids ids' : List ResourceId) :
    handOut (ids ++ ids') = handOut ids ++ handOut ids' := List.map_append

/-- Taking in two lists is taking in one and then the other. -/
@[simp] theorem takeIn_append (ids ids' : List ResourceId) :
    takeIn (ids ++ ids') = takeIn ids ++ takeIn ids' := List.map_append

section turnsOf

variable {id other : ResourceId} {ids : List ResourceId} {hs hs' : List Handover}

/-- The turns of an identity in two histories are those in the one and then
those in the other. -/
@[simp] theorem turnsOf_append (id : ResourceId) (hs hs' : List Handover) :
    turnsOf id (hs ++ hs') = turnsOf id hs ++ turnsOf id hs' := by
  unfold turnsOf
  rw [List.filter_append, List.map_append]

/-- An identity has no turns exactly when no handover is about it. -/
theorem turnsOf_eq_nil_iff : turnsOf id hs = [] ↔ ∀ h ∈ hs, h.id ≠ id := by
  unfold turnsOf
  rw [List.map_eq_nil_iff, List.filter_eq_nil_iff]
  simp

/-- The turns of an identity are those it was given. -/
theorem turnsOf_map_mk (id : ResourceId) (ts : List Turn) :
    turnsOf id (ts.map (Handover.mk id)) = ts := by
  unfold turnsOf
  rw [List.filter_eq_self.2 fun h mem => by
    obtain ⟨t, -, rfl⟩ := List.mem_map.1 mem
    simp, List.map_map]
  exact List.map_id ts

/-- Handovers of one identity are no turns of another. -/
theorem turnsOf_map_mk_of_ne (ne : other ≠ id) (ts : List Turn) :
    turnsOf other (ts.map (Handover.mk id)) = [] := by
  refine turnsOf_eq_nil_iff.2 fun h mem => ?_
  obtain ⟨t, -, rfl⟩ := List.mem_map.1 mem
  exact ne.symm

/-- Handed over one way, a resource takes the same turn as often as it is
listed. -/
theorem turnsOf_map (id : ResourceId) (t : Turn) (ids : List ResourceId) :
    turnsOf id (ids.map fun id => ⟨id, t⟩) = List.replicate (ids.count id) t := by
  induction ids with
  | nil => rfl
  | cons other ids ih =>
    rw [List.map_cons, ← List.singleton_append, turnsOf_append, ih, List.count_cons]
    by_cases same : other = id
    · simp [turnsOf, same, List.replicate_succ]
    · simp [turnsOf, same]

/-- An identity handed out with a list has a turn for each time the list names
it. -/
theorem turnsOf_handOut (id : ResourceId) (ids : List ResourceId) :
    turnsOf id (handOut ids) = List.replicate (ids.count id) .handedOut :=
  turnsOf_map id .handedOut ids

/-- An identity taken in with a list has a turn for each time the list names it.
-/
theorem turnsOf_takeIn (id : ResourceId) (ids : List ResourceId) :
    turnsOf id (takeIn ids) = List.replicate (ids.count id) .takenIn :=
  turnsOf_map id .takenIn ids

/-- Handing out a list is no turn exactly of the identities it does not name. -/
theorem turnsOf_handOut_eq_nil_iff : turnsOf id (handOut ids) = [] ↔ id ∉ ids := by
  rw [turnsOf_handOut, List.replicate_eq_nil_iff, List.count_eq_zero]

/-- Taking in a list is no turn exactly of the identities it does not name. -/
theorem turnsOf_takeIn_eq_nil_iff : turnsOf id (takeIn ids) = [] ↔ id ∉ ids := by
  rw [turnsOf_takeIn, List.replicate_eq_nil_iff, List.count_eq_zero]

end turnsOf

/-! ## The automaton -/

/-- **On which side a resource is.** -/
inductive Phase where
  /-- With the custodian, or not made yet. -/
  | kept
  /-- With the host. -/
  | out
  /-- Destroyed. -/
  | gone
deriving DecidableEq

/-- **The turns lead from one phase to the other.** -/
inductive Passes : Phase → List Turn → Phase → Prop where
  | done {p : Phase} : Passes p [] p
  | handedOut {ts : List Turn} {q : Phase} (rest : Passes .out ts q) :
    Passes .kept (.handedOut :: ts) q
  | takenIn {ts : List Turn} {q : Phase} (rest : Passes .kept ts q) :
    Passes .out (.takenIn :: ts) q
  /-- It is taken in and destroyed. -/
  | takenDown {ts : List Turn} {q : Phase} (rest : Passes .gone ts q) :
    Passes .out (.takenIn :: ts) q
  /-- It is destroyed together with its owner. -/
  | buried {ts : List Turn} {q : Phase} (rest : Passes .gone ts q) : Passes .kept ts q

/-- The turn a resource can take next. -/
def Phase.next? : Phase → Option Turn
  | kept => some .handedOut
  | out => some .takenIn
  | gone => none

/-- Only what is out can be taken in. -/
theorem Phase.eq_out_of_next? {p : Phase} (h : p.next? = some .takenIn) : p = .out := by
  cases p with
  | out => rfl
  | kept | gone => cases h

namespace Passes

variable {p q r : Phase} {ts ts' : List Turn}

/-- Passages through phases compose. -/
theorem trans (h : Passes p ts q) (h' : Passes q ts' r) : Passes p (ts ++ ts') r := by
  induction h with
  | done => exact h'
  | handedOut _ ih => exact .handedOut (ih h')
  | takenIn _ ih => exact .takenIn (ih h')
  | takenDown _ ih => exact .takenDown (ih h')
  | buried _ ih => exact .buried (ih h')

/-- What is gone takes no turn. -/
theorem of_gone (h : Passes .gone ts q) : ts = [] ∧ q = .gone := by
  cases h
  exact ⟨rfl, rfl⟩

/-- The first turn is that of the phase. -/
theorem next?_eq (h : Passes p ts q) : ∀ t ∈ ts.head?, p.next? = some t := by
  cases h with
  | done => exact fun t mem => nomatch mem
  | handedOut | takenIn | takenDown =>
    intro t mem
    exact mem
  | buried rest =>
    obtain ⟨rfl, -⟩ := of_gone rest
    exact fun t mem => nomatch mem

/-- **Turns that lead somewhere alternate.** -/
theorem alternates (h : Passes p ts q) : ts.IsChain (· ≠ ·) := by
  induction h with
  | done => exact List.isChain_nil
  | handedOut rest ih | takenIn rest ih | takenDown rest ih =>
    refine List.isChain_cons.2 ⟨fun t mem same => ?_, ih⟩
    have next := rest.next?_eq t mem
    subst same
    cases next
  | buried _ ih => exact ih

end Passes

/-- The phase that a record stands for. -/
def Holding.phase : Holding → Phase
  | owned _ => .kept
  | inFlight => .out
  | destroyed => .gone

namespace Ledger

/-- The phase of an identity. -/
def phase (l : Ledger) (id : ResourceId) : Phase :=
  ((l.holding? id).map Holding.phase).getD .kept

/-- **The change from one ledger to the other makes the handovers**: of every
identity, its turns lead from the phase before to the phase after. -/
def Turns (l l' : Ledger) (hs : List Handover) : Prop :=
  ∀ id, Passes (l.phase id) (turnsOf id hs) (l'.phase id)

variable {l l' l'' : Ledger} {id : ResourceId} {place : Place} {hs hs' : List Handover}
  {ids ids' : List ResourceId}

/-- The phase of a recorded identity is that of its record. -/
theorem phase_of_holding? {h : Holding} (recorded : l.holding? id = some h) :
    l.phase id = h.phase := by
  rw [phase, recorded]
  rfl

/-- Only what is in flight is with the host. -/
theorem holding?_of_out (out : l.phase id = .out) : l.holding? id = some .inFlight := by
  cases recorded : l.holding? id with
  | none =>
    rw [phase, recorded] at out
    cases out
  | some h =>
    rw [phase_of_holding? recorded] at out
    cases h with
    | inFlight => rfl
    | owned | destroyed => cases out

/-- Writing a record sets the phase of its identity and of no other. -/
theorem phase_record (l : Ledger) (id other : ResourceId) (h : Holding) :
    (l.record id h).phase other = if other = id then h.phase else l.phase other := by
  unfold phase
  rw [holding?_record]
  split <;> rfl

namespace Turns

/-- Without handovers the phases stay. -/
theorem refl (l : Ledger) : l.Turns l [] := fun _ => .done

/-- Histories of handovers compose. -/
theorem trans (h : l.Turns l' hs) (h' : l'.Turns l'' hs') : l.Turns l'' (hs ++ hs') := by
  intro id
  rw [turnsOf_append]
  exact (h id).trans (h' id)

/-- Entering a record makes the turns that lead to its phase. -/
theorem record {h : Holding} (ts : List Turn) (passes : Passes (l.phase id) ts h.phase) :
    l.Turns (l.record id h) (ts.map (Handover.mk id)) := by
  intro other
  rw [phase_record]
  split
  next same =>
    rw [same, turnsOf_map_mk]
    exact passes
  next ne =>
    rw [turnsOf_map_mk_of_ne ne]
    exact .done

/-- What is handed out was kept. -/
theorem phase_of_handOut (h : l.Turns l' (handOut ids)) (mem : id ∈ ids) : l.phase id = .kept := by
  have passes := h id
  obtain ⟨n, count⟩ := Nat.exists_eq_add_one.2 (List.count_pos_iff.2 mem)
  rw [turnsOf_handOut, count, List.replicate_succ] at passes
  have next := passes.next?_eq _ rfl
  cases phase : l.phase id with
  | kept => rfl
  | out | gone =>
    rw [phase] at next
    cases next

/-- **What is taken in first** was in flight, and is taken in once. -/
theorem of_takeIn (h : l.Turns l' (takeIn ids ++ hs)) :
    ids.Nodup ∧ ∀ id ∈ ids, l.holding? id = some .inFlight := by
  have passes (id : ResourceId) :
      Passes (l.phase id) (List.replicate (ids.count id) .takenIn ++ turnsOf id hs)
        (l'.phase id) := by
    have := h id
    rwa [turnsOf_append, turnsOf_takeIn] at this
  constructor
  · refine List.nodup_iff_count_le_one.2 fun id => Nat.le_of_not_lt fun twice => ?_
    -- two turns one after the other would be the same
    obtain ⟨n, count⟩ := Nat.exists_eq_add_of_le twice
    have alternates := (passes id).alternates
    rw [count, Nat.add_comm, List.replicate_succ, List.replicate_succ] at alternates
    exact (List.isChain_cons.1 alternates).1 _ rfl rfl
  · intro id mem
    obtain ⟨n, count⟩ := Nat.exists_eq_add_one.2 (List.count_pos_iff.2 mem)
    have first := passes id
    rw [count, List.replicate_succ] at first
    exact holding?_of_out (Phase.eq_out_of_next? (first.next?_eq _ rfl))

/-- Resources that are apart may be handed over in any order. -/
theorem swap (h : l.Turns l' (handOut ids ++ takeIn ids')) (apart : ∀ id ∈ ids', id ∉ ids) :
    l.Turns l' (takeIn ids' ++ handOut ids) := by
  intro id
  have passes := h id
  by_cases mem : id ∈ ids'
  · have none := turnsOf_handOut_eq_nil_iff.2 (apart id mem)
    simp only [turnsOf_append, none, List.nil_append, List.append_nil] at passes ⊢
    exact passes
  · have none := turnsOf_takeIn_eq_nil_iff.2 mem
    simp only [turnsOf_append, none, List.nil_append, List.append_nil] at passes ⊢
    exact passes

end Turns

/-! ## Entries -/

/-- Settling an identity takes it in. -/
theorem turns_settle (h : Returns (settle id place) l () l') : l.Turns l' (takeIn [id]) := by
  obtain ⟨flying, rfl⟩ := returns_settle.1 h
  refine Turns.record [.takenIn] ?_
  rw [phase_of_holding? flying]
  exact .takenIn .done

/-- Releasing an identity hands it out. -/
theorem turns_release (h : Returns (release id place) l () l') : l.Turns l' (handOut [id]) := by
  obtain ⟨held, rfl⟩ := returns_release.1 h
  refine Turns.record [.handedOut] ?_
  rw [phase_of_holding? held]
  exact .handedOut .done

/-- Relocating an identity is no handover. -/
theorem turns_relocate (l : Ledger) (id : ResourceId) (place : Place) :
    l.Turns (l.relocate id place) [] := by
  unfold relocate
  split
  next held =>
    refine Turns.record [] ?_
    rw [phase_of_holding? held]
    exact .done
  · exact Turns.refl l

/-- A new identity was not in use. -/
theorem turns_mint (numbered : l.Numbered) : l.Turns l.mint.2 (handOut [⟨l.next⟩]) := by
  have fresh : l.phase ⟨l.next⟩ = .kept := by
    unfold phase
    cases known : l.holding? ⟨l.next⟩ with
    | none => rfl
    | some h => exact absurd (numbered _ h known) (Nat.lt_irrefl _)
  refine Turns.record [.handedOut] ?_
  rw [fresh]
  exact .handedOut .done

/-- The handovers of actions one after the other. -/
theorem turns_forM {γ : Type} {f : γ → LedgerM Unit} {made : γ → List Handover}
    (each : ∀ x l l', Returns (f x) l () l' → l.Turns l' (made x)) {xs : List γ}
    (h : Returns (xs.forM f) l () l') : l.Turns l' (xs.flatMap made) := by
  induction xs generalizing l with
  | nil =>
    obtain rfl := (returns_pure.1 h).2
    exact Turns.refl l
  | cons x xs ih =>
    obtain ⟨_, u, first, others⟩ := returns_bind.1 h
    exact (each x l u first).trans (ih others)

/-! ## Whole values -/

variable {v : Value}

/-- **A settlement takes in** the roots of the value. -/
theorem turns_settleValue (h : Returns (settleValue v place) l () l') :
    l.Turns l' (takeIn v.rootIds) := by
  obtain ⟨_, u, checked, settled⟩ := returns_bind.1 h
  obtain rfl := (keeps_expectDistinct (R := Eq)).of_returns checked
  have turns := turns_forM (fun p l l' => turns_settle) settled
  rw [← v.map_fst_placings place, takeIn, List.map_map, ← List.flatMap_pure_eq_map]
  exact turns

/-- **A release hands out** the roots of the value. -/
theorem turns_releaseValue (h : Returns (releaseValue v place) l () l') :
    l.Turns l' (handOut v.rootIds) := by
  obtain ⟨_, u, checked, released⟩ := returns_bind.1 h
  obtain ⟨-, rfl⟩ := returns_expectHeld.1 checked
  have turns := turns_forM (fun p l l' => turns_release) released
  rw [← v.map_fst_placings place, handOut, List.map_map, ← List.flatMap_pure_eq_map]
  exact turns

end Ledger

/-! ## Elements and fields -/

namespace Elements

variable {l l' : Ledger} {container container' v : Value} {place : Place} {name field : String}
  {key : Key} {r r' : Resource}

/-- Following the elements that shifted is no handover. -/
theorem turns_relocateFrom {start : Nat} {elements : List Value}
    (h : Returns (relocateFrom place start elements) l () l') : l.Turns l' [] := by
  obtain rfl := returns_modify.1 h
  induction placingsFrom place start elements generalizing l with
  | nil => exact Turns.refl l
  | cons p placings ih => exact (turns_relocate l p.1 p.2).trans (ih rfl)

/-- **Putting an element in takes in** its roots. -/
theorem Inserted.turns (h : Inserted place key v l l' container container') :
    l.Turns l' (takeIn v.rootIds) := by
  cases h with
  | array settled moved =>
    have turns := (turns_settleValue settled).trans (turns_relocateFrom moved)
    rwa [List.append_nil] at turns
  | dict _ settled => exact turns_settleValue settled

/-- **Taking an element out hands out** its roots. -/
theorem Removed.turns {taken : Option Value}
    (h : Removed place key l l' container taken container') :
    l.Turns l' (handOut (taken.toList.flatMap Value.rootIds)) := by
  cases h with
  | nothing => exact Turns.refl l
  | array released moved =>
    have turns := (turns_releaseValue released).trans (turns_relocateFrom moved)
    rw [List.append_nil] at turns
    rwa [Option.toList_some, List.flatMap_singleton]
  | dict _ released =>
    rw [Option.toList_some, List.flatMap_singleton]
    exact turns_releaseValue released

end Elements

/-! ## Making -/

namespace Construction

variable {l l' : Ledger} {owner id : ResourceId} {fields : List (String × Value)}

/-- Settling the fields of a resource takes in the roots they hold. -/
theorem turns_settleFields (h : Returns (settleFields owner fields) l () l') :
    l.Turns l' (takeIn (fields.flatMap fun f => f.2.rootIds)) := by
  induction fields generalizing l with
  | nil =>
    obtain rfl := (returns_pure.1 h).2
    exact Turns.refl l
  | cons f fields ih =>
    obtain ⟨_, u, first, others⟩ := returns_bind.1 h
    rw [List.flatMap_cons, takeIn_append]
    exact (turns_settleValue first).trans (ih others)

/-- The check of a list of identities passes only when each is in flight. -/
theorem returns_forM_expectInFlight {ids : List ResourceId} {u : Unit}
    (h : Returns (ids.forM expectInFlight) l u l') :
    ∀ id ∈ ids, l.holding? id = some .inFlight := by
  induction ids generalizing l with
  | nil => exact fun _ mem => nomatch mem
  | cons id ids ih =>
    obtain ⟨_, w, first, others⟩ := returns_bind.1 h
    obtain ⟨flying, rfl⟩ := returns_expectInFlight.1 first
    exact List.forall_mem_cons.2 ⟨flying, ih others⟩

/-- What a new resource is given is in flight before it is made. -/
theorem inFlight_of_enter (h : Returns (enter fields) l id l') :
    ∀ root ∈ fields.flatMap fun f => f.2.rootIds, l.holding? root = some .inFlight := by
  obtain ⟨_, u, checked, -⟩ := returns_bind.1 h
  exact returns_forM_expectInFlight checked

/-- **Making a resource takes in** what its fields are given and hands out
the resource. -/
theorem turns_enter (numbered : l.Numbered) (h : Returns (enter fields) l id l') :
    l.Turns l' (takeIn (fields.flatMap fun f => f.2.rootIds) ++ handOut [id]) := by
  have given := inFlight_of_enter h
  obtain ⟨rfl, settled⟩ := returns_enter h
  refine ((turns_mint numbered).trans (turns_settleFields settled)).swap fun root mem new => ?_
  -- the new identity was not on record, and what is given was
  obtain rfl := List.mem_singleton.1 new
  exact Nat.lt_irrefl _ (numbered _ _ (given _ mem))

end Construction

/-! ## Tearing down -/

namespace Value

variable {β : Type} {parts : List β} {part : β → Except Fault TeardownOrder}
  {order : TeardownOrder}

/-- A step of the whole is in the order of a part, which is in that of the
whole. -/
theorem exists_of_mem_joinOrders (h : joinOrders (parts.map part) = .ok order)
    {step : ResourceId × Option Place} (mem : step ∈ order) :
    ∃ x ∈ parts, ∃ o, part x = .ok o ∧ step ∈ o ∧ ∀ other ∈ o, other ∈ order := by
  induction parts generalizing order with
  | nil =>
    obtain rfl := Except.ok.inj h
    cases mem
  | cons x parts ih =>
    rw [List.map_cons, joinOrders] at h
    obtain ⟨first, hx, h⟩ := bind_eq_ok_iff.1 h
    obtain ⟨others, hrest, h⟩ := bind_eq_ok_iff.1 h
    obtain rfl := Except.ok.inj h
    rcases List.mem_append.1 mem with mem | mem
    · exact ⟨x, List.mem_cons_self, first, hx, mem, fun other => List.mem_append_left _⟩
    · obtain ⟨y, hy, o, ho, inside, among⟩ := ih hrest mem
      exact ⟨y, List.mem_cons_of_mem _ hy, o, ho, inside,
        fun other mem => List.mem_append_right _ (among other mem)⟩

/-- What holds of every step in the orders of the parts holds of every step
of the whole. -/
theorem forall_mem_joinOrders {P : ResourceId × Option Place → Prop}
    (each : ∀ x ∈ parts, ∀ o, part x = .ok o → ∀ step ∈ o, P step)
    (h : joinOrders (parts.map part) = .ok order) : ∀ step ∈ order, P step := by
  intro step mem
  obtain ⟨x, hx, o, ho, inside, -⟩ := exists_of_mem_joinOrders h mem
  exact each x hx o ho step inside

/-- Everything in the teardown order of a value that stands somewhere is
held somewhere. -/
theorem isSome_of_teardown {v : Value} {place : Place} {order : TeardownOrder}
    (h : v.teardown (some place) = .ok order) : ∀ step ∈ order, step.2.isSome = true := by
  induction v using Value.sortInduction generalizing place order with
  | flat v flat =>
    rw [teardown_flat flat] at h
    obtain rfl := Except.ok.inj h
    exact fun _ mem => nomatch mem
  | container v hv ih =>
    rw [teardown_container hv] at h
    exact forall_mem_joinOrders (fun e he o ho => ih e.2 (mem_parts_of_mem_keyed he) ho) h
  | struct typeName fields _ =>
    rw [teardown_struct] at h
    obtain rfl := Except.ok.inj h
    exact fun _ mem => nomatch mem
  | resource r ih =>
    rw [teardown_resource] at h
    obtain ⟨owned, hfields, same⟩ := bind_eq_ok_iff.1 h
    obtain rfl := Except.ok.inj same
    refine List.forall_mem_append.2 ⟨forall_mem_joinOrders (fun f hf o ho => ?_) hfields,
      List.forall_mem_singleton.2 rfl⟩
    obtain ⟨name, _ | v⟩ := f
    · cases ho
    · exact ih _ hf v rfl ho

end Value

namespace Teardown

variable {l l' u : Ledger} {order : TeardownOrder} {owner : ResourceId} {r : Resource}
  {fields : List (String × Value)} {p : Plan}

/-- The identities of an order that are in flight. -/
def flyingIds (order : TeardownOrder) : List ResourceId :=
  (order.filter fun step => step.2.isNone).map Prod.fst

/-- The identities in flight in two plans are those of the one and those of the
other. -/
theorem flyingIds_append (order order' : TeardownOrder) :
    flyingIds (order ++ order') = flyingIds order ++ flyingIds order' := by
  unfold flyingIds
  rw [List.filter_append, List.map_append]

/-- What a resource owns is not in flight. -/
theorem flyingIds_teardownFields {skip : String → Bool}
    (h : r.teardownFields skip = .ok order) : flyingIds order = [] := by
  have held : ∀ step ∈ order, step.2.isSome = true := by
    refine Value.forall_mem_joinOrders (fun f _ o ho => ?_) h
    obtain ⟨name, _ | v⟩ := f
    · cases ho
    · exact Value.isSome_of_teardown ho
  unfold flyingIds
  rw [List.map_eq_nil_iff, List.filter_eq_nil_iff]
  intro step mem
  rw [Option.isNone_iff_eq_none, ← Option.not_isSome_iff_eq_none, held step mem]
  simp

/-- The order of roots in flight has these in flight. -/
theorem flyingIds_orderOf {resources : List Resource}
    (h : Returns (orderOf resources) l order l') :
    flyingIds order = resources.map Resource.id := by
  induction resources generalizing l order with
  | nil =>
    obtain ⟨rfl, -⟩ := returns_pure.1 h
    rfl
  | cons r resources ih =>
    obtain ⟨_, u, -, h⟩ := returns_bind.1 h
    obtain ⟨owned, fieldsListed, h⟩ := returns_ofExcept_bind.1 h
    obtain ⟨others, w, rest, h⟩ := returns_bind.1 h
    obtain ⟨rfl, rfl⟩ := returns_pure.1 h
    rw [flyingIds_append, flyingIds_append, flyingIds_teardownFields fieldsListed, ih rest]
    rfl

/-- Destroying an identity takes it in when it was in flight. -/
theorem turns_destroy {step : ResourceId × Option Place}
    (h : Returns (Ledger.destroy step.1 step.2) l () l') :
    l.Turns l' (takeIn (flyingIds [step])) := by
  obtain ⟨id, place?⟩ := step
  obtain ⟨held, rfl⟩ := returns_destroy.1 h
  cases place? with
  | none =>
    refine Turns.record [.takenIn] ?_
    rw [phase_of_holding? held]
    exact .takenDown .done
  | some place =>
    refine Turns.record [] ?_
    rw [phase_of_holding? held]
    exact .buried .done

/-- **A teardown takes in** what was in flight. -/
theorem turns_apply (h : Returns (apply order) l () l') :
    l.Turns l' (takeIn (flyingIds order)) := by
  obtain ⟨_, u, checked, applied⟩ := returns_bind.1 h
  obtain rfl := (keeps_check (R := Eq)).of_returns checked
  have turns := turns_forM (fun step l l' => turns_destroy) applied
  have all : takeIn (flyingIds order) = order.flatMap fun step => takeIn (flyingIds [step]) := by
    clear h checked applied turns
    induction order with
    | nil => rfl
    | cons step order ih =>
      rw [List.flatMap_cons, ← ih, ← takeIn_append, ← flyingIds_append]
      rfl
  rwa [all]

/-- What is torn down is gone. -/
theorem phase_of_apply (h : Returns (apply order) l () l') {id : ResourceId}
    (mem : id ∈ ids order) : l'.phase id = .gone := by
  rw [← returns_apply h]
  clear h
  induction order generalizing l with
  | nil => cases mem
  | cons step order ih =>
    by_cases later : id ∈ ids order
    · exact ih later
    · obtain rfl : id = step.1 := (List.mem_cons.1 mem).resolve_right later
      rw [ids] at later
      show ((l.record step.1 .destroyed).recordAll (razing (ids order))).phase step.1 = _
      refine phase_of_holding? (h := .destroyed) ?_
      rw [holding?_recordAll_of_not_mem (by rwa [map_fst_razing]), holding?_record, if_pos rfl]

/-- Releasing the fields of a resource hands out the roots they hold. -/
theorem turns_releaseFields (h : Returns (releaseFields owner fields) l () l') :
    l.Turns l' (handOut (fields.flatMap fun f => f.2.rootIds)) := by
  induction fields generalizing l with
  | nil =>
    obtain rfl := (returns_pure.1 h).2
    exact Turns.refl l
  | cons f fields ih =>
    obtain ⟨_, u, first, others⟩ := returns_bind.1 h
    rw [List.flatMap_cons, handOut_append]
    exact (turns_releaseValue first).trans (ih others)

/-- **A planned teardown takes in** the resource and hands out what the plan
moves out. -/
theorem turns_planned {owned : TeardownOrder} {skip : String → Bool}
    (checked : Returns (Ledger.checkDestroy r.id none) l () l)
    (listed : r.teardownFields skip = .ok owned)
    (released : Returns (releaseFields r.id (movedOut p r)) l () u)
    (applied : Returns (apply (owned ++ [(r.id, none)])) u () l') :
    l.Turns l' (takeIn [r.id] ++ handOut ((movedOut p r).flatMap fun f => f.2.rootIds)) := by
  have out := turns_releaseFields released
  have down := turns_apply applied
  rw [flyingIds_append, flyingIds_teardownFields listed, List.nil_append] at down
  -- the resource was with the host, and what is moved out was not
  refine (out.trans down).swap fun id mem moved => ?_
  obtain rfl : id = r.id := List.mem_singleton.1 mem
  have kept := out.phase_of_handOut moved
  rw [phase_of_holding? (returns_checkDestroy.1 checked).1] at kept
  cases kept

end Teardown

end Custody
