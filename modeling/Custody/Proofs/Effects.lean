import Custody.Operation
import Custody.Proofs.Census
import Custody.Proofs.Lifetimes

/-!
# What an operation does to the resources there are

A custodian is **in order** with resources in hand when its ledger reflects
the census of storage, locals and hands, and all that is stored, bound and in
hand is regular. An operation that returns has an **effect**: it takes the
resources it is offered, gives back others, and a custodian that was in order
with the first in hand is in order with the second in hand. The resources
there are stay the same, apart from what was minted and what was torn down.

There is one lemma for each operation that moves, makes or destroys anything.
All the others leave store, ledger and frames as they are.
-/

namespace Custody

open Ledger CustodyM

/-! ## Effects -/

namespace State

/-- The census with resources in hand. -/
def census (s : State) (hands : List Resource) : Census := s.standing ++ afoot hands

/-- The resources there are: in storage, in locals and in hand. -/
def ids (s : State) (hands : List Resource) : List ResourceId := (s.census hands).map Prod.fst

/-- **The custodian is in order** with resources in hand. -/
structure InOrder (s : State) (hands : List Resource) : Prop where
  /-- The ledger says where everything is. -/
  reflects : s.ledger.Reflects (s.census hands)
  /-- What is stored is regular. -/
  store : s.store.Regular
  /-- What is bound is regular. -/
  locals : s.stack.Regular
  /-- What is in hand is regular. -/
  hands : ∀ r ∈ hands, r.toValue.Regular

theorem census_perm (s : State) {hands hands' : List Resource} (h : hands.Perm hands') :
    (s.census hands).Perm (s.census hands') := (afoot_perm h).append_left _

theorem ids_perm (s : State) {hands hands' : List Resource} (h : hands.Perm hands') :
    (s.ids hands).Perm (s.ids hands') := (s.census_perm h).map _

theorem InOrder.perm {s : State} {hands hands' : List Resource} (h : s.InOrder hands)
    (p : hands.Perm hands') : s.InOrder hands' :=
  ⟨h.reflects.perm (s.census_perm p), h.store, h.locals, fun r hr => h.hands r (p.mem_iff.2 hr)⟩

theorem census_append (s : State) (hands hands' : List Resource) :
    (s.census (hands ++ hands')).Perm (s.standing ++ afoot hands ++ afoot hands') := by
  unfold census
  rw [List.append_assoc]
  exact (afoot_append hands hands').append_left _

/-- What is stored and bound may be counted with the rest. -/
theorem standing_perm (s : State) (c rest : Census) :
    (s.standing ++ c ++ rest).Perm (c ++ (s.standing ++ rest)) := by
  rw [← List.append_assoc]
  exact List.perm_append_comm.append_right _

/-- **The custodian is in order** with resources in hand, apart from a rest
that the ledger records besides. -/
structure Accounted (s : State) (hands : List Resource) (rest : Census) : Prop where
  /-- The ledger says where everything is. -/
  reflects : s.ledger.Reflects (s.standing ++ afoot hands ++ rest)
  /-- What is stored is regular. -/
  store : s.store.Regular
  /-- What is bound is regular. -/
  locals : s.stack.Regular
  /-- What is in hand is regular. -/
  hands : ∀ r ∈ hands, r.toValue.Regular

/-- What else is in hand may be counted with the rest. -/
theorem inOrder_append_iff {s : State} {hands hands' : List Resource} :
    s.InOrder (hands ++ hands')
      ↔ s.Accounted hands (afoot hands') ∧ ∀ r ∈ hands', r.toValue.Regular := by
  constructor
  · intro o
    exact ⟨⟨o.reflects.perm (s.census_append hands hands'), o.store, o.locals,
      fun r hr => o.hands r (List.mem_append_left _ hr)⟩,
      fun r hr => o.hands r (List.mem_append_right _ hr)⟩
  · rintro ⟨a, regular⟩
    exact ⟨a.reflects.perm (s.census_append hands hands').symm, a.store, a.locals,
      fun r hr => (List.mem_append.1 hr).elim (a.hands r) (regular r)⟩

end State

/-- **The effect of an operation** that was offered resources and returned
others. -/
structure Effect (s s' : State) (offered received : List Resource)
    (minted torn : List ResourceId) : Prop where
  /-- Order is kept, whatever else is recorded. -/
  accounted : ∀ rest, s.Accounted offered rest → s'.Accounted received rest
  /-- What was there is there, apart from what was minted or torn down. -/
  conserved : ∀ hands, s.InOrder (offered ++ hands) →
    (s'.ids (received ++ hands) ++ torn).Perm (s.ids (offered ++ hands) ++ minted)
  /-- What was minted is new. -/
  fresh : minted.Nodup ∧ ∀ id ∈ minted, s.ledger.next ≤ id.number ∧ id.number < s'.ledger.next

namespace Effect

variable {s s' u : State} {A B C : List Resource}

/-- **Order is kept** whatever else is in hand. -/
theorem inOrder {minted torn : List ResourceId} (h : Effect s s' A B minted torn)
    (hands : List Resource) (o : s.InOrder (A ++ hands)) : s'.InOrder (B ++ hands) := by
  obtain ⟨a, regular⟩ := State.inOrder_append_iff.1 o
  exact State.inOrder_append_iff.2 ⟨h.accounted _ a, regular⟩

/-- A change that only carries. -/
theorem of_carries
    (carries : s.ledger.Carries s'.ledger (s.standing ++ afoot A) (s'.standing ++ afoot B))
    (regular : s.store.Regular → s.stack.Regular → (∀ r ∈ A, r.toValue.Regular) →
      s'.store.Regular ∧ s'.stack.Regular ∧ ∀ r ∈ B, r.toValue.Regular) :
    Effect s s' A B [] [] where
  accounted rest a := by
    obtain ⟨store, locals, received⟩ := regular a.store a.locals a.hands
    exact ⟨carries.reflects rest a.reflects, store, locals, received⟩
  conserved hands h := by
    rw [List.append_nil, List.append_nil]
    refine ((s'.census_append B hands).map _).trans
      (List.Perm.trans ?_ ((s.census_append A hands).map _).symm)
    exact (carries.frame (afoot hands)).ids
  fresh := ⟨List.nodup_nil, fun _ h => nomatch h⟩

/-- A change of the ledger alone, by what it does to resources in flight. -/
theorem of_ledger {l : Ledger} {minted torn : List ResourceId}
    (reflects : (∀ r ∈ A, r.toValue.Regular) → ∀ rest : Census,
      s.ledger.Reflects (afoot A ++ rest) → l.Reflects (afoot B ++ rest))
    (ids : (∀ r ∈ A, r.toValue.Regular) →
      ((afoot B).map Prod.fst ++ torn).Perm ((afoot A).map Prod.fst ++ minted))
    (regular : (∀ r ∈ A, r.toValue.Regular) → ∀ r ∈ B, r.toValue.Regular)
    (fresh : minted.Nodup ∧ ∀ id ∈ minted, s.ledger.next ≤ id.number ∧ id.number < l.next) :
    Effect s { s with ledger := l } A B minted torn where
  accounted rest a := by
    have after := reflects a.hands (s.standing ++ rest) (a.reflects.perm (s.standing_perm _ _))
    exact ⟨after.perm (s.standing_perm _ _).symm, a.store, a.locals, regular a.hands⟩
  conserved hands o := by
    -- counted identity by identity, the equations add up
    have same := ids fun r hr => o.hands r (List.mem_append_left _ hr)
    have before := (s.census_append A hands).map Prod.fst
    have after := (State.census_append { s with ledger := l } B hands).map Prod.fst
    refine List.perm_iff_count.2 fun id => ?_
    have := same.count_eq id
    have := before.count_eq id
    have := after.count_eq id
    simp only [State.ids, State.standing, List.map_append, List.count_append] at *
    omega
  fresh := fresh

/-- Nothing that is counted changes. -/
theorem of_same (store : s'.store = s.store) (stack : s'.stack = s.stack)
    (ledger : s'.ledger = s.ledger) : Effect s s' A A [] [] := by
  have standing : s'.standing = s.standing := by
    unfold State.standing
    rw [store, stack]
  refine of_carries ?_ fun hs hl hA => ⟨store ▸ hs, stack ▸ hl, hA⟩
  rw [ledger, standing]
  exact Carries.refl _ _

theorem refl (s : State) (A : List Resource) : Effect s s A A [] [] := of_same rfl rfl rfl

/-- One thing after the other. -/
theorem trans (h : Effect s u A B [] []) (h' : Effect u s' B C [] []) :
    Effect s s' A C [] [] where
  accounted rest a := h'.accounted rest (h.accounted rest a)
  conserved hands o := by
    have first := h.conserved hands o
    have second := h'.conserved hands (h.inOrder hands o)
    rw [List.append_nil, List.append_nil] at first second ⊢
    exact second.trans first
  fresh := ⟨List.nodup_nil, fun _ h => nomatch h⟩

end Effect

namespace State

variable {s : State} {l' : Ledger} {old new rest A B : Census}

/-- What is carried in one local is carried in the whole. -/
theorem carries_stack {stack : CallStack} (before : s.stack.standing.Perm (old ++ rest))
    (after : stack.standing.Perm (new ++ rest)) (h : s.ledger.Carries l' (old ++ A) (new ++ B)) :
    s.ledger.Carries l' (s.standing ++ A)
      (State.standing { s with ledger := l', stack := stack } ++ B) := by
  refine (h.frame (rest ++ s.store.standing)).perm ?_ ?_ <;>
    refine List.perm_iff_count.2 fun e => ?_
  · have := before.count_eq e
    simp only [standing, List.count_append] at this ⊢
    omega
  · have := after.count_eq e
    simp only [standing, List.count_append] at this ⊢
    omega

/-- What is carried in one entry is carried in the whole. -/
theorem carries_store {store : Store} (before : s.store.standing.Perm (old ++ rest))
    (after : store.standing.Perm (new ++ rest)) (h : s.ledger.Carries l' (old ++ A) (new ++ B)) :
    s.ledger.Carries l' (s.standing ++ A)
      (State.standing { s with ledger := l', store := store } ++ B) := by
  refine (h.frame (rest ++ s.stack.standing)).perm ?_ ?_ <;>
    refine List.perm_iff_count.2 fun e => ?_
  · have := before.count_eq e
    simp only [standing, List.count_append] at this ⊢
    omega
  · have := after.count_eq e
    simp only [standing, List.count_append] at this ⊢
    omega

end State

/-! ## Roots of values and of copies -/

namespace Value

/-- What holds everywhere in a value holds everywhere in its roots. -/
theorem Everywhere.resources {P : Value → Prop} {v : Value} (everywhere : Everywhere P v) :
    ∀ r ∈ v.resources, Everywhere P r.toValue := by
  induction v using Value.induction with
  | step v ih =>
  cases v with
  | array elements =>
    rw [resources_array]
    intro r hr
    obtain ⟨w, hw, hr⟩ := List.mem_flatMap.1 hr
    exact ih w hw (everywhere.inside w hw) r hr
  | dict entries =>
    rw [resources_dict]
    intro r hr
    obtain ⟨e, he, hr⟩ := List.mem_flatMap.1 hr
    have part : e.2 ∈ (Value.dict entries).parts := List.mem_map_of_mem he
    exact ih e.2 part (everywhere.inside e.2 part) r hr
  | struct typeName fields =>
    rw [resources_struct]
    intro r hr
    cases hr
  | resource id typeName fields =>
    show ∀ r ∈ (Resource.toValue ⟨id, typeName, fields⟩).resources, _
    rw [resources_resource]
    intro r hr
    obtain rfl := List.mem_singleton.1 hr
    exact everywhere
  | _ => intro r hr; cases hr

/-- The roots of a regular value are regular. -/
theorem Regular.resources {v : Value} (regular : v.Regular) :
    ∀ r ∈ v.resources, r.toValue.Regular := Everywhere.resources regular

/-- What is gathered of copies are the values copied. -/
theorem gather_copies {κ : Type} {parts gathered : List (κ × Value)}
    (h : gather (parts.map fun part => (part.1, part.2.copy)) = .ok gathered)
    (copies : ∀ part ∈ parts, ∀ w, part.2.copy = .ok w → w = part.2 ∧ part.2.resources = []) :
    gathered = parts ∧ ∀ part ∈ parts, part.2.resources = [] := by
  induction parts generalizing gathered with
  | nil =>
    obtain rfl := Except.ok.inj h
    exact ⟨rfl, fun _ mem => nomatch mem⟩
  | cons part parts ih =>
    rw [List.map_cons, gather] at h
    obtain ⟨w, first, h⟩ := bind_eq_ok_iff.1 h
    obtain ⟨rest, others, h⟩ := bind_eq_ok_iff.1 h
    obtain rfl := Except.ok.inj h
    obtain ⟨rfl, none⟩ := copies part List.mem_cons_self w first
    obtain ⟨rfl, rest⟩ := ih others fun part mem => copies part (List.mem_cons_of_mem _ mem)
    exact ⟨rfl, List.forall_mem_cons.2 ⟨none, rest⟩⟩

/-- The elements of an array are copied as parts without a key. -/
theorem copy_array (elements : List Value) :
    (Value.array elements).copy
      = gather ((elements.map fun v => ((), v)).map fun part => (part.1, part.2.copy))
        >>= fun copies => .ok (.array (copies.map Prod.snd)) := by
  unfold copy
  rw [fold_array]
  show (gather ((elements.map _).map _) >>= _) = _
  rw [List.map_map, List.map_map]
  rfl

theorem copy_dict (entries : List (Key × Value)) :
    (Value.dict entries).copy
      = gather (entries.map fun e => (e.1, e.2.copy)) >>= fun copies => .ok (.dict copies) := by
  unfold copy
  rw [fold_dict]
  rfl

theorem copy_struct (typeName : String) (fields : List (String × Value)) :
    (Value.struct typeName fields).copy
      = gather (fields.map fun f => (f.1, f.2.copy))
        >>= fun copies => .ok (.struct typeName copies) := by
  unfold copy
  rw [fold_struct]
  rfl

theorem copy_resource (r : Resource) : r.toValue.copy = .error (.copyOfLinear r.typeName) := by
  unfold copy Resource.toValue
  rw [fold_resource]
  rfl

/-- **A copy** is the value itself, which has no roots. -/
theorem copy_eq_ok {v w : Value} (h : v.copy = .ok w) : w = v ∧ v.resources = [] := by
  induction v using Value.induction generalizing w with
  | step v ih =>
  cases v with
  | array elements =>
    rw [copy_array] at h
    obtain ⟨es, hes, same⟩ := bind_eq_ok_iff.1 h
    obtain rfl := Except.ok.inj same
    obtain ⟨rfl, none⟩ := gather_copies hes fun part mem w hw => by
      obtain ⟨v, hv, rfl⟩ := List.mem_map.1 mem
      exact ih v hv hw
    refine ⟨?_, ?_⟩
    · rw [List.map_map]
      exact congrArg _ (List.map_id elements)
    · rw [resources_array, List.flatMap_eq_nil_iff]
      exact fun v hv => none ((), v) (List.mem_map_of_mem hv)
  | dict entries =>
    rw [copy_dict] at h
    obtain ⟨es, hes, same⟩ := bind_eq_ok_iff.1 h
    obtain rfl := Except.ok.inj same
    obtain ⟨rfl, none⟩ := gather_copies hes fun e mem w hw => ih e.2 (List.mem_map_of_mem mem) hw
    refine ⟨rfl, ?_⟩
    rw [resources_dict, List.flatMap_eq_nil_iff]
    exact none
  | struct typeName fields =>
    rw [copy_struct] at h
    obtain ⟨fs, hfs, same⟩ := bind_eq_ok_iff.1 h
    obtain rfl := Except.ok.inj same
    obtain ⟨rfl, -⟩ := gather_copies hfs fun f mem w hw => ih f.2 (List.mem_map_of_mem mem) hw
    exact ⟨rfl, resources_struct typeName fs⟩
  | resource id typeName fields =>
    cases (copy_resource ⟨id, typeName, fields⟩).symm.trans h
  | _ =>
    obtain rfl := Except.ok.inj h
    exact ⟨rfl, rfl⟩

end Value

end Custody
