import Custody.Proofs.Admission
import Custody.Scenario
import Mathlib.Algebra.Order.BigOperators.Group.List
import Mathlib.Algebra.Order.Group.Nat
import Mathlib.Algebra.Ring.Nat
import Mathlib.Logic.Function.Iterate

/-!
# How a closure is worked off

Whoever follows inheritance by hand keeps a list of names to look at: the last one is
taken from it, and unless it has been met before, what it inherits is put at the end.
Nothing keeps a name from being put there several times, from inheriting itself, or from
not being declared, and the list may well grow.

It runs out all the same. A declaration adds to the list only once, when its name is met
first, so the length of the list **together with what the declarations not met can still
add to it** gets smaller with every turn (`Registry.weight_turn_lt`). And while it is
worked off, the names met and those on the list lead to the same names as before
(`Registry.leads_turn_iff`); so in the end the names met are the closure, and these are
the names that steps of inheritance lead to.
-/

namespace Custody

namespace Registry

/-- **How far a search has got.** -/
structure Search where
  /-- The names met. -/
  reached : SortedSet String
  /-- The names still to look at, the next one last. -/
  pending : List String

/-- What a name inherits as an interface. -/
def inherited (r : Registry) (name : String) : List String :=
  ((r.interface? name).map Declaration.above).getD []

/-- The search for the closure of a name, before its first turn. -/
def search (r : Registry) (name : String) : Search := ⟨SortedMap.empty, r.closureSeeds name⟩

/-- **A turn of a search**: the last name is taken from the list, and when it is met for
the first time, what it inherits is put there. A search whose list has run out stays. -/
def turn (r : Registry) (s : Search) : Search :=
  match s.pending.getLast? with
  | none => s
  | some name =>
    if s.reached.contains name then ⟨s.reached, s.pending.dropLast⟩
    else ⟨s.reached.insert name (), s.pending.dropLast ++ r.inherited name⟩

/-- What the declarations of names not met can still put on the list. -/
def outstanding (r : Registry) (reached : SortedSet String) : Nat :=
  ((r.interfaces.filter fun e => !reached.contains e.1).map fun e => e.2.above.length).sum

/-- **How many turns a search can take**: one for each name on the list, and one for each
name that can still be put there. -/
def weight (r : Registry) (s : Search) : Nat := s.pending.length + r.outstanding s.reached

/-- A search leads to the names it has met, and to what those on its list inherit. -/
def Leads (r : Registry) (s : Search) (y : String) : Prop :=
  s.reached.contains y = true ∨ ∃ x ∈ s.pending, r.Inherits x y

variable {r : Registry} {s : Search} {name x y : String} {reached : SortedSet String}

theorem inherited_of_interface {d : Declaration} (declared : r.interface? name = some d) :
    r.inherited name = d.above := by
  unfold inherited
  rw [declared]
  rfl

theorem inherited_of_undeclared (undeclared : r.interface? name = none) :
    r.inherited name = [] := by
  unfold inherited
  rw [undeclared]
  rfl

theorem mem_inherited_iff : y ∈ r.inherited x ↔ r.Extends x y := by
  unfold inherited Extends
  cases r.interface? x <;> simp

/-- A turn takes a name from the end of the list. Met again, it is dropped; met first, it
is reached and gives way to what it inherits. -/
theorem turn_cases (more : s.pending ≠ []) : ∃ front name, s.pending = front ++ [name]
    ∧ (s.reached.contains name = true ∧ r.turn s = ⟨s.reached, front⟩
      ∨ s.reached.contains name = false
        ∧ r.turn s = ⟨s.reached.insert name (), front ++ r.inherited name⟩) := by
  obtain ⟨front, name, last⟩ := (List.eq_nil_or_concat s.pending).resolve_left more
  rw [List.concat_eq_append] at last
  refine ⟨front, name, last, ?_⟩
  have next : r.turn s
      = if s.reached.contains name then ⟨s.reached, front⟩
        else ⟨s.reached.insert name (), front ++ r.inherited name⟩ := by
    unfold turn
    rw [last, List.getLast?_concat, List.dropLast_concat]
  cases met : s.reached.contains name with
  | true => exact .inl ⟨rfl, by rw [next, if_pos met]⟩
  | false => exact .inr ⟨rfl, by rw [next, if_neg (by simp [met])]⟩

theorem turn_of_pending_eq_nil (done : s.pending = []) : r.turn s = s := by
  unfold turn
  rw [done]
  rfl

/-! ## A search ends -/

/-- Leaving out one of the things counted leaves out what it counts for. -/
theorem sum_map_filter_add_le {α : Type} {l : List α} {p : α → Bool} {f : α → Nat} {a : α}
    (mem : a ∈ l) (out : p a = false) : ((l.filter p).map f).sum + f a ≤ (l.map f).sum := by
  obtain ⟨before, after, rfl⟩ := List.append_of_mem mem
  have less (l : List α) : ((l.filter p).map f).sum ≤ (l.map f).sum :=
    (List.filter_sublist.map f).sum_le_sum fun _ _ => Nat.zero_le _
  have first := less before
  have last := less after
  simp only [List.filter_append, List.filter_cons, out, List.map_append, List.map_cons,
    List.sum_append, List.sum_cons, Bool.false_eq_true, if_false]
  omega

/-- **A declaration adds to the list only once**: what it adds when its name is met is
outstanding no more. -/
theorem outstanding_insert_add_le (new : reached.contains name = false) :
    r.outstanding (reached.insert name ()) + (r.inherited name).length
      ≤ r.outstanding reached := by
  have left : (r.interfaces.filter fun e => !(reached.insert name ()).contains e.1)
      = (r.interfaces.filter fun e => !reached.contains e.1).filter fun e => e.1 ≠ name := by
    rw [List.filter_filter]
    refine List.filter_congr fun e _ => ?_
    rw [Bool.eq_iff_iff]
    simp only [Bool.not_eq_true', ← Bool.not_eq_true, SortedMap.contains_insert_iff]
    simp
  unfold outstanding
  rw [left]
  cases declared : r.interface? name with
  | none =>
    rw [inherited_of_undeclared declared]
    exact (List.filter_sublist.map _).sum_le_sum fun _ _ => Nat.zero_le _
  | some d =>
    rw [inherited_of_interface declared]
    refine sum_map_filter_add_le (a := (name, d)) ?_ (by simp)
    exact List.mem_filter.2 ⟨Table.mem_of_get?_eq_some declared, by simp [new]⟩

/-- **Every turn takes weight off a search** that has not ended. -/
theorem weight_turn_lt (more : s.pending ≠ []) : r.weight (r.turn s) < r.weight s := by
  obtain ⟨front, name, last, ⟨-, next⟩ | ⟨new, next⟩⟩ := turn_cases (r := r) more
  · rw [next, weight, weight, last, List.length_append]
    exact Nat.add_lt_add_right (Nat.lt_succ_self _) _
  · have less := outstanding_insert_add_le (r := r) new
    rw [next, weight, weight, last, List.length_append, List.length_append]
    show front.length + (r.inherited name).length + r.outstanding (s.reached.insert name ())
      < front.length + 1 + r.outstanding s.reached
    omega

/-- **A search ends**, wherever it starts, after no more turns than its weight. -/
theorem exists_pending_eq_nil (r : Registry) (s : Search) :
    ∃ n ≤ r.weight s, (r.turn^[n] s).pending = [] := by
  induction bound : r.weight s using Nat.strongRecOn generalizing s with
  | ind m ih =>
  subst bound
  by_cases done : s.pending = []
  · exact ⟨0, Nat.zero_le _, done⟩
  · have lighter := weight_turn_lt (r := r) done
    obtain ⟨n, few, ended⟩ := ih _ lighter (r.turn s) rfl
    exact ⟨n + 1, Nat.le_trans (Nat.succ_le_succ few) lighter, ended⟩

/-! ## What a search finds -/

namespace Following

variable {unfollowed : Table String Declaration} {pending pending' : List String}

/-- It makes no difference in which order names are pending, or how often. -/
theorem mono (h : r.Following unfollowed reached pending) (le : ∀ x ∈ pending, x ∈ pending') :
    r.Following unfollowed reached pending' :=
  ⟨h.agrees, fun x y hx step => (h.closed x y hx step).imp_right (le y)⟩

/-- Declarations that have been followed may be kept: their names are not met again. -/
theorem refollow (h : r.Following unfollowed reached pending) :
    r.Following r.interfaces reached pending :=
  ⟨fun _ _ => rfl, h.closed⟩

end Following

/-- **A turn forgets nothing**: what a name that has been met inherits has been met too
or is on the list. -/
theorem following_turn (h : r.Following r.interfaces s.reached s.pending) :
    r.Following r.interfaces (r.turn s).reached (r.turn s).pending := by
  by_cases done : s.pending = []
  · rwa [turn_of_pending_eq_nil done]
  obtain ⟨front, name, last, turned⟩ := turn_cases (r := r) done
  have first : r.Following r.interfaces s.reached (name :: front) :=
    h.mono fun x hx => by simpa [last, or_comm] using hx
  obtain ⟨met, next⟩ | ⟨new, next⟩ := turned
  · rw [next]
    exact first.skip met
  · rw [next]
    cases declared : r.interface? name with
    | none =>
      rw [inherited_of_undeclared declared, List.append_nil]
      exact first.pass new declared
    | some d =>
      rw [inherited_of_interface declared]
      exact (first.visit new declared).refollow.mono fun x hx => by simpa [or_comm] using hx

/-- **A turn changes nothing about where a search leads.** -/
theorem leads_turn_iff (h : r.Following r.interfaces s.reached s.pending) :
    r.Leads (r.turn s) y ↔ r.Leads s y := by
  by_cases done : s.pending = []
  · rw [turn_of_pending_eq_nil done]
  have h' := following_turn h
  obtain ⟨front, name, last, ⟨met, next⟩ | ⟨new, next⟩⟩ := turn_cases (r := r) done
  · rw [next] at h' ⊢
    refine h.leads_iff h' (fun x hx => ?_) fun x hx => ?_
    · rw [last, List.mem_append, List.mem_singleton] at hx
      rcases hx with found | waiting | rfl
      · exact .inl found
      · exact .inr waiting
      · exact .inl met
    · exact hx.imp_right fun waiting => ⟨x, by simp [last, waiting], .refl⟩
  · rw [next] at h' ⊢
    refine h.leads_iff h' (fun x hx => ?_) fun x hx => ?_
    · rw [last, List.mem_append, List.mem_singleton] at hx
      rw [SortedMap.contains_insert_iff, List.mem_append]
      tauto
    · rw [SortedMap.contains_insert_iff, List.mem_append, mem_inherited_iff] at hx
      have there : name ∈ s.pending := by simp [last]
      rcases hx with (rfl | found) | waiting | step
      · exact .inr ⟨x, there, .refl⟩
      · exact .inl found
      · exact .inr ⟨x, by simp [last, waiting], .refl⟩
      · exact .inr ⟨name, there, .single step⟩

theorem following_turns (h : r.Following r.interfaces s.reached s.pending) (n : Nat) :
    r.Following r.interfaces (r.turn^[n] s).reached (r.turn^[n] s).pending := by
  induction n with
  | zero => exact h
  | succ n ih =>
    rw [Function.iterate_succ_apply']
    exact following_turn ih

/-- **Where a search leads is settled before its first turn.** -/
theorem leads_turns_iff (h : r.Following r.interfaces s.reached s.pending) (n : Nat) :
    r.Leads (r.turn^[n] s) y ↔ r.Leads s y := by
  induction n with
  | zero => exact Iff.rfl
  | succ n ih =>
    rw [Function.iterate_succ_apply', leads_turn_iff (following_turns h n), ih]

/-- A search starts out for what the names it starts from inherit. -/
theorem leads_search_iff :
    r.Leads (r.search name) y ↔ ∃ x ∈ r.closureSeeds name, r.Inherits x y :=
  or_iff_right (by simp [search, SortedMap.contains])

/-- **The closure is what a search finds**: when its list has run out, it has met the
names of the closure. -/
theorem turns_eq_closure {n : Nat} (ended : (r.turn^[n] (r.search name)).pending = []) :
    r.turn^[n] (r.search name) = ⟨r.closure name, []⟩ := by
  have start : r.Following r.interfaces (r.search name).reached (r.search name).pending :=
    ⟨fun _ _ => rfl, fun _ _ found => nomatch found⟩
  have found (y : String) : (r.turn^[n] (r.search name)).reached.contains y = true
      ↔ (r.closure name).contains y = true := by
    rw [contains_closure_iff, ← leads_search_iff, ← leads_turns_iff start n, Leads, ended]
    simp
  cases result : r.turn^[n] (r.search name) with
  | mk reached pending =>
    rw [result] at ended found
    exact congrArg₂ Search.mk (SortedSet.ext_contains found) ended

/-- The closure of an interface that is not a composite as well starts from itself. -/
theorem contains_closure_of_interface (h : r.composite? name = none)
    (declared : (r.interface? name).isSome = true) :
    (r.closure name).contains y = true ↔ r.Inherits name y := by
  obtain ⟨d, found⟩ := Option.isSome_iff_exists.1 declared
  have seeds : r.closureSeeds name = [name] := by
    unfold closureSeeds
    rw [h, found]
  rw [contains_closure_iff, seeds]
  simp

end Registry

/-- **A closure is worked off in the end, and is exact.** Whatever is declared, a search
for the closure of a name runs out of names, in no more turns than the names it starts
from and the names in all declarations of interfaces; what it has met then is the closure.
For a composite, these are the names it conforms to and what they inherit; for an interface
that is not a composite as well, the interface and what it inherits; for a name that is not
declared there are none. So whatever conforms to a name that is not a composite shows the
members that it shows. -/
theorem closure_exact (r : Registry) (name : String) :
    (∃ n ≤ (r.closureSeeds name).length + (r.interfaces.map fun e => e.2.above.length).sum,
        r.turn^[n] (r.search name) = ⟨r.closure name, []⟩)
      ∧ (∀ d, r.composite? name = some d → ∀ y,
        (r.closure name).contains y = true ↔ ∃ x ∈ d.above, r.Inherits x y)
      ∧ (r.composite? name = none → (r.interface? name).isSome = true → ∀ y,
        (r.closure name).contains y = true ↔ r.Inherits name y)
      ∧ (r.composite? name = none → r.interface? name = none →
        r.closure name = SortedMap.empty)
      ∧ ∀ other, r.composite? other = none → r.conforms name other = true → ∀ m,
        (r.closureMembers other).contains m = true →
          (r.closureMembers name).contains m = true := by
  refine ⟨?_, fun d composite y => ?_, fun h declared y => ?_, fun h undeclared => ?_,
    fun other h conforms m shown => ?_⟩
  · obtain ⟨n, few, ended⟩ := Registry.exists_pending_eq_nil r (r.search name)
    refine ⟨n, few.trans (Nat.add_le_add_left ?_ _), Registry.turns_eq_closure ended⟩
    exact (List.filter_sublist.map _).sum_le_sum fun _ _ => Nat.zero_le _
  · have seeds : r.closureSeeds name = d.above := by
      unfold Registry.closureSeeds
      rw [composite]
    rw [Registry.contains_closure_iff, seeds]
  · exact Registry.contains_closure_of_interface h declared
  · unfold Registry.closure Registry.closureSeeds
    rw [h, undeclared, Registry.follow]
  · rw [← Registry.namedMembers_of_interface h] at shown
    exact Registry.contains_closureMembers_of_conforms h conforms shown

namespace Scenario

/-- Two interfaces that inherit each other, one of them twice, and a name that nobody
declares. -/
def circular : Registry :=
  Registry.empty
    |>.declareInterface "Receiver" (resource ["Provider", "Lost", "Provider"] ["coins"])
    |>.declareInterface "Provider" (resource ["Receiver"] ["label"])
    |>.declareComposite "Vault" (resource ["Receiver", "Receiver"] ["coins", "label"])

theorem receiver_extends_provider : circular.Extends "Receiver" "Provider" :=
  ⟨_, rfl, List.mem_cons_self⟩

theorem receiver_extends_lost : circular.Extends "Receiver" "Lost" :=
  ⟨_, rfl, List.mem_cons_of_mem _ List.mem_cons_self⟩

theorem provider_extends_receiver : circular.Extends "Provider" "Receiver" :=
  ⟨_, rfl, List.mem_singleton_self _⟩

end Scenario

/-- Of a vault and of two interfaces that inherit each other, all that there is belongs to
the closure, and to that of an undeclared name nothing; and the receiver shows the label of
the provider. -/
theorem closure_exact_circular :
    (∃ n ≤ 6, Scenario.circular.turn^[n] (Scenario.circular.search "Vault")
        = ⟨Scenario.circular.closure "Vault", []⟩)
      ∧ (Scenario.circular.closure "Vault").contains "Lost" = true
      ∧ Scenario.circular.composite? "Provider" = none
      ∧ (Scenario.circular.closure "Provider").contains "Lost" = true
      ∧ Scenario.circular.closure "Lost" = SortedMap.empty
      ∧ (Scenario.circular.closureMembers "Receiver").contains "label" = true := by
  have vault := closure_exact Scenario.circular "Vault"
  have provider := closure_exact Scenario.circular "Provider"
  have itself : (Scenario.circular.closure "Provider").contains "Provider" = true :=
    (provider.2.2.1 rfl rfl _).2 .refl
  have label : (Scenario.circular.closureMembers "Provider").contains "label" = true :=
    Registry.contains_closureMembers_iff.2
      ⟨"Provider", _, itself, rfl, SortedSet.contains_ofList_iff.2 (List.mem_singleton_self _)⟩
  have receiver := closure_exact Scenario.circular "Receiver"
  have conforms : Scenario.circular.conforms "Receiver" "Provider" = true :=
    Bool.or_eq_true_iff.2
      (.inr ((receiver.2.2.1 rfl rfl _).2 (.single Scenario.receiver_extends_provider)))
  refine ⟨vault.1, ?_, rfl, ?_, (closure_exact Scenario.circular "Lost").2.2.2.1 rfl rfl,
    receiver.2.2.2.2 "Provider" rfl conforms "label" label⟩
  · exact (vault.2.1 _ rfl _).2
      ⟨"Receiver", List.mem_cons_self, .single Scenario.receiver_extends_lost⟩
  · exact (provider.2.2.1 rfl rfl _).2
      (.head Scenario.provider_extends_receiver (.single Scenario.receiver_extends_lost))

end Custody
