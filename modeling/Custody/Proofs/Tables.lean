import Custody.SortedMap
import Mathlib.Data.List.Nodup
import Mathlib.Data.List.Perm.Basic

/-!
# The entry of a key

An update of a table changes the entry of one key. The lemmas of this module
say so up to the order of the entries: a table is the entry of the key, if
there is one, together with the rest, and the update puts another entry in
front of the same rest. What is summed up over the entries of a table then
changes by what the one entry contributes, wherever it stands.
-/

namespace Custody

namespace Table

variable {κ α : Type}

section Lookup

variable [DecidableEq κ]

/-- The entry of a key, as a list of at most one entry. -/
def entryAt (t : Table κ α) (key : κ) : Table κ α :=
  ((get? t key).map fun a => (key, a)).toList

/-- **Putting an entry into a table** replaces the entry of its key and
leaves the rest as it is. -/
theorem exists_perm_put (t : Table κ α) (key : κ) (a : α) :
    ∃ rest, t.Perm (entryAt t key ++ rest) ∧ (put t key a).Perm ((key, a) :: rest) := by
  induction t with
  | nil => exact ⟨[], List.Perm.nil, List.Perm.refl _⟩
  | cons entry t ih =>
    obtain ⟨k, b⟩ := entry
    by_cases h : key = k
    · subst h
      refine ⟨t, ?_, ?_⟩
      · simp [entryAt, get?]
      · simp [put]
    · obtain ⟨rest, whole, changed⟩ := ih
      refine ⟨(k, b) :: rest, ?_, ?_⟩
      · have same : entryAt ((k, b) :: t) key = entryAt t key := by simp [entryAt, get?, h]
        rw [same]
        exact (whole.cons _).trans List.perm_middle.symm
      · rw [put, if_neg h]
        exact (changed.cons _).trans (List.Perm.swap _ _ _)

theorem get?_eq_none_iff {t : Table κ α} {key : κ} : get? t key = none ↔ key ∉ keys t := by
  rw [← contains_iff_mem_keys, contains]
  cases get? t key <;> simp

/-- Among distinct keys, an entry is what its key looks up. -/
theorem mem_iff_get?_eq_some {t : Table κ α} (distinct : (keys t).Nodup) {key : κ} {a : α} :
    (key, a) ∈ t ↔ get? t key = some a := by
  refine ⟨fun h => ?_, mem_of_get?_eq_some⟩
  induction t with
  | nil => cases h
  | cons entry t ih =>
    obtain ⟨k, b⟩ := entry
    obtain ⟨apart, others⟩ := List.nodup_cons.1 distinct
    rw [get?_cons]
    rcases List.mem_cons.1 h with first | later
    · obtain ⟨rfl, rfl⟩ := Prod.mk.inj first
      exact if_pos rfl
    · have ne : key ≠ k := by
        rintro rfl
        exact apart (List.mem_map.2 ⟨_, later, rfl⟩)
      rw [if_neg ne]
      exact ih others later

/-- **Dropping a key** among distinct ones drops its entry. -/
theorem perm_erase {t : Table κ α} (distinct : (keys t).Nodup) (key : κ) :
    t.Perm (entryAt t key ++ erase t key) := by
  induction t with
  | nil => exact List.Perm.nil
  | cons entry t ih =>
    obtain ⟨k, b⟩ := entry
    obtain ⟨apart, others⟩ := List.nodup_cons.1 distinct
    by_cases h : key = k
    · subst h
      have none : get? t key = none := get?_eq_none_iff.2 apart
      have rest : erase ((key, b) :: t) key = erase t key := by simp [erase]
      have := ih others
      rw [entryAt, none] at this
      rw [rest, entryAt, get?_cons, if_pos rfl]
      exact this.cons _
    · have same : entryAt ((k, b) :: t) key = entryAt t key := by simp [entryAt, get?, h]
      have rest : erase ((k, b) :: t) key = (k, b) :: erase t key := by
        simp [erase, Ne.symm h]
      rw [same, rest]
      exact ((ih others).cons _).trans List.perm_middle.symm

theorem mem_put {t : Table κ α} {key : κ} {a : α} {e : κ × α} (h : e ∈ put t key a) :
    e = (key, a) ∨ e ∈ t := by
  obtain ⟨rest, before, after⟩ := exists_perm_put t key a
  rcases List.mem_cons.1 (after.mem_iff.1 h) with h | h
  · exact .inl h
  · exact .inr (before.mem_iff.2 (List.mem_append_right _ h))

/-- A key that was not there gets an entry beside the others. -/
theorem mem_put_iff {t : Table κ α} {key : κ} (absent : get? t key = none) {a : α} {e : κ × α} :
    e ∈ put t key a ↔ e = (key, a) ∨ e ∈ t := by
  obtain ⟨rest, before, after⟩ := exists_perm_put t key a
  rw [entryAt, absent] at before
  rw [after.mem_iff, List.mem_cons, before.mem_iff]
  rfl

/-- The entry of a key that was there keeps its place. -/
theorem keys_put {t : Table κ α} {key : κ} (present : contains t key = true) (a : α) :
    keys (put t key a) = keys t := by
  induction t with
  | nil => cases present
  | cons entry t ih =>
    obtain ⟨k, b⟩ := entry
    by_cases here : key = k
    · simp [put, keys, here]
    · have behind : contains t key = true := by simpa [contains, get?, here] using present
      simpa [put, keys, here] using ih behind

/-- What is read off every value is read off the value that is put. -/
theorem map_put {β : Type} (t : Table κ α) (key : κ) (a : α) (f : α → β) :
    (put t key a).map (fun e => (e.1, f e.2)) = put (t.map fun e => (e.1, f e.2)) key (f a) := by
  induction t with
  | nil => rfl
  | cons entry t ih =>
    by_cases here : key = entry.1 <;> simp [put, here, ih]

theorem contains_map {β : Type} (t : Table κ α) (key : κ) (f : α → β) :
    contains (t.map fun e => (e.1, f e.2)) key = contains t key := by
  induction t with
  | nil => rfl
  | cons entry t ih =>
    by_cases here : key = entry.1
    · simp [contains, get?, here]
    · simpa [contains, get?, here] using ih

/-- Of two values given to a key the later one stays. -/
theorem put_put (t : Table κ α) (key : κ) (a b : α) : put (put t key a) key b = put t key b := by
  induction t with
  | nil => simp [put]
  | cons entry t ih => by_cases h : key = entry.1 <;> simp [put, h, ih]

/-- Giving a key the value that it has changes nothing. -/
theorem put_eq_self {t : Table κ α} {key : κ} {a : α} (h : get? t key = some a) :
    put t key a = t := by
  induction t with
  | nil => cases h
  | cons entry t ih =>
    obtain ⟨k, b⟩ := entry
    rw [get?_cons] at h
    by_cases hk : key = k
    · rw [if_pos hk] at h
      rw [put, if_pos hk, Option.some.inj h, hk]
    · rw [if_neg hk] at h
      rw [put, if_neg hk, ih h]

/-- Distinct keys stay distinct. -/
theorem nodup_keys_put {t : Table κ α} (distinct : (keys t).Nodup) (key : κ) (a : α) :
    (keys (put t key a)).Nodup := by
  obtain ⟨rest, before, after⟩ := exists_perm_put t key a
  have whole : (keys (entryAt t key ++ rest)).Nodup := (before.map _).nodup_iff.1 distinct
  refine (after.map _).nodup_iff.2 (List.nodup_cons.2 ⟨fun mem => ?_, ?_⟩)
  · -- an entry of the key among the rest would be a second one
    have among : key ∈ keys t :=
      (before.map Prod.fst).mem_iff.2 (List.mem_map.2 (by
        obtain ⟨e, he, same⟩ := List.mem_map.1 mem
        exact ⟨e, List.mem_append_right _ he, same⟩))
    obtain ⟨b, hb⟩ := Option.isSome_iff_exists.1 ((contains_iff_mem_keys t key).2 among)
    rw [entryAt, hb] at whole
    exact (List.nodup_cons.1 whole).1 mem
  · rw [keys, List.map_append] at whole
    exact (List.nodup_append.1 whole).2.1

theorem nodup_keys_ofList (assignments : List (κ × α)) : (keys (ofList assignments)).Nodup := by
  suffices ∀ t : Table κ α, (keys t).Nodup →
      (keys (assignments.foldl (fun t e => put t e.1 e.2) t)).Nodup from this [] List.nodup_nil
  induction assignments with
  | nil => exact fun _ distinct => distinct
  | cons e assignments ih => exact fun t distinct => ih _ (nodup_keys_put distinct e.1 e.2)

/-- **Of assignments to one key** the last one stays, and the others are
lost: so it is wherever an assignment replaces the entry of its key, as long as
the table stays in whatever order that takes. -/
theorem exists_perm_foldl {assign : Table κ α → κ → α → Table κ α} {InOrder : Table κ α → Prop}
    (stays : ∀ t key a, InOrder t → InOrder (assign t key a))
    (replaces : ∀ t key a, InOrder t →
      ∃ rest, t.Perm (entryAt t key ++ rest) ∧ (assign t key a).Perm ((key, a) :: rest))
    {t : Table κ α} (inOrder : InOrder t) (assignments : List (κ × α)) :
    ∃ lost, (t ++ assignments).Perm
      (assignments.foldl (fun t e => assign t e.1 e.2) t ++ lost) := by
  induction assignments generalizing t with
  | nil => exact ⟨[], List.Perm.refl _⟩
  | cons e assignments ih =>
    obtain ⟨rest, before, after⟩ := replaces t e.1 e.2 inOrder
    obtain ⟨lost, others⟩ := ih (stays t e.1 e.2 inOrder)
    refine ⟨lost ++ entryAt t e.1, ?_⟩
    -- what the assignment replaces is lost
    have replaced : (rest ++ e :: assignments).Perm (assign t e.1 e.2 ++ assignments) :=
      List.perm_middle.trans (after.symm.append_right assignments)
    refine (before.append_right _).trans ?_
    rw [List.append_assoc, List.foldl_cons, ← List.append_assoc _ lost]
    exact ((replaced.trans others).append_left _).trans List.perm_append_comm

theorem exists_perm_ofList (assignments : List (κ × α)) :
    ∃ lost, assignments.Perm (ofList assignments ++ lost) :=
  exists_perm_foldl (fun _ _ _ _ => trivial) (fun t key a (_ : True) => exists_perm_put t key a)
    (t := []) trivial assignments

theorem ofList_append (first later : List (κ × α)) :
    ofList (first ++ later) = later.foldl (fun t e => put t e.1 e.2) (ofList first) :=
  List.foldl_append

/-- Assignments to other keys leave an entry alone. -/
theorem get?_foldl_put (t : Table κ α) {key : κ} {later : List (κ × α)}
    (away : key ∉ later.map Prod.fst) :
    get? (later.foldl (fun t e => put t e.1 e.2) t) key = get? t key := by
  induction later generalizing t with
  | nil => rfl
  | cons e later ih =>
    obtain ⟨ne, away⟩ := not_or.1 (fun mem => away (List.mem_cons.2 mem))
    rw [List.foldl_cons, ih _ away, get?_put_of_ne t e.2 ne]

/-- **The last assignment to a key** stays. -/
theorem get?_ofList (first : List (κ × α)) {key : κ} {a : α} {later : List (κ × α)}
    (last : key ∉ later.map Prod.fst) :
    get? (ofList (first ++ (key, a) :: later)) key = some a := by
  rw [ofList_append, List.foldl_cons, get?_foldl_put _ last, get?_put_self]

/-- What is listed under a key is listed there last. -/
theorem exists_last {entries : List (κ × α)} {key : κ} (mem : key ∈ entries.map Prod.fst) :
    ∃ first a later, entries = first ++ (key, a) :: later ∧ key ∉ later.map Prod.fst := by
  induction entries with
  | nil => cases mem
  | cons e entries ih =>
    by_cases again : key ∈ entries.map Prod.fst
    · obtain ⟨first, a, later, rfl, last⟩ := ih again
      exact ⟨e :: first, a, later, rfl, last⟩
    · obtain rfl := (List.mem_cons.1 mem).resolve_right again
      exact ⟨[], e.2, entries, rfl, again⟩

/-- **The entries of a table of assignments** are the last ones to their keys. -/
theorem get?_ofList_eq_some_iff {assignments : List (κ × α)} {key : κ} {a : α} :
    get? (ofList assignments) key = some a
      ↔ ∃ first later, assignments = first ++ (key, a) :: later ∧ key ∉ later.map Prod.fst := by
  constructor
  · intro found
    by_cases mem : key ∈ assignments.map Prod.fst
    · obtain ⟨first, b, later, rfl, last⟩ := exists_last mem
      rw [get?_ofList first last] at found
      exact ⟨first, later, by rw [Option.some.inj found], last⟩
    · have none : get? (ofList assignments) key = none := get?_foldl_put [] mem
      rw [none] at found
      cases found
  · rintro ⟨first, later, rfl, last⟩
    exact get?_ofList first last

/-- An entry was assigned, or it was there and its key was not assigned. -/
theorem assigned_or_kept {t : Table κ α} {key : κ} {a : α} {later : List (κ × α)}
    (found : get? (later.foldl (fun t e => put t e.1 e.2) t) key = some a) :
    (key, a) ∈ later ∨ key ∉ later.map Prod.fst ∧ get? t key = some a := by
  induction later generalizing t with
  | nil => exact .inr ⟨List.not_mem_nil, found⟩
  | cons e later ih =>
    rcases ih found with mem | ⟨away, found⟩
    · exact .inl (List.mem_cons_of_mem _ mem)
    rw [get?_put] at found
    split at found
    next same =>
      obtain rfl := Option.some.inj found
      exact .inl (same ▸ List.mem_cons_self)
    next ne => exact .inr ⟨fun mem => (List.mem_cons.1 mem).elim ne away, found⟩

/-- **An assignment to a key that is assigned again** leaves nothing behind. -/
theorem mem_of_mem_ofList {first later : List (κ × α)} {key : κ} {a : α}
    (again : key ∈ later.map Prod.fst) {e : κ × α} (he : e ∈ ofList (first ++ (key, a) :: later)) :
    e ∈ first ++ later := by
  have found := (mem_iff_get?_eq_some (nodup_keys_ofList _)).1 he
  rw [ofList_append, List.foldl_cons] at found
  rcases assigned_or_kept found with mem | ⟨away, found⟩
  · exact List.mem_append_right _ mem
  · have ne : e.1 ≠ key := fun same => away (same ▸ again)
    rw [get?_put_of_ne _ _ ne] at found
    obtain ⟨lost, split⟩ := exists_perm_ofList first
    exact List.mem_append_left _
      (split.mem_iff.2 (List.mem_append_left _ (mem_of_get?_eq_some found)))

omit [DecidableEq κ] in
/-- **A table of lists has no element twice** when its keys are distinct, none
of the lists has one twice, and an element shows the key it is under. -/
theorem nodup_flatMap {β γ : Type} {t : Table κ α} (distinct : (keys t).Nodup)
    {g : α → List β} (each : ∀ e ∈ t, (g e.2).Nodup) {f : κ → β → γ}
    (shows : ∀ {k x k' x'}, f k x = f k' x' → k = k' ∧ x = x') :
    (t.flatMap fun e => (g e.2).map (f e.1)).Nodup := by
  induction t with
  | nil => exact List.nodup_nil
  | cons e t ih =>
    obtain ⟨apart, others⟩ := List.nodup_cons.1 distinct
    rw [List.flatMap_cons, List.nodup_append]
    refine ⟨(each e List.mem_cons_self).map fun x y h => (shows h).2,
      ih others fun e' he' => each e' (List.mem_cons_of_mem _ he'), fun y hy z hz => ?_⟩
    rintro rfl
    obtain ⟨x, -, rfl⟩ := List.mem_map.1 hy
    obtain ⟨e', he', hx'⟩ := List.mem_flatMap.1 hz
    obtain ⟨x', -, same⟩ := List.mem_map.1 hx'
    exact apart ((shows same).1 ▸ List.mem_map_of_mem he')

end Lookup

section KeyOrder

variable [Ord κ] [Std.LawfulEqOrd κ]

/-- Keys in order are distinct. -/
theorem Ascending.nodup_keys {t : Table κ α} (h : Ascending t) : (keys t).Nodup := by
  refine List.pairwise_map.2 (h.imp fun {a b} lt same => ?_)
  rw [same] at lt
  simp at lt

variable [DecidableEq κ] [Std.TransOrd κ]

/-- **Placing an entry into a table** in key order replaces the entry of its
key and leaves the rest as it is. -/
theorem exists_perm_place {t : Table κ α} (h : Ascending t) (key : κ) (a : α) :
    ∃ rest, t.Perm (entryAt t key ++ rest) ∧ (place t key a).Perm ((key, a) :: rest) := by
  induction t with
  | nil => exact ⟨[], List.Perm.nil, List.Perm.refl _⟩
  | cons entry t ih =>
    obtain ⟨k, b⟩ := entry
    have above : ∀ x ∈ t, compare k x.1 = .lt := fun x hx => List.rel_of_pairwise_cons h hx
    rw [place]
    split
    next lt =>
      -- the key comes before all others, so it is not among them
      have none : get? ((k, b) :: t) key = none := get?_eq_none_of_lt fun x hx => by
        rcases List.mem_cons.1 hx with rfl | hx
        · exact lt
        · exact Std.TransCmp.lt_trans lt (above x hx)
      refine ⟨(k, b) :: t, ?_, List.Perm.refl _⟩
      rw [entryAt, none]
      exact List.Perm.refl _
    next eq =>
      obtain rfl : key = k := Std.LawfulEqCmp.eq_of_compare eq
      refine ⟨t, ?_, List.Perm.refl _⟩
      simp [entryAt, get?]
    next gt =>
      have ne : key ≠ k := by
        rintro rfl
        simp at gt
      obtain ⟨rest, whole, changed⟩ := ih (List.Pairwise.of_cons h)
      refine ⟨(k, b) :: rest, ?_, ?_⟩
      · have same : entryAt ((k, b) :: t) key = entryAt t key := by simp [entryAt, get?, ne]
        rw [same]
        exact (whole.cons _).trans List.perm_middle.symm
      · exact (changed.cons _).trans (List.Perm.swap _ _ _)

theorem exists_perm_sorted (assignments : List (κ × α)) :
    ∃ lost, assignments.Perm (sorted assignments ++ lost) :=
  exists_perm_foldl (fun _ key a h => h.place key a) (fun _ key a h => exists_perm_place h key a)
    ascending_nil assignments

omit [DecidableEq κ] in
theorem ascending_sorted (assignments : List (κ × α)) : Ascending (sorted assignments) := by
  suffices ∀ t : Table κ α, Ascending t →
      Ascending (assignments.foldl (fun t e => place t e.1 e.2) t) from this [] ascending_nil
  induction assignments with
  | nil => exact fun _ ascending => ascending
  | cons e assignments ih => exact fun t ascending => ih _ (ascending.place e.1 e.2)

omit [Std.TransOrd κ] in
/-- In key order, assignments leave the same entries as one after the other. -/
theorem get?_sorted (assignments : List (κ × α)) (key : κ) :
    get? (sorted assignments) key = get? (ofList assignments) key := by
  suffices ∀ t t' : Table κ α, (∀ key, get? t key = get? t' key) → ∀ key,
      get? (assignments.foldl (fun t e => place t e.1 e.2) t) key
        = get? (assignments.foldl (fun t e => put t e.1 e.2) t') key from
    this [] [] (fun _ => rfl) key
  induction assignments with
  | nil => exact fun _ _ same => same
  | cons e assignments ih =>
    intro t t' same
    refine ih _ _ fun key => ?_
    rw [get?_place, get?_put, same]

theorem mem_sorted_iff {assignments : List (κ × α)} {key : κ} {a : α} :
    (key, a) ∈ sorted assignments
      ↔ ∃ first later, assignments = first ++ (key, a) :: later ∧ key ∉ later.map Prod.fst := by
  rw [mem_iff_get?_eq_some (ascending_sorted assignments).nodup_keys, get?_sorted,
    get?_ofList_eq_some_iff]

/-- **Sorting loses nothing** if no key is assigned twice. -/
theorem sorted_perm {assignments : List (κ × α)} (distinct : (keys assignments).Nodup) :
    (sorted assignments).Perm assignments := by
  refine (List.perm_ext_iff_of_nodup (.of_map _ (ascending_sorted assignments).nodup_keys)
    (.of_map _ distinct)).2 fun e => mem_sorted_iff.trans ⟨?_, fun mem => ?_⟩
  · rintro ⟨first, later, rfl, -⟩
    exact List.mem_append_right _ List.mem_cons_self
  · obtain ⟨first, later, rfl⟩ := List.append_of_mem mem
    refine ⟨first, later, rfl, fun again => ?_⟩
    rw [keys, List.map_append, List.map_cons] at distinct
    exact (List.nodup_cons.1 (List.nodup_append.1 distinct).2.1).1 again

end KeyOrder

end Table

namespace SortedMap

variable {κ α : Type} [Ord κ] [Std.LawfulEqOrd κ] [DecidableEq κ]

/-- The entries of a map are what its keys look up. -/
theorem mem_entries_iff {m : SortedMap κ α} {key : κ} {a : α} :
    (key, a) ∈ m.entries ↔ m.get? key = some a :=
  Table.mem_iff_get?_eq_some m.ascending.nodup_keys

omit [Std.LawfulEqOrd κ] [DecidableEq κ] in
theorem eq_empty_of_isEmpty {m : SortedMap κ α} (h : m.isEmpty = true) : m = empty := by
  obtain ⟨entries, ascending⟩ := m
  obtain rfl : entries = [] := List.isEmpty_iff.1 h
  rfl

end SortedMap

/-! ## Putting in and taking out again -/

namespace SortedMap

variable {κ α : Type} [Ord κ] [Std.LawfulEqOrd κ] [Std.TransOrd κ] [DecidableEq κ]

/-- Of two values given to a key the later one stays. -/
theorem insert_insert (m : SortedMap κ α) (key : κ) (a b : α) :
    (m.insert key a).insert key b = m.insert key b :=
  ext fun other => by simp only [get?_insert]; split <;> rfl

/-- Giving a key the value that it has changes nothing. -/
theorem insert_eq_self {m : SortedMap κ α} {key : κ} {a : α} (h : m.get? key = some a) :
    m.insert key a = m := by
  refine ext fun other => ?_
  rw [get?_insert]
  split
  next same => rw [same, h]
  next => rfl

/-- **What is put under a key that was not in use can be taken out again.** -/
theorem erase_insert {m : SortedMap κ α} {key : κ} (absent : m.get? key = none) (a : α) :
    (m.insert key a).erase key = m := by
  refine ext fun other => ?_
  rw [get?_erase, get?_insert]
  split
  next same => rw [same, absent]
  next => rfl

end SortedMap

/-- In a table in key order, what is put under a key that was not in use can be
taken out again. -/
theorem Table.Ascending.erase_place {κ α : Type} [Ord κ] [Std.LawfulEqOrd κ] [Std.TransOrd κ]
    [DecidableEq κ] {t : Table κ α} (ascending : Ascending t) {key : κ}
    (absent : get? t key = none) (a : α) : erase (Table.place t key a) key = t :=
  congrArg SortedMap.entries (SortedMap.erase_insert (m := ⟨t, ascending⟩) absent a)

/-! ## Sets as lists of elements -/

namespace SortedMap

variable {κ α : Type} [Ord κ] [Std.LawfulEqOrd κ] [Std.TransOrd κ] [DecidableEq κ]

theorem contains_insert_iff (m : SortedMap κ α) (key other : κ) (a : α) :
    (m.insert key a).contains other = true ↔ other = key ∨ m.contains other = true := by
  unfold contains
  rw [get?_insert]
  by_cases h : other = key <;> simp [h]

omit [Std.LawfulEqOrd κ] [Std.TransOrd κ] in
theorem mem_keys_iff {m : SortedMap κ α} {key : κ} : key ∈ m.keys ↔ m.contains key = true :=
  (Table.contains_iff_mem_keys m.entries key).symm

end SortedMap

namespace SortedSet

variable {κ : Type} [Ord κ] [Std.LawfulEqOrd κ] [Std.TransOrd κ] [DecidableEq κ]

/-- The set of a list holds the elements of the list. -/
theorem contains_ofList_iff {elements : List κ} {x : κ} :
    (ofList elements).contains x = true ↔ x ∈ elements := by
  have added (m : SortedSet κ) :
      ((elements.map fun y => (y, ())).foldl (fun m e => m.insert e.1 e.2) m).contains x = true
        ↔ m.contains x = true ∨ x ∈ elements := by
    induction elements generalizing m with
    | nil => simp
    | cons y elements ih =>
      rw [List.map_cons, List.foldl_cons, ih, SortedMap.contains_insert_iff, List.mem_cons]
      tauto
  exact (added SortedMap.empty).trans (or_iff_right (by simp [SortedMap.contains]))

/-- **Sets with the same elements are equal.** -/
theorem ext_contains {m n : SortedSet κ}
    (h : ∀ x, m.contains x = true ↔ n.contains x = true) : m = n := by
  refine SortedMap.ext fun x => Option.ext fun u => ?_
  have same := h x
  unfold SortedMap.contains at same
  rw [Option.isSome_iff_exists, Option.isSome_iff_exists] at same
  exact ⟨fun found => (same.1 ⟨u, found⟩).elim fun _ there => there,
    fun found => (same.2 ⟨u, found⟩).elim fun _ there => there⟩

end SortedSet

end Custody
