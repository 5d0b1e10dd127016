/-!
# Tables in insertion order, and tables in key order

Two orders of entries can be observed in this library. The fields of a
composite, the locals of a frame and the steps of a teardown plan keep the
order in which their names **first appeared**; dictionaries, ledgers and
account storage keep the order of their **keys**. Both are lists of pairs,
and both are read by the same `Table.get?`; they differ only in where a new
key is put, at the end (`Table.put`) or at its rank (`Table.place`).

The lemmas of this module say what each operation does to `get?`, so that
nothing later has to look inside a list of entries.
-/

namespace Custody

/-- **A table**: entries as key–value pairs, at most one per key in the
tables this library builds. -/
abbrev Table (κ α : Type) := List (κ × α)

namespace Table

variable {κ α β : Type}

/-- The keys of a table, in entry order. -/
def keys (t : Table κ α) : List κ := t.map Prod.fst

/-- The values of a table, in entry order. -/
def values (t : Table κ α) : List α := t.map Prod.snd

section Lookup

variable [DecidableEq κ]

/-- The value of the first entry with the given key. -/
def get? : Table κ α → κ → Option α
  | [], _ => none
  | (k, a) :: rest, key => if key = k then some a else get? rest key

/-- Whether some entry has the given key. -/
def contains (t : Table κ α) (key : κ) : Bool := (get? t key).isSome

/-- Gives `key` the value `a`: an existing entry keeps its place, a new one
goes to the end. -/
def put : Table κ α → κ → α → Table κ α
  | [], key, a => [(key, a)]
  | (k, b) :: rest, key, a =>
    if key = k then (key, a) :: rest else (k, b) :: put rest key a

/-- Drops every entry with the given key. -/
def erase (t : Table κ α) (key : κ) : Table κ α :=
  t.filter fun entry => entry.1 ≠ key

/-- The table of a list of assignments made in order: a name keeps the
place of its first assignment and the value of its last. -/
def ofList (assignments : List (κ × α)) : Table κ α :=
  assignments.foldl (fun t entry => put t entry.1 entry.2) []

@[simp] theorem get?_nil (key : κ) : get? ([] : Table κ α) key = none := rfl

/-- The first entry with the key is the one that is found. -/
theorem get?_cons (k : κ) (a : α) (t : Table κ α) (key : κ) :
    get? ((k, a) :: t) key = if key = k then some a else get? t key := rfl

/-- What was put is found, -/
@[simp] theorem get?_put_self (t : Table κ α) (key : κ) (a : α) :
    get? (put t key a) key = some a := by
  induction t with
  | nil => simp [put, get?]
  | cons entry t ih => by_cases h : key = entry.1 <;> simp [put, get?, h, ih]

/-- and all else is found as before. -/
theorem get?_put_of_ne (t : Table κ α) {key other : κ} (a : α)
    (h : other ≠ key) : get? (put t key a) other = get? t other := by
  induction t with
  | nil => simp [put, get?, h]
  | cons entry t ih =>
    by_cases hk : key = entry.1
    · subst hk; simp [put, get?, h]
    · simp [put, get?, hk, ih]

/-- **Looking up after putting.** -/
theorem get?_put (t : Table κ α) (key other : κ) (a : α) :
    get? (put t key a) other = if other = key then some a else get? t other := by
  by_cases h : other = key
  · subst h; simp
  · simp [get?_put_of_ne t a h, h]

/-- **Looking up after erasing.** -/
theorem get?_erase (t : Table κ α) (key other : κ) :
    get? (erase t key) other = if other = key then none else get? t other := by
  induction t with
  | nil => simp [erase]
  | cons entry t ih =>
    obtain ⟨k, a⟩ := entry
    simp only [erase] at ih
    by_cases hk : k = key
    · subst hk
      by_cases ho : other = k <;> simp_all [erase, get?]
    · by_cases ho : other = k
      · subst ho; simp [erase, get?, hk]
      · simpa [erase, get?, hk, ho] using ih

/-- A key is present exactly when it is among the keys. -/
theorem contains_iff_mem_keys (t : Table κ α) (key : κ) :
    contains t key = true ↔ key ∈ keys t := by
  induction t with
  | nil => simp [contains, keys]
  | cons entry t ih =>
    by_cases h : key = entry.1
    · simp [contains, get?, keys, h]
    · simpa [contains, get?, keys, h] using ih

/-- What is found is an entry. -/
theorem mem_of_get?_eq_some {t : Table κ α} {key : κ} {a : α}
    (h : get? t key = some a) : (key, a) ∈ t := by
  induction t with
  | nil => simp at h
  | cons entry t ih =>
    obtain ⟨k, b⟩ := entry
    by_cases hk : key = k
    · simp_all [get?]
    · simp only [get?, hk, if_false] at h
      exact List.mem_cons_of_mem _ (ih h)

end Lookup

section KeyOrder

variable [Ord κ]

/-- Gives `key` the value `a` at its rank: an existing entry is replaced, a
new one goes before the first greater key. -/
def place : Table κ α → κ → α → Table κ α
  | [], key, a => [(key, a)]
  | (k, b) :: rest, key, a =>
    match compare key k with
    | .lt => (key, a) :: (k, b) :: rest
    | .eq => (key, a) :: rest
    | .gt => (k, b) :: place rest key a

/-- The table in key order of a list of assignments, the last one for a key
deciding. -/
def sorted (assignments : List (κ × α)) : Table κ α :=
  assignments.foldl (fun t entry => place t entry.1 entry.2) []

/-- **Keys strictly ascend** along the entries. -/
def Ascending (t : Table κ α) : Prop :=
  t.Pairwise fun a b => compare a.1 b.1 = .lt

/-- Placing adds the entry and none besides. -/
theorem mem_place {t : Table κ α} {key : κ} {a : α} {entry : κ × α}
    (h : entry ∈ place t key a) : entry = (key, a) ∨ entry ∈ t := by
  induction t with
  | nil => simpa [place] using h
  | cons head t ih =>
    obtain ⟨k, b⟩ := head
    simp only [place] at h
    split at h
    · simpa using h
    · rcases List.mem_cons.1 h with h | h
      · exact .inl h
      · exact .inr (List.mem_cons_of_mem _ h)
    · rcases List.mem_cons.1 h with h | h
      · exact .inr (h ▸ List.mem_cons_self)
      · exact (ih h).imp id (List.mem_cons_of_mem _)

theorem ascending_nil : Ascending ([] : Table κ α) := List.Pairwise.nil

/-- A part of an ascending table ascends. -/
theorem Ascending.filter {t : Table κ α} (h : Ascending t) (p : κ × α → Bool) :
    Ascending (t.filter p) := List.Pairwise.filter p h

variable [Std.LawfulEqOrd κ] [DecidableEq κ]

/-- A key below all keys is not found. -/
theorem get?_eq_none_of_lt {t : Table κ α} {key : κ}
    (h : ∀ x ∈ t, compare key x.1 = .lt) : get? t key = none := by
  induction t with
  | nil => rfl
  | cons head t ih =>
    have hne : key ≠ head.1 := by
      rintro rfl
      simpa using h head List.mem_cons_self
    obtain ⟨k, b⟩ := head
    simp only [get?, hne, if_false]
    exact ih fun x hx => h x (List.mem_cons_of_mem _ hx)

/-- **Looking up after placing.** -/
theorem get?_place (t : Table κ α) (key other : κ) (a : α) :
    get? (place t key a) other = if other = key then some a else get? t other := by
  induction t with
  | nil => simp [place, get?]
  | cons head t ih =>
    obtain ⟨k, b⟩ := head
    simp only [place]
    split
    next => simp [get?]
    next heq =>
      obtain rfl : key = k := Std.LawfulEqCmp.eq_of_compare heq
      by_cases h : other = key <;> simp [get?, h]
    next hgt =>
      have hne : key ≠ k := by
        rintro rfl
        simp at hgt
      by_cases h : other = k
      · subst h; simp [get?, Ne.symm hne]
      · simp [get?, h, ih]

variable [Std.TransOrd κ]

omit [DecidableEq κ] in
/-- **Placing keeps a table ascending.** -/
theorem Ascending.place {t : Table κ α} (h : Ascending t) (key : κ) (a : α) :
    Ascending (place t key a) := by
  induction t with
  | nil => exact List.pairwise_singleton _ _
  | cons head t ih =>
    obtain ⟨k, b⟩ := head
    have hhead : ∀ x ∈ t, compare k x.1 = .lt := fun x hx => List.rel_of_pairwise_cons h hx
    have htail : Ascending t := List.Pairwise.of_cons h
    simp only [Table.place]
    split
    next hlt =>
      refine List.Pairwise.cons (fun x hx => ?_) h
      rcases List.mem_cons.1 hx with rfl | hx
      · exact hlt
      · exact Std.TransCmp.lt_trans hlt (hhead x hx)
    next heq =>
      obtain rfl : key = k := Std.LawfulEqCmp.eq_of_compare heq
      exact List.Pairwise.cons hhead htail
    next hgt =>
      refine List.Pairwise.cons (fun x hx => ?_) (ih htail)
      rcases mem_place hx with rfl | hx
      · exact Std.OrientedCmp.lt_of_gt hgt
      · exact hhead x hx

/-- **Lookups determine a table in key order.** -/
theorem Ascending.ext {s t : Table κ α} (hs : Ascending s) (ht : Ascending t)
    (h : ∀ key, get? s key = get? t key) : s = t := by
  induction s generalizing t with
  | nil =>
    cases t with
    | nil => rfl
    | cons head t => simpa [get?] using h head.1
  | cons head s ih =>
    obtain ⟨k, a⟩ := head
    cases t with
    | nil => simpa [get?] using h k
    | cons head' t =>
      obtain ⟨k', a'⟩ := head'
      have hk : ∀ x ∈ s, compare k x.1 = .lt := fun x hx => List.rel_of_pairwise_cons hs hx
      have hk' : ∀ x ∈ t, compare k' x.1 = .lt := fun x hx => List.rel_of_pairwise_cons ht hx
      have key_eq : k = k' := by
        rcases hc : compare k k' with _ | _ | _
        · have hnone : get? ((k', a') :: t) k = none :=
            get?_eq_none_of_lt fun x hx => by
              rcases List.mem_cons.1 hx with rfl | hx
              · exact hc
              · exact Std.TransCmp.lt_trans hc (hk' x hx)
          have := h k
          rw [hnone] at this
          simp [get?] at this
        · exact Std.LawfulEqCmp.eq_of_compare hc
        · have hc' : compare k' k = .lt := Std.OrientedCmp.lt_of_gt hc
          have hnone : get? ((k, a) :: s) k' = none :=
            get?_eq_none_of_lt fun x hx => by
              rcases List.mem_cons.1 hx with rfl | hx
              · exact hc'
              · exact Std.TransCmp.lt_trans hc' (hk x hx)
          have := h k'
          rw [hnone] at this
          simp [get?] at this
      subst key_eq
      obtain rfl : a = a' := by simpa [get?] using h k
      refine congrArg _ (ih (List.Pairwise.of_cons hs) (List.Pairwise.of_cons ht) fun key => ?_)
      by_cases hkey : key = k
      · subst hkey
        rw [get?_eq_none_of_lt hk, get?_eq_none_of_lt hk']
      · simpa [get?, hkey] using h key

end KeyOrder

end Table

end Custody
