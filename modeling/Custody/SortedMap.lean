import Custody.Table

/-!
# Maps and sets sorted by key

A `SortedMap` is a table together with the proof that its keys strictly
ascend, so its entries are a function of its lookups: `SortedMap.ext` says
that two maps that answer every lookup alike are equal. Ledgers and account
storage are compared, saved and restored whole, and this is what makes
"exactly as before" an equation.
-/

namespace Custody

/-- **A map in key order**, with at most one entry per key. -/
structure SortedMap (κ α : Type) [Ord κ] where
  /-- The entries, by ascending key. -/
  entries : Table κ α
  /-- Every key is less than the keys after it. -/
  ascending : Table.Ascending entries

namespace SortedMap

variable {κ α : Type} [Ord κ]

/-- The map without entries. -/
def empty : SortedMap κ α := ⟨[], Table.ascending_nil⟩

instance : EmptyCollection (SortedMap κ α) := ⟨empty⟩

instance : Inhabited (SortedMap κ α) := ⟨empty⟩

/-- The keys in use, ascending. -/
def keys (m : SortedMap κ α) : List κ := Table.keys m.entries

/-- The number of entries. -/
def size (m : SortedMap κ α) : Nat := m.entries.length

/-- Whether the map has no entry. -/
def isEmpty (m : SortedMap κ α) : Bool := m.entries.isEmpty

/-- Keeps the entries that pass the test. -/
def filter (m : SortedMap κ α) (p : κ → α → Bool) : SortedMap κ α :=
  ⟨m.entries.filter fun entry => p entry.1 entry.2, m.ascending.filter _⟩

section Update

variable [Std.LawfulEqOrd κ] [Std.TransOrd κ]

/-- Gives `key` the value `a`. -/
def insert (m : SortedMap κ α) (key : κ) (a : α) : SortedMap κ α :=
  ⟨Table.place m.entries key a, m.ascending.place key a⟩

/-- The map of a list of assignments, the last one for a key deciding. -/
def ofList (assignments : List (κ × α)) : SortedMap κ α :=
  assignments.foldl (fun m entry => m.insert entry.1 entry.2) empty

end Update

variable [DecidableEq κ]

/-- The value of a key. -/
def get? (m : SortedMap κ α) (key : κ) : Option α := Table.get? m.entries key

/-- Whether the key is in use. -/
def contains (m : SortedMap κ α) (key : κ) : Bool := (m.get? key).isSome

/-- Drops the entry of a key. -/
def erase (m : SortedMap κ α) (key : κ) : SortedMap κ α :=
  ⟨Table.erase m.entries key, m.ascending.filter _⟩

instance [DecidableEq α] : DecidableEq (SortedMap κ α) := fun m n =>
  decidable_of_iff (m.entries = n.entries)
    ⟨fun h => by cases m; cases n; simpa using h, fun h => h ▸ rfl⟩

/-- The empty map has no entries. -/
@[simp] theorem get?_empty (key : κ) : (empty : SortedMap κ α).get? key = none := rfl

/-- Erasing a key takes away its entry and no other. -/
@[simp] theorem get?_erase (m : SortedMap κ α) (key other : κ) :
    (m.erase key).get? other = if other = key then none else m.get? other :=
  Table.get?_erase m.entries key other

variable [Std.LawfulEqOrd κ] [Std.TransOrd κ]

/-- Inserting at a key changes its entry and no other. -/
theorem get?_insert (m : SortedMap κ α) (key other : κ) (a : α) :
    (m.insert key a).get? other = if other = key then some a else m.get? other :=
  Table.get?_place m.entries key other a

/-- What was inserted last is found at its key. -/
@[simp] theorem get?_insert_self (m : SortedMap κ α) (key : κ) (a : α) :
    (m.insert key a).get? key = some a := by
  simp [get?_insert]

omit [Std.TransOrd κ] in
/-- A filtered map has the entries that pass the test. -/
theorem get?_filter (m : SortedMap κ α) (p : κ → α → Bool) (key : κ) :
    (m.filter p).get? key = (m.get? key).filter (p key) := by
  obtain ⟨entries, ascending⟩ := m
  simp only [get?, filter]
  induction entries with
  | nil => rfl
  | cons head t ih =>
    obtain ⟨k, a⟩ := head
    have tail := ih (List.Pairwise.of_cons ascending)
    have above : ∀ x ∈ t, compare k x.1 = .lt :=
      fun x hx => List.rel_of_pairwise_cons ascending hx
    by_cases hk : key = k
    · subst hk
      cases hp : p key a
      · rw [Table.get?_eq_none_of_lt above] at tail
        simpa [hp, Table.get?_cons, Option.filter] using tail
      · simp [hp, Table.get?_cons, Option.filter]
    · cases hp : p k a <;> simpa [hp, hk, Table.get?_cons] using tail

/-- **Maps that answer alike are equal.** -/
theorem ext {m n : SortedMap κ α} (h : ∀ key, m.get? key = n.get? key) : m = n := by
  obtain ⟨s, hs⟩ := m
  obtain ⟨t, ht⟩ := n
  obtain rfl : s = t := hs.ext ht h
  rfl

end SortedMap

/-- **A set in ascending order**: a map that says nothing about its keys. -/
abbrev SortedSet (κ : Type) [Ord κ] := SortedMap κ Unit

namespace SortedSet

variable {κ : Type} [Ord κ] [Std.LawfulEqOrd κ] [Std.TransOrd κ]

/-- The set of the elements of a list. -/
def ofList (elements : List κ) : SortedSet κ :=
  SortedMap.ofList (elements.map fun x => (x, ()))

end SortedSet

end Custody
