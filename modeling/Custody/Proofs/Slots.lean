import Custody.Proofs.Deeds

/-!
# What it takes to save and to load

A value is saved or loaded exactly if every check of the call lets it through and the
ledger goes along; what the call then leaves behind is the same in every case. This
module says so once for each of the two, and whatever is proved of a save or a load
that returned, or of one that is bound to return, follows from that.
-/

namespace Custody

open CustodyM

variable {s t : State} {address : Address} {path : Path} {v : Value} {expected : Ty}

/-- Authority is required: the state has it, or the call goes no further. -/
theorem CustodyM.returns_requireAuthority_iff :
    Returns (requireAuthority address) s () t ↔ s.Authorizes address ∧ s = t := by
  constructor
  · intro h
    exact ⟨authorizes_of_requireAuthority h, (keeps_requireAuthority (R := Eq)).of_returns h⟩
  · rintro ⟨⟨tx, running, signed⟩, rfl⟩
    refine returns_bind.2 ⟨tx, s, returns_requireTransaction.2 ⟨running, rfl⟩, ?_⟩
    rw [returns_get_bind]
    cases enforced : s.settings.enforceAuthority with
    | false => exact returns_pure.2 ⟨rfl, rfl⟩
    | true =>
      rw [signed enforced]
      exact returns_pure.2 ⟨rfl, rfl⟩

namespace Storage

/-- A path is checked for authority and for its domain. -/
theorem returns_checkPath_iff :
    Returns (checkPath address path) s () t
      ↔ (s.Authorizes address ∧ path.domain.holdsValues = true) ∧ s = t := by
  constructor
  · exact fun h => ⟨admits_of_checkPath h, (keeps_checkPath (R := Eq)).of_returns h⟩
  · rintro ⟨⟨may, values⟩, rfl⟩
    refine returns_bind.2 ⟨(), s, returns_requireAuthority_iff.2 ⟨may, rfl⟩, ?_⟩
    rw [values]
    exact returns_pure.2 ⟨rfl, rfl⟩

/-- A value is checked for its type. -/
theorem returns_checkTy_iff :
    Returns (checkTy address path v expected) s () t
      ↔ s.registry.isSubtype v.ty expected = true ∧ s = t := by
  unfold checkTy
  rw [returns_get_bind]
  cases s.registry.isSubtype v.ty expected <;> simp

/-- A value is checked for what cannot be stored. -/
theorem returns_ensureStorable_iff :
    Returns (ensureStorable v) s () t ↔ v.isStorable = true ∧ s = t := by
  unfold ensureStorable
  cases v.isStorable <;> simp

/-- **What it takes to save a value**, and what it does. -/
theorem returns_save_iff :
    Returns (save address path v) s () t
      ↔ (s.Authorizes address ∧ path.domain.holdsValues = true) ∧ v.isStorable = true
        ∧ s.store.contains address path = false
        ∧ ∃ l, Returns (Ledger.settleValue v (.stored address path)) s.ledger () l
          ∧ t = { s with ledger := l, store := s.store.insert address path (.value v) } := by
  unfold save
  rw [returns_guarded]
  constructor
  · intro h
    obtain ⟨_, u, checked, h⟩ := returns_bind.1 h
    obtain ⟨may, rfl⟩ := returns_checkPath_iff.1 checked
    obtain ⟨_, u, ensured, h⟩ := returns_bind.1 h
    obtain ⟨storable, rfl⟩ := returns_ensureStorable_iff.1 ensured
    rw [returns_get_bind] at h
    obtain ⟨free, h⟩ := returns_refusal_bind.1 h
    obtain ⟨_, u, entered, h⟩ := returns_bind.1 h
    obtain ⟨l, settled, rfl⟩ := returns_onLedger.1 entered
    obtain rfl := returns_modify.1 h
    exact ⟨may, storable, Bool.eq_false_iff.2 free, l, settled, rfl⟩
  · rintro ⟨may, storable, free, l, settled, rfl⟩
    refine returns_bind.2 ⟨(), s, returns_checkPath_iff.2 ⟨may, rfl⟩, ?_⟩
    refine returns_bind.2 ⟨(), s, returns_ensureStorable_iff.2 ⟨storable, rfl⟩, ?_⟩
    rw [returns_get_bind]
    refine returns_refusal_bind.2 ⟨Bool.eq_false_iff.1 free, ?_⟩
    exact returns_bind.2 ⟨(), _, returns_onLedger.2 ⟨l, settled, rfl⟩, returns_modify.2 rfl⟩

/-- **What it takes to load**, and what it does: nothing is there, or what is there is
released and its slot cleared. -/
theorem returns_load_iff {loaded : Option Value} :
    Returns (load address path expected) s loaded t
      ↔ (s.Authorizes address ∧ path.domain.holdsValues = true)
        ∧ ((s.store.value? address path = none ∧ loaded = none ∧ t = s)
          ∨ ∃ v, loaded = some v ∧ s.store.value? address path = some v
            ∧ s.registry.isSubtype v.ty expected = true
            ∧ s.loans.isBorrowed (.stored address path) = false
            ∧ ∃ l, Returns (Ledger.releaseValue v (.stored address path)) s.ledger () l
              ∧ t = { s with ledger := l, store := s.store.erase address path }) := by
  unfold load
  rw [returns_guarded]
  constructor
  · intro h
    obtain ⟨_, u, checked, h⟩ := returns_bind.1 h
    obtain ⟨may, rfl⟩ := returns_checkPath_iff.1 checked
    rw [returns_get_bind] at h
    refine ⟨may, ?_⟩
    split at h
    next vacant =>
      obtain ⟨rfl, rfl⟩ := returns_pure.1 h
      exact .inl ⟨vacant, rfl, rfl⟩
    next v found =>
      obtain ⟨_, u, typed, h⟩ := returns_bind.1 h
      obtain ⟨fits, rfl⟩ := returns_checkTy_iff.1 typed
      obtain ⟨_, u, ensured, h⟩ := returns_bind.1 h
      obtain ⟨free, rfl⟩ := returns_ensureNotBorrowed.1 ensured
      obtain ⟨_, u, entered, h⟩ := returns_bind.1 h
      obtain ⟨l, released, rfl⟩ := returns_onLedger.1 entered
      rw [returns_modify_bind] at h
      obtain ⟨rfl, rfl⟩ := returns_pure.1 h
      exact .inr ⟨v, rfl, found, fits, free, l, released, rfl⟩
  · rintro ⟨may, there⟩
    refine returns_bind.2 ⟨(), s, returns_checkPath_iff.2 ⟨may, rfl⟩, returns_get_bind.2 ?_⟩
    obtain ⟨vacant, rfl, rfl⟩ | ⟨v, rfl, found, fits, free, l, released, rfl⟩ := there
    · rw [vacant]
      exact returns_pure.2 ⟨rfl, rfl⟩
    · rw [found]
      refine returns_bind.2 ⟨(), s, returns_checkTy_iff.2 ⟨fits, rfl⟩, ?_⟩
      refine returns_bind.2 ⟨(), s, returns_ensureNotBorrowed.2 ⟨free, rfl⟩, ?_⟩
      refine returns_bind.2 ⟨(), _, returns_onLedger.2 ⟨l, released, rfl⟩, ?_⟩
      exact returns_modify_bind.2 (returns_pure.2 ⟨rfl, rfl⟩)

/-- **What it takes to load a value.** -/
theorem returns_load_some_iff :
    Returns (load address path expected) s (some v) t
      ↔ (s.Authorizes address ∧ path.domain.holdsValues = true)
        ∧ s.store.value? address path = some v ∧ s.registry.isSubtype v.ty expected = true
        ∧ s.loans.isBorrowed (.stored address path) = false
        ∧ ∃ l, Returns (Ledger.releaseValue v (.stored address path)) s.ledger () l
          ∧ t = { s with ledger := l, store := s.store.erase address path } := by
  rw [returns_load_iff]
  refine and_congr_right fun _ => ⟨?_, fun given => .inr ⟨v, rfl, given⟩⟩
  rintro (⟨-, same, -⟩ | ⟨w, same, given⟩)
  · cases same
  · cases same
    exact given

/-- **What can be loaded at one type** can be loaded, with the same outcome, at exactly
the types that it has. -/
theorem returns_load_at_iff {other : Ty} (loaded : Returns (load address path other) s (some v) t) :
    Returns (load address path expected) s (some v) t
      ↔ s.registry.isSubtype v.ty expected = true := by
  obtain ⟨may, found, -, free, released⟩ := returns_load_some_iff.1 loaded
  rw [returns_load_some_iff]
  exact ⟨fun h => h.2.2.1, fun fits => ⟨may, found, fits, free, released⟩⟩

end Storage

end Custody
