import Custody.State

/-!
# What an action does

An action run on a state ends in another state and either returns a value or
fails with a fault, and the state it ends in matters in both cases. Two
relations say so, `Returns` and `Fails`, and the lemmas of this module take
them apart: a sequence of actions returns when its first part returns and
the rest returns from there, and it fails when one of the two does. Every
elementary action has its two lemmas, tagged for the simplifier, so that the
run of an operation unfolds into a conjunction about the states it passes
through.

Properties of actions that are closed under sequencing are the subject of
`Custody.Proofs.Conduct`.
-/

namespace Custody

variable {ε σ α β : Type}

/-- The result of an action on a state, and the state it leaves. -/
def outcome (m : ExceptT ε (StateM σ) α) (s : σ) : Except ε α × σ := m.run.run s

/-- **The action returns** `a` from `s` and leaves `t`. -/
def Returns (m : ExceptT ε (StateM σ) α) (s : σ) (a : α) (t : σ) : Prop :=
  outcome m s = (.ok a, t)

/-- **The action fails** with `e` from `s` and leaves `t`. -/
def Fails (m : ExceptT ε (StateM σ) α) (s : σ) (e : ε) (t : σ) : Prop :=
  outcome m s = (.error e, t)

/-- A sequence of computations succeeds when both do. -/
theorem bind_eq_ok_iff {x : Except ε α} {k : α → Except ε β} {b : β} :
    x >>= k = .ok b ↔ ∃ a, x = .ok a ∧ k a = .ok b := by
  constructor
  · intro h
    cases x with
    | error e => cases h
    | ok a => exact ⟨a, rfl, h⟩
  · rintro ⟨a, rfl, h⟩
    exact h

/-! ## The elementary actions -/

section Elementary

variable {m : ExceptT ε (StateM σ) α} {k : α → ExceptT ε (StateM σ) β}
  {s t : σ} {a a' : α} {b : β} {e e' : ε}

/-- An action either returns or fails. -/
theorem returns_or_fails (m : ExceptT ε (StateM σ) α) (s : σ) :
    (∃ a t, Returns m s a t) ∨ ∃ e t, Fails m s e t := by
  rcases h : outcome m s with ⟨_ | _, t⟩
  · exact .inr ⟨_, t, h⟩
  · exact .inl ⟨_, t, h⟩

/-- An action does one thing only. -/
theorem Returns.unique {t' : σ} (h : Returns m s a t) (h' : Returns m s a' t') :
    a = a' ∧ t = t' := by
  have := h.symm.trans h'
  simpa using this

/-- An action fails in one way only. -/
theorem Fails.unique {t' : σ} (h : Fails m s e t) (h' : Fails m s e' t') : e = e' ∧ t = t' := by
  have := h.symm.trans h'
  simpa using this

/-- What returns does not fail. -/
theorem Returns.not_fails {t' : σ} (h : Returns m s a t) : ¬Fails m s e t' := by
  intro h'
  have := h.symm.trans h'
  simp at this

/-- **The outcome of a sequence** is that of its second part, or the failure of
its first. -/
theorem outcome_bind (m : ExceptT ε (StateM σ) α) (k : α → ExceptT ε (StateM σ) β) (s : σ) :
    outcome (m >>= k) s = match outcome m s with
      | (.ok a, t) => outcome (k a) t
      | (.error e, t) => (.error e, t) := by
  show (ExceptT.bindCont k (outcome m s).1).run (outcome m s).2 = _
  rcases outcome m s with ⟨_ | _, t⟩ <;> rfl

/-- What an action makes of its result in the end does not change the state. -/
theorem snd_outcome_report (m : ExceptT ε (StateM σ) α) (f : α → β) (s : σ) :
    (outcome (m >>= fun a => pure (f a)) s).2 = (outcome m s).2 := by
  rw [outcome_bind]
  rcases outcome m s with ⟨_ | _, t⟩ <;> rfl

/-- Catching a failure: the handler goes on from the state it left. -/
theorem outcome_tryCatch (m : ExceptT ε (StateM σ) α) (handler : ε → ExceptT ε (StateM σ) α)
    (s : σ) :
    outcome (tryCatch m handler) s = match outcome m s with
      | (.ok a, t) => (.ok a, t)
      | (.error e, t) => outcome (handler e) t := by
  show ((match (outcome m s).1 with
    | .ok a => pure (Except.ok a)
    | .error e => (handler e).run : StateM σ (Except ε α))).run (outcome m s).2 = _
  rcases outcome m s with ⟨_ | _, t⟩ <;> rfl

/-- Catching a failure hands it on as a result, with the state that it left. -/
theorem outcome_observing (m : ExceptT ε (StateM σ) α) (s : σ) :
    outcome (observing m) s = (.ok (outcome m s).1, (outcome m s).2) := by
  unfold observing
  rw [outcome_tryCatch, outcome_bind]
  rcases outcome m s with ⟨_ | _, t⟩ <;> rfl

/-- An observed action in front of a sequence: the sequence goes on from its
result. -/
theorem outcome_observing_bind (m : ExceptT ε (StateM σ) α)
    (k : Except ε α → ExceptT ε (StateM σ) β) (s : σ) :
    outcome (observing m >>= k) s = outcome (k (outcome m s).1) (outcome m s).2 := by
  rw [outcome_bind, outcome_observing]

/-- A value is given back from the same state. -/
@[simp] theorem returns_pure :
    Returns (pure a : ExceptT ε (StateM σ) α) s a' t ↔ a = a' ∧ s = t := by
  show (Except.ok a, s) = (Except.ok a', t) ↔ _
  rw [Prod.mk.injEq, Except.ok.injEq]

@[simp] theorem not_fails_pure : ¬Fails (pure a : ExceptT ε (StateM σ) α) s e t :=
  returns_pure.2 ⟨rfl, rfl⟩ |>.not_fails

/-- A fault is raised from the same state. -/
@[simp] theorem fails_throw :
    Fails (throw e : ExceptT ε (StateM σ) α) s e' t ↔ e = e' ∧ s = t := by
  show (Except.error e, s) = (Except.error e', t) ↔ _
  rw [Prod.mk.injEq, Except.error.injEq]

@[simp] theorem not_returns_throw : ¬Returns (throw e : ExceptT ε (StateM σ) α) s a t :=
  fun h => h.not_fails (fails_throw.2 ⟨rfl, rfl⟩)

/-- **A sequence returns** when its first part returns and the rest returns from
there. -/
@[simp] theorem returns_bind :
    Returns (m >>= k) s b t ↔ ∃ a u, Returns m s a u ∧ Returns (k a) u b t := by
  unfold Returns
  rw [outcome_bind]
  constructor
  · intro h
    rcases hm : outcome m s with ⟨_ | a, u⟩
    · rw [hm] at h; simp at h
    · rw [hm] at h; exact ⟨a, u, rfl, h⟩
  · rintro ⟨a, u, hm, hk⟩
    rw [hm]
    exact hk

/-- **A sequence fails** when its first part does, or when the rest fails from
where that returned. -/
@[simp] theorem fails_bind :
    Fails (m >>= k) s e t ↔
      Fails m s e t ∨ ∃ a u, Returns m s a u ∧ Fails (k a) u e t := by
  unfold Returns Fails
  rw [outcome_bind]
  constructor
  · intro h
    rcases hm : outcome m s with ⟨e' | a, u⟩
    · rw [hm] at h; exact .inl (by simpa using h)
    · rw [hm] at h; exact .inr ⟨a, u, rfl, h⟩
  · rintro (hm | ⟨a, u, hm, hk⟩)
    · rw [hm]
    · rw [hm]; exact hk

/-- Looking gives the state itself. -/
@[simp] theorem returns_get {x : σ} :
    Returns (get : ExceptT ε (StateM σ) σ) s x t ↔ s = x ∧ s = t := by
  show (Except.ok s, s) = (Except.ok x, t) ↔ _
  rw [Prod.mk.injEq, Except.ok.injEq]

@[simp] theorem not_fails_get : ¬Fails (get : ExceptT ε (StateM σ) σ) s e t :=
  returns_get.2 ⟨rfl, rfl⟩ |>.not_fails

/-- Writing puts the state in place of the old one. -/
@[simp] theorem returns_set {x : σ} {u : PUnit} :
    Returns (set x : ExceptT ε (StateM σ) PUnit) s u t ↔ x = t := by
  show (Except.ok PUnit.unit, x) = (Except.ok u, t) ↔ _
  rw [Prod.mk.injEq, Except.ok.injEq]
  exact and_iff_right rfl

@[simp] theorem not_fails_set {x : σ} : ¬Fails (set x : ExceptT ε (StateM σ) PUnit) s e t :=
  (returns_set (u := ⟨⟩)).2 rfl |>.not_fails

/-- A change is made to the state as it is. -/
@[simp] theorem returns_modify {f : σ → σ} {u : PUnit} :
    Returns (modify f : ExceptT ε (StateM σ) PUnit) s u t ↔ f s = t := by
  show (Except.ok PUnit.unit, f s) = (Except.ok u, t) ↔ _
  rw [Prod.mk.injEq, Except.ok.injEq]
  exact and_iff_right rfl

@[simp] theorem not_fails_modify {f : σ → σ} :
    ¬Fails (modify f : ExceptT ε (StateM σ) PUnit) s e t :=
  (returns_modify (u := ⟨⟩)).2 rfl |>.not_fails

/-- A change of state in front of a sequence: the sequence goes on from the
state it makes. -/
theorem outcome_modify_bind (f : σ → σ) (k : PUnit → ExceptT ε (StateM σ) β) (s : σ) :
    outcome (modify f >>= k) s = outcome (k ⟨⟩) (f s) := rfl

/-- What is taken out of a state comes with the state that remains. -/
@[simp] theorem returns_modifyGet {f : σ → α × σ} :
    Returns (modifyGet f : ExceptT ε (StateM σ) α) s a t ↔ f s = (a, t) := by
  show (Except.ok (f s).1, (f s).2) = (Except.ok a, t) ↔ _
  rw [Prod.mk.injEq, Except.ok.injEq, Prod.ext_iff]

@[simp] theorem not_fails_modifyGet {f : σ → α × σ} :
    ¬Fails (modifyGet f : ExceptT ε (StateM σ) α) s e t :=
  returns_modifyGet.2 rfl |>.not_fails

/-- A result that was computed is given back if it is one, -/
@[simp] theorem returns_ofExcept {x : Except ε α} :
    Returns (ofExcept x : ExceptT ε (StateM σ) α) s a t ↔ x = .ok a ∧ s = t := by
  cases x with
  | ok b => exact returns_pure.trans (by rw [Except.ok.injEq])
  | error e => exact iff_of_false not_returns_throw (fun h => nomatch h.1)

/-- and raised if it is a fault. -/
@[simp] theorem fails_ofExcept {x : Except ε α} :
    Fails (ofExcept x : ExceptT ε (StateM σ) α) s e t ↔ x = .error e ∧ s = t := by
  cases x with
  | ok b => exact iff_of_false not_fails_pure (fun h => nomatch h.1)
  | error e' => exact fails_throw.trans (by rw [Except.error.injEq])

/-- What is caught is the whole outcome. -/
@[simp] theorem returns_observing {r : Except ε α} :
    Returns (observing m) s r t ↔ outcome m s = (r, t) := by
  unfold Returns
  rw [outcome_observing, Prod.mk.injEq, Except.ok.injEq, Prod.ext_iff]

/-- What is caught does not fail any more. -/
@[simp] theorem not_fails_observing : ¬Fails (observing m) s e t :=
  returns_observing.2 rfl |>.not_fails

end Elementary

/-! ## The same, in front of a sequence

Most elementary actions return in one way only, and the sequence behind them
goes on from there. -/

section Sequenced

variable {s t : σ} {b : β} {e : ε}

/-- After a look the rest goes on with the state, -/
@[simp] theorem returns_get_bind {k : σ → ExceptT ε (StateM σ) β} :
    Returns (get >>= k) s b t ↔ Returns (k s) s b t := by
  rw [returns_bind]
  exact ⟨fun ⟨_, _, h, hk⟩ => by obtain ⟨rfl, rfl⟩ := returns_get.1 h; exact hk,
    fun hk => ⟨s, s, returns_get.2 ⟨rfl, rfl⟩, hk⟩⟩

/-- and fails with it; -/
@[simp] theorem fails_get_bind {k : σ → ExceptT ε (StateM σ) β} :
    Fails (get >>= k) s e t ↔ Fails (k s) s e t := by
  rw [fails_bind, or_iff_right not_fails_get]
  exact ⟨fun ⟨_, _, h, hk⟩ => by obtain ⟨rfl, rfl⟩ := returns_get.1 h; exact hk,
    fun hk => ⟨s, s, returns_get.2 ⟨rfl, rfl⟩, hk⟩⟩

/-- after a change it goes on from the new one, -/
@[simp] theorem returns_modify_bind {f : σ → σ} {k : PUnit → ExceptT ε (StateM σ) β} :
    Returns (modify f >>= k) s b t ↔ Returns (k ⟨⟩) (f s) b t := by
  rw [returns_bind]
  exact ⟨fun ⟨_, _, h, hk⟩ => returns_modify.1 h ▸ hk,
    fun hk => ⟨⟨⟩, f s, returns_modify.2 rfl, hk⟩⟩

/-- and fails from there. -/
@[simp] theorem fails_modify_bind {f : σ → σ} {k : PUnit → ExceptT ε (StateM σ) β} :
    Fails (modify f >>= k) s e t ↔ Fails (k ⟨⟩) (f s) e t := by
  rw [fails_bind, or_iff_right not_fails_modify]
  exact ⟨fun ⟨_, _, h, hk⟩ => returns_modify.1 h ▸ hk,
    fun hk => ⟨⟨⟩, f s, returns_modify.2 rfl, hk⟩⟩

/-- After a computation the rest goes on with its result. -/
@[simp] theorem returns_ofExcept_bind {x : Except ε α} {k : α → ExceptT ε (StateM σ) β} :
    Returns (ofExcept x >>= k) s b t ↔ ∃ a, x = .ok a ∧ Returns (k a) s b t := by
  rw [returns_bind]
  exact ⟨fun ⟨a, _, h, hk⟩ => by obtain ⟨hx, rfl⟩ := returns_ofExcept.1 h; exact ⟨a, hx, hk⟩,
    fun ⟨a, hx, hk⟩ => ⟨a, s, returns_ofExcept.2 ⟨hx, rfl⟩, hk⟩⟩

/-- After a failure was caught the rest goes on from the state that it left, -/
@[simp] theorem returns_observing_bind {m : ExceptT ε (StateM σ) α}
    {k : Except ε α → ExceptT ε (StateM σ) β} :
    Returns (observing m >>= k) s b t ↔ Returns (k (outcome m s).1) (outcome m s).2 b t := by
  rw [returns_bind]
  exact ⟨fun ⟨r, u, h, hk⟩ => by rw [returns_observing.1 h]; exact hk,
    fun hk => ⟨_, _, returns_observing.2 rfl, hk⟩⟩

/-- and fails from there. -/
@[simp] theorem fails_observing_bind {m : ExceptT ε (StateM σ) α}
    {k : Except ε α → ExceptT ε (StateM σ) β} :
    Fails (observing m >>= k) s e t ↔ Fails (k (outcome m s).1) (outcome m s).2 e t := by
  rw [fails_bind, or_iff_right not_fails_observing]
  exact ⟨fun ⟨r, u, h, hk⟩ => by rw [returns_observing.1 h]; exact hk,
    fun hk => ⟨_, _, returns_observing.2 rfl, hk⟩⟩

/-- A refusal in front of a sequence: it returns when the refusal does not
apply and the sequence does. -/
@[simp] theorem returns_refusal_bind {γ : Type} {c : Prop} [Decidable c]
    {j : γ → ExceptT ε (StateM σ) β} {k : ExceptT ε (StateM σ) β} :
    Returns (if c then throw e >>= j else k) s b t ↔ ¬c ∧ Returns k s b t := by
  by_cases h : c
  · rw [if_pos h]
    refine iff_of_false (fun h' => ?_) (fun h' => h'.1 h)
    obtain ⟨_, _, h', -⟩ := returns_bind.1 h'
    exact not_returns_throw h'
  · rw [if_neg h]; exact (and_iff_right h).symm

end Sequenced

/-! ## Loops -/

section Loops

variable {γ : Type} {f : γ → ExceptT ε (StateM σ) PUnit} {s t : σ} {e : ε}

/-- A loop over two lists is a loop over the one and then over the other. -/
theorem returns_forM_append {xs ys : List γ} :
    Returns ((xs ++ ys).forM f) s ⟨⟩ t
      ↔ ∃ u, Returns (xs.forM f) s ⟨⟩ u ∧ Returns (ys.forM f) u ⟨⟩ t := by
  induction xs generalizing s with
  | nil =>
    refine ⟨fun h => ⟨s, returns_pure.2 ⟨rfl, rfl⟩, h⟩, ?_⟩
    rintro ⟨u, h, h'⟩
    obtain ⟨-, rfl⟩ := returns_pure.1 h
    exact h'
  | cons x xs ih =>
    refine returns_bind.trans ⟨?_, ?_⟩
    · rintro ⟨_, w, first, others⟩
      obtain ⟨u, h, h'⟩ := ih.1 others
      exact ⟨u, returns_bind.2 ⟨⟨⟩, w, first, h⟩, h'⟩
    · rintro ⟨u, h, h'⟩
      obtain ⟨_, w, first, others⟩ := returns_bind.1 h
      exact ⟨⟨⟩, w, first, ih.2 ⟨u, others, h'⟩⟩

/-- **A loop fails** in one of its rounds, after the rounds before it. -/
theorem exists_of_fails_forM {xs : List γ} (h : Fails (xs.forM f) s e t) :
    ∃ before x after u, xs = before ++ x :: after ∧ Returns (before.forM f) s ⟨⟩ u
      ∧ Fails (f x) u e t := by
  induction xs generalizing s with
  | nil => exact (not_fails_pure h).elim
  | cons x xs ih =>
    rcases fails_bind.1 h with h | ⟨_, w, first, h⟩
    · exact ⟨[], x, xs, s, rfl, returns_pure.2 ⟨rfl, rfl⟩, h⟩
    · obtain ⟨before, y, after, u, rfl, others, failed⟩ := ih h
      exact ⟨x :: before, y, after, u, rfl, returns_bind.2 ⟨⟨⟩, w, first, others⟩, failed⟩

end Loops

end Custody
